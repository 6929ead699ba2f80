import Scriptling.Store.Value
import Scriptling.Proofs.Renaming

namespace Scriptling

/-- What is known of a frame: the scope it was opened for, the frame around it, the class it has as
superclass, and whether names in it are exchanged. -/
structure Label where
  opener : Opener
  parent : FrameId
  heritage : Option ClassId
  exchanged : Bool

/-- What is known of a function: its declaration, the scopes around it, which of them are marked, and
how the scopes inside it are picked. A method that is not bound yet lacks the receiver's frame. -/
structure Typing where
  decl : FunctionDecl
  context : Context
  marks : List Bool
  pick : Opener → Bool
  bound : Bool

/-- What is known of a store's frames, functions and classes while a program runs. Frames and functions
are only added and names only become bound. The global frame has no label. -/
structure World where
  label : FrameId → Option Label
  bound : FrameId → String → Prop
  typing : ClosureId → Option Typing
  classes : Nat

namespace World

structure Grows (w w' : World) : Prop where
  label : ∀ f l, w.label f = some l → w'.label f = some l
  bound : ∀ f name, w.bound f name → w'.bound f name
  typing : ∀ id t, w.typing id = some t → w'.typing id = some t
  classes : w.classes ≤ w'.classes

instance : LE World := ⟨Grows⟩

variable {w w' w'' : World}

theorem le_refl (w : World) : w ≤ w :=
  ⟨fun _ _ h => h, fun _ _ h => h, fun _ _ h => h, Nat.le_refl _⟩

theorem le_trans (h : w ≤ w') (h' : w' ≤ w'') : w ≤ w'' :=
  ⟨fun f l hl => h'.label f l (h.label f l hl), fun f n hn => h'.bound f n (h.bound f n hn),
    fun i t ht => h'.typing i t (h.typing i t ht), Nat.le_trans h.classes h'.classes⟩

def layout (w : World) (f : FrameId) : Option Opener := (w.label f).map Label.opener

def heritage (w : World) (f : FrameId) : Option ClassId := (w.label f).bind Label.heritage

def exchanged (w : World) (f : FrameId) : Bool := ((w.label f).map Label.exchanged).getD false

def openFrame (w : World) (f : FrameId) (l : Label) : World :=
  { w with label := fun g => if g = f then some l else w.label g }

def bind (w : World) (f : FrameId) (name : String) : World :=
  { w with bound := fun g key => (g = f ∧ key = name) ∨ w.bound g key }

def newClosure (w : World) (id : ClosureId) (t : Typing) : World :=
  { w with typing := fun i => if i = id then some t else w.typing i }

def newClass (w : World) : World := { w with classes := w.classes + 1 }

theorem le_openFrame {f : FrameId} (h : w.label f = none) (l : Label) : w ≤ w.openFrame f l := by
  refine ⟨fun g k hk => ?_, fun _ _ h => h, fun _ _ h => h, Nat.le_refl _⟩
  have hne : g ≠ f := by
    rintro rfl
    rw [h] at hk
    cases hk
  simp [openFrame, hne, hk]

theorem le_bind (w : World) (f : FrameId) (name : String) : w ≤ w.bind f name :=
  ⟨fun _ _ h => h, fun _ _ h => .inr h, fun _ _ h => h, Nat.le_refl _⟩

theorem le_newClosure {id : ClosureId} (h : w.typing id = none) (t : Typing) :
    w ≤ w.newClosure id t := by
  refine ⟨fun _ _ h => h, fun _ _ h => h, fun i k hk => ?_, Nat.le_refl _⟩
  have hne : i ≠ id := by
    rintro rfl
    rw [h] at hk
    cases hk
  simp [newClosure, hne, hk]

theorem le_newClass (w : World) : w ≤ w.newClass :=
  ⟨fun _ _ h => h, fun _ _ h => h, fun _ _ h => h, Nat.le_succ _⟩

@[simp] theorem label_openFrame (w : World) (f : FrameId) (l : Label) :
    (w.openFrame f l).label f = some l := by simp [openFrame]

/-- The frame that was opened has the new label, every other frame the one it had. -/
theorem label_openFrame_cases {f g : FrameId} {l k : Label}
    (h : (w.openFrame f l).label g = some k) : (g = f ∧ k = l) ∨ (g ≠ f ∧ w.label g = some k) := by
  simp only [openFrame] at h
  split at h
  · cases h
    exact .inl ⟨‹_›, rfl⟩
  · exact .inr ⟨‹_›, h⟩

@[simp] theorem typing_newClosure (w : World) (id : ClosureId) (t : Typing) :
    (w.newClosure id t).typing id = some t := by simp [newClosure]

theorem layout_of_label {f : FrameId} {l : Label} (h : w.label f = some l) :
    w.layout f = some l.opener := by simp [layout, h]

theorem bound_bind (w : World) (f : FrameId) (name : String) : (w.bind f name).bound f name :=
  .inl ⟨rfl, rfl⟩

end World

/-- Functions that are values can be called, and classes are known. -/
def Value.Known (w : World) : Value → Prop
  | .closure id => ∃ t, w.typing id = some t ∧ t.bound = true
  | .classRef c => c < w.classes
  | _ => True

theorem Value.Known.mono {w w' : World} {v : Value} (h : v.Known w) (hw : w ≤ w') : v.Known w' := by
  cases v with
  | closure id =>
    obtain ⟨t, ht, hb⟩ := h
    exact ⟨t, hw.typing id t ht, hb⟩
  | classRef c => exact Nat.lt_of_lt_of_le h hw.classes
  | _ => exact h

theorem Value.known_ofLiteral (w : World) (l : Literal) : (Value.ofLiteral l).Known w := by
  cases l <;> trivial

/-- The frames from one on are those of the given scopes, and the names defined in the scopes are
bound in them. -/
inductive World.Chain (w : World) : FrameId → Context → List Bool → Prop
  | globals : Chain w .globals [] []
  | inside {f : FrameId} {l : Label} {layer : Layer} {Γ : Context} {marks : List Bool} :
      w.label f = some l → l.opener = layer.opener →
      (∀ name, layer.names.get? name = some true → w.bound f name) →
      Chain w l.parent Γ marks → Chain w f (layer :: Γ) (l.exchanged :: marks)

namespace World.Chain

variable {w w' : World} {f : FrameId} {Γ : Context} {marks : List Bool}

theorem mono (h : w.Chain f Γ marks) (hw : w ≤ w') : w'.Chain f Γ marks := by
  induction h with
  | globals => exact .globals
  | inside hl ho hn _ ih =>
    exact .inside (hw.label _ _ hl) ho (fun name h => hw.bound _ _ (hn name h)) ih

/-- A scope that was just opened. -/
theorem fresh {l : Label} (hl : w.label f = some l) (h : w.Chain l.parent Γ marks) :
    w.Chain f (⟨l.opener, []⟩ :: Γ) (l.exchanged :: marks) :=
  .inside hl rfl (fun _ h => by cases h) h

theorem mark_false (h : w.Chain f Γ marks) (name : String) :
    w.Chain f (Γ.mark name false) marks := by
  cases h with
  | globals => exact .globals
  | @inside _ _ layer _ _ hl ho hn h =>
    refine .inside hl ho (fun key hk => hn key ?_) h
    by_cases hkey : name = key
    · simp [hkey] at hk
    · simpa [hkey] using hk

theorem mark_true (h : w.Chain f Γ marks) {name : String} (hb : w.bound f name) :
    w.Chain f (Γ.mark name true) marks := by
  cases h with
  | globals => exact .globals
  | @inside _ _ layer _ _ hl ho hn h =>
    refine .inside hl ho (fun key hk => ?_) h
    by_cases hkey : name = key
    · exact hkey ▸ hb
    · exact hn key (by simpa [hkey] using hk)

theorem enter (h : w.Chain f Γ marks) {name : String} (hb : w.bound f name) :
    w.Chain f (Γ.enter name) marks := (h.mark_false name).mark_true hb

theorem exchanged_eq (h : w.Chain f Γ marks) (hg : w.label .globals = none) :
    w.exchanged f = marks.headD false := by
  cases h with
  | globals => simp [World.exchanged, hg]
  | inside hl => simp [World.exchanged, hl]

end World.Chain

end Scriptling
