import Scriptling.Store.Property
import Scriptling.Proofs.World

namespace Scriptling

def World.Methods (w : World) (table : Table ClosureId) : Prop :=
  ∀ name id, table.get? name = some id → ∃ t, w.typing id = some t ∧ t.bound = false

structure World.Recorded (w : World) (c : ClassId) (r : ClassRecord) : Prop where
  superclass : ∀ p, r.superclass = some p → p < c
  methods : w.Methods r.methods
  statics : w.Methods r.statics
  fields : ∀ name v, r.fields.get? name = some v → v.Known w

structure World.ClassTwins (w : World) (s s' : Store) : Prop where
  classes : s'.classes = s.classes
  objects : s'.objects = s.objects
  count : w.classes = s.classes.size
  recorded : ∀ c r, s.classes[c]? = some r → w.Recorded c r
  fields : ∀ (o : ObjectId) (object : Object), s.objects[o]? = some object →
    ∀ (name : String) (v : Value), object.fields.get? name = some v → v.Known w

/-- A renaming, and the references of all programs that run. -/
structure Setting extends Renaming where
  sites : Site → Prop

namespace Setting

variable (S : Setting)

def Moves : Prop := S.old ≠ S.new

/-- A reference of a program that was accepted. -/
structure Good (σ : Site) : Prop where
  member : S.sites σ
  noted : S.notes σ.use.id = σ.distance?
  spelled : σ.use.Spelled
  formed : σ.context.Formed
  allowed : σ.Allowed

def Sees (Γ : Context) (us : List Use) : Prop := ∀ u ∈ us, S.Good ⟨Γ, u⟩

def frame (mark : Bool) (f : Frame) : Frame :=
  { f with bindings := f.bindings.relabel (S.image mark) }

/-- A function is of the given type: its references are good inside the scopes around it, and the
frame it was made in is theirs. -/
structure Typed (w : World) (t : Typing) (c : Closure) : Prop where
  decl : c.decl = t.decl
  good : ∀ σ ∈ c.decl.sites t.context, S.Good σ
  proper : c.decl.Proper
  formed : t.context.Formed
  keeps : c.decl.Keeps S.toRenaming t.pick t.marks
  scope : t.bound = true → w.Chain c.scope t.context t.marks
  method : t.bound = false → ∃ declaration Γ marks,
    declaration.Owns c.decl ∧ t.context = ⟨.this declaration, [("this", true)]⟩ :: Γ ∧
      t.marks = false :: marks ∧ w.Chain c.scope Γ marks

/-- Frames with the same values, under names that are exchanged where the world says so. -/
structure FrameTwins (w : World) (s s' : Store) : Prop where
  paired : ∀ f, s'.frames[f]? = s.frames[f]?.map (S.frame (w.exchanged f))
  unborn : ∀ f, s.frames.size ≤ f → w.label f = none
  size_pos : 0 < s.frames.size
  globals : w.label .globals = none
  outermost : s.parent? .globals = none
  parents : ∀ f l, w.label f = some l → s.parent? f = some l.parent
  bound : ∀ f name, w.bound f name → (s.local? f name).isSome
  known : ∀ f name v, s.local? f name = some v → v.Known w
  heritage : ∀ f l c, w.label f = some l → l.heritage = some c →
    s.local? f "super" = some (.classRef c)
  derived : ∀ f l declaration, w.label f = some l → l.opener = .super declaration →
    l.heritage.isSome
  still : ∀ f l, w.label f = some l → l.exchanged = true → S.Moves

structure ClosureTwins (w : World) (s s' : Store) : Prop where
  size : s'.closures.size = s.closures.size
  unborn : ∀ id, s.closures.size ≤ id → w.typing id = none
  paired : ∀ id c, s.closures[id]? = some c → ∃ t, w.typing id = some t ∧ S.Typed w t c ∧
    s'.closures[id]? = some { c with decl := c.decl.rename S.toRenaming t.pick t.marks }
  still : ∀ id t, w.typing id = some t → ¬ S.Moves → t.pick = pickNone ∧ Unmarked t.marks

/-- Stores that differ in exchanged names only. -/
structure Twins (w : World) (s s' : Store) : Prop where
  frames : S.FrameTwins w s s'
  closures : S.ClosureTwins w s s'
  classes : w.ClassTwins s s'

end Setting

variable {S : Setting} {w w' : World} {s s' t t' : Store}

theorem Setting.Typed.mono {ty : Typing} {c : Closure} (h : S.Typed w ty c) (hw : w ≤ w') :
    S.Typed w' ty c := by
  refine ⟨h.decl, h.good, h.proper, h.formed, h.keeps, fun hb => (h.scope hb).mono hw, fun hb => ?_⟩
  obtain ⟨declaration, Γ, marks, howns, hΓ, hm, hc⟩ := h.method hb
  exact ⟨declaration, Γ, marks, howns, hΓ, hm, hc.mono hw⟩

theorem World.Methods.mono {table : Table ClosureId} (h : w.Methods table)
    (hw : w ≤ w') : w'.Methods table := by
  intro name id hid
  obtain ⟨t, ht, hb⟩ := h name id hid
  exact ⟨t, hw.typing id t ht, hb⟩

theorem World.Recorded.mono {c : ClassId} {r : ClassRecord} (h : w.Recorded c r)
    (hw : w ≤ w') : w'.Recorded c r :=
  ⟨h.superclass, h.methods.mono hw, h.statics.mono hw, fun n v hv => (h.fields n v hv).mono hw⟩

theorem Setting.FrameTwins.mono (h : S.FrameTwins w s s') (hw : w ≤ w')
    (hl : w'.label = w.label) (hb : w'.bound = w.bound) (hs : t.frames = s.frames)
    (hs' : t'.frames = s'.frames) : S.FrameTwins w' t t' := by
  obtain ⟨frames, _, _, _⟩ := s
  obtain ⟨frames', _, _, _⟩ := s'
  obtain ⟨_, _, _, _⟩ := t
  obtain ⟨_, _, _, _⟩ := t'
  cases hs
  cases hs'
  have hx : w'.exchanged = w.exchanged := by
    funext f
    rw [World.exchanged, World.exchanged, hl]
  refine ⟨fun f => hx ▸ h.paired f, fun f hf => hl ▸ h.unborn f hf, h.size_pos, hl ▸ h.globals,
    h.outermost, fun f l hf => h.parents f l (hl ▸ hf), fun f n hn => h.bound f n (hb ▸ hn),
    fun f n v hv => (h.known f n v hv).mono hw, fun f l c hf => h.heritage f l c (hl ▸ hf),
    fun f l d hf => h.derived f l d (hl ▸ hf), fun f l hf => h.still f l (hl ▸ hf)⟩

theorem Setting.ClosureTwins.mono (h : S.ClosureTwins w s s') (hw : w ≤ w')
    (ht : w'.typing = w.typing) (hs : t.closures = s.closures) (hs' : t'.closures = s'.closures) :
    S.ClosureTwins w' t t' := by
  refine ⟨by rw [hs, hs', h.size], fun id hid => ?_, fun id c hc => ?_, fun id k hk => ?_⟩
  · rw [ht]
    exact h.unborn id (hs ▸ hid)
  · obtain ⟨k, hk, hty, hc'⟩ := h.paired id c (hs ▸ hc)
    exact ⟨k, hw.typing id k hk, hty.mono hw, hs' ▸ hc'⟩
  · exact h.still id k (ht ▸ hk)

theorem World.ClassTwins.mono (h : w.ClassTwins s s') (hw : w ≤ w')
    (hc : w'.classes = w.classes) (hs : t.classes = s.classes) (hs' : t'.classes = s'.classes)
    (ho : t.objects = s.objects) (ho' : t'.objects = s'.objects) : w'.ClassTwins t t' := by
  refine ⟨by rw [hs, hs', h.classes], by rw [ho, ho', h.objects], by rw [hc, hs, h.count],
    fun c r hr => (h.recorded c r (hs ▸ hr)).mono hw,
    fun o ob hob n v hv => (h.fields o ob (ho ▸ hob) n v hv).mono hw⟩

namespace Setting.FrameTwins

variable (h : S.FrameTwins w s s')
include h

theorem size_eq : s'.frames.size = s.frames.size := by
  have hiff : ∀ n, n < s'.frames.size ↔ n < s.frames.size := by
    intro n
    have hp := h.paired n
    constructor
    · intro hn
      by_contra hge
      rw [Array.getElem?_eq_none (Nat.le_of_not_lt hge), Array.getElem?_eq_getElem hn] at hp
      cases hp
    · intro hn
      by_contra hge
      rw [Array.getElem?_eq_none (Nat.le_of_not_lt hge), Array.getElem?_eq_getElem hn] at hp
      cases hp
  have h₁ := hiff s.frames.size
  have h₂ := hiff s'.frames.size
  omega

theorem local?_eq (f : FrameId) (name : String) :
    s'.local? f (S.image (w.exchanged f) name) = s.local? f name := by
  rw [Store.local?, Store.local?, h.paired f]
  cases s.frames[f]? with
  | none => rfl
  | some frame => exact Table.get?_relabel (S.image_injective _) _ _

theorem parent?_eq (f : FrameId) : s'.parent? f = s.parent? f := by
  rw [Store.parent?, Store.parent?, h.paired f]
  cases s.frames[f]? <;> rfl

theorem ancestor?_eq (d : Nat) (f : FrameId) : s'.ancestor? f d = s.ancestor? f d := by
  induction d generalizing f with
  | zero => simp only [Store.ancestor?, h.size_eq]
  | succ d ih => simp only [Store.ancestor?, h.parent?_eq, ih]

theorem lt_size {f : FrameId} {l : Label} (hl : w.label f = some l) : f < s.frames.size := by
  by_contra hge
  rw [h.unborn f (Nat.le_of_not_lt hge)] at hl
  cases hl

theorem chain_lt {f : FrameId} {Γ : Context} {marks : List Bool} (hc : w.Chain f Γ marks) :
    f < s.frames.size := by
  cases hc with
  | globals => exact h.size_pos
  | inside hl => exact h.lt_size hl

/-- The frame at a distance is the frame of the scope at that distance. -/
theorem ancestor_of_chain {f : FrameId} {Γ : Context} {marks : List Bool}
    (hc : w.Chain f Γ marks) {d : Nat} {layer : Layer} (hd : Γ[d]? = some layer) :
    ∃ g l, s.ancestor? f d = some g ∧ w.label g = some l ∧ l.opener = layer.opener ∧
      marks[d]? = some l.exchanged ∧
      ∀ name, layer.names.get? name = some true → w.bound g name := by
  induction hc generalizing d with
  | globals => simp at hd
  | @inside f l layer' Γ marks hl ho hn _ ih =>
    cases d with
    | zero =>
      cases hd
      exact ⟨f, l, by simp [Store.ancestor?, h.lt_size hl], hl, ho, rfl, hn⟩
    | succ d =>
      obtain ⟨g, k, hg, hk⟩ := ih (by simpa using hd)
      exact ⟨g, k, by simp [Store.ancestor?, h.parents f l hl, hg], hk⟩

end Setting.FrameTwins

/-- The scope in which a name is found has it as defined. -/
theorem Scope.distance?_eq_some {Γ : Context} {name : String} {d : Nat}
    (h : Scope.distance? Γ.scopes name = some d) :
    ∃ layer, Γ[d]? = some layer ∧ layer.names.get? name = some true := by
  rw [Scope.distance?, List.findIdx?_eq_some_iff_getElem] at h
  obtain ⟨hd, hname, -⟩ := h
  have hlen : d < Γ.length := by simpa [Context.scopes] using hd
  refine ⟨Γ[d], List.getElem?_eq_getElem hlen, ?_⟩
  simpa [Context.scopes] using hname

/-- Where a reference finds its variable: in a frame of the right scope that has the name. -/
theorem Setting.FrameTwins.found (h : S.FrameTwins w s s') {f : FrameId} {σ : Site}
    {marks : List Bool} (hc : w.Chain f σ.context marks) {d : Nat} (hd : σ.distance? = some d) :
    ∃ g l layer, σ.context[d]? = some layer ∧ s.ancestor? f d = some g ∧ w.label g = some l ∧
      l.opener = layer.opener ∧ marks[d]? = some l.exchanged ∧
      w.bound g σ.use.name.lexeme := by
  obtain ⟨layer, hlayer, hname⟩ := Scope.distance?_eq_some hd
  obtain ⟨g, l, hg, hl, ho, hm, hb⟩ := h.ancestor_of_chain hc hlayer
  exact ⟨g, l, layer, hlayer, hg, hl, ho, hm, hb _ hname⟩

namespace Setting.Twins

/-- A frame is opened on both sides. Names in it are exchanged as its label says. -/
theorem openFrame (h : S.Twins w s s') (l : Label) (bindings : Table Value)
    (hknown : ∀ name v, bindings.get? name = some v → v.Known w)
    (hheritage : ∀ c, l.heritage = some c → bindings.get? "super" = some (.classRef c))
    (hderived : ∀ declaration, l.opener = .super declaration → l.heritage.isSome)
    (hstill : l.exchanged = true → S.Moves) :
    S.Twins (w.openFrame s.frames.size l) (s.openFrame (some l.parent) bindings).2
      (s'.openFrame (some l.parent) (bindings.relabel (S.image l.exchanged))).2 := by
  have hsize := h.frames.size_eq
  have hnone := h.frames.unborn s.frames.size (Nat.le_refl _)
  have hw := World.le_openFrame hnone l
  have hne : FrameId.globals ≠ s.frames.size := Nat.ne_of_lt h.frames.size_pos
  refine ⟨?_, h.closures.mono hw rfl rfl rfl, h.classes.mono hw rfl rfl rfl rfl rfl⟩
  refine ⟨fun f => ?_, fun f hf => ?_, ?_, ?_, ?_, fun f k hk => ?_, fun f n hn => ?_,
    fun f n v hv => ?_, fun f k c hk hc => ?_, fun f k d hk hd => ?_, fun f k hk hx => ?_⟩
  · simp only [Store.openFrame, Array.getElem?_push, hsize]
    by_cases hf : f = s.frames.size
    · simp [hf, World.exchanged, Setting.frame]
    · simp [hf, h.frames.paired f, World.exchanged, World.openFrame]
  · simp only [Store.openFrame, Array.size_push] at hf
    rw [World.openFrame]
    simp only [show f ≠ s.frames.size by omega, if_false]
    exact h.frames.unborn f (by omega)
  · simp [Store.openFrame]
  · simp [World.openFrame, hne, h.frames.globals]
  · rw [Store.parent?_openFrame, if_neg hne]
    exact h.frames.outermost
  · obtain ⟨rfl, rfl⟩ | ⟨hf, hk⟩ := World.label_openFrame_cases hk
    · rw [Store.parent?_openFrame, if_pos rfl]
    · rw [Store.parent?_openFrame, if_neg hf]
      exact h.frames.parents f k hk
  · rw [Store.local?_openFrame]
    have hlocal := h.frames.bound f n hn
    have hf : f ≠ s.frames.size := by
      rintro rfl
      simp [Store.local?] at hlocal
    rw [if_neg hf]
    exact hlocal
  · rw [Store.local?_openFrame] at hv
    split at hv
    · exact (hknown n v hv).mono hw
    · exact (h.frames.known f n v hv).mono hw
  · rw [Store.local?_openFrame]
    obtain ⟨rfl, rfl⟩ | ⟨hf, hk⟩ := World.label_openFrame_cases hk
    · rw [if_pos rfl]
      exact hheritage c hc
    · rw [if_neg hf]
      exact h.frames.heritage f k c hk hc
  · obtain ⟨-, rfl⟩ | ⟨-, hk⟩ := World.label_openFrame_cases hk
    · exact hderived d hd
    · exact h.frames.derived f k d hk hd
  · obtain ⟨-, rfl⟩ | ⟨-, hk⟩ := World.label_openFrame_cases hk
    · exact hstill hx
    · exact h.frames.still f k hk hx

/-- A name that a frame has is known to be bound. -/
theorem bind (h : S.Twins w s s') {f : FrameId} {name : String}
    (hn : (s.local? f name).isSome) : S.Twins (w.bind f name) s s' := by
  have hw := w.le_bind f name
  refine ⟨?_, h.closures.mono hw rfl rfl rfl, h.classes.mono hw rfl rfl rfl rfl rfl⟩
  refine ⟨h.frames.paired, h.frames.unborn, h.frames.size_pos, h.frames.globals,
    h.frames.outermost, h.frames.parents, fun g key hk => ?_,
    fun g key v hv => (h.frames.known g key v hv).mono hw, h.frames.heritage, h.frames.derived,
    h.frames.still⟩
  rcases hk with ⟨rfl, rfl⟩ | hk
  · exact hn
  · exact h.frames.bound g key hk

/-- A variable gets a value on both sides, under the name it has there. -/
theorem define (h : S.Twins w s s') {f : FrameId} (hf : f < s.frames.size) {name : String}
    (hn : name ≠ "super") {v : Value} (hv : v.Known w) :
    S.Twins (w.bind f name) (s.define f name v)
      (s'.define f (S.image (w.exchanged f) name) v) := by
  have hlocal := fun g key => Store.local?_define s f g name key v hf
  have hhas : ((s.define f name v).local? f name).isSome := by
    rw [hlocal, if_pos ⟨rfl, rfl⟩]
    rfl
  suffices hframes : S.FrameTwins w (s.define f name v)
      (s'.define f (S.image (w.exchanged f) name) v) from
    Setting.Twins.bind ⟨hframes, h.closures.mono w.le_refl rfl rfl rfl,
      h.classes.mono w.le_refl rfl rfl rfl rfl rfl⟩ hhas
  refine ⟨fun g => ?_, fun g hg => h.frames.unborn g (by simpa using hg),
    by simpa using h.frames.size_pos, h.frames.globals, by simpa using h.frames.outermost,
    fun g l hl => by simpa using h.frames.parents g l hl, fun g key hk => ?_,
    fun g key u hu => ?_, fun g l c hl hc => ?_, h.frames.derived, h.frames.still⟩
  · simp only [Store.define, Array.getElem?_modify, h.frames.paired g]
    by_cases hg : f = g
    · subst hg
      cases s.frames[f]? with
      | none => simp
      | some frame =>
        simp [Setting.frame, Table.put_relabel (S.image_injective (w.exchanged f))]
    · simp [hg]
  · rw [hlocal]
    split
    · rfl
    · exact h.frames.bound g key hk
  · rw [hlocal] at hu
    split at hu
    · cases hu
      exact hv
    · exact h.frames.known g key u hu
  · rw [hlocal, if_neg (fun hand => hn hand.2)]
    exact h.frames.heritage g l c hl hc

/-- A function is made on both sides. -/
theorem newClosure (h : S.Twins w s s') {c : Closure} {t : Typing} (ht : S.Typed w t c)
    (hstill : ¬ S.Moves → t.pick = pickNone ∧ Unmarked t.marks) :
    S.Twins (w.newClosure s.closures.size t) (s.newClosure c).2
      (s'.newClosure { c with decl := c.decl.rename S.toRenaming t.pick t.marks }).2 := by
  have hsize := h.closures.size
  have hw := World.le_newClosure (h.closures.unborn s.closures.size (Nat.le_refl _)) t
  refine ⟨h.frames.mono hw rfl rfl rfl rfl, ?_, h.classes.mono hw rfl rfl rfl rfl rfl⟩
  refine ⟨by simp [Store.newClosure, hsize], fun id hid => ?_, fun id k hk => ?_,
    fun id k hk => ?_⟩
  · simp only [Store.newClosure, Array.size_push] at hid
    simp only [World.newClosure, show id ≠ s.closures.size by omega, if_false]
    exact h.closures.unborn id (by omega)
  · simp only [Store.newClosure, Array.getElem?_push, hsize] at hk ⊢
    by_cases hid : id = s.closures.size
    · simp only [hid, if_true] at hk
      cases hk
      exact ⟨t, by simp [hid], ht.mono hw, by simp [hid]⟩
    · simp only [hid, if_false] at hk ⊢
      obtain ⟨u, hu, hty, hk'⟩ := h.closures.paired id k hk
      exact ⟨u, hw.typing id u hu, hty.mono hw, hk'⟩
  · by_cases hid : id = s.closures.size
    · simp only [World.newClosure, hid, if_true] at hk
      cases hk
      exact hstill
    · simp only [World.newClosure, hid, if_false] at hk
      exact h.closures.still id k hk

/-- A class with the same name and superclass is added to both stores. -/
theorem newClass (h : S.Twins w s s') {r : ClassRecord}
    (hr : w.Recorded s.classes.size r) :
    S.Twins w.newClass (s.newClass r).2 (s'.newClass r).2 := by
  have hw := w.le_newClass
  refine ⟨h.frames.mono hw rfl rfl rfl rfl, h.closures.mono hw rfl rfl rfl, ?_⟩
  refine ⟨by simp [Store.newClass, h.classes.classes], h.classes.objects,
    by simp [Store.newClass, World.newClass, h.classes.count],
    Store.forall_push (fun c k hk => ?_) (hr.mono hw),
    fun o ob hob n v hv => (h.classes.fields o ob hob n v hv).mono hw⟩
  exact (h.classes.recorded c k hk).mono hw

theorem newObject (h : S.Twins w s s') (c : ClassId) :
    S.Twins w (s.newObject c).2 (s'.newObject c).2 := by
  have hw := w.le_refl
  refine ⟨h.frames.mono hw rfl rfl rfl rfl, h.closures.mono hw rfl rfl rfl, ?_⟩
  refine ⟨h.classes.classes, by simp [Store.newObject, h.classes.objects], h.classes.count,
    h.classes.recorded, Store.forall_push h.classes.fields fun _ _ hv => ?_⟩
  cases hv

/-- A field is set alike in both. -/
theorem setField (h : S.Twins w s s') (o : Value) (name : String) {v : Value} (hv : v.Known w) :
    S.Twins w (s.setField o name v) (s'.setField o name v) := by
  have hw := w.le_refl
  cases o with
  | object id =>
    refine ⟨h.frames.mono hw rfl rfl rfl rfl, h.closures.mono hw rfl rfl rfl, ?_⟩
    refine ⟨h.classes.classes, by simp [Store.setField, h.classes.objects], h.classes.count,
      h.classes.recorded, Store.forall_modify h.classes.fields fun old hold => ?_⟩
    exact Table.forall_put (h.classes.fields id old hold) hv
  | classRef id =>
    refine ⟨h.frames.mono hw rfl rfl rfl rfl, h.closures.mono hw rfl rfl rfl, ?_⟩
    refine ⟨by simp [Store.setField, h.classes.classes], h.classes.objects,
      by simp [Store.setField, h.classes.count],
      Store.forall_modify h.classes.recorded fun old hold => ?_, h.classes.fields⟩
    have hrec := h.classes.recorded id old hold
    exact ⟨hrec.superclass, hrec.methods, hrec.statics, Table.forall_put hrec.fields hv⟩
  | _ => exact h

end Setting.Twins

end Scriptling
