import Scriptling.Store.Value

namespace Scriptling.Store

def local? (s : Store) (f : FrameId) (name : String) : Option Value :=
  s.frames[f]?.bind (·.bindings.get? name)

def parent? (s : Store) (f : FrameId) : Option FrameId := s.frames[f]?.bind (·.parent)

def names (s : Store) (f : FrameId) : List String :=
  match s.frames[f]? with
  | some frame => frame.bindings.names
  | none => []

def openFrame (s : Store) (parent : Option FrameId) (bindings : Table Value) : FrameId × Store :=
  (s.frames.size, { s with frames := s.frames.push ⟨bindings, parent⟩ })

def define (s : Store) (f : FrameId) (name : String) (value : Value) : Store :=
  { s with frames := s.frames.modify f fun frame =>
      { frame with bindings := frame.bindings.put name value } }

/-- The frame `distance` steps out. -/
def ancestor? (s : Store) (f : FrameId) : Nat → Option FrameId
  | 0 => if f < s.frames.size then some f else none
  | distance + 1 => (s.parent? f).bind fun p => s.ancestor? p distance

/-- The nearest frame that has the name, among the first `bound` on the way out. -/
def holderWithin? (s : Store) (name : String) : Nat → FrameId → Option FrameId
  | 0, _ => none
  | bound + 1, f =>
    if (s.local? f name).isSome then some f
    else (s.parent? f).bind (s.holderWithin? name bound)

/-- The nearest frame that has the name. Frames are older than those inside them, so the way out is
no longer than a frame's own number says. -/
def holder? (s : Store) (f : FrameId) (name : String) : Option FrameId :=
  s.holderWithin? name (f + 1) f

def get? (s : Store) (f : FrameId) (name : String) : Option Value :=
  (s.holder? f name).bind fun g => s.local? g name

def getAt? (s : Store) (f : FrameId) (distance : Nat) (name : String) : Option Value :=
  (s.ancestor? f distance).bind fun g => s.local? g name

def holderAt? (s : Store) (f : FrameId) (distance : Nat) (name : String) : Option FrameId :=
  (s.ancestor? f distance).filter fun g => (s.local? g name).isSome

/-- Gives the name that is seen from a frame another value. -/
def assign? (s : Store) (f : FrameId) (name : String) (value : Value) : Option Store :=
  (s.holder? f name).map fun g => s.define g name value

/-- Gives a name in the frame `distance` steps out another value. -/
def assignAt? (s : Store) (f : FrameId) (distance : Nat) (name : String) (value : Value) :
    Option Store :=
  (s.holderAt? f distance name).map fun g => s.define g name value

@[simp] theorem size_define (s : Store) (f : FrameId) (name : String) (value : Value) :
    (s.define f name value).frames.size = s.frames.size := by
  simp [define]

/-- Frames keep their parents. -/
@[simp] theorem parent?_define (s : Store) (f g : FrameId) (name : String) (value : Value) :
    (s.define f name value).parent? g = s.parent? g := by
  simp only [define, parent?, Array.getElem?_modify]
  split
  · cases s.frames[g]? <;> rfl
  · rfl

/-- Only the one name in the one frame has another value. -/
theorem local?_define (s : Store) (f g : FrameId) (name key : String) (value : Value)
    (hf : f < s.frames.size) :
    (s.define f name value).local? g key =
      if f = g ∧ name = key then some value else s.local? g key := by
  simp only [define, local?, Array.getElem?_modify]
  by_cases hg : f = g
  · subst hg
    simp [Array.getElem?_eq_getElem hf]
  · simp [hg]

/-- A new frame has its own variables, and the others keep theirs. -/
theorem local?_openFrame (s : Store) (parent : Option FrameId) (bindings : Table Value)
    (g : FrameId) (key : String) :
    (s.openFrame parent bindings).2.local? g key =
      if g = s.frames.size then bindings.get? key else s.local? g key := by
  simp only [openFrame, local?, Array.getElem?_push]
  split <;> rfl

theorem parent?_openFrame (s : Store) (parent : Option FrameId) (bindings : Table Value)
    (g : FrameId) :
    (s.openFrame parent bindings).2.parent? g =
      if g = s.frames.size then parent else s.parent? g := by
  simp only [openFrame, parent?, Array.getElem?_push]
  split <;> rfl

/-- The global frame is the last one to look in. -/
theorem holder?_globals (s : Store) (name : String) : s.holder? .globals name =
    if (s.local? .globals name).isSome then some .globals else none := by
  rw [holder?, holderWithin?]
  split
  · rfl
  · exact Option.bind_eq_none_iff.2 fun _ _ => rfl

section Entries

variable {α : Type} {P : Nat → α → Prop} {xs : Array α}

theorem forall_push {x : α} (h : ∀ j y, xs[j]? = some y → P j y) (hx : P xs.size x) :
    ∀ j y, (xs.push x)[j]? = some y → P j y := by
  intro j y hy
  rw [Array.getElem?_push] at hy
  split at hy
  · subst j
    cases hy
    exact hx
  · exact h j y hy

theorem forall_modify {i : Nat} {g : α → α} (h : ∀ j x, xs[j]? = some x → P j x)
    (hg : ∀ x, xs[i]? = some x → P i (g x)) : ∀ j y, (xs.modify i g)[j]? = some y → P j y := by
  intro j y hy
  rw [Array.getElem?_modify] at hy
  split at hy
  · subst j
    obtain ⟨x, hx, rfl⟩ := Option.map_eq_some_iff.1 hy
    exact hg x hx
  · exact h j y hy

end Entries

end Scriptling.Store
