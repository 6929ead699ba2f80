import Scriptling.Proofs.Steps

namespace Scriptling

open Machine

/-- What stands in an array still stands there later, changed as the relation allows. -/
def Extends {α : Type} (R : α → α → Prop) (xs ys : Array α) : Prop :=
  ∀ (i : Nat) (x : α), xs[i]? = some x → ∃ y, ys[i]? = some y ∧ R x y

namespace Extends

variable {α : Type} {R : α → α → Prop} {xs ys zs : Array α}

theorem refl (hR : ∀ x, R x x) (xs : Array α) : Extends R xs xs := fun _ x hx => ⟨x, hx, hR x⟩

theorem trans (hR : ∀ x y z, R x y → R y z → R x z) (h : Extends R xs ys) (h' : Extends R ys zs) :
    Extends R xs zs := by
  intro i x hx
  obtain ⟨y, hy, hxy⟩ := h i x hx
  obtain ⟨z, hz, hyz⟩ := h' i y hy
  exact ⟨z, hz, hR x y z hxy hyz⟩

theorem push (hR : ∀ x, R x x) (xs : Array α) (x : α) : Extends R xs (xs.push x) := by
  intro i y hy
  obtain ⟨hi, -⟩ := Array.getElem?_eq_some_iff.1 hy
  exact ⟨y, by rw [Array.getElem?_push, if_neg (Nat.ne_of_lt hi), hy], hR y⟩

theorem modify (hR : ∀ x, R x x) {g : α → α} (hg : ∀ x, R x (g x)) (xs : Array α) (i : Nat) :
    Extends R xs (xs.modify i g) := by
  intro j x hx
  rw [Array.getElem?_modify, hx]
  by_cases hij : i = j
  · exact ⟨g x, by simp [hij], hg x⟩
  · exact ⟨x, by simp [hij], hR x⟩

theorem size_le (h : Extends R xs ys) : xs.size ≤ ys.size := by
  refine Nat.le_of_not_lt fun hlt => ?_
  obtain ⟨y, hy, -⟩ := h ys.size xs[ys.size] (Array.getElem?_eq_getElem hlt)
  rw [Array.getElem?_eq_none (Nat.le_refl _)] at hy
  cases hy

end Extends

/-- No name is taken out of a table. -/
def Table.Grows {α : Type} (t t' : Table α) : Prop := ∀ name, t.has name → t'.has name

theorem Table.Grows.put {α : Type} (t : Table α) (name : String) (v : α) :
    t.Grows (t.put name v) := by
  intro key hkey
  rw [has, get?_put]
  split
  · rfl
  · exact hkey

structure Frame.Grows (f f' : Frame) : Prop where
  parent : f'.parent = f.parent
  bindings : f.bindings.Grows f'.bindings

structure ClassRecord.Grows (c c' : ClassRecord) : Prop where
  name : c'.name = c.name
  superclass : c'.superclass = c.superclass
  methods : c'.methods = c.methods
  statics : c'.statics = c.statics
  fields : c.fields.Grows c'.fields

structure Object.Grows (o o' : Object) : Prop where
  instanceOf : o'.instanceOf = o.instanceOf
  fields : o.fields.Grows o'.fields

/-- Everything in a store is still in the other one. -/
structure Store.Grows (s s' : Store) : Prop where
  frames : Extends Frame.Grows s.frames s'.frames
  closures : Extends Eq s.closures s'.closures
  classes : Extends ClassRecord.Grows s.classes s'.classes
  objects : Extends Object.Grows s.objects s'.objects

theorem Frame.Grows.refl (f : Frame) : f.Grows f := ⟨rfl, fun _ h => h⟩

theorem ClassRecord.Grows.refl (c : ClassRecord) : c.Grows c :=
  ⟨rfl, rfl, rfl, rfl, fun _ h => h⟩

theorem Object.Grows.refl (o : Object) : o.Grows o := ⟨rfl, fun _ h => h⟩

namespace Store

variable {s s' s'' : Store}

theorem Grows.refl (s : Store) : s.Grows s :=
  ⟨.refl .refl _, .refl .refl _, .refl .refl _, .refl .refl _⟩

theorem Grows.trans (h : s.Grows s') (h' : s'.Grows s'') : s.Grows s'' where
  frames := h.frames.trans (fun _ _ _ h h' =>
    ⟨h'.parent.trans h.parent, fun name hn => h'.bindings name (h.bindings name hn)⟩) h'.frames
  closures := h.closures.trans (fun _ _ _ => Eq.trans) h'.closures
  classes := h.classes.trans (fun _ _ _ h h' =>
    ⟨h'.name.trans h.name, h'.superclass.trans h.superclass, h'.methods.trans h.methods,
      h'.statics.trans h.statics, fun name hn => h'.fields name (h.fields name hn)⟩) h'.classes
  objects := h.objects.trans (fun _ _ _ h h' =>
    ⟨h'.instanceOf.trans h.instanceOf, fun name hn => h'.fields name (h.fields name hn)⟩) h'.objects

theorem grows_openFrame (s : Store) (parent : Option FrameId) (bindings : Table Value) :
    s.Grows (s.openFrame parent bindings).2 :=
  { Grows.refl s with frames := .push .refl _ _ }

theorem grows_define (s : Store) (f : FrameId) (name : String) (v : Value) :
    s.Grows (s.define f name v) :=
  { Grows.refl s with frames := .modify .refl (fun _ => ⟨rfl, .put _ _ _⟩) _ _ }

theorem grows_newClosure (s : Store) (c : Closure) : s.Grows (s.newClosure c).2 :=
  { Grows.refl s with closures := .push .refl _ _ }

theorem grows_newClass (s : Store) (c : ClassRecord) : s.Grows (s.newClass c).2 :=
  { Grows.refl s with classes := .push .refl _ _ }

theorem grows_newObject (s : Store) (c : ClassId) : s.Grows (s.newObject c).2 :=
  { Grows.refl s with objects := .push .refl _ _ }

theorem grows_setField (s : Store) (o : Value) (name : String) (v : Value) :
    s.Grows (s.setField o name v) := by
  cases o with
  | object id =>
    exact { Grows.refl s with objects := .modify .refl (fun _ => ⟨rfl, .put _ _ _⟩) _ _ }
  | classRef id =>
    exact { Grows.refl s with
      classes := .modify .refl (fun _ => ⟨rfl, rfl, rfl, rfl, .put _ _ _⟩) _ _ }
  | _ => exact .refl s

theorem frame?_eq_some {f : FrameId} (h : f < s.frames.size) : ∃ frame, s.frames[f]? = some frame :=
  ⟨_, Array.getElem?_eq_getElem h⟩

theorem lt_of_local? {f : FrameId} {name : String} {v : Value} (h : s.local? f name = some v) :
    f < s.frames.size := by
  obtain ⟨frame, hf, -⟩ := Option.bind_eq_some_iff.1 h
  exact (Array.getElem?_eq_some_iff.1 hf).1

theorem lt_of_parent? {f p : FrameId} (h : s.parent? f = some p) : f < s.frames.size := by
  obtain ⟨frame, hf, -⟩ := Option.bind_eq_some_iff.1 h
  exact (Array.getElem?_eq_some_iff.1 hf).1

theorem Grows.parent?_eq (h : s.Grows s') {f : FrameId} (hf : f < s.frames.size) :
    s'.parent? f = s.parent? f := by
  obtain ⟨frame, hframe⟩ := frame?_eq_some hf
  obtain ⟨frame', hframe', hgrows⟩ := h.frames f frame hframe
  rw [parent?, parent?, hframe, hframe', Option.bind_some, Option.bind_some, hgrows.parent]

theorem Grows.closure (h : s.Grows s') {id : ClosureId} {c : Closure}
    (hc : s.closures[id]? = some c) : s'.closures[id]? = some c := by
  obtain ⟨c', hc', rfl⟩ := h.closures id c hc
  exact hc'

end Store

theorem Machine.Step.grows {m m₁ : Machine} (h : Step m m₁) : m.store.Grows m₁.store := by
  cases h with
  | openFrame parent bindings => exact Store.grows_openFrame _ _ _
  | define f name v => exact Store.grows_define _ _ _ _
  | newClosure c => exact Store.grows_newClosure _ _
  | newClass c => exact Store.grows_newClass _ _
  | newObject c => exact Store.grows_newObject _ _
  | setField o name v => exact Store.grows_setField _ _ _ _
  | _ => exact .refl _

theorem Machine.Reaches.grows {m m₁ : Machine} (h : Reaches m m₁) : m.store.Grows m₁.store := by
  induction h with
  | refl m => exact .refl _
  | step hs => exact hs.grows
  | trans _ _ ih ih' => exact ih.trans ih'
  | inside f _ ih => exact ih

end Scriptling
