import Scriptling.Proofs.Superclass

namespace Scriptling

/-- What a value refers to is there. -/
def Value.Allocated (s : Store) : Value → Prop
  | .closure id => id < s.closures.size
  | .classRef c => c < s.classes.size
  | .object o => o < s.objects.size
  | _ => True

/-- Everything that is mentioned is there, and links lead to what is older. Only the global frame has
no frame around it. -/
structure Store.Formed (s : Store) : Prop where
  globals : ∃ frame, s.frames[FrameId.globals]? = some frame ∧ frame.parent = none
  enclosed : ∀ (f : FrameId) (frame : Frame), s.frames[f]? = some frame → f ≠ .globals →
    ∃ p, frame.parent = some p ∧ p < f
  scopes : ∀ (id : ClosureId) (c : Closure), s.closures[id]? = some c → c.scope < s.frames.size
  superclasses : s.Descends
  methods : ∀ (c : ClassId) (r : ClassRecord) (name : String) (k : ClosureId),
    s.classes[c]? = some r → r.methods.get? name = some k ∨ r.statics.get? name = some k →
      k < s.closures.size
  instances : ∀ (o : ObjectId) (ob : Object), s.objects[o]? = some ob →
    ob.instanceOf < s.classes.size
  bindings : ∀ (f : FrameId) (name : String) (v : Value), s.local? f name = some v → v.Allocated s
  classFields : ∀ (c : ClassId) (r : ClassRecord) (name : String) (v : Value),
    s.classes[c]? = some r → r.fields.get? name = some v → v.Allocated s
  objectFields : ∀ (o : ObjectId) (ob : Object) (name : String) (v : Value),
    s.objects[o]? = some ob → ob.fields.get? name = some v → v.Allocated s

def Store.Encloses (s : Store) (p f : FrameId) : Prop := s.parent? f = some p

def Store.Heads (s : Store) (p c : ClassId) : Prop :=
  ∃ r, s.classes[c]? = some r ∧ r.superclass = some p

/-- Methods are looked for in one class, and then from its superclass on. -/
def Store.SearchesUp (s : Store) (table : ClassRecord → Table ClosureId)
    (find : ClassId → String → Option ClosureId) : Prop :=
  ∀ c name, find c name = s.classes[c]?.bind fun r =>
    ((table r).get? name).or (r.superclass.bind fun p => find p name)

/-- Walks along the links end, and none is cut short by the bound that was set for it. Variables are
read and written where their holder is; a walk by a noted distance is as long as that. -/
structure Store.Walkable (s : Store) : Prop where
  enclosing : WellFounded s.Encloses
  inheriting : WellFounded s.Heads
  holder : ∀ f name, s.holder? f name =
    if (s.local? f name).isSome then some f else (s.parent? f).bind fun p => s.holder? p name
  methods : s.SearchesUp ClassRecord.methods s.findMethod?
  statics : s.SearchesUp ClassRecord.statics s.findStatic?

namespace Store

variable {s : Store}

/-- With links to older numbers only, more of them than there are numbers below are never taken. -/
theorem holderWithin?_of_lt (hs : ∀ f p, s.parent? f = some p → p < f) (name : String)
    {bound : Nat} {f : FrameId} (hf : f < bound) :
    s.holderWithin? name bound f = s.holder? f name := by
  induction f using Nat.strongRecOn generalizing bound with
  | ind f ih =>
    obtain ⟨bound, rfl⟩ := Nat.exists_eq_add_one_of_ne_zero (Nat.ne_zero_of_lt hf)
    rw [holder?, holderWithin?, holderWithin?]
    split
    · rfl
    · cases hp : s.parent? f with
      | none => rfl
      | some p =>
        have hlt := hs f p hp
        exact (ih p hlt (Nat.lt_of_lt_of_le hlt (Nat.le_of_lt_succ hf))).trans (ih p hlt hlt).symm

/-- So the search goes on from the frame around, as if there were no bound. -/
theorem holder?_eq (hs : ∀ f p, s.parent? f = some p → p < f) (f : FrameId) (name : String) :
    s.holder? f name =
      if (s.local? f name).isSome then some f else (s.parent? f).bind fun p => s.holder? p name := by
  rw [holder?, holderWithin?]
  split
  · rfl
  · cases hp : s.parent? f with
    | none => rfl
    | some p => exact holderWithin?_of_lt hs name (hs f p hp)

/-- A search upwards ends before the bound that is one above the class's own number. -/
theorem Descends.findWithin?_of_lt (hs : s.Descends) (table : ClassRecord → Table ClosureId)
    (name : String) {bound : Nat} {c : ClassId} (hc : c < bound) :
    s.findWithin? table name bound c = s.findWithin? table name (c + 1) c := by
  refine Option.ext fun k => ?_
  rw [hs.findWithin?_eq_some_iff hc, hs.findWithin?_eq_some_iff (Nat.lt_succ_self c)]

/-- So the search with that bound goes up for as long as there are superclasses. -/
theorem Descends.searchesUp (hs : s.Descends) (table : ClassRecord → Table ClosureId) :
    s.SearchesUp table fun c name => s.findWithin? table name (c + 1) c := by
  intro c name
  change s.findWithin? table name (c + 1) c = _
  rw [findWithin?]
  cases hr : s.classes[c]? with
  | none => rfl
  | some r =>
    dsimp only [Option.bind_some]
    cases (table r).get? name with
    | some k => rfl
    | none =>
      cases hp : r.superclass with
      | none => rfl
      | some p => exact hs.findWithin?_of_lt table name (hs c r p hr hp)

theorem Formed.parent?_lt (h : s.Formed) {f p : FrameId} (hp : s.parent? f = some p) : p < f := by
  obtain ⟨frame, hframe, hparent⟩ := Option.bind_eq_some_iff.1 hp
  by_cases hf : f = .globals
  · obtain ⟨globals, hglobals, hnone⟩ := h.globals
    rw [hf, hglobals] at hframe
    cases hframe
    rw [hnone] at hparent
    cases hparent
  · obtain ⟨p', hp', hlt⟩ := h.enclosed f frame hframe hf
    rw [hp'] at hparent
    cases hparent
    exact hlt

/-- In a well-formed store every walk ends. -/
theorem Formed.walkable (h : s.Formed) : s.Walkable where
  enclosing := Subrelation.wf (fun hp => h.parent?_lt hp) Nat.lt_wfRel.wf
  inheriting := Subrelation.wf (fun hp => by
    obtain ⟨r, hr, hsuper⟩ := hp
    exact h.superclasses _ r _ hr hsuper) Nat.lt_wfRel.wf
  holder := holder?_eq fun _ _ => h.parent?_lt
  methods := h.superclasses.searchesUp _
  statics := h.superclasses.searchesUp _

end Store

end Scriptling
