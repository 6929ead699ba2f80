import Scriptling.Proofs.Arguments

namespace Scriptling

namespace Store

/-- Every frame is younger than the one around it. -/
def Outward (s : Store) : Prop := ∀ f p, s.parent? f = some p → p < f

/-- The frame `d` steps out has the name, and none before it has. -/
structure FirstAt (s : Store) (f : FrameId) (name : String) (d : Nat) (g : FrameId) : Prop where
  reached : s.ancestor? f d = some g
  binds : (s.local? g name).isSome
  nearer : ∀ e h, e < d → s.ancestor? f e = some h → s.local? h name = none

/-- The way out from `f` comes to `g` when it looks for the name. -/
def Finds (s : Store) (f : FrameId) (name : String) (g : FrameId) : Prop :=
  ∃ d, s.FirstAt f name d g

/-- A store in which one name of one frame has another value, and nothing else has changed. -/
structure Rewritten (s : Store) (g : FrameId) (name : String) (v : Value) (s' : Store) : Prop where
  binding : s'.local? g name = some v
  others : ∀ h key, h ≠ g ∨ key ≠ name → s'.local? h key = s.local? h key
  names : ∀ h, s'.names h = s.names h
  parents : ∀ h, s'.parent? h = s.parent? h
  size : s'.frames.size = s.frames.size
  closures : s'.closures = s.closures
  classes : s'.classes = s.classes
  objects : s'.objects = s.objects

variable {s s' : Store} {f g h p : FrameId} {name key : String} {d : Nat} {v : Value}

theorem Formed.outward (hs : s.Formed) : s.Outward := by
  intro f p hp
  exact hs.parent?_lt hp

theorem Outward.openFrame (hs : s.Outward) (hp : p < s.frames.size) (bindings : Table Value) :
    (s.openFrame (some p) bindings).2.Outward := by
  intro f q hq
  rw [parent?_openFrame] at hq
  split at hq
  · rename_i hf
    cases hq
    exact hf ▸ hp
  · exact hs f q hq

theorem ancestor?_zero (hf : f < s.frames.size) : s.ancestor? f 0 = some f := by
  simp [ancestor?, hf]

theorem FirstAt.here (hf : (s.local? f name).isSome) : s.FirstAt f name 0 f := by
  obtain ⟨v, hv⟩ := Option.isSome_iff_exists.1 hf
  refine ⟨ancestor?_zero (lt_of_local? hv), hf, ?_⟩
  intro e h he
  exact absurd he (Nat.not_lt_zero e)

theorem FirstAt.further (hp : s.parent? f = some p) (hf : s.local? f name = none)
    (hd : s.FirstAt p name d g) : s.FirstAt f name (d + 1) g := by
  refine ⟨?_, hd.binds, ?_⟩
  · simp [ancestor?, hp, hd.reached]
  · intro e h he hh
    cases e with
    | zero =>
      rw [ancestor?_zero (lt_of_parent? hp)] at hh
      cases hh
      exact hf
    | succ e =>
      simp only [ancestor?, hp, Option.bind_some] at hh
      exact hd.nearer e h (Nat.lt_of_succ_lt_succ he) hh

/-- The frame itself has the name, or else the search goes on from the frame around it. -/
theorem FirstAt.cases (hd : s.FirstAt f name d g) :
    (d = 0 ∧ g = f ∧ (s.local? f name).isSome) ∨
      ∃ p e, d = e + 1 ∧ s.parent? f = some p ∧ s.local? f name = none ∧ s.FirstAt p name e g := by
  cases d with
  | zero =>
    have hreached := hd.reached
    simp only [ancestor?] at hreached
    split at hreached
    · cases hreached
      exact .inl ⟨rfl, rfl, hd.binds⟩
    · cases hreached
  | succ e =>
    obtain ⟨p, hp, hreached⟩ := Option.bind_eq_some_iff.1 hd.reached
    refine .inr ⟨p, e, rfl, hp, ?_, hreached, hd.binds, ?_⟩
    · exact hd.nearer 0 f (Nat.succ_pos e) (ancestor?_zero (lt_of_parent? hp))
    · intro i h hi hh
      apply hd.nearer (i + 1) h (Nat.succ_lt_succ hi)
      simp [ancestor?, hp, hh]

/-- The search with a bound finds the nearest frame: on a way out to older frames the bound is never
reached. -/
theorem Outward.holder?_eq_some_iff (hs : s.Outward) :
    s.holder? f name = some g ↔ s.Finds f name g := by
  induction f using Nat.strongRecOn with
  | ind f ih =>
    rw [holder?_eq hs]
    constructor
    · intro hg
      split at hg
      · rename_i hf
        cases hg
        exact ⟨0, .here hf⟩
      · rename_i hf
        obtain ⟨p, hp, hg⟩ := Option.bind_eq_some_iff.1 hg
        obtain ⟨d, hd⟩ := (ih p (hs f p hp)).1 hg
        exact ⟨d + 1, .further hp (by simpa using hf) hd⟩
    · rintro ⟨d, hd⟩
      rcases hd.cases with ⟨-, rfl, hf⟩ | ⟨p, e, -, hp, hf, he⟩
      · rw [if_pos hf]
      · rw [if_neg (by simp [hf]), hp, Option.bind_some]
        exact (ih p (hs f p hp)).2 ⟨e, he⟩

theorem Outward.holder?_eq_none_iff (hs : s.Outward) :
    s.holder? f name = none ↔ ∀ g, ¬ s.Finds f name g := by
  rw [Option.eq_none_iff_forall_ne_some]
  exact forall_congr' fun g => not_congr hs.holder?_eq_some_iff

/-- Another value for a name that the frame has takes the place of the old one. -/
theorem rewritten_define (hg : (s.local? g name).isSome) (v : Value) :
    s.Rewritten g name v (s.define g name v) := by
  obtain ⟨w, hw⟩ := Option.isSome_iff_exists.1 hg
  have hlt := lt_of_local? hw
  obtain ⟨frame, hframe, hget⟩ := Option.bind_eq_some_iff.1 hw
  have hmem : name ∈ frame.bindings.names := Table.has_iff.1 (by rw [Table.has, hget]; rfl)
  refine ⟨?_, ?_, ?_, fun h => parent?_define s g h name v, size_define s g name v, rfl, rfl, rfl⟩
  · simp [local?_define s g g name name v hlt]
  · intro h key hne
    rw [local?_define s g h name key v hlt, if_neg]
    rintro ⟨rfl, rfl⟩
    simp at hne
  · intro h
    simp only [names, define, Array.getElem?_modify]
    by_cases hh : g = h
    · subst hh
      simp [hframe, Table.names_put_of_mem hmem]
    · simp [hh]

namespace Rewritten

variable (r : s.Rewritten g name v s') (hg : (s.local? g name).isSome)

include r

theorem ancestor?_eq (f : FrameId) (d : Nat) : s'.ancestor? f d = s.ancestor? f d := by
  induction d generalizing f with
  | zero => simp only [ancestor?, r.size]
  | succ d ih => simp only [ancestor?, r.parents, ih]

theorem outward (hs : s.Outward) : s'.Outward := by
  intro f p hp
  exact hs f p (r.parents f ▸ hp)

include hg

theorem isSome_local? (h : FrameId) (key : String) :
    (s'.local? h key).isSome = (s.local? h key).isSome := by
  by_cases hh : h = g ∧ key = name
  · obtain ⟨rfl, rfl⟩ := hh
    simp [r.binding, hg]
  · rw [r.others h key (not_and_or.1 hh)]

/-- The same frames are found as before. -/
theorem finds_iff (f : FrameId) (key : String) (h : FrameId) :
    s'.Finds f key h ↔ s.Finds f key h := by
  have hnone : ∀ i, s'.local? i key = none ↔ s.local? i key = none := by
    intro i
    rw [← Option.isNone_iff_eq_none, ← Option.isNone_iff_eq_none, ← Option.not_isSome,
      ← Option.not_isSome, r.isSome_local? hg]
  constructor
  · rintro ⟨d, hd⟩
    refine ⟨d, ?_, ?_, ?_⟩
    · rw [← r.ancestor?_eq, hd.reached]
    · rw [← r.isSome_local? hg, hd.binds]
    · intro e i he hi
      exact (hnone i).1 (hd.nearer e i he ((r.ancestor?_eq f e).trans hi))
  · rintro ⟨d, hd⟩
    refine ⟨d, ?_, ?_, ?_⟩
    · rw [r.ancestor?_eq, hd.reached]
    · rw [r.isSome_local? hg, hd.binds]
    · intro e i he hi
      exact (hnone i).2 (hd.nearer e i he ((r.ancestor?_eq f e).symm.trans hi))

theorem holder?_eq (hs : s.Outward) (f : FrameId) (key : String) :
    s'.holder? f key = s.holder? f key := by
  apply Option.ext
  intro h
  rw [(r.outward hs).holder?_eq_some_iff, hs.holder?_eq_some_iff, r.finds_iff hg]

/-- The new value is seen wherever the walk ends at the frame. -/
theorem get?_found (hs : s.Outward) (hf : s.Finds f name g) : s'.get? f name = some v := by
  rw [get?, r.holder?_eq hg hs, hs.holder?_eq_some_iff.2 hf, Option.bind_some, r.binding]

/-- From elsewhere, and of other names, the old values are seen. -/
theorem get?_other (hs : s.Outward) (hf : key = name → ¬ s.Finds f name g) :
    s'.get? f key = s.get? f key := by
  rw [get?, get?, r.holder?_eq hg hs]
  cases hh : s.holder? f key with
  | none => rfl
  | some h =>
    apply r.others h key
    rw [← not_and_or]
    rintro ⟨rfl, rfl⟩
    exact hf rfl (hs.holder?_eq_some_iff.1 hh)

end Rewritten

end Store

/-- An operation on frames: it answers or is refused, and leaves a store either way. -/
abbrev Access := EStateM (Located RuntimeFault) Store

namespace Access

def undefined (name : Token) : Located RuntimeFault := ⟨.undefinedVariable name.lexeme, name.place⟩

def answer (name : Token) (found : Option Value) : Access Value :=
  match found with
  | some v => pure v
  | none => throw (undefined name)

def replace (name : Token) (store : Option Store) : Access Unit :=
  match store with
  | some s => set s
  | none => throw (undefined name)

def get (f : FrameId) (name : Token) : Access Value := do
  answer name ((← EStateM.get).get? f name.lexeme)

def getAt (f : FrameId) (d : Nat) (name : Token) : Access Value := do
  answer name ((← EStateM.get).getAt? f d name.lexeme)

def assign (f : FrameId) (name : Token) (v : Value) : Access Unit := do
  replace name ((← EStateM.get).assign? f name.lexeme v)

def assignAt (f : FrameId) (d : Nat) (name : Token) (v : Value) : Access Unit := do
  replace name ((← EStateM.get).assignAt? f d name.lexeme v)

/-- The four operations are those of the store, with a report where these find nothing. -/
theorem run_get (f : FrameId) (name : Token) (s : Store) :
    get f name s = match s.get? f name.lexeme with
      | some v => .ok v s
      | none => .error (undefined name) s := by
  change (answer name (s.get? f name.lexeme)) s = _
  cases s.get? f name.lexeme <;> rfl

theorem run_getAt (f : FrameId) (d : Nat) (name : Token) (s : Store) :
    getAt f d name s = match s.getAt? f d name.lexeme with
      | some v => .ok v s
      | none => .error (undefined name) s := by
  change (answer name (s.getAt? f d name.lexeme)) s = _
  cases s.getAt? f d name.lexeme <;> rfl

theorem run_assign (f : FrameId) (name : Token) (v : Value) (s : Store) :
    assign f name v s = match s.assign? f name.lexeme v with
      | some s' => .ok () s'
      | none => .error (undefined name) s := by
  change (replace name (s.assign? f name.lexeme v)) s = _
  cases s.assign? f name.lexeme v <;> rfl

theorem run_assignAt (f : FrameId) (d : Nat) (name : Token) (v : Value) (s : Store) :
    assignAt f d name v s = match s.assignAt? f d name.lexeme v with
      | some s' => .ok () s'
      | none => .error (undefined name) s := by
  change (replace name (s.assignAt? f d name.lexeme v)) s = _
  cases s.assignAt? f d name.lexeme v <;> rfl

def onMachine {α : Type} (act : Access α) : Eval α := fun m =>
  match act m.store with
  | .ok a s => .ok a { m with store := s }
  | .error e s => .error (.failed (.runtime e)) { m with store := s }

end Access

/-- The machine reads a variable at its noted distance, and one without a note among the globals. -/
theorem Machine.lookUp_eq (id : ExprId) (name : Token) (m : Machine) :
    lookUp id name m = (match m.distances[id]? with
      | some d => Access.getAt m.current d name
      | none => Access.get .globals name).onMachine m := by
  change EStateM.run (match (match m.distances[id]? with
      | some d => m.store.getAt? m.current d name.lexeme
      | none => m.store.get? .globals name.lexeme) with
    | some v => pure v
    | none => fail name (.undefinedVariable name.lexeme)) m = _
  cases m.distances[id]? with
  | some d =>
    dsimp only
    rw [Access.onMachine, Access.run_getAt]
    cases m.store.getAt? m.current d name.lexeme <;> rfl
  | none =>
    dsimp only
    rw [Access.onMachine, Access.run_get]
    cases m.store.get? .globals name.lexeme <;> rfl

/-- So it is when a variable is written that must be there. -/
theorem Machine.assign_eq (id : ExprId) (name : Token) (v : Value) (m : Machine) :
    assign id name v false m = (match m.distances[id]? with
      | some d => Access.assignAt m.current d name v
      | none => Access.assign .globals name v).onMachine m := by
  refine (run_assign m id name v false).trans ?_
  unfold target?
  cases m.distances[id]? with
  | some d =>
    dsimp only
    rw [Access.onMachine, Access.run_assignAt, Store.assignAt?]
    cases m.store.holderAt? m.current d name.lexeme <;> rfl
  | none =>
    dsimp only
    rw [Access.onMachine, Access.run_assign, Store.assign?, if_neg Bool.false_ne_true]
    cases m.store.holder? .globals name.lexeme <;> rfl

namespace Store

variable {s s' : Store} {f g : FrameId} {name : String} {d : Nat} {v : Value}

/-- A counted write finds its frame exactly if a counted read finds a value. -/
theorem assignAt?_eq_none_iff : s.assignAt? f d name v = none ↔ s.getAt? f d name = none := by
  simp only [assignAt?, holderAt?, getAt?, Option.map_eq_none_iff]
  cases hg : s.ancestor? f d with
  | none => simp
  | some g => cases hv : s.local? g name <;> simp [Option.filter, hv]

theorem FirstAt.get?_eq (hs : s.Outward) (hd : s.FirstAt f name d g) :
    s.get? f name = s.getAt? f d name := by
  rw [get?, getAt?, hs.holder?_eq_some_iff.2 ⟨d, hd⟩, hd.reached]

theorem FirstAt.assign?_eq (hs : s.Outward) (hd : s.FirstAt f name d g) (v : Value) :
    s.assign? f name v = some (s.define g name v) := by
  rw [assign?, hs.holder?_eq_some_iff.2 ⟨d, hd⟩, Option.map_some]

theorem FirstAt.assignAt?_eq (hd : s.FirstAt f name d g) (v : Value) :
    s.assignAt? f d name v = some (s.define g name v) := by
  have hfilter : s.holderAt? f d name = some g := by
    rw [holderAt?, hd.reached]
    simp [Option.filter, hd.binds]
  rw [assignAt?, hfilter, Option.map_some]

end Store

/-- Walking and counting come to the same. Where `d` is the least number of steps to a frame that has
the name, reading by the walk answers what reading `d` steps out answers, and both writes do the same:
the name has another value in that one frame. It is seen then from every frame whose walk ends there,
and what is seen from other frames, or of other names, is as before. If there is no such frame, reading
and writing are refused alike. A counted write is refused exactly where a counted read finds nothing.
Whatever is refused leaves the store as it was. -/
theorem walked_as_counted (s : Store) (hs : s.Outward) (f : FrameId) (name : Token) (v : Value) :
    (∀ d g, s.FirstAt f name.lexeme d g → ∃ w s',
      s.getAt? f d name.lexeme = some w ∧ Access.get f name s = .ok w s ∧
      Access.assign f name v s = .ok () s' ∧ Access.assignAt f d name v s = .ok () s' ∧
      s.Rewritten g name.lexeme v s' ∧
      (∀ h, s.Finds h name.lexeme g → s'.get? h name.lexeme = some v) ∧
      ∀ h key, (key = name.lexeme → ¬ s.Finds h key g) → s'.get? h key = s.get? h key) ∧
    ((∀ d g, s.ancestor? f d = some g → s.local? g name.lexeme = none) →
      Access.get f name s = .error (Access.undefined name) s ∧
      Access.assign f name v s = .error (Access.undefined name) s) ∧
    ∀ d, (s.getAt? f d name.lexeme = none →
        Access.assignAt f d name v s = .error (Access.undefined name) s) ∧
      ((∃ w, s.getAt? f d name.lexeme = some w) →
        ∃ s', Access.assignAt f d name v s = .ok () s') := by
  refine ⟨?_, ?_, ?_⟩
  · intro d g hd
    obtain ⟨w, hw⟩ := Option.isSome_iff_exists.1 hd.binds
    have hread : s.getAt? f d name.lexeme = some w := by
      rw [Store.getAt?, hd.reached, Option.bind_some, hw]
    have hrewritten := Store.rewritten_define hd.binds v
    refine ⟨w, s.define g name.lexeme v, hread, ?_, ?_, ?_, hrewritten, ?_, ?_⟩
    · rw [Access.run_get, hd.get?_eq hs, hread]
    · rw [Access.run_assign, hd.assign?_eq hs]
    · rw [Access.run_assignAt, hd.assignAt?_eq]
    · intro h hh
      exact hrewritten.get?_found hd.binds hs hh
    · intro h key hh
      apply hrewritten.get?_other hd.binds hs
      rintro rfl
      exact hh rfl
  · intro hnone
    have hholder : s.holder? f name.lexeme = none := by
      rw [hs.holder?_eq_none_iff]
      rintro g ⟨d, hd⟩
      have hbinds := hd.binds
      simp [hnone d g hd.reached] at hbinds
    rw [Access.run_get, Access.run_assign, Store.get?, Store.assign?, hholder]
    exact ⟨rfl, rfl⟩
  · intro d
    rw [Access.run_assignAt]
    constructor
    · intro hnone
      rw [Store.assignAt?_eq_none_iff.2 hnone]
    · rintro ⟨w, hw⟩
      cases ha : s.assignAt? f d name.lexeme v with
      | some s' => exact ⟨s', rfl⟩
      | none =>
        rw [Store.assignAt?_eq_none_iff, hw] at ha
        cases ha

/-- The globals, a frame that has x, and a frame inside that one. -/
def Store.nested : Store :=
  ((Store.start.openFrame (some .globals) [("x", .bool true)]).2.openFrame (some 1) []).2

theorem Store.outward_nested : Store.nested.Outward := by
  apply Outward.openFrame
  · apply Outward.openFrame
    · intro f p hp
      cases f <;> cases hp
    · decide
  · decide

/-- The innermost frame writes what the one around it has, which the globals do not see; a name that
is nowhere is refused. -/
theorem walked_as_counted_nested :
    Store.nested.Outward ∧ Store.nested.FirstAt 2 "x" 1 1 ∧
      (∃ s', Access.assign 2 (.synthetic .identifier "x") .nil Store.nested = .ok () s' ∧
        s'.get? 2 "x" = some .nil ∧ s'.get? 0 "x" = none) ∧
      Access.get 2 (.synthetic .identifier "y") Store.nested =
        .error ⟨.undefinedVariable "y", .nowhere⟩ Store.nested := by
  have hs := Store.outward_nested
  have hfirst : Store.nested.FirstAt 2 "x" 1 1 := .further rfl rfl (.here rfl)
  obtain ⟨hx, -, -⟩ := walked_as_counted _ hs 2 (.synthetic .identifier "x") .nil
  obtain ⟨-, hy, -⟩ := walked_as_counted _ hs 2 (.synthetic .identifier "y") .nil
  refine ⟨hs, hfirst, ?_, ?_⟩
  · obtain ⟨w, s', -, -, hassign, -, -, hfound, hother⟩ := hx 1 1 hfirst
    refine ⟨s', hassign, hfound 2 ⟨1, hfirst⟩, ?_⟩
    rw [hother 0 "x"]
    · rfl
    · intro _ hfinds
      cases hs.holder?_eq_some_iff.2 hfinds
  · refine (hy ?_).1
    intro d g hg
    match d with
    | 0 | 1 | 2 =>
      cases hg
      rfl
    | d + 3 => cases hg

end Scriptling
