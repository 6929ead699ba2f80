import Scriptling.Operator
import Scriptling.Store.Property

namespace Scriptling

namespace Store

variable {s s' : Store}

/-- Methods are found by the classes alone. -/
theorem findWithin?_congr (h : s'.classes = s.classes) (table : ClassRecord → Table ClosureId)
    (name : String) (bound : Nat) (c : ClassId) :
    s'.findWithin? table name bound c = s.findWithin? table name bound c := by
  induction bound generalizing c with
  | zero => rfl
  | succ bound ih =>
    have hih : s'.findWithin? table name bound = s.findWithin? table name bound := funext ih
    simp only [findWithin?, h, hih]

/-- Methods are found by the classes alone. -/
theorem findMethod?_congr (h : s'.classes = s.classes) (c : ClassId) (name : String) :
    s'.findMethod? c name = s.findMethod? c name := findWithin?_congr h _ _ _ _

theorem findStatic?_congr (h : s'.classes = s.classes) (c : ClassId) (name : String) :
    s'.findStatic? c name = s.findStatic? c name := findWithin?_congr h _ _ _ _

/-- Properties are found by the classes and the instances. -/
theorem property_congr (hc : s'.classes = s.classes) (ho : s'.objects = s.objects) (v : Value)
    (name : String) : s'.property v name = s.property v name := by
  simp only [property, objectProperty, classProperty, hc, ho, findMethod?_congr hc,
    findStatic?_congr hc]

/-- Of a function nothing but its arity is asked for when it is called. -/
theorem arity?_congr (hc : s'.classes = s.classes)
    (ha : ∀ id : ClosureId, s'.closures[id]?.map (fun c => c.decl.arity) =
      s.closures[id]?.map fun c => c.decl.arity) (v : Value) : s'.arity? v = s.arity? v := by
  cases v with
  | closure id => exact ha id
  | classRef c =>
    simp only [arity?, classArity, findMethod?_congr hc]
    cases s.findMethod? c "init" with
    | none => rfl
    | some id =>
      have hid := ha id
      rw [Option.bind_some, Option.bind_some]
      cases hs : s.closures[id]? <;> cases hs' : s'.closures[id]? <;> simp_all
  | _ => rfl

theorem closureName_congr
    (hn : ∀ id : ClosureId, s'.closures[id]?.map (fun c => c.decl.name) =
      s.closures[id]?.map fun c => c.decl.name) (id : ClosureId) :
    s'.closureName id = s.closureName id := by
  have hid := hn id
  simp only [closureName]
  cases hs : s.closures[id]? <;> cases hs' : s'.closures[id]? <;> simp_all

theorem className_congr (hc : s'.classes = s.classes) (c : ClassId) :
    s'.className c = s.className c := by
  simp only [className, hc]

theorem objectClassName_congr (hc : s'.classes = s.classes) (ho : s'.objects = s.objects)
    (o : ObjectId) : s'.objectClassName o = s.objectClassName o := by
  simp only [objectClassName, ho, className_congr hc]

/-- The text of a value needs the classes, the instances and the names of functions. -/
theorem text_congr (hc : s'.classes = s.classes) (ho : s'.objects = s.objects)
    (hn : ∀ id : ClosureId, s'.closures[id]?.map (fun c => c.decl.name) =
      s.closures[id]?.map fun c => c.decl.name) (v : Value) : s'.text v = s.text v := by
  cases v <;>
    simp only [text, closureName_congr hn, className_congr hc, objectClassName_congr hc ho]

theorem typeName_congr (hc : s'.classes = s.classes) (ho : s'.objects = s.objects) (v : Value) :
    s'.typeName v = s.typeName v := by
  cases v <;> simp only [typeName, objectClassName_congr hc ho]

/-- A method that is found is in the table of some class. -/
theorem findWithin?_table {R : ClosureId → Prop} {table : ClassRecord → Table ClosureId}
    {name : String} (htable : ∀ (c : ClassId) (r : ClassRecord), s.classes[c]? = some r →
      ∀ id, (table r).get? name = some id → R id) {bound : Nat} {c : ClassId} {id : ClosureId}
    (h : s.findWithin? table name bound c = some id) : R id := by
  induction bound generalizing c with
  | zero => cases h
  | succ bound ih =>
    rw [findWithin?] at h
    cases hr : s.classes[c]? with
    | none =>
      rw [hr] at h
      cases h
    | some r =>
      rw [hr] at h
      dsimp only at h
      cases hm : (table r).get? name with
      | some k =>
        rw [hm] at h
        cases h
        exact htable c r hr id hm
      | none =>
        rw [hm] at h
        obtain ⟨p, -, hp⟩ := Option.bind_eq_some_iff.1 h
        exact ih hp

/-- A property that is a field is in the fields of some instance or class. -/
theorem property_field {R : Value → Prop} {v u : Value} {name : String}
    (hclasses : ∀ (c : ClassId) (r : ClassRecord), s.classes[c]? = some r →
      ∀ a, r.fields.get? name = some a → R a)
    (hobjects : ∀ (o : ObjectId) (ob : Object), s.objects[o]? = some ob →
      ∀ a, ob.fields.get? name = some a → R a)
    (hp : s.property v name = .ok (.field u)) : R u := by
  unfold property at hp
  split at hp
  · split at hp
    · rename_i o ho
      unfold objectProperty at hp
      split at hp
      · rename_i x hx
        cases hp
        exact hobjects _ o ho _ hx
      · split at hp
        · cases hp
        · split at hp <;> cases hp
    · cases hp
  · split at hp
    · rename_i c hc
      unfold classProperty at hp
      split at hp
      · rename_i x hx
        cases hp
        exact hclasses _ c hc _ hx
      · split at hp
        · cases hp
        · split at hp <;> cases hp
    · cases hp
  · cases hp

/-- A property that is a method is found in the classes. -/
theorem property_method {v : Value} {name : String} {id : ClosureId}
    (hp : s.property v name = .ok (.method id)) :
    ∃ c, s.findMethod? c name = some id ∨ s.findStatic? c name = some id := by
  unfold property at hp
  split at hp
  · split at hp
    · unfold objectProperty at hp
      split at hp
      · cases hp
      · split at hp
        · rename_i k hk
          cases hp
          exact ⟨_, .inl hk⟩
        · split at hp <;> cases hp
    · cases hp
  · split at hp
    · unfold classProperty at hp
      split at hp
      · cases hp
      · split at hp
        · rename_i k hk
          cases hp
          exact ⟨_, .inr hk⟩
        · split at hp <;> cases hp
    · cases hp
  · cases hp

end Store

/-- A value that refers to nothing in a store. -/
def Value.Constant : Value → Prop
  | .nil | .bool _ | .number _ | .string _ => True
  | _ => False

namespace Operator

theorem constant_numbers {k : Float → Float → Except RuntimeFault Value}
    (hk : ∀ a b v, k a b = .ok v → v.Constant) {l r v : Value} (h : numbers k l r = .ok v) :
    v.Constant := by
  unfold numbers at h
  split at h
  · exact hk _ _ _ h
  · cases h

theorem constant_relate {holds : Ordering → Bool} {l r v : Value} (h : relate holds l r = .ok v) :
    v.Constant := by
  unfold relate at h
  split at h <;> cases h <;> trivial

theorem constant_add {l r v : Value} (h : add l r = .ok v) : v.Constant := by
  unfold add at h
  split at h <;> cases h <;> trivial

theorem constant_divide {a b : Float} {v : Value} (h : divide a b = .ok v) : v.Constant := by
  unfold divide at h
  split at h <;> cases h
  trivial

theorem constant_quotient {a b : Float} {v : Value} (h : quotient a b = .ok v) : v.Constant := by
  unfold quotient at h
  split at h <;> cases h
  trivial

theorem constant_apply {kind : Kind} {lexeme : String} {l r v : Value}
    (h : Operator.apply kind lexeme l r = .ok v) : v.Constant := by
  have hnumber : ∀ k : Float → Float → Float, ∀ a b v,
      (Except.ok (.number (k a b)) : Except RuntimeFault Value) = .ok v → v.Constant := by
    intro k a b v hv
    cases hv
    trivial
  unfold Operator.apply at h
  split at h
  · exact constant_add h
  · exact constant_numbers (hnumber _) h
  · exact constant_numbers (hnumber _) h
  · exact constant_numbers (fun _ _ _ => constant_divide) h
  · exact constant_numbers (fun _ _ _ => constant_quotient) h
  · exact constant_numbers (hnumber fun a b => Float.ofBits (Number.remainder a.toBits b.toBits)) h
  · exact constant_relate h
  · exact constant_relate h
  · exact constant_relate h
  · exact constant_relate h
  · cases h
    trivial
  · cases h
    trivial
  · cases h

end Operator

end Scriptling
