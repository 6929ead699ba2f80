import Scriptling.Proofs.Realms
import Scriptling.Proofs.Register

namespace Scriptling

open Machine

variable {α : Type} {s s' : Store} {m m₁ : Machine} {o v : Value} {name : String}

/-- The value of an own field of an instance or a class. -/
def Store.field? (s : Store) (o : Value) (name : String) : Option Value :=
  match o with
  | .object id => s.objects[id]?.bind (·.fields.get? name)
  | .classRef id => s.classes[id]?.bind (·.fields.get? name)
  | _ => none

/-- Fields are those of the instances and the classes. -/
theorem Store.field?_congr (hobjects : s'.objects = s.objects) (hclasses : s'.classes = s.classes)
    (o : Value) (name : String) : s'.field? o name = s.field? o name := by
  cases o with
  | object id => rw [field?, field?, hobjects]
  | classRef id => rw [field?, field?, hclasses]
  | _ => rfl

/-- Two stores that differ in the fields of one instance or class at most. -/
structure Store.SameBut (o : Value) (s s' : Store) : Prop where
  frames : s'.frames = s.frames
  closures : s'.closures = s.closures
  objects : ∀ i, o ≠ .object i → s'.objects[i]? = s.objects[i]?
  classes : ∀ c, o ≠ .classRef c → s'.classes[c]? = s.classes[c]?
  instanceOf : ∀ i : ObjectId, s'.objects[i]?.map (·.instanceOf) = s.objects[i]?.map (·.instanceOf)
  declared : ∀ c : ClassId, s'.classes[c]?.map ({ · with fields := [] }) =
    s.classes[c]?.map ({ · with fields := [] })

theorem Store.sameBut_setField (s : Store) (o : Value) (name : String) (v : Value) :
    s.SameBut o (s.setField o name v) := by
  cases o with
  | object id =>
    refine ⟨rfl, rfl, fun i hi => ?_, fun _ _ => rfl, fun i => ?_, fun _ => rfl⟩
    · exact Array.getElem?_modify.trans (if_neg fun h => hi (congrArg _ h))
    · rw [setField, Array.getElem?_modify]
      split
      · rw [Option.map_map]
        rfl
      · rfl
  | classRef id =>
    refine ⟨rfl, rfl, fun _ _ => rfl, fun c hc => ?_, fun _ => rfl, fun c => ?_⟩
    · exact Array.getElem?_modify.trans (if_neg fun h => hc (congrArg _ h))
    · rw [setField, Array.getElem?_modify]
      split
      · rw [Option.map_map]
        rfl
      · rfl
  | _ => exact ⟨rfl, rfl, fun _ _ => rfl, fun _ _ => rfl, fun _ => rfl, fun _ => rfl⟩

/-- A field that is set has the value, and the other fields keep theirs. -/
theorem Store.field?_setField (ho : o.Allocated s) (hfields : hasFields o = true) (name : String)
    (v : Value) (o' : Value) (key : String) : (s.setField o name v).field? o' key =
      if o.same o' && name == key then some v else s.field? o' key := by
  cases o with
  | object id =>
    obtain ⟨ob, hob⟩ : ∃ ob, s.objects[id]? = some ob := ⟨_, Array.getElem?_eq_getElem ho⟩
    cases o' with
    | object i =>
      rw [field?, field?, setField, Array.getElem?_modify]
      by_cases hi : id = i
      · subst hi
        simp [Value.same, hob]
      · simp [Value.same, hi]
    | _ => rfl
  | classRef id =>
    obtain ⟨c, hc⟩ : ∃ c, s.classes[id]? = some c := ⟨_, Array.getElem?_eq_getElem ho⟩
    cases o' with
    | classRef i =>
      rw [field?, field?, setField, Array.getElem?_modify]
      by_cases hi : id = i
      · subst hi
        simp [Value.same, hc]
      · simp [Value.same, hi]
    | _ => rfl
  | _ => cases hfields

theorem Value.same_self (hfields : Store.hasFields o = true) : o.same o = true := by
  cases o with
  | object id => exact beq_self_eq_true id
  | classRef id => exact beq_self_eq_true id
  | _ => cases hfields

/-- A field that is set has the value it was given. -/
theorem Store.field?_setField_self (ho : o.Allocated s) (hfields : hasFields o = true)
    (name : String) (v : Value) : (s.setField o name v).field? o name = some v := by
  rw [field?_setField ho hfields, Value.same_self hfields, beq_self_eq_true]
  rfl

/-- No other field of the object changes. -/
theorem Store.field?_setField_of_ne (ho : o.Allocated s) (hfields : hasFields o = true)
    {key : String} (hkey : key ≠ name) (v : Value) :
    (s.setField o name v).field? o key = s.field? o key := by
  rw [field?_setField ho hfields, beq_false_of_ne hkey.symm, Bool.and_false]
  rfl

/-- What is not there is not changed. -/
theorem Store.setField_of_not_allocated (s : Store) (ho : ¬ o.Allocated s) (name : String)
    (v : Value) : s.setField o name v = s := by
  have hmodify : ∀ {β : Type} {xs : Array β} {i : Nat} (f : β → β), ¬ i < xs.size →
      xs.modify i f = xs := by
    intro β xs i f hi
    refine Array.ext_getElem? fun j => ?_
    rw [Array.getElem?_modify]
    split
    · subst j
      rw [Array.getElem?_eq_none (Nat.le_of_not_lt hi)]
      rfl
    · rfl
  cases o with
  | object id => rw [setField, hmodify _ ho]
  | classRef id => rw [setField, hmodify _ ho]
  | _ => rfl

structure FieldWrite where
  object : Value
  name : String
  value : Value

/-- The value that a field is given last. -/
def FieldWrite.last? (ws : List FieldWrite) (o : Value) (name : String) : Option Value :=
  (ws.reverse.find? fun w => w.object.same o && w.name == name).map (·.value)

/-- The last write is the last one of the later writes, if one of these is to the field. -/
theorem FieldWrite.last?_append (ws ws' : List FieldWrite) (o : Value) (name : String) :
    last? (ws ++ ws') o name = (last? ws' o name).or (last? ws o name) := by
  rw [last?, List.reverse_append, List.find?_append, Option.map_or]
  rfl

/-- An instance, or a class that is there. Instances are made without fields, classes with theirs. -/
def Value.Tracked (s : Store) : Value → Prop
  | .classRef c => c < s.classes.size
  | _ => True

theorem Value.Tracked.mono (h : o.Tracked s) (hs : s.Grows s') : o.Tracked s' := by
  cases o with
  | classRef c => exact Nat.lt_of_lt_of_le h hs.classes.size_le
  | _ => trivial

/-- One store after the other, with the same fields. -/
def Store.KeepsFields (s s' : Store) : Prop :=
  ∀ (o : Value) name, o.Tracked s → s'.field? o name = s.field? o name

/-- The fields that an action sets on a machine, in order. Of the single actions only a write of a
property sets one, and the others leave all fields. -/
inductive Eval.Writes : {α : Type} → Eval α → Machine → List FieldWrite → Prop
  | write {o : Value} (name : Token) (v : Value) {m : Machine} : Store.hasFields o = true →
    o.Allocated m.store → Writes (writeProperty o name v) m [⟨o, name.lexeme, v⟩]
  | single {α : Type} {a : Eval α} {g : FrameId} {Q : α → Prop} {m : Machine} :
    Eval.Single .any g a Q → m.store.KeepsFields (after a m).store → Writes a m []
  | readInput (site : Token) (prompt : Option Value) (m : Machine) :
    Writes (Builtin.readInput site prompt) m []
  | look {α : Type} {k : Machine → Eval α} {m : Machine} {ws : List FieldWrite} :
    Writes (k m) m ws → Writes (get >>= k) m ws
  | next {α β : Type} {a : Eval α} {k : α → Eval β} {m m₁ : Machine} {v : α}
    {ws ws' : List FieldWrite} : Writes a m ws → a.run m = .ok v m₁ → Writes (k v) m₁ ws' →
    Writes (a >>= k) m (ws ++ ws')
  | stop {α β : Type} {a : Eval α} {k : α → Eval β} {m m₁ : Machine} {e : Stop}
    {ws : List FieldWrite} : Writes a m ws → a.run m = .error e m₁ → Writes (a >>= k) m ws
  | inFrame {α : Type} {f : FrameId} {a : Eval α} {m : Machine} {ws : List FieldWrite} :
    Writes a { m with current := f } ws → Writes (inFrame f a) m ws

open Eval

/-- The store after some writes: each field has the value it was given last, or else the one that it
had. -/
structure Store.Written (ws : List FieldWrite) (s s' : Store) : Prop where
  grows : s.Grows s'
  fields : ∀ (o : Value) name, o.Tracked s →
    s'.field? o name = (FieldWrite.last? ws o name).or (s.field? o name)

namespace Store.Written

variable {s'' : Store} {ws ws' : List FieldWrite}

theorem kept (hgrows : s.Grows s') (h : s.KeepsFields s') : s.Written [] s' :=
  ⟨hgrows, fun o name ho => (h o name ho).trans (Option.none_or).symm⟩

theorem trans (h : s.Written ws s') (h' : s'.Written ws' s'') : s.Written (ws ++ ws') s'' := by
  refine ⟨h.grows.trans h'.grows, fun o name ho => ?_⟩
  rw [h'.fields o name (ho.mono h.grows), h.fields o name ho, FieldWrite.last?_append,
    Option.or_assoc]

/-- A write of a field leaves all fields as one write does. -/
theorem setField (ho : o.Allocated s) (hfields : hasFields o = true) (name : String) (v : Value) :
    s.Written [⟨o, name, v⟩] (s.setField o name v) := by
  refine ⟨grows_setField s o name v, fun o' key _ => ?_⟩
  rw [field?_setField ho hfields, FieldWrite.last?, List.reverse_singleton]
  cases h : o.same o' && name == key <;> simp [h]

end Store.Written

/-- Whatever machine it is given, the action leaves its store alone. -/
def Eval.KeepsStore (a : Eval α) : Prop := ∀ m, (after a m).store = m.store

theorem Eval.KeepsStore.bind {a : Eval α} {k : α → Eval β} (ha : KeepsStore a)
    (hk : ∀ v, KeepsStore (k v)) : KeepsStore (a >>= k) := by
  intro m
  have hm := ha m
  cases hr : a.run m with
  | ok v m₁ =>
    rw [after_ok hr] at hm
    rw [after, Eval.run_bind_ok hr]
    exact (hk v m₁).trans hm
  | error e m₁ =>
    rw [after_error hr] at hm
    rw [after_error (Eval.run_bind_error hr)]
    exact hm

theorem Machine.keepsStore_write (text : String) : Eval.KeepsStore (write text) := by
  intro m
  rw [after, run_write]
  cases (m.output.write text).1 <;> rfl

theorem Machine.keepsStore_readLine : Eval.KeepsStore readLine := by
  have hflush : Eval.KeepsStore flush := by
    intro m
    rw [after, run_flush]
    cases m.output.flush.1 <;> rfl
  refine hflush.bind fun _ m => ?_
  rw [after, run_takeLine]
  cases m.input.isEmpty with
  | true => rfl
  | false => cases Input.lineText (Input.cutLine m.input).1 <;> rfl

theorem Builtin.keepsStore_readInput (site : Token) (prompt : Option Value) :
    Eval.KeepsStore (readInput site prompt) := by
  have hread := keepsStore_readLine.bind (k := fun line => pure (lineValue line)) fun _ _ => rfl
  unfold readInput
  split
  · exact hread
  · exact (keepsStore_write _).bind fun _ => hread
  · exact fun _ => rfl

/-- After an action the fields are as its writes have left them. -/
theorem Eval.Writes.written {a : Eval α} {ws : List FieldWrite} (h : Writes a m ws) :
    m.store.Written ws (after a m).store := by
  induction h with
  | write name v hfields ho =>
    rw [after, run_writeProperty, if_pos hfields]
    exact .setField ho hfields name.lexeme v
  | single h hkept => exact .kept (h.runs _).grows hkept
  | readInput site prompt m =>
    rw [Builtin.keepsStore_readInput site prompt m]
    exact .kept (.refl _) fun _ _ _ => rfl
  | look _ ih => exact ih
  | next _ hrun _ iha ihk =>
    rw [after_ok hrun] at iha
    rw [after, Eval.run_bind_ok hrun]
    exact iha.trans ihk
  | stop _ hrun ih =>
    rw [after_error hrun] at ih
    rw [after_error (Eval.run_bind_error hrun)]
    exact ih
  | @inFrame α f a m ws _ ih =>
    rw [after] at ih
    rw [after, Eval.run_inFrame]
    cases hr : a.run { m with current := f } with
    | ok v m₁ =>
      rw [hr] at ih
      exact ih
    | error e m₁ =>
      rw [hr] at ih
      exact ih

theorem Store.keepsFields_newObject (s : Store) (c : ClassId) :
    s.KeepsFields (s.newObject c).2 := by
  intro o name _
  cases o with
  | object id =>
    rw [field?, field?, newObject, Array.getElem?_push]
    split
    · subst id
      rw [Array.getElem?_size]
      rfl
    · rfl
  | _ => rfl

theorem Store.keepsFields_newClass (s : Store) (c : ClassRecord) :
    s.KeepsFields (s.newClass c).2 := by
  intro o name ho
  cases o with
  | classRef id =>
    rw [field?, field?, newClass, Array.getElem?_push, if_neg (Nat.ne_of_lt ho)]
  | _ => rfl

/-- Every single action has its writes: those of a property that can be set, and none else. -/
theorem Eval.Single.writes {g : FrameId} {a : Eval α} {Q : α → Prop}
    (h : Eval.Single .any g a Q) (m : Machine) : ∃ ws, Eval.Writes a m ws := by
  have hnone : m.store.KeepsFields (after a m).store → ∃ ws, Eval.Writes a m ws :=
    fun hkeeps => ⟨[], .single h hkeeps⟩
  have hkept : (after a m).store = m.store ∨ (after a m).store.objects = m.store.objects ∧
      (after a m).store.classes = m.store.classes → ∃ ws, Eval.Writes a m ws := by
    rintro (hstore | ⟨hobjects, hclasses⟩)
    · exact hnone fun o name _ => by rw [hstore]
    · exact hnone fun o name _ => Store.field?_congr hobjects hclasses o name
  cases h with
  | @assign id name v create hh =>
    rw [after, run_assign] at hkept
    cases hf : m.target? id name.lexeme create <;> rw [hf] at hkept <;> exact hkept (.inr ⟨rfl, rfl⟩)
  | writeProperty object name v =>
    rw [after, run_writeProperty] at hkept
    by_cases hfields : Store.hasFields object = true
    · rw [if_pos hfields] at hkept
      by_cases ho : object.Allocated m.store
      · exact ⟨_, .write name v hfields ho⟩
      · exact hkept (.inl (m.store.setField_of_not_allocated ho name.lexeme v))
    · rw [if_neg hfields] at hkept
      exact hkept (.inl rfl)
  | write text =>
    rw [after, run_write] at hkept
    cases hfits : (m.output.write text).1 <;> rw [hfits] at hkept <;> exact hkept (.inl rfl)
  | bindMethod method receiver =>
    refine hkept (.inr ?_)
    rw [after_ok (Eval.run_bindMethod m method receiver), Store.bindMethod]
    split <;> exact ⟨rfl, rfl⟩
  | newClass c => exact hnone (m.store.keepsFields_newClass c)
  | newObject c => exact hnone (m.store.keepsFields_newObject c)
  | _ => exact hkept (.inr ⟨rfl, rfl⟩)

/-- All writes of the parts are known, on every machine. -/
structure Below.Recorded (b : Below) : Prop where
  evaluate : ∀ (e : Expr) (m : Machine), ∃ ws, Eval.Writes (b.evaluate e) m ws
  execute : ∀ (s : Stmt) (m : Machine), ∃ ws, Eval.Writes (b.execute s) m ws

/-- Whatever is made of actions and of parts whose writes are known has known writes. -/
theorem Below.Recorded.composed {b : Below} (h : b.Recorded) (hb : Realm.any.Governs b) {g : FrameId}
    {a a' : Eval α} {Q : α → Prop} (ha : Eval.Composed .any b b g a a' Q) :
    ∀ m : Machine, m.current = g → ∃ ws, Eval.Writes a m ws := by
  induction ha with
  | single h => exact fun m _ => h.writes m
  | readInput site prompt => exact fun m _ => ⟨[], .readInput site prompt m⟩
  | look _ _ ih =>
    intro m hg
    obtain ⟨ws, hws⟩ := ih m hg (Realm.admits_any _) m hg
    exact ⟨ws, .look hws⟩
  | @bind g α β a a' k k' P Q ha _ iha ihk =>
    intro m hg
    obtain ⟨ws, hws⟩ := iha m hg
    have hends := hb.composed ha m hg (Realm.admits_any _)
    cases hr : a.run m with
    | ok v m₁ =>
      rw [hr] at hends
      obtain ⟨ws', hws'⟩ := ihk v hends.2.2 m₁ hends.1
      exact ⟨ws ++ ws', .next hws hr hws'⟩
    | error e m₁ => exact ⟨ws, .stop hws hr⟩
  | inFrame _ ih =>
    intro m _
    obtain ⟨ws, hws⟩ := ih { m with current := _ } rfl
    exact ⟨ws, .inFrame hws⟩
  | evaluate _ => exact fun m _ => h.evaluate _ m
  | execute _ _ => exact fun m _ => h.execute _ m
  | spent hlt => exact absurd hlt (Nat.lt_irrefl _)

/-- Evaluation up to any depth has its writes. -/
theorem Below.recorded_upTo (depth : Nat) : (Below.upTo depth).Recorded := by
  induction depth with
  | zero =>
    exact ⟨fun _ m => (Eval.Single.exhausted (g := .globals) (Q := fun _ => True)).writes m,
      fun _ m => (Eval.Single.exhausted (g := .globals) (Q := fun _ => True)).writes m⟩
  | succ depth ih =>
    have hb := Realm.any.governs_upTo depth
    refine ⟨fun e m => ?_, fun s m => ?_⟩
    · exact ih.composed hb (composed_evaluateStep (Realm.hosts_of_frame trivial _)) m rfl
    · exact ih.composed hb (composed_executeStep (Nat.le_refl _) trivial fun _ _ => trivial) m rfl

end Scriptling
