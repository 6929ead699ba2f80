import Scriptling.Eval

namespace Scriptling

variable {α β : Type}

theorem Eval.run_bind_ok {a : Eval α} {k : α → Eval β} {v : α} {m m₁ : Machine}
    (h : a.run m = .ok v m₁) : (a >>= k).run m = (k v).run m₁ := by
  rw [EStateM.run_bind, h]

theorem Eval.run_bind_error {a : Eval α} {k : α → Eval β} {e : Stop} {m m₁ : Machine}
    (h : a.run m = .error e m₁) : (a >>= k).run m = .error e m₁ := by
  rw [EStateM.run_bind, h]

theorem Eval.run_inFrame {g : FrameId} (a : Eval α) (m : Machine) : (Machine.inFrame g a).run m =
    match a.run { m with current := g } with
    | .ok v m₁ => .ok v { m₁ with current := m.current }
    | .error e m₁ => .error e { m₁ with current := m.current } := rfl

namespace Machine

/-- The machine that evaluation leaves, whether or not it gives a result. -/
def after (act : Eval α) (m : Machine) : Machine :=
  match act.run m with
  | .ok _ m₁ => m₁
  | .error _ m₁ => m₁

theorem after_ok {act : Eval α} {m m₁ : Machine} {v : α} (h : act.run m = .ok v m₁) :
    after act m = m₁ := by
  rw [after, h]

theorem after_error {act : Eval α} {m m₁ : Machine} {e : Stop} (h : act.run m = .error e m₁) :
    after act m = m₁ := by
  rw [after, h]

/-- The single steps of a machine, each of which changes one part, and excursions into other frames
that end where they began. Whatever is evaluated leaves a machine reached by these. -/
inductive Step : Machine → Machine → Prop
  | openFrame (m : Machine) (parent : FrameId) (bindings : Table Value) :
      Step m { m with store := (m.store.openFrame (some parent) bindings).2 }
  | define (m : Machine) (f : FrameId) (name : String) (v : Value) :
      Step m { m with store := m.store.define f name v }
  | newClosure (m : Machine) (c : Closure) : Step m { m with store := (m.store.newClosure c).2 }
  | newClass (m : Machine) (c : ClassRecord) : Step m { m with store := (m.store.newClass c).2 }
  | newObject (m : Machine) (c : ClassId) : Step m { m with store := (m.store.newObject c).2 }
  | setField (m : Machine) (o : Value) (name : String) (v : Value) :
      Step m { m with store := m.store.setField o name v }
  | write (m : Machine) (text : String) : Step m { m with output := (m.output.write text).2 }
  | takeLine (m : Machine) : Step m { m with input := (Input.cutLine m.input).2 }
  | flush (m : Machine) : Step m { m with output := m.output.flush.2 }
  | clock (m : Machine) (clock : Supply Int) : Step m { m with clock }
  | chances (m : Machine) (chances : Supply Nat) : Step m { m with chances }

/-- Steps one after the other, some of them taken inside another frame. -/
inductive Reaches : Machine → Machine → Prop
  | refl (m : Machine) : Reaches m m
  | step {m m₁ : Machine} : Step m m₁ → Reaches m m₁
  | trans {m m₁ m₂ : Machine} : Reaches m m₁ → Reaches m₁ m₂ → Reaches m m₂
  | inside {m m₁ : Machine} (f : FrameId) : Reaches { m with current := f } m₁ →
      Reaches m { m₁ with current := m.current }

theorem Reaches.current_eq {m m₁ : Machine} (h : m.Reaches m₁) : m₁.current = m.current := by
  induction h with
  | refl => rfl
  | step h => cases h <;> rfl
  | trans _ _ ih ih' => exact ih'.trans ih
  | inside => rfl

/-- Only the scope walk makes notes, and it is no part of evaluation. -/
theorem Reaches.distances_eq {m m₁ : Machine} (h : m.Reaches m₁) :
    m₁.distances = m.distances := by
  induction h with
  | refl => rfl
  | step h => cases h <;> rfl
  | trans _ _ ih ih' => exact ih'.trans ih
  | inside _ _ ih => exact ih

/-- The steps of one action, and then those of the next. -/
theorem Reaches.bind {a : Eval α} {k : α → Eval β} {m : Machine} (ha : m.Reaches (after a m))
    (hk : ∀ v m₁, a.run m = .ok v m₁ → m₁.Reaches (after (k v) m₁)) :
    m.Reaches (after (a >>= k) m) := by
  cases hr : a.run m with
  | ok v m₁ =>
    rw [after_ok hr] at ha
    have hafter : after (a >>= k) m = after (k v) m₁ := by
      rw [after, Eval.run_bind_ok hr, after]
    rw [hafter]
    exact ha.trans (hk v m₁ hr)
  | error e m₁ =>
    rw [after_error hr] at ha
    rw [after_error (Eval.run_bind_error hr)]
    exact ha

/-- What is done inside another frame ends in the one it began in. -/
theorem Reaches.inFrame {a : Eval α} {f : FrameId} {m : Machine}
    (ha : Reaches { m with current := f } (after a { m with current := f })) :
    m.Reaches (after (Machine.inFrame f a) m) := by
  have hm := Reaches.inside f ha
  cases hr : a.run { m with current := f } with
  | ok v m₁ =>
    rw [after_ok hr] at hm
    rwa [after, Eval.run_inFrame, hr]
  | error e m₁ =>
    rw [after_error hr] at hm
    rwa [after, Eval.run_inFrame, hr]

end Machine

/-- Whatever machine it is given, the one it leaves is reached from there. -/
def Eval.Runs (act : Eval α) : Prop := ∀ m : Machine, m.Reaches (Machine.after act m)

open Machine

namespace Eval.Runs

theorem pure (v : α) : Runs (pure v) := .refl

theorem throw (e : Stop) : Runs (throw e : Eval α) := .refl

theorem fail (token : Token) (fault : RuntimeFault) : Runs (Machine.fail token fault : Eval α) :=
  throw _

theorem bind {a : Eval α} {k : α → Eval β} (ha : Runs a) (hk : ∀ v, Runs (k v)) :
    Runs (a >>= k) := fun m => (ha m).bind fun v m₁ _ => hk v m₁

theorem get {k : Machine → Eval β} (hk : ∀ m, Runs (k m)) : Runs (get >>= k) := fun m => hk m m

theorem inFrame {a : Eval α} (f : FrameId) (ha : Runs a) : Runs (Machine.inFrame f a) :=
  fun _ => (ha _).inFrame

theorem current_eq {act : Eval α} (h : act.Runs) (m : Machine) :
    (after act m).current = m.current := (h m).current_eq

end Eval.Runs

open Eval

theorem runs_openFrame (parent : FrameId) (bindings : Table Value) :
    Runs (openFrame parent bindings) := fun m => .step (.openFrame m parent bindings)

theorem runs_define (f : FrameId) (name : String) (v : Value) : Runs (define f name v) :=
  fun m => .step (.define m f name v)

theorem runs_newClosure (c : Closure) : Runs (newClosure c) := fun m => .step (.newClosure m c)

theorem runs_newClass (c : ClassRecord) : Runs (newClass c) := fun m => .step (.newClass m c)

theorem runs_newObject (c : ClassId) : Runs (newObject c) := fun m => .step (.newObject m c)

/-- A receiver's frame is opened, and the copy is made in it. -/
theorem runs_bindMethod (method : ClosureId) (receiver : Value) :
    Runs (bindMethod method receiver) := by
  intro m
  change m.Reaches { m with store := (m.store.bindMethod method receiver).2 }
  unfold Store.bindMethod
  split
  · exact .refl m
  · rename_i c _
    exact .trans (.step (.openFrame m c.scope [("this", receiver)])) (.step (.newClosure _ _))

theorem Machine.run_assign (m : Machine) (id : ExprId) (name : Token) (v : Value) (create : Bool) :
    (assign id name v create).run m =
      match m.target? id name.lexeme create with
      | some f => .ok () { m with store := m.store.define f name.lexeme v }
      | none => .error (.failed (.runtime ⟨.undefinedVariable name.lexeme, name.place⟩)) m := by
  change EStateM.run (match m.target? id name.lexeme create with
    | some f => define f name.lexeme v
    | none => fail name (.undefinedVariable name.lexeme)) m = _
  split <;> rfl

theorem runs_assign (id : ExprId) (name : Token) (v : Value) (create : Bool) :
    Runs (assign id name v create) := by
  refine .get fun m => ?_
  split
  · exact runs_define _ _ _
  · exact .fail _ _

theorem Machine.run_writeProperty (m : Machine) (o : Value) (name : Token) (v : Value) :
    (writeProperty o name v).run m =
      if Store.hasFields o then .ok () { m with store := m.store.setField o name.lexeme v }
      else .error (.failed (.runtime ⟨.noFields, name.place⟩)) m := by
  unfold writeProperty
  split <;> rfl

theorem runs_writeProperty (object : Value) (name : Token) (v : Value) :
    Runs (writeProperty object name v) := by
  unfold writeProperty
  split
  · exact fun m => .step (.setField m object name.lexeme v)
  · exact .fail _ _

theorem runs_text (v : Value) : Runs (Machine.text v) := .get fun _ => .pure _

theorem Machine.run_write (text : String) (m : Machine) : (write text).run m =
    if (m.output.write text).1 then .ok () { m with output := (m.output.write text).2 }
    else .error (.failed (.stream .outputFull)) { m with output := (m.output.write text).2 } := rfl

theorem runs_write (text : String) : Runs (write text) := by
  intro m
  have hstep := Reaches.step (.write m text)
  rw [after, run_write]
  cases (m.output.write text).1 <;> exact hstep

theorem Machine.run_flush (m : Machine) : flush.run m =
    if m.output.flush.1 then .ok () { m with output := m.output.flush.2 }
    else .error (.failed (.stream .flushFailed)) { m with output := m.output.flush.2 } := rfl

theorem runs_flush : Runs flush := by
  intro m
  have hstep := Reaches.step (.flush m)
  rw [after, run_flush]
  cases m.output.flush.1 <;> exact hstep

/-- The input of a reading is all of the rest, one line of it, or nothing. -/
theorem Machine.run_takeLine (m : Machine) : takeLine.run m =
    if m.input.isEmpty then .ok none m
    else
      match Input.lineText (Input.cutLine m.input).1 with
      | .ok text => .ok (some text) { m with input := (Input.cutLine m.input).2 }
      | .error fault =>
        .error (.failed (.stream fault)) { m with input := (Input.cutLine m.input).2 } := rfl

theorem runs_takeLine : Runs takeLine := by
  intro m
  have hstep := Reaches.step (.takeLine m)
  rw [after, run_takeLine]
  cases m.input.isEmpty with
  | true => exact .refl m
  | false => cases Input.lineText (Input.cutLine m.input).1 <;> exact hstep

theorem runs_readLine : Runs readLine := runs_flush.bind fun _ => runs_takeLine

theorem runs_readClock : Runs readClock := fun m => .step (.clock m _)

theorem runs_chance (count : Nat) : Runs (chance count) := fun m => .step (.chances m _)

theorem Builtin.runs_readInput (site : Token) (prompt : Option Value) :
    Runs (readInput site prompt) := by
  unfold readInput
  split
  · exact runs_readLine.bind fun _ => .pure _
  · exact (runs_write _).bind fun _ => runs_readLine.bind fun _ => .pure _
  · exact .fail _ _

structure Below.Steps (b : Below) : Prop where
  evaluate : ∀ e, Runs (b.evaluate e)
  execute : ∀ s, Runs (b.execute s)

end Scriptling
