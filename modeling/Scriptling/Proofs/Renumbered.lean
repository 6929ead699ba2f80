import Scriptling.Session
import Scriptling.Proofs.Renumbering
import Scriptling.Proofs.Steps

namespace Scriptling

variable {α β : Type}

/-- Numbers from `start` on are moved by `count`, and what is noted under the numbers then. -/
structure Shift where
  start : ExprId
  count : ExprId
  notes : Std.TreeMap ExprId Nat

def Shift.use (σ : Shift) : Use → Use := Use.shift σ.start σ.count

def Closure.shift (σ : Shift) (c : Closure) : Closure := { c with decl := c.decl.turn σ.use }

def Store.shift (σ : Shift) (s : Store) : Store :=
  { s with closures := s.closures.map (Closure.shift σ) }

def Machine.shift (σ : Shift) (m : Machine) : Machine :=
  { m with store := m.store.shift σ, distances := σ.notes }

def Shift.Fits (σ : Shift) (m : Machine) : Prop :=
  ∀ id : ExprId, σ.notes[shiftId σ.start σ.count id]? = m.distances[id]?

/-- The same result, and machines apart by their numbers. -/
inductive Shift.Alike (σ : Shift) :
    EStateM.Result Stop Machine α → EStateM.Result Stop Machine α → Prop where
  | ok {v : α} {m : Machine} : σ.Fits m → Alike σ (.ok v m) (.ok v (m.shift σ))
  | error {e : Stop} {m : Machine} : σ.Fits m → Alike σ (.error e m) (.error e (m.shift σ))

/-- The second does on every machine with other numbers what the first does. -/
def Shift.Mirrors (σ : Shift) (act act' : Eval α) : Prop :=
  ∀ m : Machine, σ.Fits m → σ.Alike (act.run m) (act'.run (m.shift σ))

open Machine

namespace Shift.Mirrors

variable {σ : Shift}

theorem pure (v : α) : σ.Mirrors (pure v) (pure v) := fun _ h => .ok h

theorem throw (e : Stop) : σ.Mirrors (throw e : Eval α) (throw e) := fun _ h => .error h

theorem fail (token : Token) (fault : RuntimeFault) :
    σ.Mirrors (Machine.fail token fault : Eval α) (Machine.fail token fault) := throw _

theorem bind {a a' : Eval α} {q q' : α → Eval β} (ha : σ.Mirrors a a')
    (hq : ∀ v, σ.Mirrors (q v) (q' v)) : σ.Mirrors (a >>= q) (a' >>= q') := by
  intro m hm
  have h := ha m hm
  rw [EStateM.run_bind, EStateM.run_bind]
  generalize a.run m = r at h ⊢
  generalize a'.run (m.shift σ) = r' at h ⊢
  cases h with
  | ok hm₁ => exact hq _ _ hm₁
  | error hm₁ => exact .error hm₁

/-- A look at the machine may see numbers if what is done then does not depend on them. -/
theorem get {q q' : Machine → Eval β}
    (h : ∀ m : Machine, σ.Fits m → σ.Mirrors (q m) (q' (m.shift σ))) :
    σ.Mirrors (get >>= q) (get >>= q') := fun m hm => h m hm m hm

theorem discard {a a' : Eval α} (ha : σ.Mirrors a a') :
    σ.Mirrors (Functor.discard a) (Functor.discard a') := by
  change σ.Mirrors (a >>= fun _ => Pure.pure ()) (a' >>= fun _ => Pure.pure ())
  exact ha.bind fun _ => pure ()

theorem inFrame {a a' : Eval α} (f : FrameId) (ha : σ.Mirrors a a') :
    σ.Mirrors (Machine.inFrame f a) (Machine.inFrame f a') := by
  intro m hm
  have h := ha { m with current := f } hm
  have hinside : ({ m.shift σ with current := f } : Machine) =
      Machine.shift σ { m with current := f } := rfl
  rw [Eval.run_inFrame, Eval.run_inFrame, hinside]
  generalize a.run { m with current := f } = r at h ⊢
  generalize a'.run (Machine.shift σ { m with current := f }) = r' at h ⊢
  cases h with
  | @ok v m₁ hm₁ => exact .ok (m := { m₁ with current := m.current }) hm₁
  | @error e m₁ hm₁ => exact .error (m := { m₁ with current := m.current }) hm₁

theorem checked (token : Token) (r : Except RuntimeFault α) :
    σ.Mirrors (Machine.checked token r) (Machine.checked token r) := by
  cases r with
  | ok v => exact pure v
  | error fault => exact fail token fault

end Shift.Mirrors

section Store

variable (σ : Shift) (s : Store)

theorem Store.closures_shift (id : ClosureId) :
    (s.shift σ).closures[id]? = s.closures[id]?.map (Closure.shift σ) := by
  simp [Store.shift]

theorem Store.ancestor?_shift (f : FrameId) (d : Nat) :
    (s.shift σ).ancestor? f d = s.ancestor? f d := by
  induction d generalizing f with
  | zero => rfl
  | succ d ih =>
    rw [Store.ancestor?, Store.ancestor?, show (s.shift σ).parent? f = s.parent? f from rfl]
    congr 1
    funext p
    exact ih p

/-- Methods are found under the same names. -/
theorem Store.findWithin?_shift (table : ClassRecord → Table ClosureId) (name : String)
    (bound : Nat) (c : ClassId) :
    (s.shift σ).findWithin? table name bound c = s.findWithin? table name bound c := by
  induction bound generalizing c with
  | zero => rfl
  | succ bound ih =>
    have hnext : (s.shift σ).findWithin? table name bound = s.findWithin? table name bound :=
      funext ih
    rw [Store.findWithin?, Store.findWithin?, hnext,
      show (s.shift σ).classes[c]? = s.classes[c]? from rfl]

theorem Store.findMethod?_shift (c : ClassId) (name : String) :
    (s.shift σ).findMethod? c name = s.findMethod? c name := s.findWithin?_shift σ _ name _ c

theorem Store.findStatic?_shift (c : ClassId) (name : String) :
    (s.shift σ).findStatic? c name = s.findStatic? c name := s.findWithin?_shift σ _ name _ c

theorem Store.property_shift (v : Value) (name : String) :
    (s.shift σ).property v name = s.property v name := by
  cases v with
  | object id =>
    simp only [Store.property, Store.objectProperty, Store.findMethod?_shift,
      Store.findStatic?_shift]
    rfl
  | classRef id =>
    simp only [Store.property, Store.classProperty, Store.findMethod?_shift,
      Store.findStatic?_shift]
    rfl
  | _ => rfl

theorem FunctionDecl.name_turn (f : Use → Use) (d : FunctionDecl) : (d.turn f).name = d.name := by
  obtain ⟨name, params, body⟩ := d
  rfl

theorem FunctionDecl.arity_turn (f : Use → Use) (d : FunctionDecl) : (d.turn f).arity = d.arity := by
  obtain ⟨name, params, body⟩ := d
  have hfallback : (fun p : Param => p.fallback.isSome) ∘ Param.turn f =
      fun p => p.fallback.isSome := by
    funext p
    simp [Param.turn]
  simp only [FunctionDecl.arity, FunctionDecl.turn, ← List.map_reverse, List.dropWhile_map,
    List.length_map, hfallback]

theorem Store.closureName_shift (id : ClosureId) :
    (s.shift σ).closureName id = s.closureName id := by
  unfold Store.closureName
  rw [Store.closures_shift]
  cases s.closures[id]? with
  | none => rfl
  | some c => exact congrArg Token.lexeme (FunctionDecl.name_turn _ c.decl)

theorem Store.text_shift (v : Value) : (s.shift σ).text v = s.text v := by
  cases v with
  | closure id =>
    simp only [Store.text, Store.closureName_shift]
  | _ => rfl

theorem Store.arity?_shift (v : Value) : (s.shift σ).arity? v = s.arity? v := by
  have harity : ∀ c : Closure, (c.shift σ).decl.arity = c.decl.arity :=
    fun c => FunctionDecl.arity_turn _ c.decl
  cases v with
  | closure id =>
    simp only [Store.arity?, Store.closures_shift, Option.map_map]
    congr 1
    funext c
    exact harity c
  | classRef id =>
    simp only [Store.arity?, Store.classArity, Store.findMethod?_shift]
    cases s.findMethod? id "init" with
    | none => rfl
    | some m =>
      simp only [Option.bind_some, Store.closures_shift]
      cases s.closures[m]? with
      | none => rfl
      | some c => exact congrArg some (harity c)
  | _ => rfl

theorem Store.newClosure_shift (c : Closure) :
    (s.shift σ).newClosure (c.shift σ) = ((s.newClosure c).1, (s.newClosure c).2.shift σ) := by
  simp [Store.newClosure, Store.shift]

/-- A copy of a method has the numbers of the method. -/
theorem Store.bindMethod_shift (method : ClosureId) (receiver : Value) :
    (s.shift σ).bindMethod method receiver =
      ((s.bindMethod method receiver).1, (s.bindMethod method receiver).2.shift σ) := by
  unfold Store.bindMethod
  rw [Store.closures_shift]
  cases s.closures[method]? with
  | none => rfl
  | some c => simp [Store.openFrame, Store.newClosure, Store.shift, Closure.shift]

end Store

namespace Shift

variable {σ : Shift}

theorem mirrors_openFrame (parent : FrameId) (bindings : Table Value) :
    σ.Mirrors (openFrame parent bindings) (openFrame parent bindings) := fun m hm =>
  .ok (m := { m with store := (m.store.openFrame (some parent) bindings).2 }) hm

theorem mirrors_define (f : FrameId) (name : String) (v : Value) :
    σ.Mirrors (define f name v) (define f name v) := fun m hm =>
  .ok (m := { m with store := m.store.define f name v }) hm

theorem mirrors_newClosure (c : Closure) :
    σ.Mirrors (newClosure c) (newClosure (c.shift σ)) := by
  intro m hm
  have h := Store.newClosure_shift σ m.store c
  change σ.Alike (.ok (m.store.newClosure c).1 { m with store := (m.store.newClosure c).2 })
    (.ok ((m.store.shift σ).newClosure (c.shift σ)).1
      { m.shift σ with store := ((m.store.shift σ).newClosure (c.shift σ)).2 })
  rw [h]
  exact .ok (m := { m with store := (m.store.newClosure c).2 }) hm

theorem mirrors_newClass (c : ClassRecord) : σ.Mirrors (newClass c) (newClass c) := fun m hm =>
  .ok (m := { m with store := (m.store.newClass c).2 }) hm

theorem mirrors_newObject (c : ClassId) : σ.Mirrors (newObject c) (newObject c) := fun m hm =>
  .ok (m := { m with store := (m.store.newObject c).2 }) hm

theorem mirrors_bindMethod (method : ClosureId) (receiver : Value) :
    σ.Mirrors (bindMethod method receiver) (bindMethod method receiver) := by
  intro m hm
  have h := Store.bindMethod_shift σ m.store method receiver
  change σ.Alike (.ok (m.store.bindMethod method receiver).1
      { m with store := (m.store.bindMethod method receiver).2 })
    (.ok ((m.store.shift σ).bindMethod method receiver).1
      { m.shift σ with store := ((m.store.shift σ).bindMethod method receiver).2 })
  rw [h]
  exact .ok (m := { m with store := (m.store.bindMethod method receiver).2 }) hm

/-- A note is found under the other number. -/
theorem Fits.noted {m : Machine} (h : σ.Fits m) (id : ExprId) :
    (m.shift σ).distances[shiftId σ.start σ.count id]? = m.distances[id]? := h id

theorem mirrors_lookUp (id : ExprId) (name : Token) :
    σ.Mirrors (lookUp id name) (lookUp (shiftId σ.start σ.count id) name) := by
  refine .get fun m hm => ?_
  have hat : ∀ d, (m.shift σ).store.getAt? (m.shift σ).current d name.lexeme =
      m.store.getAt? m.current d name.lexeme := by
    intro d
    exact congrArg (·.bind fun g => m.store.local? g name.lexeme)
      (Store.ancestor?_shift σ m.store m.current d)
  have hget : (m.shift σ).store.get? .globals name.lexeme = m.store.get? .globals name.lexeme := rfl
  simp only [hm.noted, hat, hget]
  split
  · exact .pure _
  · exact .fail _ _

/-- A variable is written in the same frame. -/
theorem Fits.target? {m : Machine} (h : σ.Fits m) (id : ExprId) (name : String) (create : Bool) :
    (m.shift σ).target? (shiftId σ.start σ.count id) name create = m.target? id name create := by
  have hat : ∀ d, (m.shift σ).store.holderAt? (m.shift σ).current d name =
      m.store.holderAt? m.current d name := by
    intro d
    exact congrArg (·.filter fun g => (m.store.local? g name).isSome)
      (Store.ancestor?_shift σ m.store m.current d)
  have hget : (m.shift σ).store.holder? .globals name = m.store.holder? .globals name := rfl
  simp only [Machine.target?, h.noted, hat, hget]

theorem mirrors_assign (id : ExprId) (name : Token) (v : Value) (create : Bool) :
    σ.Mirrors (assign id name v create) (assign (shiftId σ.start σ.count id) name v create) := by
  refine .get fun m hm => ?_
  rw [hm.target?]
  split
  · exact mirrors_define _ _ _
  · exact .fail _ _

theorem mirrors_readProperty (object : Value) (name : Token) :
    σ.Mirrors (readProperty object name) (readProperty object name) := by
  refine .get fun m _ => ?_
  rw [show (m.shift σ).store.property object name.lexeme = m.store.property object name.lexeme
    from Store.property_shift σ m.store object name.lexeme]
  refine .bind (.checked _ _) fun property => ?_
  cases property with
  | field v => exact .pure v
  | method id => exact mirrors_bindMethod id object

theorem mirrors_writeProperty (object : Value) (name : Token) (v : Value) :
    σ.Mirrors (writeProperty object name v) (writeProperty object name v) := by
  unfold writeProperty
  split
  · intro m hm
    have h : (m.store.shift σ).setField object name.lexeme v =
        (m.store.setField object name.lexeme v).shift σ := by
      cases object <;> rfl
    change σ.Alike (.ok () { m with store := m.store.setField object name.lexeme v })
      (.ok () { m.shift σ with store := (m.store.shift σ).setField object name.lexeme v })
    rw [h]
    exact .ok (m := { m with store := m.store.setField object name.lexeme v }) hm
  · exact .fail _ _

theorem mirrors_text (v : Value) : σ.Mirrors (Machine.text v) (Machine.text v) := by
  refine .get fun m _ => ?_
  rw [show (m.shift σ).store.text v = m.store.text v from Store.text_shift σ m.store v]
  exact .pure _

theorem mirrors_write (text : String) : σ.Mirrors (write text) (write text) := by
  intro m hm
  rw [run_write, run_write, show (m.shift σ).output = m.output from rfl]
  split
  · exact .ok (m := { m with output := (m.output.write text).2 }) hm
  · exact .error (m := { m with output := (m.output.write text).2 }) hm

theorem mirrors_flush : σ.Mirrors flush flush := by
  intro m hm
  rw [run_flush, run_flush, show (m.shift σ).output = m.output from rfl]
  split
  · exact .ok (m := { m with output := m.output.flush.2 }) hm
  · exact .error (m := { m with output := m.output.flush.2 }) hm

theorem mirrors_takeLine : σ.Mirrors takeLine takeLine := by
  intro m hm
  rw [run_takeLine, run_takeLine, show (m.shift σ).input = m.input from rfl]
  split
  · exact .ok hm
  split
  · exact .ok (m := { m with input := (Input.cutLine m.input).2 }) hm
  · exact .error (m := { m with input := (Input.cutLine m.input).2 }) hm

theorem mirrors_readLine : σ.Mirrors readLine readLine :=
  mirrors_flush.bind fun _ => mirrors_takeLine

theorem mirrors_readClock : σ.Mirrors readClock readClock := fun m hm =>
  .ok (m := { m with clock := m.clock.rest }) hm

theorem mirrors_chance (count : Nat) : σ.Mirrors (chance count) (chance count) := fun m hm =>
  .ok (m := { m with chances := m.chances.rest }) hm

theorem mirrors_printValue (site : Token) (v : Value) (ending : Option Value) :
    σ.Mirrors (Builtin.printValue site v ending) (Builtin.printValue site v ending) := by
  have hprint : ∀ ending : String, σ.Mirrors (do write ((← text v) ++ ending); pure Value.nil)
      (do write ((← text v) ++ ending); pure Value.nil) :=
    fun ending => (mirrors_text v).bind fun _ => (mirrors_write _).bind fun _ => .pure _
  unfold Builtin.printValue
  split
  · exact hprint _
  · exact hprint _
  · exact .fail _ _

theorem mirrors_readInput (site : Token) (prompt : Option Value) :
    σ.Mirrors (Builtin.readInput site prompt) (Builtin.readInput site prompt) := by
  unfold Builtin.readInput
  split
  · exact mirrors_readLine.bind fun _ => .pure _
  · exact (mirrors_write _).bind fun _ => mirrors_readLine.bind fun _ => .pure _
  · exact .fail _ _

theorem mirrors_builtin (b : Builtin) (site : Token) (arguments : List Value) :
    σ.Mirrors (b.run site arguments) (b.run site arguments) := by
  unfold Builtin.run
  split
  · exact mirrors_readClock.bind fun _ => .pure _
  · exact mirrors_printValue _ _ _
  · unfold Builtin.numberText
    split
    · exact .pure _
    · exact .fail _ _
  · exact mirrors_readInput _ _
  · unfold Builtin.parseNumber
    split
    · split
      · exact .pure _
      · exact .fail _ _
    · exact .fail _ _
  · exact .pure _
  · unfold Builtin.squareRoot
    split
    · split
      · exact .pure _
      · exact .fail _ _
    · exact .fail _ _
  · unfold Builtin.randomWhole
    split
    · split
      · exact (mirrors_chance _).bind fun _ => .pure _
      · exact .fail _ _
    · exact .fail _ _
  · exact .get fun _ _ => .pure _
  · exact .pure _
  · exact .pure _

end Shift

/-- The parts of a form do on the other machine, with their other numbers, what they do. -/
structure Shift.Below (σ : Shift) (b : Below) : Prop where
  evaluate : ∀ e, σ.Mirrors (b.evaluate e) (b.evaluate (e.turn σ.use))
  execute : ∀ s, σ.Mirrors (b.execute s) (b.execute (s.turn σ.use))

namespace Shift.Below

variable {σ : Shift} {b : Scriptling.Below} (h : σ.Below b)
include h

theorem evaluateAll (es : List Expr) :
    σ.Mirrors (b.evaluateAll es) (b.evaluateAll (es.map (Expr.turn σ.use))) := by
  induction es with
  | nil => exact .pure _
  | cons e es ih => exact (h.evaluate e).bind fun _ => ih.bind fun _ => .pure _

theorem evaluateLast (es : List Expr) (last : Value) :
    σ.Mirrors (b.evaluateLast last es) (b.evaluateLast last (es.map (Expr.turn σ.use))) := by
  induction es generalizing last with
  | nil => exact .pure _
  | cons e es ih => exact (h.evaluate e).bind fun v => ih v

theorem evaluate? (e : Option Expr) :
    σ.Mirrors (b.evaluate? e) (b.evaluate? (e.map (Expr.turn σ.use))) := by
  cases e with
  | none => exact .pure _
  | some e => exact h.evaluate e

theorem executeAll (ss : List Stmt) :
    σ.Mirrors (b.executeAll ss) (b.executeAll (ss.map (Stmt.turn σ.use))) := by
  induction ss with
  | nil => exact .pure _
  | cons s ss ih =>
    refine (h.execute s).bind fun flow => ?_
    cases flow with
    | normal => exact ih
    | _ => exact .pure _

/-- Parameters are bound alike. -/
theorem bindParams (f : FrameId) (paren : Token) (ps : List Param) (vs : List Value) :
    σ.Mirrors (b.bindParams f paren ps vs)
      (b.bindParams f paren (ps.map (Param.turn σ.use)) vs) := by
  induction ps generalizing vs with
  | nil => exact .pure _
  | cons p ps ih =>
    cases vs with
    | cons v vs => exact (mirrors_define _ _ _).bind fun _ => ih vs
    | nil =>
      obtain ⟨name, fallback⟩ := p
      cases fallback with
      | none => exact .fail _ _
      | some e =>
        exact ((h.evaluate e).inFrame f).bind fun _ => (mirrors_define _ _ _).bind fun _ => ih []

/-- Calls of functions, and then of all that can be called. -/
theorem callClosure (c : Closure) (arguments : List Value) (paren : Token) :
    σ.Mirrors (b.callClosure c arguments paren) (b.callClosure (c.shift σ) arguments paren) := by
  obtain ⟨⟨name, params, body⟩, scope, initializer⟩ := c
  have hreceiver : σ.Mirrors
      (Scriptling.Below.receiver ⟨⟨name, params, body⟩, scope, initializer⟩)
      (Scriptling.Below.receiver (Closure.shift σ ⟨⟨name, params, body⟩, scope, initializer⟩)) :=
    .get fun _ _ => .pure _
  have hbody := h.executeAll body
  rw [← Stmt.turnAll_eq_map] at hbody
  refine (mirrors_openFrame _ _).bind fun f => (h.bindParams f paren _ _).bind fun _ =>
    (hbody.inFrame f).bind fun flow => ?_
  cases flow with
  | «break» keyword => exact .fail _ _
  | next keyword => exact .fail _ _
  | «return» v =>
    cases initializer with
    | true => exact hreceiver
    | false => exact .pure v
  | normal =>
    cases initializer with
    | true => exact hreceiver
    | false => exact .pure _

theorem callClosureId (id : ClosureId) (arguments : List Value) (paren : Token) :
    σ.Mirrors (b.callClosureId id arguments paren) (b.callClosureId id arguments paren) := by
  refine .get fun m _ => ?_
  rw [show (m.shift σ).store.closures[id]? = m.store.closures[id]?.map (Closure.shift σ) from
    Store.closures_shift σ m.store id]
  cases m.store.closures[id]? with
  | none => exact .fail _ _
  | some c => exact h.callClosure c arguments paren

omit h in
theorem counted (callee : Value) (arguments : List Value) (paren : Token) {act act' : Eval Value}
    (ha : σ.Mirrors act act') :
    σ.Mirrors (Scriptling.Below.counted callee arguments paren act)
      (Scriptling.Below.counted callee arguments paren act') := by
  refine .get fun m _ => ?_
  rw [show (m.shift σ).store.arity? callee = m.store.arity? callee from
    Store.arity?_shift σ m.store callee]
  split
  · exact .fail _ _
  · split
    · exact .fail _ _
    · exact ha

theorem instantiate (c : ClassId) (arguments : List Value) (paren : Token) :
    σ.Mirrors (b.instantiate c arguments paren) (b.instantiate c arguments paren) := by
  refine (mirrors_newObject c).bind fun o => .get fun m _ => ?_
  rw [show (m.shift σ).store.findMethod? c "init" = m.store.findMethod? c "init" from
    Store.findMethod?_shift σ m.store c "init"]
  cases m.store.findMethod? c "init" with
  | none => exact .pure _
  | some method =>
    refine (mirrors_bindMethod _ _).bind fun bound => ?_
    cases bound with
    | closure id =>
      exact (counted _ arguments paren (h.callClosureId _ arguments paren)).discard.bind
        fun _ => .pure _
    | _ => exact .pure _

theorem call (callee : Value) (arguments : List Value) (paren : Token) :
    σ.Mirrors (b.call callee arguments paren) (b.call callee arguments paren) := by
  refine counted callee arguments paren ?_
  split
  · exact h.callClosureId _ arguments paren
  · exact mirrors_builtin _ paren arguments
  · exact h.instantiate _ arguments paren
  · exact .fail _ _

omit h in
theorem numberOperand (operator : Token) (v : Value) :
    σ.Mirrors (Scriptling.Below.numberOperand operator v)
      (Scriptling.Below.numberOperand operator v) := by
  cases v with
  | number x => exact .pure x
  | _ => exact .fail _ _

theorem evaluateLogical (left : Expr) (operator : Token) (right : Expr) :
    σ.Mirrors (b.evaluateLogical left operator right)
      (b.evaluateLogical (left.turn σ.use) operator (right.turn σ.use)) := by
  refine (h.evaluate left).bind fun v => ?_
  dsimp only
  generalize (if operator.kind = .or then v.truthy else !v.truthy) = decided
  cases decided with
  | true => exact .pure v
  | false => exact h.evaluate right

theorem evaluateUpdate (operator : Token) (target : Expr) (before : Bool) :
    σ.Mirrors (b.evaluateUpdate operator target before)
      (b.evaluateUpdate operator (target.turn σ.use) before) := by
  cases target with
  | var id name =>
    exact (mirrors_lookUp id name).bind fun _ => (numberOperand operator _).bind fun _ =>
      (mirrors_assign id name _ false).bind fun _ => .pure _
  | get object name =>
    rw [Expr.turn]
    exact (h.evaluate object).bind fun o => (mirrors_readProperty o name).bind fun _ =>
      (numberOperand operator _).bind fun _ => (mirrors_writeProperty o name _).bind fun _ =>
        .pure _
  | _ => exact .fail _ _

omit h in
theorem superAndThis?_shift {m : Machine} (hm : σ.Fits m) (id : ExprId) :
    Scriptling.Below.superAndThis? (m.shift σ) (shiftId σ.start σ.count id) =
      Scriptling.Below.superAndThis? m id := by
  have hat : ∀ d name, (m.shift σ).store.getAt? (m.shift σ).current d name =
      m.store.getAt? m.current d name := by
    intro d name
    exact congrArg (·.bind fun g => m.store.local? g name)
      (Store.ancestor?_shift σ m.store m.current d)
  simp only [Scriptling.Below.superAndThis?, hm.noted, hat]

omit h in
theorem evaluateSuper (id : ExprId) (keyword method : Token) :
    σ.Mirrors (Scriptling.Below.evaluateSuper id keyword method)
      (Scriptling.Below.evaluateSuper (shiftId σ.start σ.count id) keyword method) := by
  refine .get fun m hm => ?_
  have hmethod : ∀ c, (m.shift σ).store.findMethod? c method.lexeme =
      m.store.findMethod? c method.lexeme :=
    fun c => Store.findMethod?_shift σ m.store c method.lexeme
  have hstatic : ∀ c, (m.shift σ).store.findStatic? c method.lexeme =
      m.store.findStatic? c method.lexeme :=
    fun c => Store.findStatic?_shift σ m.store c method.lexeme
  simp only [superAndThis?_shift hm, hmethod, hstatic]
  split
  · exact .fail _ _
  · split
    · exact mirrors_bindMethod _ _
    · exact .fail _ _

theorem evaluateStep (e : Expr) : σ.Mirrors (b.evaluateStep e) (b.evaluateStep (e.turn σ.use)) := by
  cases e with
  | literal value => exact .pure _
  | group inner =>
    rw [Expr.turn]
    exact h.evaluate inner
  | unary operator operand =>
    rw [Expr.turn]
    refine (h.evaluate operand).bind fun v => ?_
    unfold Scriptling.Below.applyUnary
    split
    · exact (numberOperand operator v).bind fun _ => .pure _
    · exact .pure _
  | binary left operator right =>
    rw [Expr.turn]
    exact (h.evaluate left).bind fun _ => (h.evaluate right).bind fun _ => .checked _ _
  | logical left operator right =>
    rw [Expr.turn]
    exact h.evaluateLogical left operator right
  | ternary condition whenTrue whenFalse =>
    rw [Expr.turn]
    exact (h.evaluate whenFalse).bind fun _ => (h.evaluate whenTrue).bind fun _ =>
      (h.evaluate condition).bind fun _ => .pure _
  | comma items =>
    rw [Expr.turn, Expr.turnAll_eq_map]
    exact h.evaluateLast items .nil
  | var id name => exact mirrors_lookUp id name
  | assign id name value =>
    rw [Expr.turn]
    exact (h.evaluate value).bind fun v => (mirrors_assign id name v true).bind fun _ => .pure v
  | compoundAssign id name operator value =>
    rw [Expr.turn]
    exact (mirrors_lookUp id name).bind fun _ => (h.evaluate value).bind fun _ =>
      (Mirrors.checked _ _).bind fun new => (mirrors_assign id name new false).bind fun _ => .pure _
  | update operator target before =>
    rw [Expr.turn]
    exact h.evaluateUpdate operator target before
  | call callee paren arguments =>
    rw [Expr.turn, Expr.turnAll_eq_map]
    exact (h.evaluate callee).bind fun f => (h.evaluateAll arguments).bind fun vs =>
      h.call f vs paren
  | get object name =>
    rw [Expr.turn]
    exact (h.evaluate object).bind fun o => mirrors_readProperty o name
  | set object name value =>
    rw [Expr.turn]
    exact (h.evaluate object).bind fun o => (h.evaluate value).bind fun v =>
      (mirrors_writeProperty o name v).bind fun _ => .pure _
  | compoundSet object name operator value =>
    rw [Expr.turn]
    exact (h.evaluate object).bind fun o => (mirrors_readProperty o name).bind fun _ =>
      (h.evaluate value).bind fun _ => (Mirrors.checked _ _).bind fun new =>
        (mirrors_writeProperty o name new).bind fun _ => .pure _
  | this id keyword => exact mirrors_lookUp id keyword
  | super id keyword method => exact evaluateSuper id keyword method

/-- Loops, round by round. -/
theorem loop (condition : Expr) (increment : Option Expr) (body : Stmt) (rounds : Nat) :
    σ.Mirrors (b.loop condition increment body rounds)
      (b.loop (condition.turn σ.use) (increment.map (Expr.turn σ.use)) (body.turn σ.use)
        rounds) := by
  induction rounds with
  | zero => exact .throw _
  | succ rounds ih =>
    refine (h.evaluate condition).bind fun v => ?_
    split
    · refine (h.execute body).bind fun flow => ?_
      have hagain := (h.evaluate? increment).discard.bind fun _ => ih
      cases flow with
      | «break» keyword => exact .pure _
      | «return» v => exact .pure _
      | normal => exact hagain
      | next keyword => exact hagain
    · exact .pure _

omit h in
theorem methodTable (scope : FrameId) (initializer : Token → Bool) (ds : List FunctionDecl)
    (table : Table ClosureId) :
    σ.Mirrors (Scriptling.Below.methodTable scope initializer table ds)
      (Scriptling.Below.methodTable scope initializer table
        (ds.map (FunctionDecl.turn σ.use))) := by
  induction ds generalizing table with
  | nil => exact .pure _
  | cons d ds ih =>
    simp only [List.map_cons, Scriptling.Below.methodTable, FunctionDecl.name_turn]
    exact (mirrors_newClosure ⟨d, scope, initializer d.name⟩).bind fun _ => ih _

theorem evaluateSuperclass (superclass : Option Superclass) :
    σ.Mirrors (b.evaluateSuperclass superclass)
      (b.evaluateSuperclass (superclass.map (Superclass.turn σ.use))) := by
  cases superclass with
  | none => exact .pure _
  | some parent =>
    have hparent := h.evaluate parent.expr
    rw [← Superclass.expr_turn] at hparent
    refine hparent.bind fun v => ?_
    cases v with
    | classRef c => exact .pure _
    | _ => exact .fail _ _

theorem executeClass (name : Token) (superclass : Option Superclass)
    (methods statics : List FunctionDecl) :
    σ.Mirrors (b.executeClass name superclass methods statics)
      (b.executeClass name (superclass.map (Superclass.turn σ.use))
        (methods.map (FunctionDecl.turn σ.use)) (statics.map (FunctionDecl.turn σ.use))) := by
  have hfill : ∀ (f scope : FrameId) (parent : Option ClassId), σ.Mirrors
      (do let ms ← Scriptling.Below.methodTable scope (·.lexeme == "init") [] methods
          let ss ← Scriptling.Below.methodTable scope (fun _ => false) [] statics
          let c ← newClass ⟨name.lexeme, parent, ms, ss, []⟩
          define f name.lexeme (.classRef c))
      (do let ms ← Scriptling.Below.methodTable scope (·.lexeme == "init") []
            (methods.map (FunctionDecl.turn σ.use))
          let ss ← Scriptling.Below.methodTable scope (fun _ => false) []
            (statics.map (FunctionDecl.turn σ.use))
          let c ← newClass ⟨name.lexeme, parent, ms, ss, []⟩
          define f name.lexeme (.classRef c)) := fun f scope parent =>
    (methodTable scope _ methods []).bind fun _ => (methodTable scope _ statics []).bind fun _ =>
      (mirrors_newClass _).bind fun _ => mirrors_define _ _ _
  refine (h.evaluateSuperclass superclass).bind fun parent => .get fun m _ => ?_
  refine (mirrors_define _ _ _).bind fun _ => ?_
  cases parent with
  | none => exact hfill _ _ _
  | some c => exact (mirrors_openFrame _ _).bind fun scope => hfill _ scope _

theorem executeStep (s : Stmt) : σ.Mirrors (b.executeStep s) (b.executeStep (s.turn σ.use)) := by
  have hcurrent : σ.Mirrors currentFrame currentFrame := .get fun _ _ => .pure _
  cases s with
  | expr e =>
    rw [Stmt.turn]
    exact (h.evaluate e).discard.bind fun _ => .pure _
  | var name initial =>
    rw [Stmt.turn]
    exact (h.evaluate? initial).bind fun v => hcurrent.bind fun _ =>
      (mirrors_define _ _ _).bind fun _ => .pure _
  | block body =>
    rw [Stmt.turn, Stmt.turnAll_eq_map]
    exact hcurrent.bind fun _ => (mirrors_openFrame _ _).bind fun f =>
      (h.executeAll body).inFrame f
  | ifThen condition whenTrue =>
    rw [Stmt.turn]
    refine (h.evaluate condition).bind fun v => ?_
    split
    · exact h.execute whenTrue
    · exact .pure _
  | ifElse condition whenTrue whenFalse =>
    rw [Stmt.turn]
    refine (h.evaluate condition).bind fun v => ?_
    split
    · exact h.execute whenTrue
    · exact h.execute whenFalse
  | «while» condition body =>
    rw [Stmt.turn]
    exact h.loop condition none body b.rounds
  | «for» condition increment body =>
    rw [Stmt.turn]
    exact h.loop condition increment body b.rounds
  | function decl =>
    rw [Stmt.turn]
    simp only [Scriptling.Below.executeStep, FunctionDecl.name_turn]
    exact hcurrent.bind fun f => (mirrors_newClosure ⟨decl, f, false⟩).bind fun _ =>
      (mirrors_define _ _ _).bind fun _ => .pure _
  | «return» keyword value =>
    rw [Stmt.turn]
    exact (h.evaluate? value).bind fun _ => .pure _
  | «break» keyword => exact .pure _
  | next keyword => exact .pure _
  | «class» name superclass methods statics =>
    rw [Stmt.turn, FunctionDecl.turnAll_eq_map, FunctionDecl.turnAll_eq_map]
    exact (h.executeClass name superclass methods statics).bind fun _ => .pure _

end Shift.Below

/-- Evaluation up to any depth does not depend on numbers. -/
theorem Shift.below_upTo (σ : Shift) (depth : Nat) : σ.Below (.upTo depth) := by
  induction depth with
  | zero => exact ⟨fun _ => .throw _, fun _ => .throw _⟩
  | succ depth ih => exact ⟨fun e => ih.evaluateStep e, fun s => ih.executeStep s⟩

end Scriptling
