import Scriptling.Builtin
import Scriptling.Operator

namespace Scriptling

/-- How control leaves a statement. -/
inductive Flow where
  | normal
  | return (value : Value)
  | break (keyword : Token)
  | next (keyword : Token)

/-- Evaluation of the parts of a form, and the number of rounds a loop may take. -/
structure Below where
  evaluate : Expr → Eval Value
  execute : Stmt → Eval Flow
  rounds : Nat

namespace Below

open Machine

def evaluateAll (below : Below) : List Expr → Eval (List Value)
  | [] => pure []
  | e :: es => do
    let v ← below.evaluate e
    return v :: (← below.evaluateAll es)

def evaluateLast (below : Below) (last : Value) : List Expr → Eval Value
  | [] => pure last
  | e :: es => do below.evaluateLast (← below.evaluate e) es

def evaluate? (below : Below) : Option Expr → Eval Value
  | none => pure .nil
  | some e => below.evaluate e

/-- Statements in order, until one leaves other than normally. -/
def executeAll (below : Below) : List Stmt → Eval Flow
  | [] => pure .normal
  | s :: ss => do
    match ← below.execute s with
    | .normal => below.executeAll ss
    | flow => pure flow

/-- Gives parameters their values in a new frame: the arguments, then fallbacks, which see the
parameters before them. -/
def bindParams (below : Below) (f : FrameId) (paren : Token) : List Param → List Value → Eval Unit
  | [], _ => pure ()
  | p :: ps, v :: vs => do
    define f p.name.lexeme v
    below.bindParams f paren ps vs
  | p :: ps, [] => do
    match p.fallback with
    | none => fail paren (.missingArgument p.name.lexeme)
    | some e =>
      define f p.name.lexeme (← inFrame f (below.evaluate e))
      below.bindParams f paren ps []

def receiver (c : Closure) : Eval Value :=
  return ((← get).store.local? c.scope "this").getD .nil

/-- Runs a function's body in a new frame. An initializer answers its receiver. -/
def callClosure (below : Below) (c : Closure) (arguments : List Value) (paren : Token) :
    Eval Value := do
  let f ← openFrame c.scope []
  below.bindParams f paren c.decl.params arguments
  match ← inFrame f (below.executeAll c.decl.body) with
  | .break keyword => fail keyword .breakOutsideLoop
  | .next keyword => fail keyword .nextOutsideLoop
  | .return v => if c.initializer then receiver c else pure v
  | .normal => if c.initializer then receiver c else pure .nil

def callClosureId (below : Below) (id : ClosureId) (arguments : List Value) (paren : Token) :
    Eval Value := do
  match (← get).store.closures[id]? with
  | some c => below.callClosure c arguments paren
  | none => fail paren .notCallable

/-- Goes on if a value can be called with so many arguments. -/
def counted (callee : Value) (arguments : List Value) (paren : Token) (act : Eval Value) :
    Eval Value := do
  match (← get).store.arity? callee with
  | none => fail paren .notCallable
  | some arity =>
    if arguments.length < arity.least ∨ arity.most < arguments.length then
      fail paren (.argumentCount arity.least arity.most arguments.length)
    else act

/-- Makes an instance and calls its initializer if there is one, with the arguments counted as in
every call. -/
def instantiate (below : Below) (c : ClassId) (arguments : List Value) (paren : Token) :
    Eval Value := do
  let made : Value := .object (← newObject c)
  match (← get).store.findMethod? c "init" with
  | none => pure ()
  | some m =>
    match ← bindMethod m made with
    | .closure id =>
      discard (counted (.closure id) arguments paren (below.callClosureId id arguments paren))
    | _ => pure ()
  pure made

/-- Calls a value. The arguments are counted first. -/
def call (below : Below) (callee : Value) (arguments : List Value) (paren : Token) : Eval Value :=
  counted callee arguments paren <|
    match callee with
    | .closure id => below.callClosureId id arguments paren
    | .builtin b => b.run paren arguments
    | .classRef id => below.instantiate id arguments paren
    | _ => fail paren .notCallable

def numberOperand (operator : Token) : Value → Eval Float
  | .number x => pure x
  | _ => fail operator .operandNotNumber

def applyUnary (operator : Token) (v : Value) : Eval Value :=
  if operator.kind = .minus then return .number (-(← numberOperand operator v))
  else pure (.bool !v.truthy)

def applyBinary (operator : Token) (left right : Value) : Eval Value :=
  checked operator (Operator.apply operator.kind operator.lexeme left right)

/-- The operator of a compound assignment on the old value and the new operand. -/
def applyCompound (operator : Token) (old operand : Value) : Eval Value :=
  checked operator (Operator.apply (Operator.base operator.kind) operator.lexeme old operand)

/-- The right side is left out when the left one decides. -/
def evaluateLogical (below : Below) (left : Expr) (operator : Token) (right : Expr) :
    Eval Value := do
  let v ← below.evaluate left
  let decided := if operator.kind = .or then v.truthy else !v.truthy
  if decided then pure v else below.evaluate right

/-- All three parts are evaluated, the last one first and the condition at the end. -/
def evaluateTernary (below : Below) (condition whenTrue whenFalse : Expr) : Eval Value := do
  let no ← below.evaluate whenFalse
  let yes ← below.evaluate whenTrue
  let c ← below.evaluate condition
  pure (if c.truthy then yes else no)

def evaluateCompoundAssign (below : Below) (id : ExprId) (name operator : Token) (value : Expr) :
    Eval Value := do
  let old ← lookUp id name
  let operand ← below.evaluate value
  let new ← applyCompound operator old operand
  assign id name new false
  pure new

def evaluateSet (below : Below) (object : Expr) (name : Token) (value : Expr) : Eval Value := do
  let o ← below.evaluate object
  let v ← below.evaluate value
  writeProperty o name v
  pure v

def evaluateCompoundSet (below : Below) (object : Expr) (name operator : Token) (value : Expr) :
    Eval Value := do
  let o ← below.evaluate object
  let old ← readProperty o name
  let operand ← below.evaluate value
  let new ← applyCompound operator old operand
  writeProperty o name new
  pure new

/-- Counts a variable or a property up or down, and answers the new or the old number. -/
def evaluateUpdate (below : Below) (operator : Token) (target : Expr) (before : Bool) :
    Eval Value := do
  let step : Float := if operator.kind = .plusPlus then 1 else -1
  match target with
  | .var id name =>
    let old ← numberOperand operator (← lookUp id name)
    assign id name (.number (old + step)) false
    pure (.number (if before then old + step else old))
  | .get object name =>
    let o ← below.evaluate object
    let old ← numberOperand operator (← readProperty o name)
    writeProperty o name (.number (old + step))
    pure (.number (if before then old + step else old))
  | _ => fail operator .updateTarget

/-- The superclass noted where the class was declared, and the receiver of the running method. -/
def superAndThis? (m : Machine) (id : ExprId) : Option (ClassId × Value) :=
  match m.distances[id]? with
  | some (d + 1) =>
    match m.store.getAt? m.current (d + 1) "super", m.store.getAt? m.current d "this" with
    | some (.classRef c), some this => some (c, this)
    | _, _ => none
  | _ => none

/-- A method of the superclass, bound to the receiver: a static one if the receiver is a class. -/
def evaluateSuper (id : ExprId) (keyword method : Token) : Eval Value := do
  let m ← get
  match superAndThis? m id with
  | none => fail keyword .superOutsideClass
  | some (c, this) =>
    let found :=
      match this with
      | .object _ => m.store.findMethod? c method.lexeme
      | _ => m.store.findStatic? c method.lexeme
    match found with
    | some f => bindMethod f this
    | none => fail method (.undefinedMethod method.lexeme)

def evaluateStep (below : Below) : Expr → Eval Value
  | .literal value => pure (.ofLiteral value)
  | .group inner => below.evaluate inner
  | .unary operator operand => do applyUnary operator (← below.evaluate operand)
  | .binary left operator right => do
    let l ← below.evaluate left
    applyBinary operator l (← below.evaluate right)
  | .logical left operator right => below.evaluateLogical left operator right
  | .ternary condition whenTrue whenFalse => below.evaluateTernary condition whenTrue whenFalse
  | .comma items => below.evaluateLast .nil items
  | .var id name => lookUp id name
  | .assign id name value => do
    let v ← below.evaluate value
    assign id name v true
    pure v
  | .compoundAssign id name operator value => below.evaluateCompoundAssign id name operator value
  | .update operator target before => below.evaluateUpdate operator target before
  | .call callee paren arguments => do
    let f ← below.evaluate callee
    below.call f (← below.evaluateAll arguments) paren
  | .get object name => do readProperty (← below.evaluate object) name
  | .set object name value => below.evaluateSet object name value
  | .compoundSet object name operator value => below.evaluateCompoundSet object name operator value
  | .this id keyword => lookUp id keyword
  | .super id keyword method => evaluateSuper id keyword method

/-- Rounds of a loop. Leaving a round early by `next` does not leave out the increment. -/
def loop (below : Below) (condition : Expr) (increment : Option Expr) (body : Stmt) :
    Nat → Eval Flow
  | 0 => exhausted
  | rounds + 1 => do
    if (← below.evaluate condition).truthy then
      match ← below.execute body with
      | .break _ => pure .normal
      | .return v => pure (.return v)
      | .normal | .next _ =>
        discard (below.evaluate? increment)
        below.loop condition increment body rounds
    else pure .normal

/-- Functions for the methods of a class; the last one of a name counts. -/
def methodTable (scope : FrameId) (initializer : Token → Bool) :
    Table ClosureId → List FunctionDecl → Eval (Table ClosureId)
  | table, [] => pure table
  | table, d :: ds => do
    let id ← newClosure ⟨d, scope, initializer d.name⟩
    methodTable scope initializer (table.put d.name.lexeme id) ds

def evaluateSuperclass (below : Below) : Option Superclass → Eval (Option ClassId)
  | none => pure none
  | some s => do
    match ← below.evaluate s.expr with
    | .classRef c => pure (some c)
    | _ => fail s.name .superclassNotClass

/-- Methods are made in a frame that has the superclass, if there is one. -/
def executeClass (below : Below) (name : Token) (superclass : Option Superclass)
    (methods statics : List FunctionDecl) : Eval Unit := do
  let parent ← below.evaluateSuperclass superclass
  let f ← currentFrame
  define f name.lexeme .nil
  let scope ←
    match parent with
    | none => pure f
    | some c => openFrame f [("super", .classRef c)]
  let ms ← methodTable scope (·.lexeme == "init") [] methods
  let ss ← methodTable scope (fun _ => false) [] statics
  let c ← newClass ⟨name.lexeme, parent, ms, ss, []⟩
  define f name.lexeme (.classRef c)

def executeStep (below : Below) : Stmt → Eval Flow
  | .expr e => do
    discard (below.evaluate e)
    pure .normal
  | .var name initial => do
    let v ← below.evaluate? initial
    define (← currentFrame) name.lexeme v
    pure .normal
  | .block body => do
    let f ← openFrame (← currentFrame) []
    inFrame f (below.executeAll body)
  | .ifThen condition whenTrue => do
    if (← below.evaluate condition).truthy then below.execute whenTrue else pure .normal
  | .ifElse condition whenTrue whenFalse => do
    if (← below.evaluate condition).truthy then below.execute whenTrue
    else below.execute whenFalse
  | .while condition body => below.loop condition none body below.rounds
  | .for condition increment body => below.loop condition increment body below.rounds
  | .function decl => do
    let f ← currentFrame
    let id ← newClosure ⟨decl, f, false⟩
    define f decl.name.lexeme (.closure id)
    pure .normal
  | .return _ value => return .return (← below.evaluate? value)
  | .break keyword => pure (.break keyword)
  | .next keyword => pure (.next keyword)
  | .class name superclass methods statics => do
    below.executeClass name superclass methods statics
    pure .normal

end Below

mutual

/-- The value of an expression, if the depth suffices. -/
def evaluate : Nat → Expr → Eval Value
  | 0, _ => Machine.exhausted
  | depth + 1, e => Below.evaluateStep ⟨evaluate depth, execute depth, depth⟩ e

def execute : Nat → Stmt → Eval Flow
  | 0, _ => Machine.exhausted
  | depth + 1, s => Below.executeStep ⟨evaluate depth, execute depth, depth⟩ s

end

def Below.upTo (depth : Nat) : Below := ⟨Scriptling.evaluate depth, Scriptling.execute depth, depth⟩

/-- Calls a value with evaluated arguments from outside any expression. -/
def callValue (depth : Nat) (callee : Value) (arguments : List Value) (paren : Token) : Eval Value :=
  (Below.upTo depth).call callee arguments paren

end Scriptling
