import Scriptling.Table
import Scriptling.Tree.Basic

namespace Scriptling

namespace Scope

/-- The innermost function around a statement. -/
inductive Body where
  | none
  | function
  | method
  | initializer
deriving DecidableEq, Repr

/-- The innermost class around an expression, with or without a superclass. -/
inductive Family where
  | none
  | root
  | derived
deriving DecidableEq, Repr

/-- What the walk knows. Scopes stand innermost first and say of each declared name whether it is
defined. -/
structure Walk where
  scopes : List (Table Bool)
  globals : List String
  body : Body
  family : Family
  distances : List (ExprId × Nat)
  faults : List (Located ScopeFault)

abbrev Resolve := StateM Walk

def report (token : Token) (fault : ScopeFault) : Resolve Unit :=
  modify fun w => { w with faults := w.faults ++ [⟨fault, token.place⟩] }

def openScope (names : Table Bool) : Resolve Unit :=
  modify fun w => { w with scopes := names :: w.scopes }

def closeScope : Resolve Unit :=
  modify fun w => { w with scopes := w.scopes.tail }

def setBody (body : Body) : Resolve Unit := modify fun w => { w with body }

def setFamily (family : Family) : Resolve Unit := modify fun w => { w with family }

def addGlobal (name : String) : Resolve Unit :=
  modify fun w => { w with globals := name :: w.globals }

/-- Declares a name in the innermost scope, where it must be new, or among the globals. -/
def declare (name : Token) : Resolve Unit := do
  match (← get).scopes with
  | [] => addGlobal name.lexeme
  | scope :: outer =>
    if scope.has name.lexeme then report name .redeclared
    else modify fun w => { w with scopes := scope.put name.lexeme false :: outer }

def define (name : Token) : Resolve Unit :=
  modify fun w =>
    match w.scopes with
    | [] => w
    | scope :: outer => { w with scopes := scope.put name.lexeme true :: outer }

/-- How many scopes out the innermost defined name lies. -/
def distance? (scopes : List (Table Bool)) (name : String) : Option Nat :=
  scopes.findIdx? fun scope => scope.get? name == some true

def initializing (scopes : List (Table Bool)) (name : String) : Bool :=
  scopes.any fun scope => scope.get? name == some false

/-- Notes the distance of a local name. Answers whether it is one. -/
def locate (id : ExprId) (name : Token) : Resolve Bool := do
  match distance? (← get).scopes name.lexeme with
  | none => pure false
  | some d =>
    modify fun w => { w with distances := (id, d) :: w.distances }
    pure true

def read (id : ExprId) (name : Token) : Resolve Unit := do
  if !(← locate id name) then
    let w ← get
    if !w.globals.contains name.lexeme && initializing w.scopes name.lexeme then
      report name .ownInitializer

/-- A plain assignment to a variable, which outside every scope may make a new global. -/
def write (id : ExprId) (name : Token) : Resolve Unit := do
  if !(← locate id name) && (← get).scopes.isEmpty then addGlobal name.lexeme

mutual

def expr : Expr → Resolve Unit
  | .literal _ => pure ()
  | .group inner => expr inner
  | .unary _ operand => expr operand
  | .binary left _ right => do expr left; expr right
  | .logical left _ right => do expr left; expr right
  | .ternary condition whenTrue whenFalse => do expr condition; expr whenTrue; expr whenFalse
  | .comma items => exprs items
  | .var id name => read id name
  | .assign id name value => do expr value; write id name
  | .compoundAssign id name _ value => do expr value; discard (locate id name)
  | .update _ target _ => expr target
  | .call callee _ arguments => do expr callee; exprs arguments
  | .get object _ => expr object
  | .set object _ value => do expr value; expr object
  | .compoundSet object _ _ value => do expr value; expr object
  | .this id keyword => do
    if (← get).family = .none then report keyword .thisOutsideClass
    else discard (locate id keyword)
  | .super id keyword _ => do
    match (← get).family with
    | .none => report keyword .superOutsideClass
    | .root => report keyword .superWithoutSuperclass
    | .derived => discard (locate id keyword)

def exprs : List Expr → Resolve Unit
  | [] => pure ()
  | e :: es => do expr e; exprs es

end

def expr? : Option Expr → Resolve Unit
  | none => pure ()
  | some e => expr e

/-- Parameters from left to right: a fallback sees only the parameters before its own. -/
def params : List Param → Resolve Unit
  | [] => pure ()
  | p :: ps => do
    expr? p.fallback
    declare p.name
    define p.name
    params ps

def heading (name : Token) (superclass : Option Superclass) : Resolve Unit := do
  setFamily .root
  declare name
  match superclass with
  | none => pure ()
  | some parent =>
    setFamily .derived
    if parent.name.lexeme = name.lexeme then report parent.name .selfInheritance
    else expr parent.expr
  define name

/-- An instance method's body is an initializer's if that is its name. -/
def methodBody (name : Token) : Body := if name.lexeme = "init" then .initializer else .method

def returning (keyword : Token) (value : Option Expr) : Resolve Unit := do
  let body := (← get).body
  if body = .none then report keyword .topLevelReturn
  match value with
  | none => pure ()
  | some e =>
    if body = .initializer then report keyword .initializerValue
    expr e

mutual

def stmt : Stmt → Resolve Unit
  | .expr e => expr e
  | .var name initial => do
    declare name
    expr? initial
    define name
  | .block body => do
    openScope []
    stmts body
    closeScope
  | .ifThen condition whenTrue => do expr condition; stmt whenTrue
  | .ifElse condition whenTrue whenFalse => do expr condition; stmt whenTrue; stmt whenFalse
  | .while condition body => do expr condition; stmt body
  | .for condition increment body => do expr condition; stmt body; expr? increment
  | .function decl => do
    declare decl.name
    define decl.name
    function .function decl
  | .return keyword value => returning keyword value
  | .break _ => pure ()
  | .next _ => pure ()
  | .class name superclass methods statics => do
    let family := (← get).family
    heading name superclass
    if superclass.isSome then openScope [("super", true)]
    openScope [("this", true)]
    instanceMethods methods
    staticMethods statics
    closeScope
    if superclass.isSome then closeScope
    setFamily family

def stmts : List Stmt → Resolve Unit
  | [] => pure ()
  | s :: ss => do stmt s; stmts ss

/-- A function's parameters and its body share one scope. -/
def function (kind : Body) : FunctionDecl → Resolve Unit
  | ⟨_, ps, statements⟩ => do
    let body := (← get).body
    setBody kind
    openScope []
    params ps
    stmts statements
    closeScope
    setBody body

def instanceMethods : List FunctionDecl → Resolve Unit
  | [] => pure ()
  | d :: ds => do function (methodBody d.name) d; instanceMethods ds

def staticMethods : List FunctionDecl → Resolve Unit
  | [] => pure ()
  | d :: ds => do function .method d; staticMethods ds

end

def Walk.start (globals : List String) : Walk := ⟨[], globals, .none, .none, [], []⟩

end Scope

/-- The walk over a whole program, the given names being known as globals. -/
def resolve (globals : List String) (program : List Stmt) : Scope.Walk :=
  ((Scope.stmts program).run (.start globals)).2

end Scriptling
