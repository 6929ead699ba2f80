import Scriptling.Token.Basic

namespace Scriptling

/-- Number of a node that refers to a variable. -/
abbrev ExprId := Nat

/-- Every node that reads or writes a variable has a number of its own, under which the distance to the
variable's scope is noted. -/
inductive Expr where
  | literal (value : Literal)
  | group (inner : Expr)
  | unary (operator : Token) (operand : Expr)
  | binary (left : Expr) (operator : Token) (right : Expr)
  | logical (left : Expr) (operator : Token) (right : Expr)
  | ternary (condition whenTrue whenFalse : Expr)
  | comma (items : List Expr)
  | var (id : ExprId) (name : Token)
  | assign (id : ExprId) (name : Token) (value : Expr)
  | compoundAssign (id : ExprId) (name operator : Token) (value : Expr)
  | update (operator : Token) (target : Expr) (before : Bool)
  | call (callee : Expr) (paren : Token) (arguments : List Expr)
  | get (object : Expr) (name : Token)
  | set (object : Expr) (name : Token) (value : Expr)
  | compoundSet (object : Expr) (name operator : Token) (value : Expr)
  | this (id : ExprId) (keyword : Token)
  | super (id : ExprId) (keyword method : Token)
deriving Repr, Inhabited

/-- A parameter; one with a fallback may be left out of a call. -/
structure Param where
  name : Token
  fallback : Option Expr
deriving Repr

structure Superclass where
  id : ExprId
  name : Token
deriving Repr

def Superclass.expr (s : Superclass) : Expr := .var s.id s.name

mutual

inductive Stmt where
  | expr (e : Expr)
  | var (name : Token) (initial : Option Expr)
  | block (body : List Stmt)
  | ifThen (condition : Expr) (whenTrue : Stmt)
  | ifElse (condition : Expr) (whenTrue whenFalse : Stmt)
  | while (condition : Expr) (body : Stmt)
  | for (condition : Expr) (increment : Option Expr) (body : Stmt)
  | function (decl : FunctionDecl)
  | return (keyword : Token) (value : Option Expr)
  | break (keyword : Token)
  | next (keyword : Token)
  | class (name : Token) (superclass : Option Superclass) (methods statics : List FunctionDecl)

structure FunctionDecl where
  name : Token
  params : List Param
  body : List Stmt

end

instance : Inhabited Stmt := ⟨.block []⟩

end Scriptling
