import Scriptling.Tree.Basic

namespace Scriptling.Phrase

/-- The signs of assignment that do something with the old value first. -/
def compoundSigns : List Kind := [.plusEqual, .minusEqual, .starEqual, .slashEqual, .percentEqual]

/-- The binary operators, one row for each of the rules from `logic_or` to `factor`. -/
def precedence : List (List Kind) :=
  [[.or], [.and], [.bangEqual, .equalEqual], [.greater, .greaterEqual, .less, .lessEqual],
   [.minus, .plus], [.slash, .slashSlash, .star, .percent]]

/-- The tree of two operands; `or` and `and` have nodes of their own. -/
def joined (left : Expr) (operator : Token) (right : Expr) : Expr :=
  if operator.kind = .or ∨ operator.kind = .and then .logical left operator right
  else .binary left operator right

def mostEntries : Nat := 32

mutual

/-- The grammar as a relation between the tokens of a phrase and its tree. Nothing here says how a
phrase is read, and node numbers are left open. -/
inductive Expression : List Token → Expr → Prop
  | single : Assignment ts e → Expression ts e
  | comma : Assignments ts es → 2 ≤ es.length → Expression ts (.comma es)

inductive Assignments : List Token → List Expr → Prop
  | one : Assignment ts e → Assignments ts [e]
  | more : Assignments ts es → comma.kind = .comma → Assignment us e →
      Assignments (ts ++ comma :: us) (es ++ [e])

inductive Assignment : List Token → Expr → Prop
  | name : name.kind = .identifier → sign.kind = .equal → Assignment ts e →
      Assignment (name :: sign :: ts) (.assign node name e)
  | compoundName : name.kind = .identifier → sign.kind ∈ compoundSigns → Assignment ts e →
      Assignment (name :: sign :: ts) (.compoundAssign node name sign e)
  | property : Call ts object → dot.kind = .dot → name.kind = .identifier → sign.kind = .equal →
      Assignment us e → Assignment (ts ++ dot :: name :: sign :: us) (.set object name e)
  | compoundProperty : Call ts object → dot.kind = .dot → name.kind = .identifier →
      sign.kind ∈ compoundSigns → Assignment us e →
      Assignment (ts ++ dot :: name :: sign :: us) (.compoundSet object name sign e)
  | ternary : Ternary ts e → Assignment ts e

inductive Ternary : List Token → Expr → Prop
  | plain : Binary precedence ts e → Ternary ts e
  | choice : Binary precedence ts c → question.kind = .question → Ternary us e →
      colon.kind = .colon → Ternary vs e' →
      Ternary (ts ++ question :: (us ++ colon :: vs)) (.ternary c e e')

/-- Operators of the given rows. Those of one row group to the left. -/
inductive Binary : List (List Kind) → List Token → Expr → Prop
  | unary : Unary ts e → Binary [] ts e
  | tighter : Binary rows ts e → Binary (row :: rows) ts e
  | join : Binary (row :: rows) ts e → operator.kind ∈ row → Binary rows us e' →
      Binary (row :: rows) (ts ++ operator :: us) (joined e operator e')

inductive Unary : List Token → Expr → Prop
  | sign : operator.kind = .bang ∨ operator.kind = .minus → Unary ts e →
      Unary (operator :: ts) (.unary operator e)
  | update : operator.kind = .plusPlus ∨ operator.kind = .minusMinus → Target ts e →
      Unary (operator :: ts) (.update operator e true)
  | postfixed : Postfixed ts e → Unary ts e

inductive Postfixed : List Token → Expr → Prop
  | plain : Call ts e → Postfixed ts e
  | update : Target ts e → operator.kind = .plusPlus ∨ operator.kind = .minusMinus →
      Postfixed (ts ++ [operator]) (.update operator e false)

/-- What can be counted up or down: `(call ".")? IDENT`. -/
inductive Target : List Token → Expr → Prop
  | name : name.kind = .identifier → Target [name] (.var node name)
  | property : Call ts object → dot.kind = .dot → name.kind = .identifier →
      Target (ts ++ [dot, name]) (.get object name)

inductive Call : List Token → Expr → Prop
  | primary : Primary ts e → Call ts e
  | call : Call ts callee → left.kind = .leftParen → Arguments us args →
      right.kind = .rightParen → Call (ts ++ left :: (us ++ [right])) (.call callee right args)
  | get : Call ts object → dot.kind = .dot → name.kind = .identifier →
      Call (ts ++ [dot, name]) (.get object name)

inductive Arguments : List Token → List Expr → Prop
  | none : Arguments [] []
  | some : Assignments ts es → es.length ≤ mostEntries → Arguments ts es

inductive Primary : List Token → Expr → Prop
  | false : t.kind = .false → Primary [t] (.literal (.bool false))
  | true : t.kind = .true → Primary [t] (.literal (.bool true))
  | nil : t.kind = .nil → Primary [t] (.literal .nil)
  | constant : t.kind = .number ∨ t.kind = .string → Primary [t] (.literal t.literal)
  | name : t.kind = .identifier → Primary [t] (.var node t)
  | this : t.kind = .this → Primary [t] (.this node t)
  | super : t.kind = .super → dot.kind = .dot → method.kind = .identifier →
      Primary [t, dot, method] (.super node t method)
  | group : left.kind = .leftParen → Expression ts e → right.kind = .rightParen →
      Primary (left :: (ts ++ [right])) (.group e)

end

inductive Parameter : List Token → Param → Prop
  | plain : name.kind = .identifier → Parameter [name] ⟨name, none⟩
  | fallback : name.kind = .identifier → sign.kind = .equal → Assignment ts e →
      Parameter (name :: sign :: ts) ⟨name, some e⟩

inductive Parameters : List Token → List Param → Prop
  | one : Parameter ts p → Parameters ts [p]
  | more : Parameters ts ps → comma.kind = .comma → Parameter us p →
      Parameters (ts ++ comma :: us) (ps ++ [p])

inductive ParameterList : List Token → List Param → Prop
  | none : ParameterList [] []
  | some : Parameters ts ps → ps.length ≤ mostEntries → ParameterList ts ps

inductive Optional : List Token → Option Expr → Prop
  | none : Optional [] none
  | some : Expression ts e → Optional ts (some e)

/-- Two liberties of a reading. The rules alone do not say which `if` an `else` belongs to:
`nearestElse` gives it to the nearest one. With `bareEnd` a statement may lack the sign at its
end. -/
structure Manner where
  nearestElse : Bool
  bareEnd : Bool

/-- The rules as they are written. -/
def written : Manner := ⟨false, false⟩

/-- The rules, with every `else` at the nearest `if`. -/
def nearest : Manner := ⟨true, false⟩

inductive Ending (manner : Manner) : List Token → Prop
  | sign : t.kind = .semicolon → Ending manner [t]
  | bare : manner.bareEnd = true → Ending manner []

inductive VarDecl (manner : Manner) : List Token → Stmt → Prop
  | plain : keyword.kind = .var → name.kind = .identifier → Ending manner us →
      VarDecl manner (keyword :: name :: us) (.var name none)
  | initial : keyword.kind = .var → name.kind = .identifier → sign.kind = .equal →
      Expression ts e → Ending manner us →
      VarDecl manner (keyword :: name :: sign :: (ts ++ us)) (.var name (some e))

inductive ForInitial (manner : Manner) : List Token → Option Stmt → Prop
  | none : t.kind = .semicolon → ForInitial manner [t] none
  | var : VarDecl manner ts s → ForInitial manner ts (some s)
  | expr : Expression ts e → Ending manner us → ForInitial manner (ts ++ us) (some (.expr e))

inductive Heritage : List Token → Option Superclass → Prop
  | none : Heritage [] none
  | some : sign.kind = .less ∨ sign.kind = .leftArrow → name.kind = .identifier →
      Heritage [sign, name] (some ⟨node, name⟩)

/-- The tree of a loop: with a first clause it is a block of that clause and the loop, and a
missing condition is `true`. -/
def forLoop (initial : Option Stmt) (condition increment : Option Expr) (body : Stmt) : Stmt :=
  let loop : Stmt := .for (condition.getD (.literal (.bool true))) increment body
  match initial with
  | none => loop
  | some first => .block [first, loop]

mutual

inductive Declaration (manner : Manner) : List Token → Stmt → Prop
  | class : keyword.kind = .classKeyword → name.kind = .identifier → Heritage hs parent →
      left.kind = .leftBrace → Members manner ts methods statics → right.kind = .rightBrace →
      Declaration manner (keyword :: name :: (hs ++ left :: (ts ++ [right])))
        (.class name parent methods statics)
  | function : keyword.kind = .func → Function manner ts d →
      Declaration manner (keyword :: ts) (.function d)
  | var : VarDecl manner ts s → Declaration manner ts s
  | statement : Statement manner ts s opened → Declaration manner ts s

inductive Declarations (manner : Manner) : List Token → List Stmt → Prop
  | none : Declarations manner [] []
  | more : Declarations manner ts ss → Declaration manner us s →
      Declarations manner (ts ++ us) (ss ++ [s])

inductive Block (manner : Manner) : List Token → List Stmt → Prop
  | block : left.kind = .leftBrace → Declarations manner ts ss → right.kind = .rightBrace →
      Block manner (left :: (ts ++ [right])) ss

inductive Function (manner : Manner) : List Token → FunctionDecl → Prop
  | function : name.kind = .identifier → left.kind = .leftParen → ParameterList ps params →
      right.kind = .rightParen → Block manner bs body →
      Function manner (name :: left :: (ps ++ right :: bs)) ⟨name, params, body⟩

inductive Members (manner : Manner) : List Token → List FunctionDecl → List FunctionDecl → Prop
  | none : Members manner [] [] []
  | method : Members manner ts ms ss → Function manner us d →
      Members manner (ts ++ us) (ms ++ [d]) ss
  | static : Members manner ts ms ss → keyword.kind = .static → Function manner us d →
      Members manner (ts ++ keyword :: us) ms (ss ++ [d])

/-- A statement, and whether an `else` right after it would belong to an `if` at its end. -/
inductive Statement (manner : Manner) : List Token → Stmt → Bool → Prop
  | expr : Expression ts e → Ending manner us → Statement manner (ts ++ us) (.expr e) false
  | for : keyword.kind = .for → left.kind = .leftParen → ForInitial manner is initial →
      Optional cs condition → sign.kind = .semicolon → Optional ns increment →
      right.kind = .rightParen → Statement manner bs body opened →
      Statement manner (keyword :: left :: (is ++ (cs ++ sign :: (ns ++ right :: bs))))
        (forLoop initial condition increment body) opened
  | ifThen : keyword.kind = .if → left.kind = .leftParen → Expression cs c →
      right.kind = .rightParen → Statement manner ts s opened →
      Statement manner (keyword :: left :: (cs ++ right :: ts)) (.ifThen c s) true
  | ifElse : keyword.kind = .if → left.kind = .leftParen → Expression cs c →
      right.kind = .rightParen → Statement manner ts s opened →
      (manner.nearestElse = true → opened = false) → otherwise.kind = .else →
      Statement manner us s' opened' →
      Statement manner (keyword :: left :: (cs ++ right :: (ts ++ otherwise :: us)))
        (.ifElse c s s') opened'
  | while : keyword.kind = .while → left.kind = .leftParen → Expression cs c →
      right.kind = .rightParen → Statement manner ts s opened →
      Statement manner (keyword :: left :: (cs ++ right :: ts)) (.while c s) opened
  | return : keyword.kind = .return → Optional vs value → Ending manner us →
      Statement manner (keyword :: (vs ++ us)) (.return keyword value) false
  | break : keyword.kind = .break → Ending manner us →
      Statement manner (keyword :: us) (.break keyword) false
  | next : keyword.kind = .next → Ending manner us →
      Statement manner (keyword :: us) (.next keyword) false
  | block : Block manner ts body → Statement manner ts (.block body) false

end

def Program (manner : Manner) (ts : List Token) (ss : List Stmt) : Prop := Declarations manner ts ss

end Scriptling.Phrase
