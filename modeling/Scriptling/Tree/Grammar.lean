import Scriptling.Tree.Parser

namespace Scriptling

open Parse

namespace Grammar

/-- The rules for expressions that call themselves. -/
structure Rules (C : Type) where
  assignment : Parse C Expr
  ternary : Parse C Expr
  unary : Parse C Expr

variable {C : Type} [Reader C]

/-- Operators that bind equally strongly, and whether they may leave their right side out. -/
structure Level where
  operators : List Kind
  lazy : Bool

def Level.join (level : Level) (left : Expr) (operator : Token) (right : Expr) : Expr :=
  if level.lazy then .logical left operator right else .binary left operator right

/-- The levels of binary operators, the weakest first. -/
def levels : List Level :=
  [⟨[.or], true⟩, ⟨[.and], true⟩, ⟨[.bangEqual, .equalEqual], false⟩,
   ⟨[.greater, .greaterEqual, .less, .lessEqual], false⟩, ⟨[.minus, .plus], false⟩,
   ⟨[.slash, .slashSlash, .star, .percent], false⟩]

def expression (rules : Rules C) : Parse C Expr := do
  let first ← rules.assignment
  let all ← chain (fun read => do
    match ← accept .comma with
    | none => pure none
    | some _ => return some (read ++ [← rules.assignment])) [first]
  match all with
  | [e] => pure e
  | es => pure (.comma es)

def primary (rules : Rules C) : Parse C Expr := do
  match ← acceptAny
    [.false, .true, .nil, .number, .string, .identifier, .this, .super, .leftParen] with
  | none => refuse .expression
  | some t =>
    match t.kind with
    | .false => pure (.literal (.bool false))
    | .true => pure (.literal (.bool true))
    | .nil => pure (.literal .nil)
    | .number | .string => pure (.literal t.literal)
    | .identifier => return .var (← fresh) t
    | .this => return .this (← fresh) t
    | .super =>
      let _ ← expect .dot .superDot
      let method ← expect .identifier .superMethod
      return .super (← fresh) t method
    | _ =>
      let e ← expression rules
      let _ ← expect .rightParen .groupEnd
      pure (.group e)

def arguments (rules : Rules C) : Parse C (List Expr) := do
  if ← check .rightParen then pure [] else items .tooManyArguments rules.assignment

/-- An argument list or a property after an expression. -/
def suffix (rules : Rules C) (e : Expr) : Parse C (Option Expr) := do
  match ← acceptAny [.leftParen, .dot] with
  | none => pure none
  | some t =>
    if t.kind = .leftParen then
      let args ← arguments rules
      let paren ← expect .rightParen .argumentsEnd
      return some (.call e paren args)
    else
      return some (.get e (← expect .identifier .propertyName))

def call (rules : Rules C) : Parse C Expr := do
  chain (suffix rules) (← primary rules)

/-- Only a variable or a property can be counted up or down. Anything else is noted and left as it
is. -/
def update (operator : Token) (target : Expr) (before : Bool) : Parse C Expr :=
  match target with
  | .var _ _ | .get _ _ => pure (.update operator target before)
  | _ => do
    note (.updateTarget operator.lexeme) operator.place
    pure target

def postfixed (rules : Rules C) : Parse C Expr := do
  let e ← call rules
  match ← acceptAny [.plusPlus, .minusMinus] with
  | some operator => update operator e false
  | none => pure e

def unary (rules : Rules C) : Parse C Expr := do
  match ← acceptAny [.bang, .minus, .plusPlus, .minusMinus] with
  | none => postfixed rules
  | some operator =>
    let operand ← rules.unary
    if operator.kind = .bang ∨ operator.kind = .minus then pure (.unary operator operand)
    else update operator operand true

/-- Binary operators of the given levels, grouped to the left on each level. -/
def binary (operand : Parse C Expr) : List Level → Parse C Expr
  | [] => operand
  | level :: tighter => do
    let first ← binary operand tighter
    chain (fun left => do
      match ← acceptAny level.operators with
      | none => pure none
      | some operator => return some (level.join left operator (← binary operand tighter))) first

def ternary (rules : Rules C) : Parse C Expr := do
  let condition ← binary (unary rules) levels
  match ← accept .question with
  | none => pure condition
  | some _ =>
    let whenTrue ← rules.ternary
    let _ ← expect .colon .ternaryColon
    return .ternary condition whenTrue (← rules.ternary)

/-- An assignment to a variable or a property. Any other target is noted and left as it is. -/
def assignTo (target : Expr) (operator : Token) (value : Expr) : Parse C Expr :=
  match target with
  | .var _ name => do
    let id ← fresh
    pure (if operator.kind = .equal then .assign id name value
      else .compoundAssign id name operator value)
  | .get object name =>
    pure (if operator.kind = .equal then .set object name value
      else .compoundSet object name operator value)
  | _ => do
    note .assignmentTarget operator.place
    pure target

def assignment (rules : Rules C) : Parse C Expr := do
  let target ← ternary rules
  match ← acceptAny
    [.equal, .plusEqual, .minusEqual, .starEqual, .slashEqual, .percentEqual] with
  | none => pure target
  | some operator => assignTo target operator (← rules.assignment)

/-- The rules for expressions that nest at most so deep. Deeper ones are read by `base`. -/
def Rules.over (base : Rules C) : Nat → Rules C
  | 0 => base
  | depth + 1 =>
    let rules := Rules.over base depth
    ⟨Grammar.assignment rules, Grammar.ternary rules, Grammar.unary rules⟩

def Rules.refusing : Rules C := ⟨refuse .expression, refuse .expression, refuse .expression⟩

def Rules.upTo (depth : Nat) : Rules C := Rules.over .refusing depth

/-- The rules for statements that call themselves. A declaration that fails is passed over. -/
structure Blocks (C : Type) where
  declaration : Parse C (Option Stmt)
  statement : Parse C Stmt

def declarations (blocks : Blocks C) (more : Parse C Bool) : Parse C (List Stmt) :=
  chain (fun read => do
    if ← more then return some (read ++ (← blocks.declaration).toList) else pure none) []

def block (blocks : Blocks C) : Parse C (List Stmt) := do
  let body ← declarations blocks do return !(← check .rightBrace) && !(← atEnd)
  let _ ← expect .rightBrace .blockEnd
  pure body

def param (rules : Rules C) : Parse C Param := do
  let name ← expect .identifier .parameterName
  match ← accept .equal with
  | none => pure ⟨name, none⟩
  | some _ => return ⟨name, some (← rules.assignment)⟩

def params (rules : Rules C) : Parse C (List Param) := do
  if ← check .rightParen then pure [] else items .tooManyParameters (param rules)

def function (rules : Rules C) (blocks : Blocks C) (role : Role) : Parse C FunctionDecl := do
  let name ← expect .identifier (.functionName role)
  let _ ← expect .leftParen (.parameters role)
  let params ← params rules
  let _ ← expect .rightParen .parametersEnd
  let _ ← expect .leftBrace (.functionBody role)
  return ⟨name, params, ← block blocks⟩

def methods (rules : Rules C) (blocks : Blocks C) : Parse C (List FunctionDecl × List FunctionDecl) :=
  chain (fun (ms, ss) => do
    if (← check .rightBrace) || (← atEnd) then pure none
    else
      match ← accept .static with
      | some _ => return some (ms, ss ++ [← function rules blocks .static])
      | none => return some (ms ++ [← function rules blocks .method], ss)) ([], [])

def superclass : Parse C (Option Superclass) := do
  match ← acceptAny [.less, .leftArrow] with
  | none => pure none
  | some _ =>
    let name ← expect .identifier .superclassName
    return some ⟨← fresh, name⟩

def classDecl (rules : Rules C) (blocks : Blocks C) : Parse C Stmt := do
  let name ← expect .identifier .className
  let parent ← superclass
  let _ ← expect .leftBrace .classBody
  let (ms, ss) ← methods rules blocks
  let _ ← expect .rightBrace .classEnd
  pure (.class name parent ms ss)

def varDecl (rules : Rules C) : Parse C Stmt := do
  let name ← expect .identifier .variableName
  let initial ←
    match ← accept .equal with
    | none => pure none
    | some _ => some <$> expression rules
  terminator .variableEnd
  pure (.var name initial)

def expressionStmt (rules : Rules C) : Parse C Stmt := do
  let e ← expression rules
  terminator .expressionEnd
  pure (.expr e)

def forInitial (rules : Rules C) : Parse C (Option Stmt) := do
  match ← acceptAny [.semicolon, .var] with
  | none => some <$> expressionStmt rules
  | some t => if t.kind = .semicolon then pure none else some <$> varDecl rules

/-- A loop with a first clause is a block of that clause and the loop. -/
def forStmt (rules : Rules C) (blocks : Blocks C) : Parse C Stmt := do
  let _ ← expect .leftParen .forClauses
  let initial ← forInitial rules
  let condition ←
    if ← check .semicolon then pure (.literal (.bool true)) else expression rules
  let _ ← expect .semicolon .loopConditionEnd
  let increment ← if ← check .rightParen then pure none else some <$> expression rules
  let _ ← expect .rightParen .forClausesEnd
  let loop : Stmt := .for condition increment (← blocks.statement)
  match initial with
  | none => pure loop
  | some first => pure (.block [first, loop])

def ifStmt (rules : Rules C) (blocks : Blocks C) : Parse C Stmt := do
  let _ ← expect .leftParen .ifCondition
  let condition ← expression rules
  let _ ← expect .rightParen .ifConditionEnd
  let whenTrue ← blocks.statement
  match ← accept .else with
  | none => pure (.ifThen condition whenTrue)
  | some _ => return .ifElse condition whenTrue (← blocks.statement)

def whileStmt (rules : Rules C) (blocks : Blocks C) : Parse C Stmt := do
  let _ ← expect .leftParen .whileCondition
  let condition ← expression rules
  let _ ← expect .rightParen .whileConditionEnd
  return .while condition (← blocks.statement)

def returnStmt (rules : Rules C) (keyword : Token) : Parse C Stmt := do
  let value ←
    if (← check .semicolon) || (← atEnd) then pure none else some <$> expression rules
  terminator .returnEnd
  pure (.return keyword value)

def statement (rules : Rules C) (blocks : Blocks C) : Parse C Stmt := do
  match ← acceptAny [.for, .if, .while, .return, .break, .next, .leftBrace] with
  | none => expressionStmt rules
  | some t =>
    match t.kind with
    | .for => forStmt rules blocks
    | .if => ifStmt rules blocks
    | .while => whileStmt rules blocks
    | .return => returnStmt rules t
    | .break =>
      terminator .breakEnd
      pure (.break t)
    | .next =>
      terminator .nextEnd
      pure (.next t)
    | _ => .block <$> block blocks

def declaration (rules : Rules C) (blocks : Blocks C) : Parse C Stmt := do
  match ← acceptAny [.classKeyword, .func, .var] with
  | none => statement rules blocks
  | some t =>
    match t.kind with
    | .classKeyword => classDecl rules blocks
    | .func => .function <$> function rules blocks .function
    | _ => varDecl rules

/-- The rules for statements that nest at most so deep. Deeper ones are read by `base`. -/
def Blocks.over (rules : Rules C) (base : Blocks C) : Nat → Blocks C
  | 0 => base
  | depth + 1 =>
    let blocks := Blocks.over rules base depth
    ⟨recovering (Grammar.declaration rules blocks), Grammar.statement rules blocks⟩

def Blocks.refusing : Blocks C := ⟨recovering (refuse .expression), refuse .expression⟩

def Blocks.upTo (rules : Rules C) (depth : Nat) : Blocks C := Blocks.over rules .refusing depth

/-- All declarations up to the end, those that nest deeper being read by `rules` and `blocks`. -/
def programOver (rules : Rules C) (blocks : Blocks C) (depth : Nat) : Parse C (List Stmt) :=
  declarations (Blocks.over (Rules.over rules depth) blocks depth) do return !(← atEnd)

/-- All declarations up to the end. No program nests deeper than it has tokens.

```text
program     → declaration* ;
declaration → "class" IDENT (("<" | "<-") IDENT)? "{" ("static"? function)* "}"
            | "func" function | "var" IDENT ("=" expression)? ";" | statement ;
function    → IDENT "(" (param ("," param)*)? ")" block ;
param       → IDENT ("=" assignment)? ;
statement   → "for" "(" (varDecl | exprStmt | ";") expression? ";" expression? ")" statement
            | "if" "(" expression ")" statement ("else" statement)?
            | "while" "(" expression ")" statement
            | "return" expression? ";" | "break" ";" | "next" ";" | block | expression ";" ;
expression  → assignment ("," assignment)* ;
assignment  → (call ".")? IDENT ("=" | "+=" | "-=" | "*=" | "/=" | "%=") assignment | ternary ;
ternary     → binary ("?" ternary ":" ternary)? ;
unary       → ("!" | "-" | "++" | "--") unary | call ("++" | "--")? ;
call        → primary ("(" (assignment ("," assignment)*)? ")" | "." IDENT)* ;
primary     → NUMBER | STRING | "true" | "false" | "nil" | IDENT | "this"
            | "super" "." IDENT | "(" expression ")" ;
```
-/
def program (depth : Nat) : Parse C (List Stmt) := programOver .refusing .refusing depth

end Grammar

/-- What reading a program's tokens gives: its statements, or all faults in the order they were
noted, and the next unused node number. -/
structure Parsed where
  result : Except (List (Located ParseFault)) (List Stmt)
  nextId : ExprId

/-- Reads a program, numbering its nodes from `nextId` on. -/
def parse (lenient : Bool) (nextId : ExprId) (tokens : List Token) : Parsed :=
  let start := Parser.start lenient nextId tokens
  match Grammar.program start.tokens.size start with
  | .ok statements p =>
    ⟨if p.faults.isEmpty then .ok statements else .error p.faults, p.nextId⟩
  | .error fault p => ⟨.error (p.faults ++ [fault]), p.nextId⟩

end Scriptling
