import Scriptling.Number.Text
import Scriptling.Tree.Basic

namespace Scriptling

/-- A name and parts between parentheses, blanks between them. -/
def parenthesized (name : String) (parts : List String) : String :=
  parts.foldl (fun text part => text ++ " " ++ part) ("(" ++ name) ++ ")"

def Literal.treeText : Literal → String
  | .nil => "nil"
  | .bool b => if b then "true" else "false"
  | .number x => Number.treeText x.toBits
  | .string s => s

namespace Expr

mutual

def print : Expr → String
  | .literal value => value.treeText
  | .group inner => parenthesized "group" [inner.print]
  | .unary op operand => parenthesized op.lexeme [operand.print]
  | .binary left op right => parenthesized op.lexeme [left.print, right.print]
  | .logical left op right => parenthesized op.lexeme [left.print, right.print]
  | .ternary condition whenTrue whenFalse =>
    parenthesized "?:" [condition.print, whenTrue.print, whenFalse.print]
  | .comma items => parenthesized "," (printAll items)
  | .var _ name => name.lexeme
  | .assign _ name value => parenthesized "=" [name.lexeme, value.print]
  | .compoundAssign _ name op value => parenthesized op.lexeme [name.lexeme, value.print]
  | .update op target before =>
    parenthesized ((if before then "pre" else "post") ++ op.lexeme) [target.print]
  | .call callee _ arguments => parenthesized "call" (callee.print :: printAll arguments)
  | .get object name => parenthesized "." [object.print, name.lexeme]
  | .set object name value =>
    parenthesized "=" [parenthesized "." [object.print, name.lexeme], value.print]
  | .compoundSet object name op value =>
    parenthesized op.lexeme [parenthesized "." [object.print, name.lexeme], value.print]
  | .this _ _ => "this"
  | .super _ _ method => parenthesized "super" [method.lexeme]

def printAll : List Expr → List String
  | [] => []
  | e :: es => e.print :: printAll es

end

end Expr

def Param.print (p : Param) : String :=
  match p.fallback with
  | some e => parenthesized "=" [p.name.lexeme, e.print]
  | none => p.name.lexeme

mutual

def Stmt.print : Stmt → String
  | .expr e => parenthesized ";" [e.print]
  | .var name none => parenthesized "var" [name.lexeme]
  | .var name (some e) => parenthesized "var" [name.lexeme, e.print]
  | .block body => parenthesized "block" (Stmt.printAll body)
  | .ifThen condition whenTrue => parenthesized "if" [condition.print, whenTrue.print]
  | .ifElse condition whenTrue whenFalse =>
    parenthesized "if" [condition.print, whenTrue.print, whenFalse.print]
  | .while condition body => parenthesized "while" [condition.print, body.print]
  | .for condition increment body =>
    parenthesized "for" [condition.print, (increment.map Expr.print).getD "nil", body.print]
  | .function decl => decl.print "func"
  | .return _ none => parenthesized "return" []
  | .return _ (some e) => parenthesized "return" [e.print]
  | .break _ => parenthesized "break" []
  | .next _ => parenthesized "next" []
  | .class name superclass methods statics =>
    let parent := superclass.toList.map fun s => parenthesized "<" [s.name.lexeme]
    parenthesized "class"
      (name.lexeme :: parent ++ FunctionDecl.printAll "method" methods ++
        FunctionDecl.printAll "static" statics)

def Stmt.printAll : List Stmt → List String
  | [] => []
  | s :: ss => s.print :: Stmt.printAll ss

def FunctionDecl.print (keyword : String) : FunctionDecl → String
  | ⟨name, params, body⟩ =>
    let head := name.lexeme ++ " (" ++ " ".intercalate (params.map Param.print) ++ ")"
    parenthesized keyword (head :: Stmt.printAll body)

def FunctionDecl.printAll (keyword : String) : List FunctionDecl → List String
  | [] => []
  | d :: ds => d.print keyword :: FunctionDecl.printAll keyword ds

end

end Scriptling
