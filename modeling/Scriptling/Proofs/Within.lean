import Scriptling.Tree.Basic

namespace Scriptling

variable {T : Token → Prop}

structure Token.NameIn (T : Token → Prop) (t : Token) : Prop where
  token : T t
  kind : t.kind = .identifier

mutual

def Expr.Within (T : Token → Prop) : Expr → Prop
  | .literal _ => True
  | .group inner => inner.Within T
  | .unary operator operand => T operator ∧ operand.Within T
  | .binary left operator right => left.Within T ∧ T operator ∧ right.Within T
  | .logical left operator right => left.Within T ∧ T operator ∧ right.Within T
  | .ternary condition whenTrue whenFalse =>
    condition.Within T ∧ whenTrue.Within T ∧ whenFalse.Within T
  | .comma items => Expr.WithinAll T items
  | .var _ name => name.NameIn T
  | .assign _ name value => name.NameIn T ∧ value.Within T
  | .compoundAssign _ name operator value => name.NameIn T ∧ T operator ∧ value.Within T
  | .update operator target _ => T operator ∧ target.Within T
  | .call callee paren arguments => callee.Within T ∧ T paren ∧ Expr.WithinAll T arguments
  | .get object name => object.Within T ∧ T name
  | .set object name value => object.Within T ∧ T name ∧ value.Within T
  | .compoundSet object name operator value =>
    object.Within T ∧ T name ∧ T operator ∧ value.Within T
  | .this _ keyword => T keyword
  | .super _ keyword method => T keyword ∧ T method

def Expr.WithinAll (T : Token → Prop) : List Expr → Prop
  | [] => True
  | e :: es => e.Within T ∧ Expr.WithinAll T es

end

def Param.Within (T : Token → Prop) (p : Param) : Prop :=
  p.name.NameIn T ∧ ∀ e ∈ p.fallback, e.Within T

def Superclass.Within (T : Token → Prop) (s : Superclass) : Prop := s.name.NameIn T

mutual

def Stmt.Within (T : Token → Prop) : Stmt → Prop
  | .expr e => e.Within T
  | .var name initial => name.NameIn T ∧ ∀ e ∈ initial, e.Within T
  | .block body => Stmt.WithinAll T body
  | .ifThen condition whenTrue => condition.Within T ∧ whenTrue.Within T
  | .ifElse condition whenTrue whenFalse =>
    condition.Within T ∧ whenTrue.Within T ∧ whenFalse.Within T
  | .while condition body => condition.Within T ∧ body.Within T
  | .for condition increment body =>
    condition.Within T ∧ (∀ e ∈ increment, e.Within T) ∧ body.Within T
  | .function decl => decl.Within T
  | .return keyword value => T keyword ∧ ∀ e ∈ value, e.Within T
  | .break keyword => T keyword
  | .next keyword => T keyword
  | .class name superclass methods statics =>
    name.NameIn T ∧ (∀ s ∈ superclass, s.Within T) ∧
      FunctionDecl.WithinAll T methods ∧ FunctionDecl.WithinAll T statics

def Stmt.WithinAll (T : Token → Prop) : List Stmt → Prop
  | [] => True
  | s :: ss => s.Within T ∧ Stmt.WithinAll T ss

def FunctionDecl.Within (T : Token → Prop) : FunctionDecl → Prop
  | ⟨name, params, body⟩ =>
    name.NameIn T ∧ (∀ p ∈ params, p.Within T) ∧ Stmt.WithinAll T body

def FunctionDecl.WithinAll (T : Token → Prop) : List FunctionDecl → Prop
  | [] => True
  | d :: ds => d.Within T ∧ FunctionDecl.WithinAll T ds

end

theorem Expr.withinAll_iff {es : List Expr} : Expr.WithinAll T es ↔ ∀ e ∈ es, e.Within T := by
  induction es with
  | nil => simp [Expr.WithinAll]
  | cons e es ih => simp [Expr.WithinAll, ih]

theorem Stmt.withinAll_iff {ss : List Stmt} : Stmt.WithinAll T ss ↔ ∀ s ∈ ss, s.Within T := by
  induction ss with
  | nil => simp [Stmt.WithinAll]
  | cons s ss ih => simp [Stmt.WithinAll, ih]

theorem FunctionDecl.withinAll_iff {ds : List FunctionDecl} :
    FunctionDecl.WithinAll T ds ↔ ∀ d ∈ ds, d.Within T := by
  induction ds with
  | nil => simp [FunctionDecl.WithinAll]
  | cons d ds ih => simp [FunctionDecl.WithinAll, ih]

/-- A function is within if its name, its parameters and its body are. -/
theorem FunctionDecl.Within.parts {d : FunctionDecl} (h : d.Within T) :
    d.name.NameIn T ∧ (∀ p ∈ d.params, p.Within T) ∧ Stmt.WithinAll T d.body := by
  obtain ⟨name, params, body⟩ := d
  exact h

end Scriptling
