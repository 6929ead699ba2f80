import Scriptling.Tree.Basic

namespace Scriptling

inductive Reference where
  | variable
  | this
  | super
deriving DecidableEq

/-- A reference: the number of its node and the token that names the variable. -/
structure Use where
  role : Reference
  id : Nat
  name : Token

mutual

def Expr.uses : Expr → List Use
  | .literal _ => []
  | .group inner => inner.uses
  | .unary _ operand => operand.uses
  | .binary left _ right => left.uses ++ right.uses
  | .logical left _ right => left.uses ++ right.uses
  | .ternary condition whenTrue whenFalse => condition.uses ++ (whenTrue.uses ++ whenFalse.uses)
  | .comma items => Expr.usesAll items
  | .var id name => [⟨.variable, id, name⟩]
  | .assign id name value => value.uses ++ [⟨.variable, id, name⟩]
  | .compoundAssign id name _ value => value.uses ++ [⟨.variable, id, name⟩]
  | .update _ target _ => target.uses
  | .call callee _ arguments => callee.uses ++ Expr.usesAll arguments
  | .get object _ => object.uses
  | .set object _ value => value.uses ++ object.uses
  | .compoundSet object _ _ value => value.uses ++ object.uses
  | .this id keyword => [⟨.this, id, keyword⟩]
  | .super id keyword _ => [⟨.super, id, keyword⟩]

def Expr.usesAll : List Expr → List Use
  | [] => []
  | e :: es => e.uses ++ Expr.usesAll es

end

def Expr.uses? : Option Expr → List Use
  | none => []
  | some e => e.uses

def Superclass.use (s : Superclass) : Use := ⟨.variable, s.id, s.name⟩

def Superclass.uses? : Option Superclass → List Use
  | none => []
  | some s => [s.use]

def Param.usesAll : List Param → List Use
  | [] => []
  | p :: ps => Expr.uses? p.fallback ++ Param.usesAll ps

mutual

def Stmt.uses : Stmt → List Use
  | .expr e => e.uses
  | .var _ initial => Expr.uses? initial
  | .block body => Stmt.usesAll body
  | .ifThen condition whenTrue => condition.uses ++ whenTrue.uses
  | .ifElse condition whenTrue whenFalse => condition.uses ++ (whenTrue.uses ++ whenFalse.uses)
  | .while condition body => condition.uses ++ body.uses
  | .for condition increment body => condition.uses ++ (body.uses ++ Expr.uses? increment)
  | .function decl => decl.uses
  | .return _ value => Expr.uses? value
  | .break _ => []
  | .next _ => []
  | .class _ superclass methods statics =>
    Superclass.uses? superclass ++ (FunctionDecl.usesAll methods ++ FunctionDecl.usesAll statics)

def Stmt.usesAll : List Stmt → List Use
  | [] => []
  | s :: ss => s.uses ++ Stmt.usesAll ss

def FunctionDecl.uses : FunctionDecl → List Use
  | ⟨_, params, body⟩ => Param.usesAll params ++ Stmt.usesAll body

def FunctionDecl.usesAll : List FunctionDecl → List Use
  | [] => []
  | d :: ds => d.uses ++ FunctionDecl.usesAll ds

end

mutual

def Expr.turn (f : Use → Use) : Expr → Expr
  | .literal value => .literal value
  | .group inner => .group (inner.turn f)
  | .unary operator operand => .unary operator (operand.turn f)
  | .binary left operator right => .binary (left.turn f) operator (right.turn f)
  | .logical left operator right => .logical (left.turn f) operator (right.turn f)
  | .ternary condition whenTrue whenFalse =>
    .ternary (condition.turn f) (whenTrue.turn f) (whenFalse.turn f)
  | .comma items => .comma (Expr.turnAll f items)
  | .var id name => .var (f ⟨.variable, id, name⟩).id (f ⟨.variable, id, name⟩).name
  | .assign id name value =>
    .assign (f ⟨.variable, id, name⟩).id (f ⟨.variable, id, name⟩).name (value.turn f)
  | .compoundAssign id name operator value =>
    .compoundAssign (f ⟨.variable, id, name⟩).id (f ⟨.variable, id, name⟩).name operator
      (value.turn f)
  | .update operator target before => .update operator (target.turn f) before
  | .call callee paren arguments => .call (callee.turn f) paren (Expr.turnAll f arguments)
  | .get object name => .get (object.turn f) name
  | .set object name value => .set (object.turn f) name (value.turn f)
  | .compoundSet object name operator value =>
    .compoundSet (object.turn f) name operator (value.turn f)
  | .this id keyword => .this (f ⟨.this, id, keyword⟩).id (f ⟨.this, id, keyword⟩).name
  | .super id keyword method =>
    .super (f ⟨.super, id, keyword⟩).id (f ⟨.super, id, keyword⟩).name method

def Expr.turnAll (f : Use → Use) : List Expr → List Expr
  | [] => []
  | e :: es => e.turn f :: Expr.turnAll f es

end

def Superclass.turn (f : Use → Use) (s : Superclass) : Superclass := ⟨(f s.use).id, (f s.use).name⟩

theorem Superclass.expr_turn (f : Use → Use) (s : Superclass) :
    (s.turn f).expr = s.expr.turn f := by
  simp only [Superclass.expr, Superclass.turn, Superclass.use, Expr.turn]

/-- A parameter keeps its name. -/
def Param.turn (f : Use → Use) (p : Param) : Param := ⟨p.name, p.fallback.map (Expr.turn f)⟩

mutual

/-- The statement with other references in place of its own. Declared names stay. -/
def Stmt.turn (f : Use → Use) : Stmt → Stmt
  | .expr e => .expr (e.turn f)
  | .var name initial => .var name (initial.map (Expr.turn f))
  | .block body => .block (Stmt.turnAll f body)
  | .ifThen condition whenTrue => .ifThen (condition.turn f) (whenTrue.turn f)
  | .ifElse condition whenTrue whenFalse =>
    .ifElse (condition.turn f) (whenTrue.turn f) (whenFalse.turn f)
  | .while condition body => .while (condition.turn f) (body.turn f)
  | .for condition increment body =>
    .for (condition.turn f) (increment.map (Expr.turn f)) (body.turn f)
  | .function decl => .function (decl.turn f)
  | .return keyword value => .return keyword (value.map (Expr.turn f))
  | .break keyword => .break keyword
  | .next keyword => .next keyword
  | .class name superclass methods statics =>
    .class name (superclass.map (Superclass.turn f)) (FunctionDecl.turnAll f methods)
      (FunctionDecl.turnAll f statics)

def Stmt.turnAll (f : Use → Use) : List Stmt → List Stmt
  | [] => []
  | s :: ss => s.turn f :: Stmt.turnAll f ss

def FunctionDecl.turn (f : Use → Use) : FunctionDecl → FunctionDecl
  | ⟨name, params, body⟩ => ⟨name, params.map (Param.turn f), Stmt.turnAll f body⟩

def FunctionDecl.turnAll (f : Use → Use) : List FunctionDecl → List FunctionDecl
  | [] => []
  | d :: ds => d.turn f :: FunctionDecl.turnAll f ds

end

theorem Expr.usesAll_append (es ds : List Expr) :
    Expr.usesAll (es ++ ds) = Expr.usesAll es ++ Expr.usesAll ds := by
  induction es with
  | nil => rfl
  | cons e es ih => simp only [List.cons_append, Expr.usesAll, ih, List.append_assoc]

theorem Param.usesAll_append (ps qs : List Param) :
    Param.usesAll (ps ++ qs) = Param.usesAll ps ++ Param.usesAll qs := by
  induction ps with
  | nil => rfl
  | cons p ps ih => simp only [List.cons_append, Param.usesAll, ih, List.append_assoc]

theorem Stmt.usesAll_append (ss ds : List Stmt) :
    Stmt.usesAll (ss ++ ds) = Stmt.usesAll ss ++ Stmt.usesAll ds := by
  induction ss with
  | nil => rfl
  | cons s ss ih => simp only [List.cons_append, Stmt.usesAll, ih, List.append_assoc]

theorem FunctionDecl.usesAll_append (ds fs : List FunctionDecl) :
    FunctionDecl.usesAll (ds ++ fs) = FunctionDecl.usesAll ds ++ FunctionDecl.usesAll fs := by
  induction ds with
  | nil => rfl
  | cons d ds ih => simp only [List.cons_append, FunctionDecl.usesAll, ih, List.append_assoc]

section Same

variable {f : Use → Use}

mutual

theorem Expr.turn_eq_self : ∀ e : Expr, (∀ u ∈ e.uses, f u = u) → e.turn f = e
  | .literal _, _ => rfl
  | .group inner, h => by rw [Expr.turn, Expr.turn_eq_self inner h]
  | .unary _ operand, h => by rw [Expr.turn, Expr.turn_eq_self operand h]
  | .binary left _ right, h => by
    obtain ⟨hl, hr⟩ := List.forall_mem_append.1 h
    rw [Expr.turn, Expr.turn_eq_self left hl, Expr.turn_eq_self right hr]
  | .logical left _ right, h => by
    obtain ⟨hl, hr⟩ := List.forall_mem_append.1 h
    rw [Expr.turn, Expr.turn_eq_self left hl, Expr.turn_eq_self right hr]
  | .ternary condition whenTrue whenFalse, h => by
    obtain ⟨hc, h⟩ := List.forall_mem_append.1 h
    obtain ⟨ht, hf⟩ := List.forall_mem_append.1 h
    rw [Expr.turn, Expr.turn_eq_self condition hc, Expr.turn_eq_self whenTrue ht,
      Expr.turn_eq_self whenFalse hf]
  | .comma items, h => by rw [Expr.turn, Expr.turnAll_eq_self items h]
  | .var _ _, h => by rw [Expr.turn, h _ (List.mem_singleton_self _)]
  | .assign _ _ value, h => by
    obtain ⟨hv, hu⟩ := List.forall_mem_append.1 h
    rw [Expr.turn, Expr.turn_eq_self value hv, hu _ (List.mem_singleton_self _)]
  | .compoundAssign _ _ _ value, h => by
    obtain ⟨hv, hu⟩ := List.forall_mem_append.1 h
    rw [Expr.turn, Expr.turn_eq_self value hv, hu _ (List.mem_singleton_self _)]
  | .update _ target _, h => by rw [Expr.turn, Expr.turn_eq_self target h]
  | .call callee _ arguments, h => by
    obtain ⟨hc, ha⟩ := List.forall_mem_append.1 h
    rw [Expr.turn, Expr.turn_eq_self callee hc, Expr.turnAll_eq_self arguments ha]
  | .get object _, h => by rw [Expr.turn, Expr.turn_eq_self object h]
  | .set object _ value, h => by
    obtain ⟨hv, ho⟩ := List.forall_mem_append.1 h
    rw [Expr.turn, Expr.turn_eq_self object ho, Expr.turn_eq_self value hv]
  | .compoundSet object _ _ value, h => by
    obtain ⟨hv, ho⟩ := List.forall_mem_append.1 h
    rw [Expr.turn, Expr.turn_eq_self object ho, Expr.turn_eq_self value hv]
  | .this _ _, h => by rw [Expr.turn, h _ (List.mem_singleton_self _)]
  | .super _ _ _, h => by rw [Expr.turn, h _ (List.mem_singleton_self _)]

theorem Expr.turnAll_eq_self : ∀ es : List Expr, (∀ u ∈ Expr.usesAll es, f u = u) →
    Expr.turnAll f es = es
  | [], _ => rfl
  | e :: es, h => by
    obtain ⟨he, hes⟩ := List.forall_mem_append.1 h
    rw [Expr.turnAll, Expr.turn_eq_self e he, Expr.turnAll_eq_self es hes]

end

theorem Expr.turn_eq_self? (o : Option Expr) (h : ∀ u ∈ Expr.uses? o, f u = u) :
    o.map (Expr.turn f) = o := by
  cases o with
  | none => rfl
  | some e => rw [Option.map_some, Expr.turn_eq_self e h]

theorem Superclass.turn_eq_self? (o : Option Superclass) (h : ∀ u ∈ Superclass.uses? o, f u = u) :
    o.map (Superclass.turn f) = o := by
  cases o with
  | none => rfl
  | some s =>
    rw [Option.map_some, Superclass.turn, h _ (List.mem_singleton_self _)]
    rfl

theorem Param.turn_eq_self (ps : List Param) (h : ∀ u ∈ Param.usesAll ps, f u = u) :
    ps.map (Param.turn f) = ps := by
  induction ps with
  | nil => rfl
  | cons p ps ih =>
    obtain ⟨hp, hps⟩ := List.forall_mem_append.1 h
    rw [List.map_cons, Param.turn, Expr.turn_eq_self? _ hp, ih hps]

mutual

theorem Stmt.turn_eq_self : ∀ s : Stmt, (∀ u ∈ s.uses, f u = u) → s.turn f = s
  | .expr e, h => by rw [Stmt.turn, Expr.turn_eq_self e h]
  | .var _ initial, h => by rw [Stmt.turn, Expr.turn_eq_self? initial h]
  | .block body, h => by rw [Stmt.turn, Stmt.turnAll_eq_self body h]
  | .ifThen condition whenTrue, h => by
    obtain ⟨hc, ht⟩ := List.forall_mem_append.1 h
    rw [Stmt.turn, Expr.turn_eq_self condition hc, Stmt.turn_eq_self whenTrue ht]
  | .ifElse condition whenTrue whenFalse, h => by
    obtain ⟨hc, h⟩ := List.forall_mem_append.1 h
    obtain ⟨ht, hf⟩ := List.forall_mem_append.1 h
    rw [Stmt.turn, Expr.turn_eq_self condition hc, Stmt.turn_eq_self whenTrue ht,
      Stmt.turn_eq_self whenFalse hf]
  | .while condition body, h => by
    obtain ⟨hc, hb⟩ := List.forall_mem_append.1 h
    rw [Stmt.turn, Expr.turn_eq_self condition hc, Stmt.turn_eq_self body hb]
  | .for condition increment body, h => by
    obtain ⟨hc, h⟩ := List.forall_mem_append.1 h
    obtain ⟨hb, hi⟩ := List.forall_mem_append.1 h
    rw [Stmt.turn, Expr.turn_eq_self condition hc, Expr.turn_eq_self? increment hi,
      Stmt.turn_eq_self body hb]
  | .function decl, h => by rw [Stmt.turn, FunctionDecl.turn_eq_self decl h]
  | .return _ value, h => by rw [Stmt.turn, Expr.turn_eq_self? value h]
  | .break _, _ => rfl
  | .next _, _ => rfl
  | .class _ superclass methods statics, h => by
    obtain ⟨hs, h⟩ := List.forall_mem_append.1 h
    obtain ⟨hm, ht⟩ := List.forall_mem_append.1 h
    rw [Stmt.turn, Superclass.turn_eq_self? superclass hs,
      FunctionDecl.turnAll_eq_self methods hm, FunctionDecl.turnAll_eq_self statics ht]

theorem Stmt.turnAll_eq_self : ∀ ss : List Stmt, (∀ u ∈ Stmt.usesAll ss, f u = u) →
    Stmt.turnAll f ss = ss
  | [], _ => rfl
  | s :: ss, h => by
    obtain ⟨hs, hss⟩ := List.forall_mem_append.1 h
    rw [Stmt.turnAll, Stmt.turn_eq_self s hs, Stmt.turnAll_eq_self ss hss]

theorem FunctionDecl.turn_eq_self : ∀ d : FunctionDecl, (∀ u ∈ d.uses, f u = u) → d.turn f = d
  | ⟨_, params, body⟩, h => by
    obtain ⟨hp, hb⟩ := List.forall_mem_append.1 h
    rw [FunctionDecl.turn, Param.turn_eq_self params hp, Stmt.turnAll_eq_self body hb]

theorem FunctionDecl.turnAll_eq_self : ∀ ds : List FunctionDecl,
    (∀ u ∈ FunctionDecl.usesAll ds, f u = u) → FunctionDecl.turnAll f ds = ds
  | [], _ => rfl
  | d :: ds, h => by
    obtain ⟨hd, hds⟩ := List.forall_mem_append.1 h
    rw [FunctionDecl.turnAll, FunctionDecl.turn_eq_self d hd,
      FunctionDecl.turnAll_eq_self ds hds]

end

end Same

@[simp] theorem Expr.turnAll_eq_map (f : Use → Use) (es : List Expr) :
    Expr.turnAll f es = es.map (Expr.turn f) := by
  induction es with
  | nil => rfl
  | cons e es ih => rw [Expr.turnAll, ih, List.map_cons]

@[simp] theorem Stmt.turnAll_eq_map (f : Use → Use) (ss : List Stmt) :
    Stmt.turnAll f ss = ss.map (Stmt.turn f) := by
  induction ss with
  | nil => rfl
  | cons s ss ih => rw [Stmt.turnAll, ih, List.map_cons]

@[simp] theorem FunctionDecl.turnAll_eq_map (f : Use → Use) (ds : List FunctionDecl) :
    FunctionDecl.turnAll f ds = ds.map (FunctionDecl.turn f) := by
  induction ds with
  | nil => rfl
  | cons d ds ih => rw [FunctionDecl.turnAll, ih, List.map_cons]

def Use.bare (u : Use) : Use := { u with id := 0 }

def Expr.bare : Expr → Expr := Expr.turn Use.bare

def Param.bare : Param → Param := Param.turn Use.bare

def Superclass.bare : Superclass → Superclass := Superclass.turn Use.bare

def Stmt.bare : Stmt → Stmt := Stmt.turn Use.bare

def FunctionDecl.bare : FunctionDecl → FunctionDecl := FunctionDecl.turn Use.bare

end Scriptling
