import Scriptling.Scope
import Scriptling.Proofs.Shifting

namespace Scriptling

namespace Scope

/-- The walk as it is where numbers from `n` on are moved by `k`. -/
def Walk.shift (n k : ExprId) (w : Walk) : Walk :=
  { w with distances := w.distances.map (Prod.map (shiftId n k) id) }

def Follows (n k : ExprId) {α : Type} (p p' : Resolve α) : Prop :=
  ∀ w : Walk, p'.run (w.shift n k) = ((p.run w).1, (p.run w).2.shift n k)

variable {n k : ExprId} {α β : Type} {p p' : Resolve α} {q q' : α → Resolve β}

theorem Follows.pure (a : α) : Follows n k (pure a) (pure a) := fun _ => rfl

theorem Follows.bind (hp : Follows n k p p') (hq : ∀ a, Follows n k (q a) (q' a)) :
    Follows n k (p >>= q) (p' >>= q') := by
  intro w
  have h := hp w
  rw [StateT.run_bind, StateT.run_bind, h]
  exact hq _ _

theorem Follows.seq {q q' : Resolve β} (hp : Follows n k p p') (hq : Follows n k q q') :
    Follows n k (do let _ ← p; q) (do let _ ← p'; q') :=
  .bind hp fun _ => hq

theorem Follows.get {q q' : Walk → Resolve β}
    (h : ∀ w : Walk, Follows n k (q w) (q' (w.shift n k))) :
    Follows n k (get >>= q) (get >>= q') :=
  fun w => h w w

theorem Follows.discard (hp : Follows n k p p') :
    Follows n k (discard p) (discard p') :=
  .bind hp fun _ => .pure ()

theorem follows_modify {g : Walk → Walk} (h : ∀ w : Walk, g (w.shift n k) = (g w).shift n k) :
    Follows n k (modify g) (modify g) := by
  intro w
  change ((), g (w.shift n k)) = ((), (g w).shift n k)
  rw [h]

theorem follows_report (token : Token) (fault : ScopeFault) :
    Follows n k (report token fault) (report token fault) := follows_modify fun _ => rfl

theorem follows_openScope (names : Table Bool) :
    Follows n k (openScope names) (openScope names) := follows_modify fun _ => rfl

theorem follows_closeScope : Follows n k closeScope closeScope := follows_modify fun _ => rfl

theorem follows_setBody (body : Body) : Follows n k (setBody body) (setBody body) :=
  follows_modify fun _ => rfl

theorem follows_setFamily (family : Family) : Follows n k (setFamily family) (setFamily family) :=
  follows_modify fun _ => rfl

theorem follows_addGlobal (name : String) : Follows n k (addGlobal name) (addGlobal name) :=
  follows_modify fun _ => rfl

theorem follows_declare (name : Token) : Follows n k (declare name) (declare name) := by
  refine .get fun w => ?_
  rw [show (w.shift n k).scopes = w.scopes from rfl]
  cases w.scopes with
  | nil => exact follows_addGlobal _
  | cons scope outer =>
    dsimp only
    split
    · exact follows_report _ _
    · exact follows_modify fun _ => rfl

theorem follows_define (name : Token) : Follows n k (define name) (define name) := by
  refine follows_modify fun w => ?_
  rw [show (w.shift n k).scopes = w.scopes from rfl]
  cases hw : w.scopes with
  | nil => rfl
  | cons scope outer => rfl

theorem follows_locate (id : ExprId) (name : Token) :
    Follows n k (locate id name) (locate (shiftId n k id) name) := by
  refine .get fun w => ?_
  rw [show (w.shift n k).scopes = w.scopes from rfl]
  cases distance? w.scopes name.lexeme with
  | none => exact .pure false
  | some d => exact fun _ => rfl

theorem follows_read (id : ExprId) (name : Token) :
    Follows n k (read id name) (read (shiftId n k id) name) := by
  refine .bind (follows_locate id name) fun found => ?_
  cases found with
  | true => exact .pure ()
  | false =>
    refine .get fun w => ?_
    rw [show (w.shift n k).scopes = w.scopes from rfl,
      show (w.shift n k).globals = w.globals from rfl]
    split
    · exact follows_report _ _
    · exact .pure ()

theorem follows_write (id : ExprId) (name : Token) :
    Follows n k (write id name) (write (shiftId n k id) name) := by
  refine .bind (follows_locate id name) fun found => .get fun w => ?_
  rw [show (w.shift n k).scopes = w.scopes from rfl]
  split
  · exact follows_addGlobal _
  · exact .pure ()

mutual

theorem follows_expr (n k : ExprId) :
    ∀ e : Expr, Follows n k (expr e) (expr (e.turn (Use.shift n k)))
  | .literal _ => by
    simp only [Expr.turn, expr]
    exact .pure ()
  | .group inner => by
    simp only [Expr.turn, expr]
    exact follows_expr n k inner
  | .unary _ operand => by
    simp only [Expr.turn, expr]
    exact follows_expr n k operand
  | .binary left _ right => by
    simp only [Expr.turn, expr]
    exact .seq (follows_expr n k left) (follows_expr n k right)
  | .logical left _ right => by
    simp only [Expr.turn, expr]
    exact .seq (follows_expr n k left) (follows_expr n k right)
  | .ternary condition whenTrue whenFalse => by
    simp only [Expr.turn, expr]
    exact .seq (follows_expr n k condition)
      (.seq (follows_expr n k whenTrue) (follows_expr n k whenFalse))
  | .comma items => by
    simp only [Expr.turn, expr]
    exact follows_exprs n k items
  | .var id name => by
    simp only [Expr.turn, expr, Use.shift]
    exact follows_read id name
  | .assign id name value => by
    simp only [Expr.turn, expr, Use.shift]
    exact .seq (follows_expr n k value) (follows_write id name)
  | .compoundAssign id name _ value => by
    simp only [Expr.turn, expr, Use.shift]
    exact .seq (follows_expr n k value) (.discard (follows_locate id name))
  | .update _ target _ => by
    simp only [Expr.turn, expr]
    exact follows_expr n k target
  | .call callee _ arguments => by
    simp only [Expr.turn, expr]
    exact .seq (follows_expr n k callee) (follows_exprs n k arguments)
  | .get object _ => by
    simp only [Expr.turn, expr]
    exact follows_expr n k object
  | .set object _ value => by
    simp only [Expr.turn, expr]
    exact .seq (follows_expr n k value) (follows_expr n k object)
  | .compoundSet object _ _ value => by
    simp only [Expr.turn, expr]
    exact .seq (follows_expr n k value) (follows_expr n k object)
  | .this id keyword => by
    simp only [Expr.turn, expr, Use.shift]
    refine .get fun w => ?_
    rw [show (w.shift n k).family = w.family from rfl]
    split
    · exact follows_report _ _
    · exact .discard (follows_locate id keyword)
  | .super id keyword _ => by
    simp only [Expr.turn, expr, Use.shift]
    refine .get fun w => ?_
    rw [show (w.shift n k).family = w.family from rfl]
    cases w.family with
    | none => exact follows_report _ _
    | root => exact follows_report _ _
    | derived => exact .discard (follows_locate id keyword)

theorem follows_exprs (n k : ExprId) :
    ∀ es : List Expr, Follows n k (exprs es) (exprs (Expr.turnAll (Use.shift n k) es))
  | [] => by
    simp only [Expr.turnAll, exprs]
    exact .pure ()
  | e :: es => by
    simp only [Expr.turnAll, exprs]
    exact .seq (follows_expr n k e) (follows_exprs n k es)

end

theorem follows_expr? (e : Option Expr) :
    Follows n k (expr? e) (expr? (e.map (Expr.turn (Use.shift n k)))) := by
  cases e with
  | none => exact .pure ()
  | some e => exact follows_expr n k e

theorem follows_params (ps : List Param) :
    Follows n k (params ps) (params (ps.map (Param.turn (Use.shift n k)))) := by
  induction ps with
  | nil => exact .pure ()
  | cons p ps ih =>
    exact .seq (follows_expr? p.fallback)
      (.seq (follows_declare p.name) (.seq (follows_define p.name) ih))

theorem follows_heading (name : Token) (superclass : Option Superclass) :
    Follows n k (heading name superclass)
      (heading name (superclass.map (Superclass.turn (Use.shift n k)))) := by
  refine .seq (follows_setFamily _) (.seq (follows_declare name) ?_)
  cases superclass with
  | none => exact follows_define name
  | some parent =>
    refine .seq (follows_setFamily _) ?_
    dsimp only [Option.map_some]
    rw [show (parent.turn (Use.shift n k)).name = parent.name from rfl]
    split
    · exact .seq (follows_report _ _) (follows_define name)
    · rw [Superclass.expr_turn]
      exact .seq (follows_expr n k _) (follows_define name)

theorem follows_returning (keyword : Token) (value : Option Expr) :
    Follows n k (returning keyword value)
      (returning keyword (value.map (Expr.turn (Use.shift n k)))) := by
  have hvalue : ∀ (body : Body) (e : Expr), Follows n k
      (do if body = .initializer then report keyword .initializerValue
          expr e)
      (do if body = .initializer then report keyword .initializerValue
          expr (e.turn (Use.shift n k))) := by
    intro body e
    split
    · exact .seq (follows_report _ _) (follows_expr n k e)
    · exact follows_expr n k e
  unfold returning
  refine .get fun w => ?_
  rw [show (w.shift n k).body = w.body from rfl]
  dsimp only
  cases value with
  | none =>
    split
    · exact .seq (follows_report _ _) (.pure ())
    · exact .pure ()
  | some e =>
    split
    · exact .seq (follows_report _ _) (hvalue w.body e)
    · exact hvalue w.body e

mutual

theorem follows_stmt (n k : ExprId) :
    ∀ s : Stmt, Follows n k (stmt s) (stmt (s.turn (Use.shift n k)))
  | .expr e => by
    simp only [Stmt.turn, stmt]
    exact follows_expr n k e
  | .var name initial => by
    simp only [Stmt.turn, stmt]
    exact .seq (follows_declare name) (.seq (follows_expr? initial) (follows_define name))
  | .block body => by
    simp only [Stmt.turn, stmt]
    exact .seq (follows_openScope _) (.seq (follows_stmts n k body) follows_closeScope)
  | .ifThen condition whenTrue => by
    simp only [Stmt.turn, stmt]
    exact .seq (follows_expr n k condition) (follows_stmt n k whenTrue)
  | .ifElse condition whenTrue whenFalse => by
    simp only [Stmt.turn, stmt]
    exact .seq (follows_expr n k condition)
      (.seq (follows_stmt n k whenTrue) (follows_stmt n k whenFalse))
  | .while condition body => by
    simp only [Stmt.turn, stmt]
    exact .seq (follows_expr n k condition) (follows_stmt n k body)
  | .for condition increment body => by
    simp only [Stmt.turn, stmt]
    exact .seq (follows_expr n k condition)
      (.seq (follows_stmt n k body) (follows_expr? increment))
  | .function ⟨name, params, body⟩ => by
    simp only [Stmt.turn, stmt]
    exact .seq (follows_declare name)
      (.seq (follows_define name) (follows_function n k .function ⟨name, params, body⟩))
  | .return keyword value => by
    simp only [Stmt.turn, stmt]
    exact follows_returning keyword value
  | .break _ => by
    simp only [Stmt.turn, stmt]
    exact .pure ()
  | .next _ => by
    simp only [Stmt.turn, stmt]
    exact .pure ()
  | .class name superclass methods statics => by
    simp only [Stmt.turn, stmt]
    refine .get fun w => ?_
    rw [show (w.shift n k).family = w.family from rfl, Option.isSome_map]
    refine .seq (follows_heading name superclass) ?_
    have hboth := follows_instanceMethods n k methods
    have hstatics := follows_staticMethods n k statics
    cases superclass.isSome with
    | false =>
      exact .seq (follows_openScope _) (.seq hboth (.seq hstatics
        (.seq follows_closeScope (follows_setFamily _))))
    | true =>
      exact .seq (follows_openScope _) (.seq (follows_openScope _) (.seq hboth (.seq hstatics
        (.seq follows_closeScope (.seq follows_closeScope (follows_setFamily _))))))

theorem follows_stmts (n k : ExprId) :
    ∀ ss : List Stmt, Follows n k (stmts ss) (stmts (Stmt.turnAll (Use.shift n k) ss))
  | [] => by
    simp only [Stmt.turnAll, stmts]
    exact .pure ()
  | s :: ss => by
    simp only [Stmt.turnAll, stmts]
    exact .seq (follows_stmt n k s) (follows_stmts n k ss)

theorem follows_function (n k : ExprId) (kind : Body) : ∀ d : FunctionDecl,
    Follows n k (function kind d) (function kind (d.turn (Use.shift n k)))
  | ⟨name, ps, body⟩ => by
    simp only [FunctionDecl.turn, function]
    refine .get fun w => ?_
    exact .seq (follows_setBody _) (.seq (follows_openScope _) (.seq (follows_params ps)
      (.seq (follows_stmts n k body) (.seq follows_closeScope (follows_setBody _)))))

theorem follows_instanceMethods (n k : ExprId) : ∀ ds : List FunctionDecl,
    Follows n k (instanceMethods ds) (instanceMethods (FunctionDecl.turnAll (Use.shift n k) ds))
  | [] => by
    simp only [FunctionDecl.turnAll, instanceMethods]
    exact .pure ()
  | d :: ds => by
    simp only [FunctionDecl.turnAll, instanceMethods]
    obtain ⟨name, ps, body⟩ := d
    exact .seq (follows_function n k _ ⟨name, ps, body⟩) (follows_instanceMethods n k ds)

theorem follows_staticMethods (n k : ExprId) : ∀ ds : List FunctionDecl,
    Follows n k (staticMethods ds) (staticMethods (FunctionDecl.turnAll (Use.shift n k) ds))
  | [] => by
    simp only [FunctionDecl.turnAll, staticMethods]
    exact .pure ()
  | d :: ds => by
    simp only [FunctionDecl.turnAll, staticMethods]
    exact .seq (follows_function n k _ d) (follows_staticMethods n k ds)

end

end Scope

/-- The scopes of a tree with other numbers. -/
theorem resolve_shift (n k : ExprId) (globals : List String) (ss : List Stmt) :
    resolve globals (ss.map (Stmt.turn (Use.shift n k))) = (resolve globals ss).shift n k := by
  have h := Scope.follows_stmts n k ss (.start globals)
  rw [Stmt.turnAll_eq_map] at h
  exact congrArg Prod.snd h

end Scriptling
