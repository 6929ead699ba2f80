import Scriptling.Proofs.Resolution

namespace Scriptling

namespace Scope

/-- A walk that keeps a record of the references it comes to. -/
abbrev Tour := StateT (List Use) Resolve

namespace Tour

def visit (u : Use) : Tour Unit := modify (· ++ [u])

mutual

/-- References are entered when the walk is about to look their names up. -/
def expr : Expr → Tour Unit
  | .literal _ => pure ()
  | .group inner => expr inner
  | .unary _ operand => expr operand
  | .binary left _ right => do expr left; expr right
  | .logical left _ right => do expr left; expr right
  | .ternary condition whenTrue whenFalse => do expr condition; expr whenTrue; expr whenFalse
  | .comma items => exprs items
  | .var id name => do visit ⟨.variable, id, name⟩; read id name
  | .assign id name value => do expr value; visit ⟨.variable, id, name⟩; write id name
  | .compoundAssign id name _ value => do
    expr value
    visit ⟨.variable, id, name⟩
    (discard (locate id name) : Resolve Unit)
  | .update _ target _ => expr target
  | .call callee _ arguments => do expr callee; exprs arguments
  | .get object _ => expr object
  | .set object _ value => do expr value; expr object
  | .compoundSet object _ _ value => do expr value; expr object
  | .this id keyword => do visit ⟨.this, id, keyword⟩; Scope.expr (.this id keyword)
  | .super id keyword method => do
    visit ⟨.super, id, keyword⟩
    Scope.expr (.super id keyword method)

def exprs : List Expr → Tour Unit
  | [] => pure ()
  | e :: es => do expr e; exprs es

end

def expr? : Option Expr → Tour Unit
  | none => pure ()
  | some e => expr e

def params : List Param → Tour Unit
  | [] => pure ()
  | p :: ps => do
    expr? p.fallback
    declare p.name
    define p.name
    params ps

/-- A class that inherits from itself is reported without coming to its superclass. -/
def heading (name : Token) (superclass : Option Superclass) : Tour Unit := do
  setFamily .root
  declare name
  match superclass with
  | none => pure ()
  | some parent =>
    setFamily .derived
    if parent.name.lexeme = name.lexeme then report parent.name .selfInheritance
    else expr parent.expr
  define name

def returning (keyword : Token) (value : Option Expr) : Tour Unit := do
  let body := (← getThe Walk).body
  if body = .none then report keyword .topLevelReturn
  match value with
  | none => pure ()
  | some e =>
    if body = .initializer then report keyword .initializerValue
    expr e

mutual

def stmt : Stmt → Tour Unit
  | .expr e => expr e
  | .var name initial => do
    declare name
    expr? initial
    define name
  | .block body => do
    openScope []
    stmts body
    closeScope
  | .ifThen condition whenTrue => do expr condition; stmt whenTrue
  | .ifElse condition whenTrue whenFalse => do expr condition; stmt whenTrue; stmt whenFalse
  | .while condition body => do expr condition; stmt body
  | .for condition increment body => do expr condition; stmt body; expr? increment
  | .function decl => do
    declare decl.name
    define decl.name
    function .function decl
  | .return keyword value => returning keyword value
  | .break _ => pure ()
  | .next _ => pure ()
  | .class name superclass methods statics => do
    let family := (← getThe Walk).family
    heading name superclass
    if superclass.isSome then openScope [("super", true)]
    openScope [("this", true)]
    instanceMethods methods
    staticMethods statics
    closeScope
    if superclass.isSome then closeScope
    setFamily family

def stmts : List Stmt → Tour Unit
  | [] => pure ()
  | s :: ss => do stmt s; stmts ss

def function (kind : Body) : FunctionDecl → Tour Unit
  | ⟨_, ps, statements⟩ => do
    let body := (← getThe Walk).body
    setBody kind
    openScope []
    params ps
    stmts statements
    closeScope
    setBody body

def instanceMethods : List FunctionDecl → Tour Unit
  | [] => pure ()
  | d :: ds => do function (methodBody d.name) d; instanceMethods ds

def staticMethods : List FunctionDecl → Tour Unit
  | [] => pure ()
  | d :: ds => do function .method d; staticMethods ds

end

end Tour

/-- What a step has entered and noted, the first note first, when it began on a walk. -/
structure Toured (act : Resolve Unit) (tour : Tour Unit) (us : List Use) (w : Walk)
    (entered : List Use) (notes : List (ExprId × Nat)) : Prop where
  run : ∀ record, (tour.run record).run w = (((), record ++ entered), walked act w)
  sublist : entered.Sublist us
  all : (walked act w).faults = [] → entered = us
  distances : (walked act w).distances = notes.reverse ++ w.distances
  noted : (notes.map Prod.fst).Sublist (entered.map Use.id)

/-- Recorded or not, the step is the same, and it never takes faults back. -/
structure Records (act : Resolve Unit) (tour : Tour Unit) (us : List Use) : Prop where
  clean : ∀ w, (walked act w).faults = [] → w.faults = []
  spec : ∀ w, ∃ entered notes, Toured act tour us w entered notes

variable {a b : Resolve Unit} {ta tb : Tour Unit} {us vs : List Use}

namespace Records

theorem seq (ha : Records a ta us) (hb : Records b tb vs) :
    Records (do a; b) (do ta; tb) (us ++ vs) := by
  refine ⟨fun w h => ha.clean w (hb.clean _ h), fun w => ?_⟩
  obtain ⟨entered, notes, h⟩ := ha.spec w
  obtain ⟨entered', notes', h'⟩ := hb.spec (walked a w)
  refine ⟨entered ++ entered', notes ++ notes', fun record => ?_, h.sublist.append h'.sublist,
    fun hf => ?_, ?_, ?_⟩
  · rw [StateT.run_bind, StateT.run_bind, h.run]
    exact (h'.run _).trans (by rw [List.append_assoc]; rfl)
  · rw [h.all (hb.clean _ hf), h'.all hf]
  · rw [walked_bind, h'.distances, h.distances, List.reverse_append, List.append_assoc]
  · rw [List.map_append, List.map_append]
    exact h.noted.append h'.noted

/-- A step before which nothing is entered. -/
theorem after (hb : Records b tb us) (ha : Records a ta []) : Records (do a; b) (do ta; tb) us :=
  ha.seq hb

/-- A step behind which nothing is entered. -/
theorem before (ha : Records a ta us) (hb : Records b tb []) :
    Records (do a; b) (do ta; tb) us := by
  have h := ha.seq hb
  rwa [List.append_nil] at h

/-- A step that begins with a look at the walk. -/
theorem get {k : Walk → Resolve Unit} {k' : Walk → Tour Unit}
    (h : ∀ w, Records (k w) (k' w) us) :
    Records (do k (← get)) (do k' (← getThe Walk)) us := by
  refine ⟨fun w => (h w).clean w, fun w => ?_⟩
  obtain ⟨entered, notes, hw⟩ := (h w).spec w
  exact ⟨entered, notes, hw.run, hw.sublist, hw.all, hw.distances, hw.noted⟩

/-- A step that has nothing to do with references. -/
theorem plain (hclean : ∀ w, (walked a w).faults = [] → w.faults = [])
    (hnotes : ∀ w, (walked a w).distances = w.distances) : Records a (liftM a) [] :=
  ⟨hclean, fun w => ⟨[], [], fun _ => by simp only [List.append_nil]; rfl, .slnil, fun _ => rfl,
    hnotes w, .slnil⟩⟩

theorem pure : Records (pure ()) (pure ()) [] := plain (fun _ h => h) fun _ => rfl

/-- A reference, at which at most its own distance is noted. -/
theorem reference {u : Use} (hclean : ∀ w, (walked a w).faults = [] → w.faults = [])
    (hnotes : ∀ w, ∃ d : Option Nat,
      (walked a w).distances = (d.map (u.id, ·)).toList ++ w.distances) :
    Records a (do Tour.visit u; liftM a) [u] := by
  refine ⟨hclean, fun w => ?_⟩
  obtain ⟨d, hd⟩ := hnotes w
  refine ⟨[u], (d.map (u.id, ·)).toList, fun _ => rfl, .refl _, fun _ => rfl, ?_, ?_⟩
  · cases d <;> exact hd
  · cases d with
    | none => exact List.nil_sublist _
    | some d => exact .refl _

/-- Where something is reported, references may be left out. -/
theorem report (token : Token) (fault : ScopeFault) :
    Records (report token fault) (liftM (Scope.report token fault)) us := by
  have hfaults := Scope.faults_report token fault
  refine ⟨fun w h => absurd h (hfaults w), fun w => ⟨[], [], fun _ => ?_, List.nil_sublist _,
    fun h => absurd h (hfaults w), rfl, .slnil⟩⟩
  simp only [List.append_nil]
  rfl

end Records

theorem records_declare (name : Token) : Records (declare name) (liftM (declare name)) [] := by
  have hvisit : Visits .none [] (declare name) [] _ := visits_declare name
  refine .plain hvisit.clean fun w => ?_
  rw [walked_declare]
  split
  · rfl
  · split <;> rfl

theorem records_define (name : Token) : Records (define name) (liftM (define name)) [] := by
  have hvisit : Visits .none [] (define name) [] _ := visits_define name
  refine .plain hvisit.clean fun w => ?_
  rw [walked_define]
  split <;> rfl

theorem records_openScope (names : Table Bool) :
    Records (openScope names) (liftM (openScope names)) [] := .plain (fun _ h => h) fun _ => rfl

theorem records_closeScope : Records closeScope (liftM closeScope) [] :=
  .plain (fun _ h => h) fun _ => rfl

theorem records_setBody (body : Body) : Records (setBody body) (liftM (setBody body)) [] :=
  .plain (fun _ h => h) fun _ => rfl

theorem records_setFamily (family : Family) :
    Records (setFamily family) (liftM (setFamily family)) [] := .plain (fun _ h => h) fun _ => rfl

/-- A name is noted where it is found. -/
theorem locate_distances (id : ExprId) (name : Token) (w : Walk) :
    ((locate id name).run w).2.distances =
      ((distance? w.scopes name.lexeme).map (id, ·)).toList ++ w.distances := by
  rw [walked_locate]
  cases distance? w.scopes name.lexeme <;> rfl

theorem records_locate (id : ExprId) (name : Token) : Records (discard (locate id name))
    (do Tour.visit ⟨.variable, id, name⟩; (discard (locate id name) : Resolve Unit))
    [⟨.variable, id, name⟩] := by
  have hvisit : Visits .none [] (discard (locate id name)) _ [] :=
    visits_locate ⟨.variable, id, name⟩ (by rintro _ rfl; trivial)
  exact .reference hvisit.clean fun w => ⟨_, locate_distances id name w⟩

theorem records_read (id : ExprId) (name : Token) : Records (read id name)
    (do Tour.visit ⟨.variable, id, name⟩; read id name) [⟨.variable, id, name⟩] := by
  have hvisit : Visits .none [] (read id name) _ [] := visits_read id name
  refine .reference hvisit.clean fun w => ?_
  rw [walked_read]
  split
  · exact ⟨none, rfl⟩
  · exact ⟨_, locate_distances id name w⟩

theorem records_write (id : ExprId) (name : Token) : Records (write id name)
    (do Tour.visit ⟨.variable, id, name⟩; write id name) [⟨.variable, id, name⟩] := by
  have hvisit : Visits .none [] (write id name) _ [] := visits_write id name
  refine .reference hvisit.clean fun w => ?_
  rw [walked_write]
  split
  · exact ⟨none, rfl⟩
  · exact ⟨_, locate_distances id name w⟩

theorem records_this (id : ExprId) (keyword : Token) : Records (expr (.this id keyword))
    (do Tour.visit ⟨.this, id, keyword⟩; expr (.this id keyword)) [⟨.this, id, keyword⟩] := by
  have houtside : Context.family [] = .none := rfl
  have hvisit := visits_this houtside id keyword
  refine .reference hvisit.clean fun w => ?_
  rw [walked_this]
  split
  · exact ⟨none, rfl⟩
  · exact ⟨_, locate_distances id keyword w⟩

theorem records_super (id : ExprId) (keyword method : Token) :
    Records (expr (.super id keyword method))
      (do Tour.visit ⟨.super, id, keyword⟩; expr (.super id keyword method))
      [⟨.super, id, keyword⟩] := by
  have houtside : Context.family [] = .none := rfl
  have hvisit := visits_super houtside id keyword method
  refine .reference hvisit.clean fun w => ?_
  rw [walked_super]
  split
  · exact ⟨none, rfl⟩
  · exact ⟨none, rfl⟩
  · exact ⟨_, locate_distances id keyword w⟩

mutual

theorem records_expr : ∀ e : Expr, Records (expr e) (Tour.expr e) e.uses
  | .literal _ => .pure
  | .group inner => records_expr inner
  | .unary _ operand => records_expr operand
  | .binary left _ right => (records_expr left).seq (records_expr right)
  | .logical left _ right => (records_expr left).seq (records_expr right)
  | .ternary condition whenTrue whenFalse =>
    (records_expr condition).seq ((records_expr whenTrue).seq (records_expr whenFalse))
  | .comma items => records_exprs items
  | .var id name => records_read id name
  | .assign id name value => (records_expr value).seq (records_write id name)
  | .compoundAssign id name _ value => (records_expr value).seq (records_locate id name)
  | .update _ target _ => records_expr target
  | .call callee _ arguments => (records_expr callee).seq (records_exprs arguments)
  | .get object _ => records_expr object
  | .set object _ value => (records_expr value).seq (records_expr object)
  | .compoundSet object _ _ value => (records_expr value).seq (records_expr object)
  | .this id keyword => records_this id keyword
  | .super id keyword method => records_super id keyword method

theorem records_exprs : ∀ es : List Expr, Records (exprs es) (Tour.exprs es) (Expr.usesAll es)
  | [] => .pure
  | e :: es => (records_expr e).seq (records_exprs es)

end

theorem records_expr? (o : Option Expr) : Records (expr? o) (Tour.expr? o) (Expr.uses? o) := by
  cases o with
  | none => exact .pure
  | some e => exact records_expr e

theorem records_params (ps : List Param) :
    Records (params ps) (Tour.params ps) (Param.usesAll ps) := by
  induction ps with
  | nil => exact .pure
  | cons p ps ih =>
    exact (records_expr? p.fallback).seq
      ((ih.after (records_define p.name)).after (records_declare p.name))

theorem records_heading (name : Token) (superclass : Option Superclass) :
    Records (heading name superclass) (Tour.heading name superclass)
      (Superclass.uses? superclass) := by
  unfold heading Tour.heading
  refine Records.after (Records.after ?_ (records_declare name)) (records_setFamily _)
  cases superclass with
  | none => exact records_define name
  | some parent =>
    refine Records.after ?_ (records_setFamily _)
    dsimp only
    split
    · exact (Records.report _ _).before (records_define name)
    · exact (records_expr parent.expr).before (records_define name)

theorem records_returning (keyword : Token) (value : Option Expr) :
    Records (returning keyword value) (Tour.returning keyword value) (Expr.uses? value) := by
  have hvalue : ∀ (body : Body) (e : Expr), Records
      (do
        if body = .initializer then report keyword .initializerValue
        expr e)
      (do
        if body = .initializer then report keyword .initializerValue
        Tour.expr e) e.uses := by
    intro body e
    split
    · exact (records_expr e).after (Records.report _ _)
    · exact records_expr e
  unfold returning Tour.returning
  refine .get fun w => ?_
  dsimp only
  cases value with
  | none =>
    split
    · exact Records.report _ _
    · exact .pure
  | some e =>
    split
    · exact (hvalue w.body e).after (Records.report _ _)
    · exact hvalue w.body e

mutual

theorem records_stmt : ∀ s : Stmt, Records (stmt s) (Tour.stmt s) s.uses
  | .expr e => records_expr e
  | .var name initial =>
    ((records_expr? initial).before (records_define name)).after (records_declare name)
  | .block body => ((records_stmts body).before records_closeScope).after (records_openScope _)
  | .ifThen condition whenTrue => (records_expr condition).seq (records_stmt whenTrue)
  | .ifElse condition whenTrue whenFalse =>
    (records_expr condition).seq ((records_stmt whenTrue).seq (records_stmt whenFalse))
  | .while condition body => (records_expr condition).seq (records_stmt body)
  | .for condition increment body =>
    (records_expr condition).seq ((records_stmt body).seq (records_expr? increment))
  | .function decl =>
    ((records_function .function decl).after (records_define decl.name)).after
      (records_declare decl.name)
  | .return keyword value => records_returning keyword value
  | .break _ => .pure
  | .next _ => .pure
  | .class name superclass methods statics => by
    refine Records.get fun w => (records_heading name superclass).seq ?_
    have hends := records_closeScope.before (records_setFamily w.family)
    cases superclass with
    | none =>
      exact ((records_instanceMethods methods).seq
        ((records_staticMethods statics).before hends)).after (records_openScope _)
    | some parent =>
      exact (((records_instanceMethods methods).seq ((records_staticMethods statics).before
        (records_closeScope.before hends))).after (records_openScope _)).after (records_openScope _)

theorem records_stmts : ∀ ss : List Stmt, Records (stmts ss) (Tour.stmts ss) (Stmt.usesAll ss)
  | [] => .pure
  | s :: ss => (records_stmt s).seq (records_stmts ss)

theorem records_function (kind : Body) :
    ∀ d : FunctionDecl, Records (function kind d) (Tour.function kind d) d.uses
  | ⟨name, ps, body⟩ => by
    refine Records.get fun w => ?_
    refine Records.after (Records.after ?_ (records_openScope _)) (records_setBody _)
    exact (records_params ps).seq
      ((records_stmts body).before (records_closeScope.before (records_setBody _)))

theorem records_instanceMethods : ∀ ds : List FunctionDecl,
    Records (instanceMethods ds) (Tour.instanceMethods ds) (FunctionDecl.usesAll ds)
  | [] => .pure
  | d :: ds => (records_function _ d).seq (records_instanceMethods ds)

theorem records_staticMethods : ∀ ds : List FunctionDecl,
    Records (staticMethods ds) (Tour.staticMethods ds) (FunctionDecl.usesAll ds)
  | [] => .pure
  | d :: ds => (records_function _ d).seq (records_staticMethods ds)

end

end Scope

/-- The references that the walk over a whole program comes to, in order, and the walk. -/
def tour (globals : List String) (program : List Stmt) : List Use × Scope.Walk :=
  let done := ((Scope.Tour.stmts program).run []).run (.start globals)
  (done.1.2, done.2)

variable {globals : List String} {ss : List Stmt}

/-- The tour of a program is its walk with a record. -/
theorem tour_toured (globals : List String) (ss : List Stmt) :
    (tour globals ss).2 = resolve globals ss ∧ ∃ notes, Scope.Toured (Scope.stmts ss)
      (Scope.Tour.stmts ss) (Stmt.usesAll ss) (.start globals) (tour globals ss).1 notes := by
  obtain ⟨entered, notes, h⟩ := (Scope.records_stmts ss).spec (.start globals)
  have htour : tour globals ss = (entered, resolve globals ss) := by
    rw [tour, h.run, List.nil_append]
    rfl
  rw [htour]
  exact ⟨rfl, notes, h⟩

/-- Apart from the record, it is the walk itself. -/
theorem tour_walk (globals : List String) (ss : List Stmt) :
    (tour globals ss).2 = resolve globals ss := (tour_toured globals ss).1

theorem tour_sublist (globals : List String) (ss : List Stmt) :
    (tour globals ss).1.Sublist (Stmt.usesAll ss) :=
  let ⟨_, _, h⟩ := tour_toured globals ss
  h.sublist

/-- The walk over a program without a fault comes to all of its references, in order. -/
theorem tour_of_clean (h : (resolve globals ss).faults = []) :
    (tour globals ss).1 = Stmt.usesAll ss :=
  let ⟨_, _, htoured⟩ := tour_toured globals ss
  htoured.all h

/-- Distances are noted in the order of the references, at most one for each. -/
theorem resolve_noted_sublist (globals : List String) (ss : List Stmt) :
    ((resolve globals ss).distances.map Prod.fst).reverse.Sublist
      ((tour globals ss).1.map Use.id) := by
  obtain ⟨-, notes, h⟩ := tour_toured globals ss
  have hnotes : (resolve globals ss).distances = notes.reverse :=
    h.distances.trans (List.append_nil _)
  rw [hnotes, List.map_reverse, List.reverse_reverse]
  exact h.noted

/-- What is noted for a program concerns its own references. -/
theorem resolve_noted {id : ExprId} {d : Nat} (h : (id, d) ∈ (resolve globals ss).distances) :
    id ∈ (Stmt.usesAll ss).map Use.id := by
  have hsublist := (resolve_noted_sublist globals ss).trans ((tour_sublist globals ss).map Use.id)
  exact hsublist.subset (List.mem_reverse.2 (List.mem_map.2 ⟨(id, d), h, rfl⟩))

end Scriptling
