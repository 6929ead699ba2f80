import Scriptling.Proofs.Composition
import Scriptling.Proofs.Resolution

namespace Scriptling.Scope

/-- A step takes back no report, reports nothing but at tokens of which the predicate holds, and
comes back to the function it began in. -/
def Blames (T : Token → Prop) (act : Resolve Unit) : Prop :=
  ∀ w : Walk, (walked act w).body = w.body ∧
    ∃ found, (walked act w).faults = w.faults ++ found ∧ ∀ e ∈ found, e.place.Of T

variable {T : Token → Prop} {a b : Resolve Unit}

theorem Blames.seq (ha : Blames T a) (hb : Blames T b) : Blames T (do a; b) := by
  intro w
  obtain ⟨hbody, found, hfaults, hfound⟩ := ha w
  obtain ⟨hbody', found', hfaults', hfound'⟩ := hb (walked a w)
  rw [walked_bind]
  refine ⟨hbody'.trans hbody, found ++ found', ?_, List.forall_mem_append.2 ⟨hfound, hfound'⟩⟩
  rw [hfaults', hfaults, List.append_assoc]

theorem Blames.get {k : Walk → Resolve Unit} (h : ∀ w, Blames T (k w)) :
    Blames T (do k (← get)) := fun w => h w w

/-- A step that leaves what is reported as it is. -/
theorem blames_of_eq (hb : ∀ w, (walked a w).body = w.body)
    (h : ∀ w, (walked a w).faults = w.faults) : Blames T a :=
  fun w => ⟨hb w, [], by rw [h, List.append_nil], by simp⟩

theorem blames_pure : Blames T (pure ()) := blames_of_eq (fun _ => rfl) fun _ => rfl

theorem blames_report {token : Token} (h : T token) (fault : ScopeFault) :
    Blames T (report token fault) := by
  refine fun w => ⟨rfl, [⟨fault, token.place⟩], rfl, ?_⟩
  simpa using ⟨token, h, rfl⟩

theorem blames_declare {name : Token} (h : T name) : Blames T (declare name) := by
  intro w
  rw [walked_declare]
  split
  · exact blames_pure w
  · split
    · exact blames_report h .redeclared w
    · exact blames_pure w

theorem blames_define (name : Token) : Blames T (define name) := by
  apply blames_of_eq
  · intro w
    rw [walked_define]
    split <;> rfl
  · intro w
    rw [walked_define]
    split <;> rfl

/-- Noting a distance reports nothing. -/
theorem blames_locate (id : ExprId) (name : Token) {k : Bool → Resolve Unit}
    (h : ∀ found, Blames T (k found)) : Blames T (locate id name >>= k) := by
  intro w
  have hsame : ((locate id name).run w).2.body = w.body ∧
      ((locate id name).run w).2.faults = w.faults := by
    rw [walked_locate]
    split <;> exact ⟨rfl, rfl⟩
  rw [← hsame.1, ← hsame.2]
  exact h _ _

theorem blames_discard_locate (id : ExprId) (name : Token) :
    Blames T (discard (locate id name)) := blames_locate id name fun _ => blames_pure

theorem blames_read (id : ExprId) {name : Token} (h : T name) : Blames T (read id name) := by
  apply blames_locate id name
  intro found
  split
  · apply Blames.get
    intro w
    split
    · exact blames_report h .ownInitializer
    · exact blames_pure
  · exact blames_pure

theorem blames_write (id : ExprId) (name : Token) : Blames T (write id name) := by
  apply blames_locate id name
  intro found
  apply Blames.get
  intro w
  split
  · exact blames_of_eq (fun _ => rfl) fun _ => rfl
  · exact blames_pure

mutual

theorem blames_expr : ∀ e : Expr, e.Within T → Blames T (expr e)
  | .literal _, _ => blames_pure
  | .group inner, h => blames_expr inner h
  | .unary _ operand, h => blames_expr operand h.2
  | .binary left _ right, h => (blames_expr left h.1).seq (blames_expr right h.2.2)
  | .logical left _ right, h => (blames_expr left h.1).seq (blames_expr right h.2.2)
  | .ternary condition whenTrue whenFalse, h =>
    (blames_expr condition h.1).seq
      ((blames_expr whenTrue h.2.1).seq (blames_expr whenFalse h.2.2))
  | .comma items, h => blames_exprs items h
  | .var id _, h => blames_read id (Token.NameIn.token h)
  | .assign id name value, h => (blames_expr value h.2).seq (blames_write id name)
  | .compoundAssign id name _ value, h =>
    (blames_expr value h.2.2).seq (blames_discard_locate id name)
  | .update _ target _, h => blames_expr target h.2
  | .call callee _ arguments, h => (blames_expr callee h.1).seq (blames_exprs arguments h.2.2)
  | .get object _, h => blames_expr object h.1
  | .set object _ value, h => (blames_expr value h.2.2).seq (blames_expr object h.1)
  | .compoundSet object _ _ value, h => (blames_expr value h.2.2.2).seq (blames_expr object h.1)
  | .this id keyword, h => by
    apply Blames.get
    intro w
    split
    · exact blames_report h .thisOutsideClass
    · exact blames_discard_locate id keyword
  | .super id keyword _, h => by
    apply Blames.get
    intro w
    split
    · exact blames_report h.1 .superOutsideClass
    · exact blames_report h.1 .superWithoutSuperclass
    · exact blames_discard_locate id keyword

theorem blames_exprs : ∀ es : List Expr, Expr.WithinAll T es → Blames T (exprs es)
  | [], _ => blames_pure
  | e :: es, h => (blames_expr e h.1).seq (blames_exprs es h.2)

end

theorem blames_expr? {o : Option Expr} (h : ∀ e ∈ o, e.Within T) : Blames T (expr? o) := by
  cases o with
  | none => exact blames_pure
  | some e => exact blames_expr e (h e rfl)

theorem blames_params {ps : List Param} (h : ∀ p ∈ ps, p.Within T) : Blames T (params ps) := by
  induction ps with
  | nil => exact blames_pure
  | cons p ps ih =>
    obtain ⟨hp, hps⟩ := List.forall_mem_cons.1 h
    exact (blames_expr? hp.2).seq
      ((blames_declare hp.1.token).seq ((blames_define p.name).seq (ih hps)))

theorem blames_openScope (names : Table Bool) : Blames T (openScope names) :=
  blames_of_eq (fun _ => rfl) fun _ => rfl

theorem blames_closeScope : Blames T closeScope := blames_of_eq (fun _ => rfl) fun _ => rfl

theorem blames_setFamily (family : Family) : Blames T (setFamily family) :=
  blames_of_eq (fun _ => rfl) fun _ => rfl

/-- A function around some steps, left behind them. -/
theorem blames_setBody (body : Body) (h : Blames T a) : Blames T (do
    let outer := (← get).body
    setBody body
    a
    setBody outer) := by
  intro w
  obtain ⟨-, hfound⟩ := h { w with body }
  exact ⟨rfl, hfound⟩

theorem blames_returned {keyword : Token} (hk : T keyword) {e : Expr} (he : e.Within T)
    (body : Body) : Blames T (do
      if body = .initializer then report keyword .initializerValue
      expr e) := by
  split
  · exact (blames_report hk _).seq (blames_expr e he)
  · exact blames_expr e he

theorem blames_returning {keyword : Token} {value : Option Expr} (hk : T keyword)
    (hv : ∀ e ∈ value, e.Within T) : Blames T (returning keyword value) := by
  unfold returning
  apply Blames.get
  intro w
  dsimp only
  cases value with
  | none =>
    split
    · exact blames_report hk _
    · exact blames_pure
  | some e =>
    split
    · exact (blames_report hk _).seq (blames_returned hk (hv e rfl) w.body)
    · exact blames_returned hk (hv e rfl) w.body

theorem blames_heading {name : Token} {superclass : Option Superclass} (hn : T name)
    (hs : ∀ s ∈ superclass, s.Within T) : Blames T (heading name superclass) := by
  unfold heading
  apply (blames_setFamily _).seq
  apply (blames_declare hn).seq
  cases superclass with
  | none => exact blames_define name
  | some parent =>
    have hparent : parent.name.NameIn T := hs parent rfl
    apply (blames_setFamily _).seq
    dsimp only
    split
    · exact (blames_report hparent.token _).seq (blames_define name)
    · exact (blames_expr parent.expr hparent).seq (blames_define name)

mutual

theorem blames_stmt : ∀ s : Stmt, s.Within T → Blames T (stmt s)
  | .expr e, h => blames_expr e h
  | .var name _, h =>
    (blames_declare h.1.token).seq ((blames_expr? h.2).seq (blames_define name))
  | .block body, h => (blames_openScope _).seq ((blames_stmts body h).seq blames_closeScope)
  | .ifThen condition whenTrue, h => (blames_expr condition h.1).seq (blames_stmt whenTrue h.2)
  | .ifElse condition whenTrue whenFalse, h =>
    (blames_expr condition h.1).seq
      ((blames_stmt whenTrue h.2.1).seq (blames_stmt whenFalse h.2.2))
  | .while condition body, h => (blames_expr condition h.1).seq (blames_stmt body h.2)
  | .for condition _ body, h =>
    (blames_expr condition h.1).seq ((blames_stmt body h.2.2).seq (blames_expr? h.2.1))
  | .function decl, h =>
    (blames_declare h.parts.1.token).seq
      ((blames_define decl.name).seq (blames_function .function decl h))
  | .return _ _, h => blames_returning h.1 h.2
  | .break _, _ => blames_pure
  | .next _, _ => blames_pure
  | .class name superclass methods statics, h => by
    intro w
    rw [walked_class]
    have hboth := (blames_instanceMethods methods h.2.2.1).seq
      (blames_staticMethods statics h.2.2.2)
    have hinside : ∀ derived : Bool, Blames T (do
        if derived then openScope [("super", true)]
        openScope [("this", true)]
        (do instanceMethods methods; staticMethods statics)
        closeScope
        if derived then closeScope) := by
      intro derived
      have hthis : ∀ {last}, Blames T last → Blames T (do
          openScope [("this", true)]
          (do instanceMethods methods; staticMethods statics)
          closeScope
          last) := fun hlast =>
        (blames_openScope _).seq (hboth.seq (blames_closeScope.seq hlast))
      cases derived with
      | false => exact hthis blames_pure
      | true => exact (blames_openScope _).seq (hthis blames_closeScope)
    exact (blames_heading h.1.token h.2.1).seq (hinside superclass.isSome) w

theorem blames_stmts : ∀ ss : List Stmt, Stmt.WithinAll T ss → Blames T (stmts ss)
  | [], _ => blames_pure
  | s :: ss, h => (blames_stmt s h.1).seq (blames_stmts ss h.2)

theorem blames_function (kind : Body) : ∀ d : FunctionDecl, d.Within T → Blames T (function kind d)
  | ⟨_, _, body⟩, h =>
    blames_setBody kind ((blames_openScope _).seq
      (((blames_params h.2.1).seq (blames_stmts body h.2.2)).seq blames_closeScope))

theorem blames_instanceMethods : ∀ ds : List FunctionDecl, FunctionDecl.WithinAll T ds →
    Blames T (instanceMethods ds)
  | [], _ => blames_pure
  | d :: ds, h => (blames_function _ d h.1).seq (blames_instanceMethods ds h.2)

theorem blames_staticMethods : ∀ ds : List FunctionDecl, FunctionDecl.WithinAll T ds →
    Blames T (staticMethods ds)
  | [], _ => blames_pure
  | d :: ds, h => (blames_function _ d h.1).seq (blames_staticMethods ds h.2)

end

end Scriptling.Scope

namespace Scriptling

/-- What is reported of a program's names stands at its tokens. -/
theorem resolve_within {T : Token → Prop} {ss : List Stmt} (h : Stmt.WithinAll T ss)
    (globals : List String) : ∀ e ∈ (resolve globals ss).faults, e.place.Of T := by
  obtain ⟨-, found, hfaults, hfound⟩ := Scope.blames_stmts ss h (.start globals)
  rw [show (resolve globals ss).faults = found from hfaults]
  exact hfound

end Scriptling
