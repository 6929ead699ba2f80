import Scriptling.Proofs.Padding
import Scriptling.Proofs.Resolution

namespace Scriptling

namespace Scope

variable {strict outside : Bool} {ξ : Padding} {w w' : Walk} {a a' b b' : Resolve Unit}

/-- The walk over the program with loops written out. If it is strict it knows the same globals and
has no faults of its own. -/
structure Trails (strict : Bool) (ξ : Padding) (w w' : Walk) : Prop where
  scopes : Padded ξ w.scopes w'.scopes
  globals : strict = true → w'.globals = w.globals
  body : w'.body = w.body
  family : w'.family = w.family
  faults : ∀ fault ∈ w'.faults, fault ∈ w.faults ∨ strict = false ∧ fault.fault = .ownInitializer

def Trailing (strict : Bool) (ξ : Padding) (a a' : Resolve Unit) : Prop :=
  ∀ w w', Trails strict ξ w w' → Trails strict ξ (walked a w) (walked a' w')

/-- Where the walks are strict, a place is outside all scopes in both programs or in none, and loops
are written out inside scopes only. -/
structure Ready (strict outside : Bool) (ξ : Padding) : Prop where
  ground : strict = true → ξ = [] ∨ false ∈ ξ
  loops : strict = true → outside = true → false ∈ ξ

theorem Ready.inside (strict outside : Bool) (ξ : Padding) : Ready strict outside (false :: ξ) :=
  ⟨fun _ => .inr (by simp), fun _ _ => by simp⟩

theorem Ready.added (h : Ready strict true ξ) : Ready strict true (true :: ξ) :=
  ⟨fun hs => .inr (List.mem_cons_of_mem _ (h.loops hs rfl)),
    fun hs _ => List.mem_cons_of_mem _ (h.loops hs rfl)⟩

/-- Both places are outside all scopes, or neither is. -/
theorem isEmpty_eq {scopes scopes' : List (Table Bool)} (h : Padded ξ scopes scopes')
    (hξ : ξ = [] ∨ false ∈ ξ) : scopes'.isEmpty = scopes.isEmpty := by
  rcases hξ with rfl | hξ
  · cases h
    rfl
  · induction h with
    | outside => simp at hξ
    | scope => rfl
    | added _ ih =>
      have hscopes := ih (by simpa using hξ)
      cases ‹Padded _ _ _› with
      | outside => simp at hξ
      | scope => rfl
      | added => simpa using hscopes

theorem Trailing.pure : Trailing strict ξ (pure ()) (pure ()) := fun _ _ h => h

/-- Steps that trail each other, one after the other. -/
theorem Trailing.seq (ha : Trailing strict ξ a a') (hb : Trailing strict ξ b b') :
    Trailing strict ξ (do a; b) (do a'; b') := fun w w' h => hb _ _ (ha w w' h)

/-- Steps that begin with a look at the walk. -/
theorem trailing_get {k k' : Walk → Resolve Unit}
    (h : ∀ w w', Trails strict ξ w w' → Trailing strict ξ (k w) (k' w')) :
    Trailing strict ξ (do k (← get)) (do k' (← get)) :=
  fun w w' hw => h w w' hw w w' hw

theorem trailing_report (token : Token) (fault : ScopeFault) :
    Trailing strict ξ (report token fault) (report token fault) := by
  intro w w' h
  refine ⟨h.scopes, h.globals, h.body, h.family, fun f hf => ?_⟩
  rw [walked_report] at hf ⊢
  rcases List.mem_append.1 hf with hf | hf
  · exact (h.faults f hf).imp_left (List.mem_append_left _)
  · exact .inl (List.mem_append_right _ hf)

/-- Both walks note the distance of a name, or none does. -/
theorem Trails.locate (h : Trails strict ξ w w') (id : ExprId) (name : Token) :
    Trails strict ξ ((locate id name).run w).2 ((Scope.locate id name).run w').2 := by
  rw [walked_locate, walked_locate, h.scopes.distance?_eq]
  cases Scope.distance? w.scopes name.lexeme with
  | none => exact h
  | some d => exact ⟨h.scopes, h.globals, h.body, h.family, h.faults⟩

theorem trailing_locate (id : ExprId) (name : Token) :
    Trailing strict ξ (discard (locate id name)) (discard (locate id name)) :=
  fun _ _ h => h.locate id name

theorem trailing_read (id : ExprId) (name : Token) :
    Trailing strict ξ (read id name) (read id name) := by
  intro w w' h
  have hlocate := h.locate id name
  have hd : (Scope.distance? w'.scopes name.lexeme).isNone =
      (Scope.distance? w.scopes name.lexeme).isNone := by
    rw [h.scopes.distance?_eq, Option.isNone_map]
  have hi := h.scopes.initializing_eq name.lexeme
  rw [walked_read, walked_read, hd, hi]
  by_cases hown' : (Scope.distance? w.scopes name.lexeme).isNone = true ∧
      (!w'.globals.contains name.lexeme && initializing w.scopes name.lexeme) = true
  · -- the name is not known as a global to the second walk
    have hnone := Option.isNone_iff_eq_none.1 hown'.1
    rw [if_pos hown']
    by_cases hown : (Scope.distance? w.scopes name.lexeme).isNone = true ∧
        (!w.globals.contains name.lexeme && initializing w.scopes name.lexeme) = true
    · rw [if_pos hown]
      exact trailing_report name .ownInitializer w w' h
    · rw [if_neg hown, walked_locate, hnone]
      refine ⟨h.scopes, h.globals, h.body, h.family, fun f hf => ?_⟩
      rcases List.mem_append.1 hf with hf | hf
      · exact h.faults f hf
      · cases hstrict : strict with
        | true =>
          rw [h.globals hstrict] at hown'
          exact absurd hown' hown
        | false =>
          rw [List.mem_singleton.1 hf]
          exact .inr ⟨rfl, rfl⟩
  · rw [if_neg hown']
    by_cases hown : (Scope.distance? w.scopes name.lexeme).isNone = true ∧
        (!w.globals.contains name.lexeme && initializing w.scopes name.lexeme) = true
    · rw [if_pos hown, walked_locate, h.scopes.distance?_eq, Option.isNone_iff_eq_none.1 hown.1]
      exact ⟨h.scopes, h.globals, h.body, h.family, fun f hf =>
        (h.faults f hf).imp_left (List.mem_append_left _)⟩
    · rw [if_neg hown]
      exact hlocate

/-- Outside all scopes a name that is assigned becomes a global. -/
theorem walked_write_global {id : ExprId} {name : Token} {w : Walk}
    (h : Scope.distance? w.scopes name.lexeme = none) : walked (write id name) w =
      { w with globals := if w.scopes.isEmpty then name.lexeme :: w.globals else w.globals } := by
  rw [walked_write, walked_locate, h]
  simp only [Option.isNone_none, true_and]
  split <;> rfl

theorem trailing_write (hξ : Ready strict outside ξ) (id : ExprId) (name : Token) :
    Trailing strict ξ (write id name) (write id name) := by
  intro w w' h
  cases hd : Scope.distance? w.scopes name.lexeme with
  | some d =>
    have hd' : Scope.distance? w'.scopes name.lexeme = some (ξ.stretch d) := by
      rw [h.scopes.distance?_eq, hd, Option.map_some]
    rw [walked_write, walked_write, hd, hd']
    exact h.locate id name
  | none =>
    have hd' : Scope.distance? w'.scopes name.lexeme = none := by
      rw [h.scopes.distance?_eq, hd, Option.map_none]
    rw [walked_write_global hd, walked_write_global hd']
    refine ⟨h.scopes, fun hs => ?_, h.body, h.family, h.faults⟩
    dsimp only
    rw [isEmpty_eq h.scopes (hξ.ground hs), h.globals hs]

theorem trailing_declare (hξ : ξ.Level) (name : Token) :
    Trailing strict ξ (declare name) (declare name) := by
  rintro ⟨scopes, globals, body, family, distances, faults⟩
    ⟨scopes', globals', body', family', distances', faults'⟩ h
  obtain ⟨hscopes, hglobals, hbody, hfamily, hfaults⟩ := h
  rw [walked_declare, walked_declare]
  cases hscopes with
  | outside =>
    exact ⟨.outside, fun hs => congrArg (name.lexeme :: ·) (hglobals hs), hbody, hfamily, hfaults⟩
  | scope names hscopes =>
    dsimp only
    split
    · refine ⟨.scope names hscopes, hglobals, hbody, hfamily, fun f hf => ?_⟩
      rcases List.mem_append.1 hf with hf | hf
      · exact (hfaults f hf).imp_left (List.mem_append_left _)
      · exact .inl (List.mem_append_right _ hf)
    · exact ⟨.scope _ hscopes, hglobals, hbody, hfamily, hfaults⟩
  | added => exact absurd rfl hξ

theorem trailing_define (hξ : ξ.Level) (name : Token) :
    Trailing strict ξ (define name) (define name) := by
  rintro ⟨scopes, globals, body, family, distances, faults⟩
    ⟨scopes', globals', body', family', distances', faults'⟩ h
  obtain ⟨hscopes, hglobals, hbody, hfamily, hfaults⟩ := h
  rw [walked_define, walked_define]
  cases hscopes with
  | outside => exact ⟨.outside, hglobals, hbody, hfamily, hfaults⟩
  | scope names hscopes => exact ⟨.scope _ hscopes, hglobals, hbody, hfamily, hfaults⟩
  | added => exact absurd rfl hξ

/-- A scope is closed behind what was walked in it. -/
theorem walked_scope (names : Table Bool) (a : Resolve Unit) (w : Walk) :
    walked (do openScope names; a; closeScope) w =
      walked closeScope (walked a { w with scopes := names :: w.scopes }) := rfl

/-- A scope of both programs. -/
theorem Trailing.scope (names : Table Bool) (h : Trailing strict (false :: ξ) a a') :
    Trailing strict ξ (do openScope names; a; closeScope) (do openScope names; a'; closeScope) := by
  intro w w' hw
  rw [walked_scope, walked_scope, walked_closeScope, walked_closeScope]
  have hend := h { w with scopes := names :: w.scopes } { w' with scopes := names :: w'.scopes }
    ⟨.scope names hw.scopes, hw.globals, hw.body, hw.family, hw.faults⟩
  refine ⟨?_, hend.globals, hend.body, hend.family, hend.faults⟩
  have hscopes := hend.scopes
  revert hscopes
  generalize Walk.scopes _ = scopes, Walk.scopes _ = scopes'
  rintro (_ | ⟨_, hscopes⟩ | _)
  exact hscopes

/-- A scope that only the second program has. -/
theorem Trailing.beside (h : Trailing strict (true :: ξ) a a') :
    Trailing strict ξ a (do openScope []; a'; closeScope) := by
  intro w w' hw
  rw [walked_scope, walked_closeScope]
  have hend := h w { w' with scopes := [] :: w'.scopes }
    ⟨.added hw.scopes, hw.globals, hw.body, hw.family, hw.faults⟩
  refine ⟨?_, hend.globals, hend.body, hend.family, hend.faults⟩
  have hscopes := hend.scopes
  revert hscopes
  generalize Walk.scopes _ = scopes, Walk.scopes _ = scopes'
  rintro (_ | _ | hscopes)
  exact hscopes

theorem trailing_setBody (body : Body) (h : Trailing strict ξ a a') :
    Trailing strict ξ
      (do
        let outer := (← get).body
        setBody body
        a
        setBody outer)
      (do
        let outer := (← get).body
        setBody body
        a'
        setBody outer) := by
  intro w w' hw
  have hend := h { w with body } { w' with body } ⟨hw.scopes, hw.globals, rfl, hw.family, hw.faults⟩
  exact ⟨hend.scopes, hend.globals, hw.body, hend.family, hend.faults⟩

theorem trailing_this (id : ExprId) (keyword : Token) :
    Trailing strict ξ (expr (.this id keyword)) (expr (.this id keyword)) := by
  intro w w' h
  rw [walked_this, walked_this, h.family]
  split
  · exact trailing_report keyword .thisOutsideClass w w' h
  · exact trailing_locate id keyword w w' h

theorem trailing_super (id : ExprId) (keyword method : Token) :
    Trailing strict ξ (expr (.super id keyword method)) (expr (.super id keyword method)) := by
  intro w w' h
  rw [walked_super, walked_super, h.family]
  split
  · exact trailing_report keyword .superOutsideClass w w' h
  · exact trailing_report keyword .superWithoutSuperclass w w' h
  · exact trailing_locate id keyword w w' h

mutual

theorem trailing_expr (hξ : Ready strict outside ξ) :
    ∀ e : Expr, Trailing strict ξ (expr e) (expr e)
  | .literal _ => .pure
  | .group inner => trailing_expr hξ inner
  | .unary _ operand => trailing_expr hξ operand
  | .binary left _ right => (trailing_expr hξ left).seq (trailing_expr hξ right)
  | .logical left _ right => (trailing_expr hξ left).seq (trailing_expr hξ right)
  | .ternary condition whenTrue whenFalse =>
    (trailing_expr hξ condition).seq ((trailing_expr hξ whenTrue).seq (trailing_expr hξ whenFalse))
  | .comma items => trailing_exprs hξ items
  | .var id name => trailing_read id name
  | .assign id name value => (trailing_expr hξ value).seq (trailing_write hξ id name)
  | .compoundAssign id name _ value => (trailing_expr hξ value).seq (trailing_locate id name)
  | .update _ target _ => trailing_expr hξ target
  | .call callee _ arguments => (trailing_expr hξ callee).seq (trailing_exprs hξ arguments)
  | .get object _ => trailing_expr hξ object
  | .set object _ value => (trailing_expr hξ value).seq (trailing_expr hξ object)
  | .compoundSet object _ _ value => (trailing_expr hξ value).seq (trailing_expr hξ object)
  | .this id keyword => trailing_this id keyword
  | .super id keyword method => trailing_super id keyword method

theorem trailing_exprs (hξ : Ready strict outside ξ) :
    ∀ es : List Expr, Trailing strict ξ (exprs es) (exprs es)
  | [] => .pure
  | e :: es => (trailing_expr hξ e).seq (trailing_exprs hξ es)

end

theorem trailing_expr? (hξ : Ready strict outside ξ) (o : Option Expr) :
    Trailing strict ξ (expr? o) (expr? o) := by
  cases o with
  | none => exact .pure
  | some e => exact trailing_expr hξ e

theorem trailing_params (hξ : Ready strict outside ξ) (hl : ξ.Level) (ps : List Param) :
    Trailing strict ξ (params ps) (params ps) := by
  induction ps with
  | nil => exact .pure
  | cons p ps ih =>
    exact (trailing_expr? hξ p.fallback).seq
      ((trailing_declare hl p.name).seq ((trailing_define hl p.name).seq ih))

theorem trailing_returning (hξ : Ready strict outside ξ) (keyword : Token) (value : Option Expr) :
    Trailing strict ξ (returning keyword value) (returning keyword value) := by
  have hreport : ∀ fault, Trailing strict ξ (report keyword fault) (report keyword fault) :=
    trailing_report keyword
  have hvalue : ∀ (body : Body) (e : Expr), Trailing strict ξ
      (do
        if body = .initializer then report keyword .initializerValue
        expr e)
      (do
        if body = .initializer then report keyword .initializerValue
        expr e) := by
    intro body e
    split
    · exact (hreport _).seq (trailing_expr hξ e)
    · exact trailing_expr hξ e
  unfold returning
  refine trailing_get fun w w' hw => ?_
  rw [hw.body]
  dsimp only
  cases value with
  | none =>
    split
    · exact hreport _
    · exact .pure
  | some e =>
    split
    · exact (hreport _).seq (hvalue w.body e)
    · exact hvalue w.body e

theorem trailing_parent (hξ : Ready strict outside ξ) (hl : ξ.Level) (name : Token)
    (parent : Superclass) :
    Trailing strict ξ
      (do
        if parent.name.lexeme = name.lexeme then report parent.name .selfInheritance
        else expr parent.expr
        define name)
      (do
        if parent.name.lexeme = name.lexeme then report parent.name .selfInheritance
        else expr parent.expr
        define name) := by
  dsimp only
  split
  · exact (trailing_report parent.name .selfInheritance).seq (trailing_define hl name)
  · exact (trailing_expr hξ parent.expr).seq (trailing_define hl name)

theorem Trails.withFamily (h : Trails strict ξ w w') (family : Family) :
    Trails strict ξ { w with family } { w' with family } :=
  ⟨h.scopes, h.globals, h.body, rfl, h.faults⟩

theorem trailing_heading (hξ : Ready strict outside ξ) (hl : ξ.Level) (name : Token)
    (superclass : Option Superclass) :
    Trailing strict ξ (heading name superclass) (heading name superclass) := by
  intro w w' h
  cases superclass with
  | none =>
    rw [walked_heading_none, walked_heading_none]
    exact ((trailing_declare hl name).seq (trailing_define hl name)) _ _ (h.withFamily .root)
  | some parent =>
    rw [walked_heading_some, walked_heading_some]
    refine trailing_parent hξ hl name parent _ _ (Trails.withFamily ?_ .derived)
    exact trailing_declare hl name _ _ (h.withFamily .root)

/-- Inside a class both walks have its scopes. -/
theorem Trailing.inClass (superclass : Option Superclass)
    (h : Trailing strict (ξ.inClass superclass.isSome) a a') :
    Trailing strict ξ
      (do
        if superclass.isSome then openScope [("super", true)]
        openScope [("this", true)]
        a
        closeScope
        if superclass.isSome then closeScope)
      (do
        if superclass.isSome then openScope [("super", true)]
        openScope [("this", true)]
        a'
        closeScope
        if superclass.isSome then closeScope) := by
  cases superclass with
  | none => exact fun w w' hw => Trailing.scope _ h w w' hw
  | some parent => exact fun w w' hw => Trailing.scope _ (Trailing.scope _ h) w w' hw

theorem trailing_withIncrement {body body' : Stmt} (hξ : Ready strict true ξ)
    (h : Trailing strict (true :: ξ) (stmt body) (stmt body')) (increment : Option Expr) :
    Trailing strict ξ (do stmt body; expr? increment) (stmt (body'.withIncrement increment)) := by
  cases increment with
  | none => exact (h.seq .pure).beside
  | some e => exact (h.seq ((trailing_expr hξ.added e).seq .pure)).beside

mutual

theorem trailing_stmt : ∀ {outside : Bool} {s s' : Stmt} {ξ : Padding}, s.Unrolls outside s' →
    s.Proper → (s.declares = true → ξ.Level) → Ready strict outside ξ →
    Trailing strict ξ (stmt s) (stmt s')
  | _, _, _, _, .expr e, _, _, hξ => trailing_expr hξ e
  | _, _, _, _, .var name initial, _, hl, hξ =>
    (trailing_declare (hl rfl) name).seq
      ((trailing_expr? hξ initial).seq (trailing_define (hl rfl) name))
  | _, _, _, ξ, .block h, hp, _, _ =>
    (trailing_stmts h hp (Padding.level_cons ξ) (.inside strict true ξ)).scope []
  | _, _, _, _, .ifThen condition h, hp, _, hξ =>
    (trailing_expr hξ condition).seq (trailing_stmt h hp.1 (by simp [hp.2]) hξ)
  | _, _, _, _, .ifElse condition h h', hp, _, hξ =>
    (trailing_expr hξ condition).seq ((trailing_stmt h hp.1.1 (by simp [hp.1.2]) hξ).seq
      (trailing_stmt h' hp.2.1 (by simp [hp.2.2]) hξ))
  | _, _, _, _, .while condition h, hp, _, hξ =>
    (trailing_expr hξ condition).seq (trailing_stmt h hp.1 (by simp [hp.2]) hξ)
  | _, _, _, _, .for condition increment h, hp, _, hξ =>
    (trailing_expr hξ condition).seq ((trailing_stmt h hp.1 (by simp [hp.2]) hξ).seq
      (trailing_expr? hξ increment))
  | _, _, _, _, @Stmt.Unrolls.function _ decl decl' h, hp, hl, _ => by
    rw [stmt, stmt, h.name_eq]
    exact (trailing_declare (hl rfl) decl.name).seq
      ((trailing_define (hl rfl) decl.name).seq (trailing_function h .function hp.2))
  | _, _, _, _, .return keyword value, _, _, hξ => trailing_returning hξ keyword value
  | _, _, _, _, .break _, _, _, _ => .pure
  | _, _, _, _, .next _, _, _, _ => .pure
  | _, _, _, ξ, .class name superclass h h', hp, hl, hξ => by
    intro w w' hw
    rw [walked_class, walked_class, hw.family]
    refine Trails.withFamily (Trailing.inClass superclass ?_ _ _
      (trailing_heading hξ (hl rfl) name superclass w w' hw)) w.family
    exact (trailing_instanceMethods h hp.2.1).seq (trailing_staticMethods h' hp.2.2)
  | _, _, _, _, .unrolled condition increment _ h, hp, _, hξ =>
    (trailing_expr hξ condition).seq
      (trailing_withIncrement hξ (trailing_stmt h hp.1 (by simp [hp.2]) hξ.added) increment)
  | _, _, _, _, .enclosed condition increment _ h, hp, _, hξ => by
    have hloop := (trailing_expr hξ.added condition).seq (trailing_withIncrement hξ.added
      (trailing_stmt h hp.1 (by simp [hp.2]) hξ.added.added) increment)
    exact (hloop.seq .pure).beside

theorem trailing_stmts : ∀ {outside : Bool} {ss ss' : List Stmt} {ξ : Padding},
    Stmt.UnrollsAll outside ss ss' → Stmt.ProperAll ss → ξ.Level → Ready strict outside ξ →
    Trailing strict ξ (stmts ss) (stmts ss')
  | _, _, _, _, .nil, _, _, _ => .pure
  | _, _, _, _, .cons h h', hp, hl, hξ =>
    (trailing_stmt h hp.1 (fun _ => hl) hξ).seq (trailing_stmts h' hp.2 hl hξ)

theorem trailing_function : ∀ {d d' : FunctionDecl} {ξ : Padding}, d.Unrolls d' → ∀ kind : Body,
    d.Proper → Trailing strict ξ (function kind d) (function kind d')
  | _, _, ξ, .body name params h, kind, hp => by
    have hready := Ready.inside strict true ξ
    have hlevel := Padding.level_cons ξ
    exact trailing_setBody kind (((trailing_params hready hlevel params).seq
      (trailing_stmts h hp.2 hlevel hready)).scope [])

theorem trailing_instanceMethods : ∀ {ds ds' : List FunctionDecl} {ξ : Padding},
    FunctionDecl.UnrollsAll ds ds' → FunctionDecl.ProperAll ds →
    Trailing strict ξ (instanceMethods ds) (instanceMethods ds')
  | _, _, _, .nil, _ => .pure
  | _, _, _, .cons h h', hp => by
    rw [instanceMethods, instanceMethods, h.name_eq]
    exact (trailing_function h _ hp.1).seq (trailing_instanceMethods h' hp.2)

theorem trailing_staticMethods : ∀ {ds ds' : List FunctionDecl} {ξ : Padding},
    FunctionDecl.UnrollsAll ds ds' → FunctionDecl.ProperAll ds →
    Trailing strict ξ (staticMethods ds) (staticMethods ds')
  | _, _, _, .nil, _ => .pure
  | _, _, _, .cons h h', hp =>
    (trailing_function h .method hp.1).seq (trailing_staticMethods h' hp.2)

end

end Scope

/-- Beside loops that no scope is around a variable may be found to read itself in its own initial
value. There are no other faults, and none at all where only loops inside scopes are written out. -/
theorem resolve_unrolled {outside : Bool} {globals : List String} {ss ss' : List Stmt}
    (h : Stmt.UnrollsAll outside ss ss') (hp : Stmt.ProperAll ss)
    (hclean : (resolve globals ss).faults = []) :
    (∀ fault ∈ (resolve globals ss').faults, fault.fault = .ownInitializer) ∧
      (outside = false → (resolve globals ss').faults = []) := by
  have hend : ∀ strict, Scope.Ready strict outside [] →
      Scope.Trails strict [] (resolve globals ss) (resolve globals ss') := fun strict hξ =>
    Scope.trailing_stmts h hp Padding.level_nil hξ (.start globals) (.start globals)
      ⟨.outside, fun _ => rfl, rfl, rfl, fun _ hf => by cases hf⟩
  constructor
  · intro fault hfault
    have hready : Scope.Ready false outside [] := ⟨nofun, nofun⟩
    have hloose := (hend false hready).faults fault hfault
    rw [hclean] at hloose
    rcases hloose with hf | ⟨-, hf⟩
    · cases hf
    · exact hf
  · intro hout
    have hready : Scope.Ready true outside [] :=
      ⟨fun _ => .inl rfl, fun _ ho => by rw [hout] at ho; cases ho⟩
    have hstrict := hend true hready
    refine List.eq_nil_iff_forall_not_mem.2 fun fault hfault => ?_
    have hf := hstrict.faults fault hfault
    rw [hclean] at hf
    rcases hf with hf | ⟨hf, -⟩ <;> cases hf

end Scriptling
