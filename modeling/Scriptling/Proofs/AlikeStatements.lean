import Scriptling.Proofs.Alike

namespace Scriptling

namespace Grammar

open Parse

variable {C C' : Type} [Reader C] [Reader C'] {g : ExprId → ExprId} {whole : Bool} {rules : Rules C}
  {rules' : Rules C'} {n N : Nat}

/-- Rules for statements that read alike where fewer than `N` tokens are left. -/
structure Blocks.Alike (g : ExprId → ExprId) (N : Nat) (blocks : Blocks C) (blocks' : Blocks C') :
    Prop where
  declaration : ∀ n < N,
    Parse.Alike g true n blocks.declaration blocks'.declaration (Recovered n (Stmt.under g))
  statement : ∀ n < N,
    Parse.Alike g true n blocks.statement blocks'.statement (Past n (Stmt.under g))

/-- What tells whether declarations go on: they do where there is a token only. -/
def Onward (g : ExprId → ExprId) (more : Parse C Bool) (more' : Parse C' Bool) : Prop :=
  ∀ n, Parse.Alike g true n more more' fun m b b' => m = n ∧ b = b' ∧ (b = true → 0 < n)

def declared (blocks : Blocks C) (more : Parse C Bool) (read : List Stmt) :
    Parse C (Option (List Stmt)) := do
  if ← more then return some (read ++ (← blocks.declaration).toList) else pure none

theorem declarations_eq (blocks : Blocks C) (more : Parse C Bool) :
    declarations blocks more = chain (declared blocks more) [] := rfl

/-- A program is the chain of its declarations. -/
theorem program_eq (depth : Nat) :
    (program depth : Parse C (List Stmt)) =
      chain (declared (Blocks.upTo (Rules.upTo depth) depth) (do return !(← atEnd))) [] := rfl

variable {blocks : Blocks C} {blocks' : Blocks C'} {more : Parse C Bool} {more' : Parse C' Bool}
  {M : Nat}

theorem onward_toEnd (g : ExprId → ExprId) :
    Onward g (do return !(← atEnd) : Parse C Bool) (do return !(← atEnd) : Parse C' Bool) := by
  intro n
  apply Alike.bind .atEnd
  rintro m b _ ⟨rfl, rfl, hb⟩
  apply Alike.pure
  refine ⟨rfl, rfl, ?_⟩
  intro hmore
  have hzero := hb rfl
  simp only [Bool.not_eq_true'] at hmore
  simp only [hmore, Bool.false_eq_true, false_iff] at hzero
  exact Nat.pos_of_ne_zero hzero

/-- Inside a block it is a closing brace that declarations do not go on at, or the end. -/
theorem onward_inBlock (g : ExprId → ExprId) :
    Onward g (do return !(← check .rightBrace) && !(← atEnd) : Parse C Bool)
      (do return !(← check .rightBrace) && !(← atEnd) : Parse C' Bool) := by
  intro n
  apply Alike.bind (.check _)
  rintro m b _ ⟨rfl, rfl⟩
  apply Alike.bind .atEnd
  rintro m b' _ ⟨rfl, rfl, hb⟩
  apply Alike.pure
  refine ⟨rfl, rfl, ?_⟩
  intro hmore
  have hzero := hb rfl
  simp only [Bool.and_eq_true, Bool.not_eq_true'] at hmore
  simp only [hmore.2, Bool.false_eq_true, false_iff] at hzero
  exact Nat.pos_of_ne_zero hzero

/-- A declaration more behind those that were read; one of the two readings may have begun earlier. -/
theorem alike_declared (hb : blocks.Alike g M blocks') (hm : Onward g more more') (hn : n < M)
    (earlier : List Stmt) {read read' : List Stmt}
    (hread : read.map (Stmt.under g) = earlier ++ read'.map (Stmt.under g)) :
    Alike g true n (declared blocks more read) (declared blocks' more' read')
      (Goes (fun _ ss ss' => ss.map (Stmt.under g) = earlier ++ ss'.map (Stmt.under g)) n) := by
  apply Alike.bind (hm n)
  rintro m b _ ⟨rfl, rfl, hpos⟩
  split
  · apply Alike.bind (hb.declaration m hn)
    rintro k o o' ⟨-, hk, ho⟩
    apply Alike.pure
    refine ⟨hk (hpos ‹_›), ?_⟩
    change List.map _ (read ++ _) = earlier ++ List.map _ (read' ++ _)
    rw [List.map_append, List.map_append, hread, List.append_assoc]
    cases o with
    | none =>
      cases o' with
      | none => rfl
      | some s => cases ho
    | some s =>
      cases o' with
      | none => cases ho
      | some s' => simpa using ho
  · exact .pure rfl

/-- Declarations read by one of the two behind others. -/
theorem alike_behind (hb : blocks.Alike g M blocks') (hm : Onward g more more') (hn : n < M)
    (read : List Stmt) :
    Alike g true n (chain (declared blocks more) read) (declarations blocks' more') fun m ss ss' =>
      m ≤ n ∧ ss.map (Stmt.under g) = read.map (Stmt.under g) ++ ss'.map (Stmt.under g) := by
  rw [declarations_eq]
  apply Alike.chain
  · intro k ss ss' hk hss
    exact alike_declared hb hm (by omega) _ hss
  · exact (List.append_nil _).symm

theorem alike_declarations (hb : blocks.Alike g M blocks') (hm : Onward g more more') (hn : n < M) :
    Alike g true n (declarations blocks more) (declarations blocks' more')
      (Perhaps n (List.map (Stmt.under g))) :=
  alike_behind hb hm hn []

theorem alike_block (hb : blocks.Alike g M blocks') (hn : n < M) :
    Alike g true n (block blocks) (block blocks') (Past n (List.map (Stmt.under g))) := by
  apply Alike.bind (alike_declarations hb (onward_inBlock g) hn)
  rintro m body body' ⟨hm, hbody⟩
  refine .expect (.inl rfl) ?_
  rintro brace k - rfl
  exact .pure ⟨by omega, hbody⟩

theorem alike_param (h : rules.Alike g true N rules') (hn : n ≤ N) :
    Alike g true n (param rules) (param rules') (Past n (Param.under g)) := by
  refine .expect (.inl rfl) ?_
  rintro name m - rfl
  refine .option (.inl rfl) (.pure ⟨Nat.lt_succ_self m, rfl⟩) ?_
  rintro sign k - rfl
  apply Alike.bind (h.assignment k (by omega))
  rintro j e e' ⟨hj, he⟩
  apply Alike.pure
  refine ⟨by omega, ?_⟩
  simp only [Expr.under] at he
  simp only [Param.under, Param.turn, Option.map_some, he]

theorem alike_params (h : rules.Alike g true N rules') (hn : n ≤ N) :
    Alike g true n (params rules) (params rules') (Perhaps n (List.map (Param.under g))) := by
  apply Alike.bind (.check _)
  rintro m absent _ ⟨rfl, rfl⟩
  split
  · exact .pure ⟨Nat.le_refl _, rfl⟩
  · have hitem : ∀ k < N + 1, Alike g true k (param rules) (param rules')
        (Past k (Param.under g)) := by
      intro k hk
      exact alike_param h (Nat.le_of_lt_succ hk)
    refine .weaken (.items (.inl rfl) hitem (Nat.lt_succ_of_le hn)) ?_
    rintro k ps ps' ⟨hk, hps⟩
    exact ⟨Nat.le_of_lt hk, hps⟩

theorem alike_function (h : rules.Alike g true N rules') (hb : blocks.Alike g M blocks')
    (hn : n ≤ N) (hM : n ≤ M) (role : Role) :
    Alike g true n (function rules blocks role) (function rules' blocks' role)
      (Past n (FunctionDecl.under g)) := by
  refine .expect (.inl rfl) ?_
  rintro name m - rfl
  refine .expect (.inl rfl) ?_
  rintro left m - rfl
  apply Alike.bind (alike_params h (by omega))
  rintro k ps ps' ⟨hk, hps⟩
  refine .expect (.inl rfl) ?_
  rintro right k - rfl
  refine .expect (.inl rfl) ?_
  rintro brace k - rfl
  apply Alike.bind (alike_block hb (by omega))
  rintro j body body' ⟨hj, hbody⟩
  apply Alike.pure
  refine ⟨by omega, ?_⟩
  simp only [FunctionDecl.under, FunctionDecl.turn, Stmt.turnAll_eq_map, FunctionDecl.mk.injEq,
    true_and]
  exact ⟨hps, hbody⟩

theorem alike_methods (h : rules.Alike g true N rules') (hb : blocks.Alike g M blocks')
    (hn : n ≤ N) (hM : n ≤ M) :
    Alike g true n (methods rules blocks) (methods rules' blocks')
      (Perhaps n fun r => (r.1.map (FunctionDecl.under g), r.2.map (FunctionDecl.under g))) := by
  apply Alike.chain
  · rintro k ⟨ms, ss⟩ ⟨ms', ss'⟩ hk hread
    obtain ⟨hms, hss⟩ := Prod.mk.inj hread
    dsimp only at hms hss
    apply Alike.bind (.check _)
    rintro m b _ ⟨rfl, rfl⟩
    apply Alike.bind .atEnd
    rintro m b' _ ⟨rfl, rfl, -⟩
    split
    · exact .pure rfl
    · refine .option (.inl rfl) ?_ ?_
      · apply Alike.bind (alike_function h hb (by omega) (by omega) .method)
        rintro j d d' ⟨hj, hd⟩
        apply Alike.pure
        refine ⟨hj, ?_⟩
        simp only [List.map_append, hms, hss, List.map_cons, List.map_nil, hd]
      · rintro keyword j - rfl
        apply Alike.bind (alike_function h hb (by omega) (by omega) .static)
        rintro i d d' ⟨hi, hd⟩
        apply Alike.pure
        refine ⟨by omega, ?_⟩
        simp only [List.map_append, hms, hss, List.map_cons, List.map_nil, hd]
  · rfl

theorem alike_superclass :
    Alike g true n (superclass : Parse C _) (superclass : Parse C' _)
      (Perhaps n (Option.map (Superclass.under g))) := by
  refine .option (.inl rfl) (.pure ⟨Nat.le_refl n, rfl⟩) ?_
  rintro sign m - rfl
  refine .expect (.inl rfl) ?_
  rintro name k - rfl
  apply Alike.bind .fresh
  rintro _ i j ⟨rfl, hij⟩
  apply Alike.pure
  refine ⟨by omega, ?_⟩
  simp only [Superclass.under, Option.map_some, Superclass.turn, Superclass.use, Use.under, hij]

theorem alike_classDecl (h : rules.Alike g true N rules') (hb : blocks.Alike g M blocks')
    (hn : n ≤ N) (hM : n ≤ M) :
    Alike g true n (classDecl rules blocks) (classDecl rules' blocks')
      (Past n (Stmt.under g)) := by
  refine .expect (.inl rfl) ?_
  rintro name m - rfl
  apply Alike.bind alike_superclass
  rintro k parent parent' ⟨hk, hparent⟩
  refine .expect (.inl rfl) ?_
  rintro left k - rfl
  apply Alike.bind (alike_methods h hb (by omega) (by omega))
  rintro j ⟨ms, ss⟩ ⟨ms', ss'⟩ ⟨hj, hread⟩
  obtain ⟨hms, hss⟩ := Prod.mk.inj hread
  refine .expect (.inl rfl) ?_
  rintro right j - rfl
  apply Alike.pure
  refine ⟨by omega, ?_⟩
  simp only [Stmt.under, Stmt.turn, FunctionDecl.turnAll_eq_map, Stmt.class.injEq, true_and]
  exact ⟨hparent, hms, hss⟩

theorem alike_expression? (h : rules.Alike g whole N rules') (hn : n < N) :
    Alike g whole n (some <$> expression rules) (some <$> expression rules')
      (Past n (Option.map (Expr.under g))) := by
  refine .map (alike_expression h hn) ?_
  rintro m e e' ⟨hm, he⟩
  exact ⟨hm, congrArg some he⟩

/-- An expression that may be left out. -/
theorem alike_optional (h : rules.Alike g true N rules') (hn : n < N) (absent : Bool)
    {α β : Type} {q : Option Expr → Parse C α} {q' : Option Expr → Parse C' β}
    {S : Nat → α → β → Prop}
    (hq : ∀ m o o', m ≤ n → o.map (Expr.under g) = o'.map (Expr.under g) →
      Alike g true m (q o) (q' o') S) :
    Alike g true n (if absent then pure none >>= q else some <$> expression rules >>= q)
      (if absent then pure none >>= q' else some <$> expression rules' >>= q') S := by
  split
  · exact hq n none none (Nat.le_refl n) rfl
  · apply Alike.bind (alike_expression? h hn)
    rintro m o o' ⟨hm, ho⟩
    exact hq m o o' (Nat.le_of_lt hm) ho

theorem alike_varDecl (h : rules.Alike g true N rules') (hn : n ≤ N) :
    Alike g true n (varDecl rules) (varDecl rules') (Past n (Stmt.under g)) := by
  refine .expect (.inl rfl) ?_
  rintro name m - rfl
  have hend : ∀ k (o o' : Option Expr), k ≤ m → o.map (Expr.under g) = o'.map (Expr.under g) →
      Alike g true k (do terminator .variableEnd; pure (Stmt.var name o) : Parse C Stmt)
        (do terminator .variableEnd; pure (Stmt.var name o') : Parse C' Stmt)
        (Past (m + 1) (Stmt.under g)) := by
    intro k o o' hk ho
    apply Alike.bind (.terminator _ rfl)
    intro j _ _ hj
    apply Alike.pure
    refine ⟨by omega, ?_⟩
    simp only [Stmt.under, Stmt.turn, Stmt.var.injEq, true_and]
    exact ho
  refine .option (.inl rfl) (hend m none none (Nat.le_refl m) rfl) ?_
  rintro sign k - rfl
  apply Alike.bind (alike_expression? h (by omega))
  rintro j o o' ⟨hj, ho⟩
  exact hend j o o' (by omega) ho

theorem alike_expressionStmt (h : rules.Alike g true N rules') (hn : n < N) :
    Alike g true n (expressionStmt rules) (expressionStmt rules') (Past n (Stmt.under g)) := by
  apply Alike.bind (alike_expression h hn)
  rintro m e e' ⟨hm, he⟩
  apply Alike.bind (.terminator _ rfl)
  intro k _ _ hk
  apply Alike.pure
  refine ⟨by omega, ?_⟩
  simp only [Stmt.under, Stmt.turn, Stmt.expr.injEq]
  exact he

theorem alike_forInitial (h : rules.Alike g true N rules') (hn : n < N) :
    Alike g true n (forInitial rules) (forInitial rules')
      (Past n (Option.map (Stmt.under g))) := by
  refine .option (.inl rfl) ?_ ?_
  · refine .map (alike_expressionStmt h hn) ?_
    rintro m s s' ⟨hm, hs⟩
    exact ⟨hm, congrArg some hs⟩
  · rintro t m - rfl
    dsimp only
    split
    · exact .pure ⟨Nat.lt_succ_self m, rfl⟩
    · refine .map (alike_varDecl h (by omega)) ?_
      rintro k s s' ⟨hk, hs⟩
      exact ⟨by omega, congrArg some hs⟩

/-- A condition that may be left out. -/
theorem alike_condition (h : rules.Alike g true N rules') (hn : n < N) (absent : Bool)
    {α β : Type} {q : Expr → Parse C α} {q' : Expr → Parse C' β}
    {S : Nat → α → β → Prop}
    (hq : ∀ m c c', m ≤ n → c.under g = c'.under g → Alike g true m (q c) (q' c') S) :
    Alike g true n
      (if absent then pure (.literal (.bool true)) >>= q else expression rules >>= q)
      (if absent then pure (.literal (.bool true)) >>= q' else expression rules' >>= q') S := by
  split
  · exact hq n _ _ (Nat.le_refl n) rfl
  · apply Alike.bind (alike_expression h hn)
    rintro m c c' ⟨hm, hc⟩
    exact hq m c c' (Nat.le_of_lt hm) hc

theorem alike_forStmt (h : rules.Alike g true N rules') (hb : blocks.Alike g M blocks')
    (hn : n ≤ N) (hM : n ≤ M) :
    Alike g true n (forStmt rules blocks) (forStmt rules' blocks') (Past n (Stmt.under g)) := by
  refine .expect (.inl rfl) ?_
  rintro left m - rfl
  apply Alike.bind (alike_forInitial h (by omega))
  rintro k initial initial' ⟨hk, hinitial⟩
  apply Alike.bind (.check _)
  rintro k absent _ ⟨rfl, rfl⟩
  refine alike_condition h (by omega) absent ?_
  intro j c c' hj hc
  refine .expect (.inl rfl) ?_
  rintro semicolon j - rfl
  apply Alike.bind (.check _)
  rintro j absent' _ ⟨rfl, rfl⟩
  refine alike_optional h (by omega) absent' ?_
  intro i o o' hi ho
  refine .expect (.inl rfl) ?_
  rintro right i - rfl
  apply Alike.bind (hb.statement i (by omega))
  rintro l body body' ⟨hl, hbody⟩
  have hloop : (Stmt.for c o body).under g = (Stmt.for c' o' body').under g := by
    simp only [Stmt.under, Stmt.turn, Stmt.for.injEq] at hbody ⊢
    exact ⟨hc, ho, hbody⟩
  match initial, initial', hinitial with
  | none, none, _ => exact .pure ⟨by omega, hloop⟩
  | some first, some first', hfirst =>
    apply Alike.pure
    refine ⟨by omega, ?_⟩
    simp only [Option.map_some, Option.some.injEq] at hfirst
    simp only [Stmt.under] at hloop hfirst
    simp only [Stmt.under, Stmt.turn, Stmt.turnAll, Stmt.block.injEq, List.cons.injEq, and_true]
    exact ⟨hfirst, by simpa only [Stmt.turn] using hloop⟩

theorem alike_ifStmt (h : rules.Alike g true N rules') (hb : blocks.Alike g M blocks')
    (hn : n ≤ N) (hM : n ≤ M) :
    Alike g true n (ifStmt rules blocks) (ifStmt rules' blocks') (Past n (Stmt.under g)) := by
  refine .expect (.inl rfl) ?_
  rintro left m - rfl
  apply Alike.bind (alike_expression h (by omega))
  rintro k c c' ⟨hk, hc⟩
  refine .expect (.inl rfl) ?_
  rintro right k - rfl
  apply Alike.bind (hb.statement k (by omega))
  rintro j yes yes' ⟨hj, hyes⟩
  simp only [Expr.under] at hc
  simp only [Stmt.under] at hyes
  refine .option (.inl rfl) (.pure ⟨by omega, ?_⟩) ?_
  · simp only [Stmt.under, Stmt.turn, hc, hyes]
  · rintro otherwise i - rfl
    apply Alike.bind (hb.statement i (by omega))
    rintro l no no' ⟨hl, hno⟩
    apply Alike.pure
    refine ⟨by omega, ?_⟩
    simp only [Stmt.under] at hno ⊢
    simp only [Stmt.turn, hc, hyes, hno]

theorem alike_whileStmt (h : rules.Alike g true N rules') (hb : blocks.Alike g M blocks')
    (hn : n ≤ N) (hM : n ≤ M) :
    Alike g true n (whileStmt rules blocks) (whileStmt rules' blocks')
      (Past n (Stmt.under g)) := by
  refine .expect (.inl rfl) ?_
  rintro left m - rfl
  apply Alike.bind (alike_expression h (by omega))
  rintro k c c' ⟨hk, hc⟩
  refine .expect (.inl rfl) ?_
  rintro right k - rfl
  apply Alike.bind (hb.statement k (by omega))
  rintro j body body' ⟨hj, hbody⟩
  apply Alike.pure
  refine ⟨by omega, ?_⟩
  simp only [Expr.under] at hc
  simp only [Stmt.under] at hbody ⊢
  simp only [Stmt.turn, hc, hbody]

theorem alike_returnStmt (h : rules.Alike g true N rules') (hn : n < N) (keyword : Token) :
    Alike g true n (returnStmt rules keyword) (returnStmt rules' keyword)
      (Perhaps n (Stmt.under g)) := by
  apply Alike.bind (.check _)
  rintro m b _ ⟨rfl, rfl⟩
  apply Alike.bind .atEnd
  rintro m b' _ ⟨rfl, rfl, -⟩
  refine alike_optional h hn (b || b') ?_
  intro k o o' hk ho
  apply Alike.bind (.terminator _ rfl)
  intro j _ _ hj
  apply Alike.pure
  refine ⟨by omega, ?_⟩
  simp only [Stmt.under, Stmt.turn, Stmt.return.injEq, true_and]
  exact ho

theorem alike_leaving (what : Expected) (s : Stmt) :
    Alike g true n (do terminator what; pure s : Parse C Stmt)
      (do terminator what; pure s : Parse C' Stmt) (Perhaps n (Stmt.under g)) := by
  apply Alike.bind (.terminator _ rfl)
  intro m _ _ hm
  exact .pure ⟨hm, rfl⟩

theorem alike_statement (h : rules.Alike g true N rules') (hb : blocks.Alike g M blocks')
    (hn : n < N) (hM : n ≤ M) :
    Alike g true n (statement rules blocks) (statement rules' blocks')
      (Past n (Stmt.under g)) := by
  have hpast : ∀ m (s s' : Stmt), m + 1 = n → ∀ k, Perhaps m (Stmt.under g) k s s' →
      Past n (Stmt.under g) k s s' := by
    rintro m s s' rfl k ⟨hk, hs⟩
    exact ⟨Nat.lt_succ_of_le hk, hs⟩
  have hweaker : ∀ m (s s' : Stmt), m + 1 = n → ∀ k, Past m (Stmt.under g) k s s' →
      Past n (Stmt.under g) k s s' := by
    intro m s s' hm k hk
    exact hpast m s s' hm k ⟨Nat.le_of_lt hk.1, hk.2⟩
  refine .option (.inl rfl) (alike_expressionStmt h hn) ?_
  rintro t m - rfl
  dsimp only
  split
  · exact .weaken (alike_forStmt h hb (by omega) (by omega)) fun k s s' => hweaker m s s' rfl k
  · exact .weaken (alike_ifStmt h hb (by omega) (by omega)) fun k s s' => hweaker m s s' rfl k
  · exact .weaken (alike_whileStmt h hb (by omega) (by omega)) fun k s s' => hweaker m s s' rfl k
  · exact .weaken (alike_returnStmt h (by omega) t) fun k s s' => hpast m s s' rfl k
  · exact .weaken (alike_leaving _ _) fun k s s' => hpast m s s' rfl k
  · exact .weaken (alike_leaving _ _) fun k s s' => hpast m s s' rfl k
  · refine .map (alike_block hb (by omega)) ?_
    rintro k body body' ⟨hk, hbody⟩
    refine ⟨by omega, ?_⟩
    simp only [Stmt.under, Stmt.turn, Stmt.turnAll_eq_map, Stmt.block.injEq]
    exact hbody

theorem alike_declaration (h : rules.Alike g true N rules') (hb : blocks.Alike g M blocks')
    (hn : n < N) (hM : n ≤ M) :
    Alike g true n (declaration rules blocks) (declaration rules' blocks')
      (Past n (Stmt.under g)) := by
  refine .option (.inl rfl) (alike_statement h hb hn hM) ?_
  rintro t m - rfl
  dsimp only
  split
  · refine .weaken (alike_classDecl h hb (by omega) (by omega)) ?_
    rintro k s s' ⟨hk, hs⟩
    exact ⟨by omega, hs⟩
  · refine .map (alike_function h hb (by omega) (by omega) .function) ?_
    rintro k d d' ⟨hk, hd⟩
    refine ⟨by omega, ?_⟩
    simp only [Stmt.under, Stmt.turn, Stmt.function.injEq]
    exact hd
  · refine .weaken (alike_varDecl h (by omega)) ?_
    rintro k s s' ⟨hk, hs⟩
    exact ⟨by omega, hs⟩

/-- Rules for statements that are closed alike read alike too. -/
theorem Blocks.alike_over (h : rules.Alike g true N rules') {base : Blocks C} {base' : Blocks C'}
    {depth depth' : Nat} (hM : M ≤ N)
    (hd : depth = depth' ∧ (∀ M, base.Alike g M base') ∨ M ≤ depth ∧ M ≤ depth') :
    (Blocks.over rules base depth).Alike g M (Blocks.over rules' base' depth') := by
  induction depth generalizing depth' M with
  | zero =>
    rcases hd with ⟨rfl, hbase⟩ | ⟨hM, -⟩
    · exact hbase M
    · obtain rfl := Nat.le_zero.1 hM
      constructor <;> intro n hn <;> exact absurd hn (Nat.not_lt_zero n)
  | succ depth ih =>
    cases M with
    | zero => constructor <;> intro n hn <;> exact absurd hn (Nat.not_lt_zero n)
    | succ M =>
      obtain ⟨depth', rfl⟩ : ∃ k, depth' = k + 1 := ⟨depth' - 1, by omega⟩
      have hbelow : (Blocks.over rules base depth).Alike g M (Blocks.over rules' base' depth') :=
        ih (Nat.le_of_succ_le hM) (hd.imp (And.imp_left Nat.succ.inj) fun h =>
          ⟨Nat.le_of_succ_le_succ h.1, Nat.le_of_succ_le_succ h.2⟩)
      constructor
      · intro n hn
        exact .recovering rfl (alike_declaration h hbelow (by omega) (by omega))
      · intro n hn
        exact alike_statement h hbelow (by omega) (by omega)

theorem Blocks.alike_refusing (g : ExprId → ExprId) (M : Nat) :
    (Blocks.refusing : Blocks C).Alike g M (Blocks.refusing : Blocks C') :=
  ⟨fun _ _ => .recovering rfl (.refuse _), fun _ _ => .refuse _⟩

/-- Rules for statements read alike that are closed over rules for expressions closed as they are. -/
theorem Blocks.alike_upTo (g : ExprId → ExprId) {depth depth' depth₁ depth₁' : Nat}
    (hd : depth = depth' ∨ N ≤ depth ∧ N ≤ depth') (hd₁ : depth₁ = depth₁' ∨ N ≤ depth₁ ∧ N ≤ depth₁') :
    (Blocks.upTo (Rules.upTo depth) depth₁ : Blocks C).Alike g N
      (Blocks.upTo (Rules.upTo depth') depth₁' : Blocks C') :=
  alike_over (Rules.alike_upTo g true hd) (Nat.le_refl _)
    (hd₁.imp_left fun h => ⟨h, alike_refusing g⟩)

/-- Programs are read alike by rules that go deeper than there are tokens, over whatever others they
are closed. -/
theorem alike_programOver (g : ExprId → ExprId) (base : Rules C) (base' : Rules C')
    (below : Blocks C) (below' : Blocks C') {depth depth' : Nat} (hd : n < depth) (hd' : n < depth') :
    Alike g true n (programOver base below depth) (programOver base' below' depth')
      (Perhaps n (List.map (Stmt.under g))) := by
  have hrules : (Rules.over base depth).Alike g true (n + 1) (Rules.over base' depth') :=
    Rules.alike_over g true (.inr ⟨hd, hd'⟩)
  have hblocks : (Blocks.over (Rules.over base depth) below depth).Alike g (n + 1)
      (Blocks.over (Rules.over base' depth') below' depth') :=
    Blocks.alike_over hrules (Nat.le_refl _) (.inr ⟨hd, hd'⟩)
  exact alike_declarations hblocks (onward_toEnd g) (Nat.lt_succ_self n)

end Grammar

end Scriptling
