import Scriptling.Proofs.ReadingSteps
import Scriptling.Proofs.Within
import Scriptling.Proofs.Parser

namespace Scriptling

variable {T : Token → Prop} {α β : Type}

def Place.Of (T : Token → Prop) (p : Place) : Prop := ∃ t, T t ∧ p = t.place

namespace Parse

/-- Steps put together from the cursor's own. Where the predicate holds of the tokens read, `F`
holds of the result. -/
inductive Composed (T : Token → Prop) : {α : Type} → Parse Cursor α → (α → Prop) → Prop
  | pure {α : Type} {F : α → Prop} {a : α} : F a → Composed T (pure a) F
  | bind {α β : Type} {p : Parse Cursor α} {q : α → Parse Cursor β} {F : α → Prop} {G : β → Prop} :
      Composed T p F → (∀ a, F a → Composed T (q a) G) → Composed T (p >>= q) G
  | weaken {α : Type} {p : Parse Cursor α} {F G : α → Prop} :
      Composed T p F → (∀ a, F a → G a) → Composed T p G
  | acceptAny (kinds : List Kind) :
      Composed T (acceptAny kinds) fun o => ∀ t ∈ o, T t ∧ t.kind ∈ kinds
  | check (kind : Kind) : Composed T (check kind) fun _ => True
  | atEnd : Composed T atEnd fun _ => True
  | peek : Composed T peek T
  | refuse {α : Type} {F : α → Prop} (what : Expected) : Composed T (refuse what : Parse Cursor α) F
  | note (fault : ParseFault) {t : Token} : T t → Composed T (note fault t.place) fun _ => True
  | fresh : Composed T fresh fun _ => True
  | terminator (what : Expected) : Composed T (terminator what) fun _ => True
  | chain {α : Type} {step : α → Parse Cursor (Option α)} {F : α → Prop} {a : α} :
      (∀ a, F a → Composed T (step a) fun o => ∀ b ∈ o, F b) → F a → Composed T (chain step a) F
  | recovering {α : Type} {p : Parse Cursor α} {F : α → Prop} :
      Composed T p F → Composed T (recovering p) fun o => ∀ a ∈ o, F a

namespace Composed

variable {p : Parse Cursor α} {q : α → Parse Cursor β} {F : α → Prop} {G : β → Prop}

theorem map {f : α → β} (h : Composed T p F) (hf : ∀ a, F a → G (f a)) :
    Composed T (f <$> p) G := by
  rw [map_eq_pure_bind]
  exact .bind h fun a ha => .pure (hf a ha)

/-- A token that may or may not be there. -/
theorem option {kinds : List Kind} {q : Option Token → Parse Cursor β} (hn : Composed T (q none) G)
    (hs : ∀ t, T t → t.kind ∈ kinds → Composed T (q (some t)) G) :
    Composed T (Parse.acceptAny kinds >>= q) G := by
  refine .bind (.acceptAny kinds) fun o ho => ?_
  cases o with
  | none => exact hn
  | some t => exact hs t (ho t rfl).1 (ho t rfl).2

theorem expect (kind : Kind) (what : Expected) :
    Composed T (expect kind what) fun t => T t ∧ t.kind = kind := by
  refine option (.refuse what) fun t ht hk => .pure ⟨ht, ?_⟩
  simpa using hk

theorem items {tooMany : ParseFault} {item : Parse Cursor α} (h : Composed T item F) :
    Composed T (items tooMany item) fun as => ∀ a ∈ as, F a := by
  refine .bind h fun first hfirst => .chain (fun read hread => ?_) (by simpa using hfirst)
  have hnext : Composed T (do return some (read ++ [← item]))
      fun o => ∀ as ∈ o, ∀ a ∈ as, F a := by
    refine .bind h fun a ha => .pure fun as has => ?_
    cases has
    simpa [or_imp, forall_and] using ⟨hread, ha⟩
  refine option (.pure (by simp)) fun comma _ _ => ?_
  dsimp only
  split
  · exact .bind .peek fun t ht => .bind (.note _ ht) fun _ _ => hnext
  · exact hnext

end Composed

end Parse

namespace Grammar

open Parse

structure Rules.Composed (T : Token → Prop) (rules : Rules Cursor) : Prop where
  assignment : Parse.Composed T rules.assignment (Expr.Within T)
  ternary : Parse.Composed T rules.ternary (Expr.Within T)
  unary : Parse.Composed T rules.unary (Expr.Within T)

variable {rules : Rules Cursor}

theorem composed_expression (h : rules.Composed T) :
    Composed T (expression rules) (Expr.Within T) := by
  refine .bind h.assignment fun first hfirst => ?_
  refine .bind (F := fun es => ∀ e ∈ es, e.Within T)
    (.chain (fun read hread => ?_) (by simpa using hfirst)) fun all hall => ?_
  · refine .option (.pure (by simp)) fun comma _ _ => .bind h.assignment fun e he => .pure ?_
    simpa [or_imp, forall_and] using ⟨hread, he⟩
  · split
    · exact .pure (hall _ (by simp))
    · exact .pure (Expr.withinAll_iff.2 hall)

theorem composed_primary (h : rules.Composed T) :
    Composed T (primary rules) (Expr.Within T) := by
  refine .option (.refuse _) fun t ht _ => ?_
  dsimp only
  split
  · exact .pure trivial
  · exact .pure trivial
  · exact .pure trivial
  · exact .pure trivial
  · exact .pure trivial
  · exact .bind .fresh fun id _ => .pure ⟨ht, ‹_›⟩
  · exact .bind .fresh fun id _ => .pure ht
  · refine .bind (.expect _ _) fun _ _ => .bind (.expect _ _) fun method hmethod => ?_
    exact .bind .fresh fun id _ => .pure ⟨ht, hmethod.1⟩
  · exact .bind (composed_expression h) fun e he => .bind (.expect _ _) fun _ _ => .pure he

theorem composed_arguments (h : rules.Composed T) :
    Composed T (arguments rules) (Expr.WithinAll T) := by
  refine .bind (.check _) fun b _ => ?_
  split
  · exact .pure trivial
  · exact .weaken (.items h.assignment) fun es hes => Expr.withinAll_iff.2 hes

theorem composed_suffix (h : rules.Composed T) {e : Expr} (he : e.Within T) :
    Composed T (suffix rules e) fun o => ∀ e ∈ o, e.Within T := by
  refine .option (.pure (by simp)) fun t _ _ => ?_
  dsimp only
  split
  · refine .bind (composed_arguments h) fun args hargs => .bind (.expect _ _) fun paren hparen => ?_
    refine .pure fun e' he' => ?_
    cases he'
    exact ⟨he, hparen.1, hargs⟩
  · refine .bind (.expect _ _) fun name hname => .pure fun e' he' => ?_
    cases he'
    exact ⟨he, hname.1⟩

theorem composed_call (h : rules.Composed T) : Composed T (call rules) (Expr.Within T) :=
  .bind (composed_primary h) fun _ he => .chain (fun _ he => composed_suffix h he) he

theorem composed_update {operator : Token} (ho : T operator) {target : Expr}
    (ht : target.Within T) (before : Bool) :
    Composed T (update operator target before) (Expr.Within T) := by
  unfold update
  split
  · exact .pure ⟨ho, ht⟩
  · exact .pure ⟨ho, ht⟩
  · exact .bind (.note _ ho) fun _ _ => .pure ht

theorem composed_postfixed (h : rules.Composed T) :
    Composed T (postfixed rules) (Expr.Within T) := by
  refine .bind (composed_call h) fun e he => .option (.pure he) fun operator ho _ => ?_
  exact composed_update ho he false

theorem composed_unary (h : rules.Composed T) : Composed T (unary rules) (Expr.Within T) := by
  refine .option (composed_postfixed h) fun operator ho _ => .bind h.unary fun e he => ?_
  split
  · exact .pure ⟨ho, he⟩
  · exact composed_update ho he true

/-- A level's trees have their tokens from the operands and the operator. -/
theorem within_join {level : Level} {left right : Expr} {operator : Token} (hl : left.Within T)
    (ho : T operator) (hr : right.Within T) : (level.join left operator right).Within T := by
  unfold Level.join
  split
  · exact ⟨hl, ho, hr⟩
  · exact ⟨hl, ho, hr⟩

theorem composed_binary {operand : Parse Cursor Expr} (h : Composed T operand (Expr.Within T))
    (levels : List Level) : Composed T (binary operand levels) (Expr.Within T) := by
  induction levels with
  | nil => exact h
  | cons level levels ih =>
    refine .bind ih fun first hfirst => .chain (fun left hleft => ?_) hfirst
    refine .option (.pure (by simp)) fun operator ho _ => .bind ih fun right hright => ?_
    refine .pure fun e he => ?_
    cases he
    exact within_join hleft ho hright

theorem composed_ternary (h : rules.Composed T) :
    Composed T (ternary rules) (Expr.Within T) := by
  refine .bind (composed_binary (composed_unary h) levels) fun c hc => ?_
  refine .option (.pure hc) fun question _ _ => .bind h.ternary fun yes hyes => ?_
  exact .bind (.expect _ _) fun _ _ => .bind h.ternary fun no hno => .pure ⟨hc, hyes, hno⟩

theorem composed_assignTo {target : Expr} (ht : target.Within T) {operator : Token}
    (ho : T operator) {value : Expr} (hv : value.Within T) :
    Composed T (assignTo target operator value) (Expr.Within T) := by
  unfold assignTo
  split
  · refine .bind .fresh fun id _ => .pure ?_
    split
    · exact ⟨ht, hv⟩
    · exact ⟨ht, ho, hv⟩
  · refine .pure ?_
    split
    · exact ⟨ht.1, ht.2, hv⟩
    · exact ⟨ht.1, ht.2, ho, hv⟩
  · exact .bind (.note _ ho) fun _ _ => .pure ht

theorem composed_assignment (h : rules.Composed T) :
    Composed T (assignment rules) (Expr.Within T) := by
  refine .bind (composed_ternary h) fun target ht => .option (.pure ht) fun operator ho _ => ?_
  exact .bind h.assignment fun value hv => composed_assignTo ht ho hv

theorem Rules.composed_upTo (T : Token → Prop) (depth : Nat) : (Rules.upTo depth).Composed T := by
  induction depth with
  | zero => exact ⟨.refuse _, .refuse _, .refuse _⟩
  | succ depth ih => exact ⟨composed_assignment ih, composed_ternary ih, composed_unary ih⟩

structure Blocks.Composed (T : Token → Prop) (blocks : Blocks Cursor) : Prop where
  declaration : Parse.Composed T blocks.declaration fun o => ∀ s ∈ o, s.Within T
  statement : Parse.Composed T blocks.statement (Stmt.Within T)

variable {blocks : Blocks Cursor}

theorem composed_declarations (hb : blocks.Composed T) {more : Parse Cursor Bool}
    (hm : Composed T more fun _ => True) :
    Composed T (declarations blocks more) (Stmt.WithinAll T) := by
  refine .weaken (F := fun ss => ∀ s ∈ ss, s.Within T) (.chain (fun read hread => ?_) (by simp))
    fun ss hss => Stmt.withinAll_iff.2 hss
  refine .bind hm fun b _ => ?_
  split
  · refine .bind hb.declaration fun o ho => .pure ?_
    simpa [or_imp, forall_and] using ⟨hread, ho⟩
  · exact .pure (by simp)

theorem composed_block (hb : blocks.Composed T) :
    Composed T (block blocks) (Stmt.WithinAll T) := by
  refine .bind (composed_declarations hb ?_) fun body hbody => ?_
  · exact .bind (.check _) fun _ _ => .bind .atEnd fun _ _ => .pure trivial
  · exact .bind (.expect _ _) fun _ _ => .pure hbody

theorem composed_param (h : rules.Composed T) : Composed T (param rules) (Param.Within T) := by
  refine .bind (.expect _ _) fun name hname => ?_
  refine .option (.pure ⟨⟨hname.1, hname.2⟩, by simp⟩) fun sign _ _ => ?_
  refine .bind h.assignment fun e he => .pure ⟨⟨hname.1, hname.2⟩, ?_⟩
  simpa using he

theorem composed_params (h : rules.Composed T) :
    Composed T (params rules) fun ps => ∀ p ∈ ps, p.Within T := by
  refine .bind (.check _) fun b _ => ?_
  split
  · exact .pure (by simp)
  · exact .items (composed_param h)

theorem composed_function (h : rules.Composed T) (hb : blocks.Composed T) (role : Role) :
    Composed T (function rules blocks role) (FunctionDecl.Within T) := by
  refine .bind (.expect _ _) fun name hname => .bind (.expect _ _) fun _ _ => ?_
  refine .bind (composed_params h) fun ps hps => .bind (.expect _ _) fun _ _ => ?_
  refine .bind (.expect _ _) fun _ _ => .bind (composed_block hb) fun body hbody => ?_
  exact .pure ⟨⟨hname.1, hname.2⟩, hps, hbody⟩

theorem composed_methods (h : rules.Composed T) (hb : blocks.Composed T) :
    Composed T (methods rules blocks) fun r =>
      FunctionDecl.WithinAll T r.1 ∧ FunctionDecl.WithinAll T r.2 := by
  refine .weaken (F := fun r => (∀ d ∈ r.1, d.Within T) ∧ ∀ d ∈ r.2, d.Within T)
    (.chain ?_ (by simp))
    fun r hr => ⟨FunctionDecl.withinAll_iff.2 hr.1, FunctionDecl.withinAll_iff.2 hr.2⟩
  rintro ⟨ms, ss⟩ hread
  refine .bind (.check _) fun b _ => .bind .atEnd fun b' _ => ?_
  split
  · exact .pure (by simp)
  · refine .option (.bind (composed_function h hb .method) fun d hd => .pure ?_) fun keyword _ _ =>
      .bind (composed_function h hb .static) fun d hd => .pure ?_
    · simpa [or_imp, forall_and] using ⟨⟨hread.1, hd⟩, hread.2⟩
    · simpa [or_imp, forall_and] using ⟨hread.1, hread.2, hd⟩

theorem composed_superclass : Composed T superclass fun o => ∀ s ∈ o, s.Within T := by
  refine .option (.pure (by simp)) fun sign _ _ => .bind (.expect _ _) fun name hname => ?_
  refine .bind .fresh fun id _ => .pure fun s hs => ?_
  cases hs
  exact ⟨hname.1, hname.2⟩

theorem composed_classDecl (h : rules.Composed T) (hb : blocks.Composed T) :
    Composed T (classDecl rules blocks) (Stmt.Within T) := by
  refine .bind (.expect _ _) fun name hname => .bind composed_superclass fun parent hparent => ?_
  refine .bind (.expect _ _) fun _ _ => .bind (composed_methods h hb) fun r hr => ?_
  exact .bind (.expect _ _) fun _ _ => .pure ⟨⟨hname.1, hname.2⟩, hparent, hr⟩

theorem composed_expression? (h : rules.Composed T) :
    Composed T (some <$> expression rules) fun o => ∀ e ∈ o, e.Within T :=
  .map (composed_expression h) (by simp)

theorem composed_varDecl (h : rules.Composed T) :
    Composed T (varDecl rules) (Stmt.Within T) := by
  refine .bind (.expect _ _) fun name hname => ?_
  have hend : ∀ initial : Option Expr, (∀ e ∈ initial, e.Within T) →
      Composed T (do terminator .variableEnd; pure (Stmt.var name initial)) (Stmt.Within T) :=
    fun initial hinitial =>
      .bind (.terminator _) fun _ _ => .pure ⟨⟨hname.1, hname.2⟩, hinitial⟩
  refine .option (.bind (F := fun o => ∀ e ∈ o, e.Within T) (.pure (by simp)) hend) ?_
  exact fun sign _ _ => .bind (composed_expression? h) hend

theorem composed_expressionStmt (h : rules.Composed T) :
    Composed T (expressionStmt rules) (Stmt.Within T) :=
  .bind (composed_expression h) fun _ he => .bind (.terminator _) fun _ _ => .pure he

theorem composed_forInitial (h : rules.Composed T) :
    Composed T (forInitial rules) fun o => ∀ s ∈ o, s.Within T := by
  refine .option (.map (composed_expressionStmt h) (by simp)) fun t _ _ => ?_
  dsimp only
  split
  · exact .pure (by simp)
  · exact .map (composed_varDecl h) (by simp)

/-- An expression that may be left out. -/
theorem composed_optional (h : rules.Composed T) (absent : Bool) {then' : Option Expr → Parse Cursor β}
    {G : β → Prop} (ht : ∀ o, (∀ e ∈ o, e.Within T) → Composed T (then' o) G) :
    Composed T (if absent then pure none >>= then' else some <$> expression rules >>= then') G := by
  split
  · exact .bind (F := fun o => ∀ e ∈ o, e.Within T) (.pure (by simp)) ht
  · exact .bind (composed_expression? h) ht

theorem composed_condition (h : rules.Composed T) (absent : Bool) {then' : Expr → Parse Cursor β}
    {G : β → Prop} (ht : ∀ c, c.Within T → Composed T (then' c) G) :
    Composed T
      (if absent then pure (.literal (.bool true)) >>= then' else expression rules >>= then') G := by
  split
  · exact .bind (F := Expr.Within T) (.pure trivial) ht
  · exact .bind (composed_expression h) ht

theorem composed_forStmt (h : rules.Composed T) (hb : blocks.Composed T) :
    Composed T (forStmt rules blocks) (Stmt.Within T) := by
  refine .bind (.expect _ _) fun _ _ => .bind (composed_forInitial h) fun initial hinitial => ?_
  refine .bind (.check _) fun absent _ => composed_condition h absent fun c hc => ?_
  refine .bind (.expect _ _) fun _ _ => .bind (.check _) fun absent' _ => ?_
  refine composed_optional h absent' fun increment hincrement => .bind (.expect _ _) fun _ _ => ?_
  refine .bind hb.statement fun body hbody => ?_
  split
  · exact .pure ⟨hc, hincrement, hbody⟩
  · exact .pure ⟨hinitial _ rfl, ⟨hc, hincrement, hbody⟩, trivial⟩

theorem composed_ifStmt (h : rules.Composed T) (hb : blocks.Composed T) :
    Composed T (ifStmt rules blocks) (Stmt.Within T) := by
  refine .bind (.expect _ _) fun _ _ => .bind (composed_expression h) fun c hc => ?_
  refine .bind (.expect _ _) fun _ _ => .bind hb.statement fun yes hyes => ?_
  refine .option (.pure ⟨hc, hyes⟩) fun otherwise _ _ => .bind hb.statement fun no hno => ?_
  exact .pure ⟨hc, hyes, hno⟩

theorem composed_whileStmt (h : rules.Composed T) (hb : blocks.Composed T) :
    Composed T (whileStmt rules blocks) (Stmt.Within T) := by
  refine .bind (.expect _ _) fun _ _ => .bind (composed_expression h) fun c hc => ?_
  exact .bind (.expect _ _) fun _ _ => .bind hb.statement fun body hbody => .pure ⟨hc, hbody⟩

theorem composed_returnStmt (h : rules.Composed T) {keyword : Token} (hk : T keyword) :
    Composed T (returnStmt rules keyword) (Stmt.Within T) := by
  refine .bind (.check _) fun b _ => .bind .atEnd fun b' _ => ?_
  refine composed_optional h (b || b') fun value hvalue => .bind (.terminator _) fun _ _ => ?_
  exact .pure ⟨hk, hvalue⟩

theorem composed_statement (h : rules.Composed T) (hb : blocks.Composed T) :
    Composed T (statement rules blocks) (Stmt.Within T) := by
  refine .option (composed_expressionStmt h) fun t ht _ => ?_
  dsimp only
  split
  · exact composed_forStmt h hb
  · exact composed_ifStmt h hb
  · exact composed_whileStmt h hb
  · exact composed_returnStmt h ht
  · exact .bind (.terminator _) fun _ _ => .pure ht
  · exact .bind (.terminator _) fun _ _ => .pure ht
  · exact .map (composed_block hb) fun _ hbody => hbody

theorem composed_declaration (h : rules.Composed T) (hb : blocks.Composed T) :
    Composed T (declaration rules blocks) (Stmt.Within T) := by
  refine .option (composed_statement h hb) fun t _ _ => ?_
  dsimp only
  split
  · exact composed_classDecl h hb
  · exact .map (composed_function h hb .function) fun _ hd => hd
  · exact composed_varDecl h

theorem Blocks.composed_upTo (h : rules.Composed T) (depth : Nat) :
    (Blocks.upTo rules depth).Composed T := by
  induction depth with
  | zero => exact ⟨.recovering (.refuse _), .refuse _⟩
  | succ depth ih => exact ⟨.recovering (composed_declaration h ih), composed_statement h ih⟩

theorem composed_program (T : Token → Prop) (depth : Nat) :
    Composed T (program depth) (Stmt.WithinAll T) := by
  refine composed_declarations (Blocks.composed_upTo (Rules.composed_upTo T depth) depth) ?_
  exact .bind .atEnd fun _ _ => .pure trivial

end Grammar

/-- The predicate holds of all tokens to come, and all faults are at such tokens. -/
structure Cursor.Within (T : Token → Prop) (c : Cursor) : Prop where
  rest : ∀ t ∈ c.rest, T t
  finish : T c.finish
  faults : ∀ e ∈ c.faults, e.place.Of T

namespace Parse

theorem skipFrom_subset (previous : Token) (ts : List Token) : skipFrom previous ts ⊆ ts := by
  induction ts generalizing previous with
  | nil => exact List.Subset.refl _
  | cons t ts ih =>
    rw [skipFrom]
    split
    · exact List.Subset.refl _
    · exact List.subset_cons_of_subset t (ih t)

theorem skipStatement_subset (ts : List Token) : skipStatement ts ⊆ ts := by
  cases ts with
  | nil => exact List.Subset.refl _
  | cons t ts => exact List.subset_cons_of_subset t (skipFrom_subset t ts)

/-- How a step ends: at a cursor of the same tokens, with a result or at the place of one of
them. -/
def Kept (T : Token → Prop) (F : α → Prop) : EStateM.Result (Located ParseFault) Cursor α → Prop
  | .ok a c => F a ∧ c.Within T
  | .error e c => e.place.Of T ∧ c.Within T

section Kept

variable {p : Parse Cursor α} {q : α → Parse Cursor β} {F : α → Prop} {G : β → Prop} {c c' : Cursor}

theorem Kept.bind (hp : Kept T F (p c))
    (hq : ∀ a c', F a → c'.Within T → Kept T G (q a c')) : Kept T G ((p >>= q) c) := by
  rw [bind_eq]
  cases hr : p c with
  | error e c₁ =>
    rw [hr] at hp
    exact hp
  | ok a c₁ =>
    rw [hr] at hp
    exact hq a c₁ hp.1 hp.2

theorem kept_refuse (what : Expected) (hc : c.Within T) :
    Kept T F ((refuse what : Parse Cursor α) c) := by
  refine ⟨⟨c.rest.headD c.finish, ?_, rfl⟩, hc⟩
  cases hr : c.rest with
  | nil => exact hc.finish
  | cons t ts => exact hc.rest t (by simp [hr])

/-- A loop keeps what its step keeps. -/
theorem kept_iterate {step : α → Parse Cursor (Option α)}
    (hstep : ∀ a c', F a → c'.Within T → Kept T (fun o => ∀ b ∈ o, F b) (step a c'))
    (bound : Nat) {a : α} (ha : F a) (hc : c.Within T) : Kept T F (iterate step bound a c) := by
  induction bound generalizing a c with
  | zero => exact ⟨ha, hc⟩
  | succ bound ih =>
    refine (hstep a c ha hc).bind fun o c₁ ho hc₁ => ?_
    cases o with
    | none => exact ⟨ha, hc₁⟩
    | some b => exact ih (ho b rfl) hc₁

theorem Composed.kept (h : Composed T p F) (hc : c.Within T) : Kept T F (p c) := by
  induction h generalizing c with
  | pure ha => exact ⟨ha, hc⟩
  | bind _ _ ihp ihq => exact (ihp hc).bind fun a c₁ ha hc₁ => ihq a ha hc₁
  | @weaken _ p _ _ _ hfg ih =>
    have h := ih hc
    cases hr : p c with
    | error e c₁ =>
      rw [hr] at h
      exact h
    | ok a c₁ =>
      rw [hr] at h
      exact ⟨hfg a h.1, h.2⟩
  | acceptAny kinds =>
    rw [acceptAny_eq]
    split
    · exact ⟨by simp, hc⟩
    · rename_i t ts hr
      have hrest := hc.rest
      rw [hr] at hrest
      split
      · refine ⟨?_, fun u hu => hrest u (.tail _ hu), hc.finish, hc.faults⟩
        simpa using ⟨hrest t (.head _), ‹t.kind ∈ kinds›⟩
      · exact ⟨by simp, hc⟩
  | check kind => exact ⟨trivial, hc⟩
  | atEnd => exact ⟨trivial, hc⟩
  | peek =>
    refine ⟨?_, hc⟩
    show T (c.rest.headD c.finish)
    cases hr : c.rest with
    | nil => exact hc.finish
    | cons t ts => exact hc.rest t (by simp [hr])
  | refuse what => exact kept_refuse what hc
  | @note fault t ht =>
    refine ⟨trivial, hc.rest, hc.finish, fun e he => ?_⟩
    rcases List.mem_append.1 he with he | he
    · exact hc.faults e he
    · cases List.mem_singleton.1 he
      exact ⟨t, ht, rfl⟩
  | fresh => exact ⟨trivial, hc.rest, hc.finish, hc.faults⟩
  | terminator what =>
    rw [terminator_eq]
    split
    · split
      · exact ⟨trivial, hc⟩
      · exact kept_refuse what hc
    · rename_i t ts hr
      have hrest := hc.rest
      rw [hr] at hrest
      split
      · exact ⟨trivial, fun u hu => hrest u (.tail _ hu), hc.finish, hc.faults⟩
      · exact kept_refuse what hc
  | chain _ ha ih => exact kept_iterate (fun a c' ha hc => ih a ha hc) _ ha hc
  | @recovering _ p _ _ ih =>
    have h := ih hc
    rw [recovering_eq]
    cases hr : p c with
    | ok a c₁ =>
      rw [hr] at h
      exact ⟨by simpa using h.1, h.2⟩
    | error e c₁ =>
      rw [hr] at h
      refine ⟨by simp, fun t ht => h.2.rest t (skipStatement_subset _ ht), h.2.finish,
        fun fault hfault => ?_⟩
      rcases List.mem_append.1 hfault with hfault | hfault
      · exact h.2.faults fault hfault
      · cases List.mem_singleton.1 hfault
        exact h.1

end Kept

end Parse

variable {tokens : List Token} {n : ExprId}

/-- At the start all is as the tokens are. -/
theorem Cursor.start_within (lenient : Bool) (n : ExprId) (hT : ∀ t ∈ tokens, T t)
    (heof : ∃ t ∈ tokens, t.kind = .eof) : (Cursor.start lenient n tokens).Within T := by
  refine ⟨fun t ht => hT t (List.takeWhile_sublist _ |>.subset ht), ?_, by simp [Cursor.start]⟩
  obtain ⟨t, ht, hk⟩ := heof
  cases hfind : tokens.find? (·.kind = .eof) with
  | none => exact absurd (by simpa using hk) (List.find?_eq_none.1 hfind t ht)
  | some u =>
    simp only [Cursor.start, hfind, Option.getD_some]
    exact hT u (List.mem_of_find?_eq_some hfind)

/-- What is read of a program has its tokens from the program, and so does what is noted. -/
theorem parse_within (lenient : Bool) (n : ExprId) (hT : ∀ t ∈ tokens, T t)
    (heof : ∃ t ∈ tokens, t.kind = .eof) :
    match (parse lenient n tokens).result with
    | .ok ss => Stmt.WithinAll T ss
    | .error faults => ∀ e ∈ faults, e.place.Of T := by
  have h := (Grammar.composed_program T ((Cursor.start lenient n tokens).rest.length + 1)).kept
    (Cursor.start_within lenient n hT heof)
  simp only [parse_eq, Cursor.parse]
  cases hp : Grammar.program ((Cursor.start lenient n tokens).rest.length + 1)
      (Cursor.start lenient n tokens) with
  | ok ss c =>
    rw [hp] at h
    dsimp only
    cases c.faults.isEmpty with
    | true => exact h.1
    | false => exact h.2.faults
  | error e c =>
    rw [hp] at h
    intro e he
    rcases List.mem_append.1 he with he | he
    · exact h.2.faults e he
    · cases List.mem_singleton.1 he
      exact h.1

def Cursor.loosen (c : Cursor) : Cursor := { c with lenient := true }

namespace Parse

variable {p : Parse Cursor α} {q : α → Parse Cursor β} {F : α → Prop} {c c' : Cursor}

theorem recovering_ok {a : α} (h : p c = .ok a c') :
    recovering p c = .ok (some a) c' := by
  simp only [recovering_eq, h]

/-- After a failure reading goes on at the next statement, with the fault noted. -/
theorem recovering_error {e : Located ParseFault} (h : p c = .error e c') : recovering p c =
    .ok none { c' with faults := c'.faults ++ [e], rest := skipStatement c'.rest } := by
  simp only [recovering_eq, h]

/-- A step takes no fault back. If it notes none, a lenient cursor goes the same way. -/
structure Loosens (p : Parse Cursor α) (c : Cursor) : Prop where
  grows : c.faults <+: (left (p c)).faults
  same : ∀ a c', p c = .ok a c' → c'.faults = c.faults → p c.loosen = .ok a c'.loosen

theorem Loosens.refuse (what : Expected) : Loosens (refuse what : Parse Cursor α) c :=
  ⟨List.prefix_refl _, fun _ _ h => by cases h⟩

theorem Loosens.bind (hp : Loosens p c) (hq : ∀ a c', p c = .ok a c' → Loosens (q a) c') :
    Loosens (p >>= q) c := by
  have hgrows := hp.grows
  constructor
  · rw [bind_eq]
    cases hr : p c with
    | error e c₁ => rwa [hr] at hgrows
    | ok a c₁ =>
      rw [hr] at hgrows
      exact hgrows.trans (hq a c₁ hr).grows
  · intro b c' h hf
    obtain ⟨a, c₁, hr, h⟩ := bind_ok.1 h
    have hgrows' := (hq a c₁ hr).grows
    rw [hr] at hgrows
    rw [h] at hgrows'
    -- nothing is noted in between, since it would still be there
    have hfaults : c₁.faults = c.faults :=
      (hgrows.eq_of_length_le (hf ▸ hgrows'.length_le)).symm
    exact bind_ok.2 ⟨a, c₁.loosen, hp.same a c₁ hr hfaults,
      (hq a c₁ hr).same b c' h (hf.trans hfaults.symm)⟩

/-- A loop goes the same way leniently, if each of its steps does. -/
theorem Loosens.iterate {step : α → Parse Cursor (Option α)}
    (hstep : ∀ a c', F a → c'.Within T → Loosens (step a) c')
    (hkept : ∀ a c', F a → c'.Within T → Kept T (fun o => ∀ b ∈ o, F b) (step a c'))
    (bound : Nat) {a : α} (ha : F a) (hc : c.Within T) : Loosens (iterate step bound a) c := by
  induction bound generalizing a c with
  | zero => exact ⟨List.prefix_refl _, fun _ _ h _ => by cases h; rfl⟩
  | succ bound ih =>
    refine (hstep a c ha hc).bind fun o c₁ hr => ?_
    have h := hkept a c ha hc
    rw [hr] at h
    cases o with
    | none => exact ⟨List.prefix_refl _, fun _ _ h _ => by cases h; rfl⟩
    | some b => exact ih (h.1 b rfl) h.2

theorem Composed.loosens (h : Composed T p F) (hc : c.Within T) : Loosens p c := by
  induction h generalizing c with
  | pure _ => exact ⟨List.prefix_refl _, fun _ _ h _ => by cases h; rfl⟩
  | bind hp _ ihp ihq =>
    refine (ihp hc).bind fun a c₁ hr => ?_
    have h := hp.kept hc
    rw [hr] at h
    exact ihq a h.1 h.2
  | weaken _ _ ih => exact ih hc
  | acceptAny kinds =>
    constructor
    · rw [acceptAny_eq]
      split
      · exact List.prefix_refl _
      · split <;> exact List.prefix_refl _
    · intro o c' h _
      rw [acceptAny_eq] at h ⊢
      cases hr : c.rest with
      | nil =>
        rw [hr] at h
        cases h
        simp only [Cursor.loosen, hr]
      | cons t ts =>
        rw [hr] at h
        dsimp only at h
        split at h <;> rename_i hk <;> cases h <;> simp only [Cursor.loosen, hr, hk, if_true, if_false]
  | check kind => exact ⟨List.prefix_refl _, fun _ _ h _ => by cases h; rfl⟩
  | atEnd => exact ⟨List.prefix_refl _, fun _ _ h _ => by cases h; rfl⟩
  | peek => exact ⟨List.prefix_refl _, fun _ _ h _ => by cases h; rfl⟩
  | refuse what => exact .refuse what
  | @note fault t ht =>
    refine ⟨List.prefix_append _ _, fun _ _ h hf => ?_⟩
    cases h
    have hsame : c.faults ++ [⟨fault, t.place⟩] = c.faults := hf
    simp at hsame
  | fresh => exact ⟨List.prefix_refl _, fun _ _ h _ => by cases h; rfl⟩
  | terminator what =>
    constructor
    · rw [terminator_eq]
      split <;> split <;> exact List.prefix_refl _
    · intro u c' h _
      rw [terminator_eq] at h ⊢
      cases hr : c.rest with
      | nil =>
        rw [hr] at h
        dsimp only at h
        split at h <;> cases h
        simp only [Cursor.loosen, hr, if_true]
      | cons t ts =>
        rw [hr] at h
        dsimp only at h
        split at h <;> rename_i hk <;> cases h
        simp only [Cursor.loosen, hr, hk, if_true]
  | chain hstep ha ih =>
    have h := fun bound => Loosens.iterate (fun a c' ha hc => ih a ha hc)
      (fun a c' ha hc => (hstep a ha).kept hc) bound ha hc
    exact ⟨(h _).grows, (h _).same⟩
  | @recovering _ p _ _ ih =>
    have h := ih hc
    have hgrows := h.grows
    cases hr : p c with
    | ok a c₁ =>
      rw [hr] at hgrows
      refine ⟨recovering_ok hr ▸ hgrows, fun o c' h' hf => ?_⟩
      rw [recovering_ok hr] at h'
      cases h'
      exact recovering_ok (h.same a c₁ hr hf)
    | error e c₁ =>
      rw [hr] at hgrows
      refine ⟨recovering_error hr ▸ hgrows.trans (List.prefix_append _ _), fun o c' h' hf => ?_⟩
      rw [recovering_error hr] at h'
      cases h'
      -- the fault that was passed over is there
      have hle := hgrows.length_le
      have hlength := congrArg List.length hf
      simp only [left, List.length_append, List.length_singleton] at hle hlength
      omega

end Parse

/-- What strict reading accepts, lenient reading accepts with the same tree and the same numbers. -/
theorem parse_loosen {ss : List Stmt} (h : (parse false n tokens).result = .ok ss) :
    parse true n tokens = parse false n tokens := by
  have hloosen : ∀ bound, (Grammar.program bound).Loosens (Cursor.start false n tokens) := by
    refine fun bound => (Grammar.composed_program (fun _ => True) bound).loosens ⟨?_, trivial, ?_⟩
    · exact fun _ _ => trivial
    · exact fun _ he => by cases he
  have hsame := (hloosen ((Cursor.start false n tokens).rest.length + 1)).same
  simp only [parse_eq, Cursor.parse] at h ⊢
  cases hr : Grammar.program ((Cursor.start false n tokens).rest.length + 1)
      (Cursor.start false n tokens) with
  | error e c =>
    rw [hr] at h
    cases h
  | ok ss' c =>
    rw [hr] at h
    dsimp only at h
    split at h
    · rename_i hclean
      have hrun : Grammar.program ((Cursor.start true n tokens).rest.length + 1)
          (Cursor.start true n tokens) = .ok ss' c.loosen :=
        hsame ss' c hr (List.isEmpty_iff.1 hclean)
      rw [hrun]
      rfl
    · cases h

end Scriptling
