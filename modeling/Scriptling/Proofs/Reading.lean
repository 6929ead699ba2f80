import Scriptling.Proofs.ReadingSteps
import Scriptling.Proofs.Parser

namespace Scriptling

theorem Phrase.Assignments.nonempty {ts : List Token} {es : List Expr} (h : Assignments ts es) :
    es ≠ [] := by
  cases h <;> simp

theorem Phrase.Assignments.single {ts : List Token} {es : List Expr} {e : Expr}
    (h : Assignments ts es) (he : es = [e]) : Assignment ts e := by
  cases h with
  | one h => exact (List.cons.inj he).1 ▸ h
  | more h =>
    have hn := (List.append_eq_cons_iff.1 he).resolve_right (by simp)
    exact absurd hn.1 h.nonempty

def Expr.isTarget : Expr → Bool
  | .var _ _ | .get _ _ => true
  | _ => false

namespace Phrase

/-- Only names and properties are read as such, so the tree tells what the tokens are. -/
theorem Call.target {ts : List Token} {e : Expr} (h : Call ts e) (he : e.isTarget) :
    Target ts e := by
  cases h with
  | primary h =>
    cases h with
    | name hk => exact .name hk
    | _ => cases he
  | call => cases he
  | get h hd hn => exact .property h hd hn

theorem Unary.target {ts : List Token} {e : Expr} (h : Unary ts e) (he : e.isTarget) :
    Target ts e := by
  cases h with
  | sign => cases he
  | update => cases he
  | postfixed h =>
    cases h with
    | plain h => exact h.target he
    | update => cases he

theorem joined_not_target {left right : Expr} {operator : Token}
    (h : (joined left operator right).isTarget) : False := by
  unfold joined at h
  split at h <;> cases h

theorem Binary.target {rows : List (List Kind)} {ts : List Token} {e : Expr}
    (h : Binary rows ts e) (he : e.isTarget) : Target ts e := by
  induction rows with
  | nil =>
    cases h with
    | unary h => exact h.target he
  | cons row rows ih =>
    cases h with
    | tighter h => exact ih h
    | join => exact (joined_not_target he).elim

theorem Ternary.target {ts : List Token} {e : Expr} (h : Ternary ts e) (he : e.isTarget) :
    Target ts e := by
  cases h with
  | plain h => exact h.target he
  | choice => cases he

theorem Unary.ne_nil {ts : List Token} {e : Expr} (h : Unary ts e) : ts ≠ [] := by
  cases h with
  | sign => simp
  | update => simp
  | postfixed h =>
    cases h with
    | update => simp
    | plain h =>
      cases h with
      | call => simp
      | get => simp
      | primary h => cases h <;> simp

theorem Binary.ne_nil {rows : List (List Kind)} {ts : List Token} {e : Expr}
    (h : Binary rows ts e) : ts ≠ [] := by
  induction rows with
  | nil =>
    cases h with
    | unary h => exact h.ne_nil
  | cons row rows ih =>
    cases h with
    | tighter h => exact ih h
    | join => simp

theorem Assignment.ne_nil {ts : List Token} {e : Expr} (h : Assignment ts e) : ts ≠ [] := by
  cases h with
  | ternary h =>
    cases h with
    | plain h => exact h.ne_nil
    | choice => simp
  | _ => simp

theorem Expression.ne_nil {ts : List Token} {e : Expr} (h : Expression ts e) : ts ≠ [] := by
  cases h with
  | single h => exact h.ne_nil
  | comma h =>
    cases h with
    | one h => exact h.ne_nil
    | more => simp

theorem Declaration.ne_nil {manner : Manner} {ts : List Token} {s : Stmt}
    (h : Declaration manner ts s) : ts ≠ [] := by
  cases h with
  | var h => cases h <;> simp
  | statement h =>
    cases h with
    | expr h => simp [h.ne_nil]
    | block h => cases h; simp
    | _ => simp
  | _ => simp

end Phrase

namespace Grammar
open Parse

structure Rules.Sound (lenient : Bool) (rules : Rules Cursor) : Prop where
  assignment : Reads lenient rules.assignment fun ts _ => Phrase.Assignment ts
  ternary : Reads lenient rules.ternary fun ts _ => Phrase.Ternary ts
  unary : Reads lenient rules.unary fun ts _ => Phrase.Unary ts

variable {lenient : Bool} {rules : Rules Cursor}

theorem reads_expression (h : rules.Sound lenient) :
    Reads lenient (expression rules) fun ts _ => Phrase.Expression ts := by
  refine .bind h.assignment fun first => ?_
  refine .bind (Reads.chain (I := Phrase.Assignments) (fun read => ?_) [first]) fun all => ?_
  · refine .accept (.pure fun _ _ us _ => rfl) fun comma hc => ?_
    refine .bind h.assignment fun e => .pure fun _ ts he us hu => ?_
    rw [List.append_nil]
    exact .more hu hc he
  · have hall : ∀ ts, (∀ us, Phrase.Assignments us [first] → Phrase.Assignments (us ++ ts) all) →
        ∀ us, Phrase.Assignment us first → Phrase.Assignments (us ++ (ts ++ [])) all := by
      intro ts hts us hu
      rw [List.append_nil]
      exact hts us (.one hu)
    split
    · rename_i e
      exact .pure fun _ ts hts us hu => .single ((hall ts hts us hu).single rfl)
    · rename_i hne
      refine .pure fun _ ts hts us hu => ?_
      have hr := hall ts hts us hu
      refine .comma hr ?_
      match all, hne, hr.nonempty with
      | _ :: _ :: _, _, _ => simp
      | [e], hne, _ => exact absurd rfl (hne e)

theorem reads_primary (h : rules.Sound lenient) :
    Reads lenient (primary rules) fun ts _ => Phrase.Primary ts := by
  refine .acceptAny .refuse fun t ht => ?_
  dsimp only
  split <;> rename_i hk
  · exact .pure fun _ => (.false hk)
  · exact .pure fun _ => (.true hk)
  · exact .pure fun _ => (.nil hk)
  · exact .pure fun _ => (.constant (.inl hk))
  · exact .pure fun _ => (.constant (.inr hk))
  · exact .fresh fun i => .pure fun _ => (.name hk)
  · exact .fresh fun i => .pure fun _ => (.this hk)
  · exact .expect fun dot hd => .expect fun method hm => .fresh fun i => .pure fun _ =>
      (.super hk hd hm)
  · have hl : t.kind = .leftParen := by
      simp only [List.mem_cons, List.not_mem_nil, or_false] at ht
      grind
    refine .bind (reads_expression h) fun e => .expect fun right hr => .pure fun _ ts he => ?_
    exact .group hl he hr

theorem reads_arguments (h : rules.Sound lenient) :
    Reads lenient (arguments rules) fun ts _ => Phrase.Arguments ts := by
  refine .check fun b => ?_
  split
  · exact .pure fun _ => .none
  · refine (Reads.items h.assignment (L := Phrase.Assignments) (fun _ _ => .one)
      fun _ _ _ _ _ hs hc he => .more hs hc he).mono ?_
    exact fun ts _ es hs => .some hs.1 hs.2

theorem reads_call (h : rules.Sound lenient) :
    Reads lenient (call rules) fun ts _ => Phrase.Call ts := by
  refine .bind (reads_primary h) fun e => ?_
  refine (Reads.chain (I := Phrase.Call) (fun read => ?_) e).mono
    fun ts _ e' hs us hu => hs us (.primary hu)
  refine .acceptAny (.pure fun _ _ us _ => rfl) fun t ht => ?_
  dsimp only
  split
  · rename_i hk
    refine .bind (reads_arguments h) fun args => .expect fun paren hp => .pure fun _ ts ha us hu => ?_
    exact .call hu hk ha hp
  · rename_i hk
    have hd : t.kind = .dot := by simpa [hk] using ht
    exact .expect fun name hn => .pure fun _ us hu => .get hu hd hn

theorem reads_update {operator : Token} {target : Expr} {before : Bool}
    {E : Claim Expr} (h : target.isTarget → ∀ rest, E [] rest (.update operator target before)) :
    Reads lenient (update operator target before) E := by
  unfold update
  split
  · exact .pure (h rfl)
  · exact .pure (h rfl)
  · exact .note (F := fun _ _ _ => True) (.pure fun _ => trivial)

theorem reads_postfixed (h : rules.Sound lenient) :
    Reads lenient (postfixed rules) fun ts _ => Phrase.Postfixed ts := by
  refine .bind (reads_call h) fun e => .acceptAny ?_ fun t ht => ?_
  · exact .pure fun _ _ us hu => by rw [List.append_nil]; exact .plain hu
  · exact reads_update fun he _ us hu => .update (hu.target he) (by simpa using ht)

theorem reads_unary (h : rules.Sound lenient) :
    Reads lenient (unary rules) fun ts _ => Phrase.Unary ts := by
  refine .acceptAny ((reads_postfixed h).mono fun _ _ _ he _ => .postfixed he) fun t ht => ?_
  refine .bind h.unary fun e => ?_
  split
  · rename_i hk
    exact .pure fun _ us hu => by rw [List.append_nil]; exact .sign hk hu
  · rename_i hk
    have hu : t.kind = .plusPlus ∨ t.kind = .minusMinus := by
      simp only [List.mem_cons, List.not_mem_nil, or_false] at ht
      grind
    refine reads_update fun he _ us hus => ?_
    rw [List.append_nil]
    exact .update hu (hus.target he)

def Level.Faithful (level : Level) : Prop :=
  ∀ left operator right, operator.kind ∈ level.operators →
    level.join left operator right = Phrase.joined left operator right

theorem levels_faithful : ∀ level ∈ levels, level.Faithful := by
  intro level hl left operator right ho
  simp only [levels, List.mem_cons, List.not_mem_nil, or_false] at hl
  rcases hl with rfl | rfl | rfl | rfl | rfl | rfl <;>
    simp only [List.mem_cons, List.not_mem_nil, or_false] at ho <;>
    simp only [Level.join, Phrase.joined] <;> grind

theorem reads_binary {operand : Parse Cursor Expr}
    (h : Reads lenient operand fun ts _ => Phrase.Unary ts) (ls : List Level) (hl : ∀ level ∈ ls, level.Faithful) :
    Reads lenient (binary operand ls) fun ts _ => Phrase.Binary (ls.map Level.operators) ts := by
  induction ls with
  | nil => exact h.mono fun _ _ _ => .unary
  | cons level ls ih =>
    have hls := ih fun l hm => hl l (List.mem_cons_of_mem _ hm)
    refine .bind hls fun first => ?_
    refine (Reads.chain (I := Phrase.Binary ((level :: ls).map Level.operators)) (fun e => ?_)
      first).mono fun ts _ e' hs us hu => hs us (.tighter hu)
    refine .acceptAny (.pure fun _ _ us _ => rfl) fun t ht => ?_
    refine .bind hls fun right => .pure fun _ us hr vs hv => ?_
    rw [List.append_nil, hl level (by simp) _ _ _ ht]
    exact .join hv ht hr

theorem reads_ternary (h : rules.Sound lenient) :
    Reads lenient (ternary rules) fun ts _ => Phrase.Ternary ts := by
  refine .bind (reads_binary (reads_unary h) levels levels_faithful) fun c => .accept ?_ ?_
  · exact .pure fun _ _ us hu => by rw [List.append_nil]; exact .plain hu
  · intro question hq
    refine .bind h.ternary fun yes => .expect fun colon hc => ?_
    refine .bind h.ternary fun no => .pure fun _ vs hv us hu ts ht => ?_
    rw [List.append_nil]
    exact .choice ht hq hu hc hv

theorem reads_assignment (h : rules.Sound lenient) :
    Reads lenient (assignment rules) fun ts _ => Phrase.Assignment ts := by
  refine .bind (reads_ternary h) fun target => .acceptAny ?_ fun sign hs => ?_
  · exact .pure fun _ _ us hu => by rw [List.append_nil]; exact .ternary hu
  refine .bind h.assignment fun value => ?_
  have hsign : sign.kind ≠ .equal → sign.kind ∈ Phrase.compoundSigns := by
    intro hne
    simpa [Phrase.compoundSigns, hne] using hs
  unfold assignTo
  split
  · refine .fresh fun i => .pure fun _ us hu ts ht => ?_
    rw [List.append_nil]
    cases ht.target rfl with
    | name hn =>
      split
      · exact .name hn ‹_› hu
      · exact .compoundName hn (hsign ‹_›) hu
  · refine .pure fun _ us hu ts ht => ?_
    rw [List.append_nil]
    cases ht.target rfl with
    | property ho hd hn =>
      rw [List.append_assoc]
      split
      · exact .property ho hd hn ‹_› hu
      · exact .compoundProperty ho hd hn (hsign ‹_›) hu
  · exact .note (F := fun _ _ _ => True) (.pure fun _ => trivial)

theorem Rules.upTo_sound (lenient : Bool) (depth : Nat) : (Rules.upTo depth).Sound lenient := by
  induction depth with
  | zero => exact ⟨.refuse, .refuse, .refuse⟩
  | succ depth ih => exact ⟨reads_assignment ih, reads_ternary ih, reads_unary ih⟩

/-- A statement as the grammar has it, and no `else` after an open `if`. -/
def Settled (lenient : Bool) : Claim Stmt := fun ts rest s =>
  ∃ opened, Phrase.Statement ⟨true, lenient⟩ ts s opened ∧ (opened = true → Clear [.else] rest)

structure Blocks.Sound (lenient : Bool) (blocks : Blocks Cursor) : Prop where
  declaration : Reads lenient blocks.declaration fun ts _ o =>
    ∃ s, o = some s ∧ Phrase.Declaration ⟨true, lenient⟩ ts s
  statement : Reads lenient blocks.statement (Settled lenient)

variable {blocks : Blocks Cursor}

theorem reads_declarations (h : blocks.Sound lenient) {more : Parse Cursor Bool}
    (hm : Reads lenient more fun ts _ _ => ts = []) :
    Reads lenient (declarations blocks more) fun ts _ =>
      Phrase.Declarations ⟨true, lenient⟩ ts := by
  refine (Reads.chain (I := Phrase.Declarations ⟨true, lenient⟩) (fun read => ?_) []).mono
    fun ts _ ss hs => hs [] .none
  refine .bind hm fun b => ?_
  split
  · refine .bind h.declaration fun o => .pure fun _ ts hd vs hv us hu => ?_
    obtain ⟨s, rfl, hs⟩ := hd
    subst hv
    rw [List.append_nil]
    exact .more hu hs
  · exact .pure fun _ vs hv us hu => by rw [hv]; rfl

def ReadsBlocks (lenient : Bool) (manner : Phrase.Manner) (blocks : Blocks Cursor) : Prop :=
  Reads lenient (block blocks) fun ts _ ss =>
    ∀ left, left.kind = .leftBrace → Phrase.Block manner (left :: ts) ss

theorem reads_block (h : blocks.Sound lenient) : ReadsBlocks lenient ⟨true, lenient⟩ blocks := by
  refine .bind (reads_declarations h ?_) fun body => .expect fun right hr =>
    .pure fun _ ts hd left hl => .block hl hd hr
  exact .check fun b => .atEnd fun b' => .pure fun _ => rfl

theorem reads_param (h : rules.Sound lenient) :
    Reads lenient (param rules) fun ts _ => Phrase.Parameter ts := by
  refine .expect fun name hn => .accept (.pure fun _ _ => .plain hn) fun sign hs => ?_
  refine .bind h.assignment fun e => .pure fun _ ts he => ?_
  rw [List.append_nil]
  exact .fallback hn hs he

theorem reads_params (h : rules.Sound lenient) :
    Reads lenient (params rules) fun ts _ => Phrase.ParameterList ts := by
  refine .check fun b => ?_
  split
  · exact .pure fun _ => .none
  · refine (Reads.items (reads_param h) (L := Phrase.Parameters) (fun _ _ => .one)
      fun _ _ _ _ _ hs hc he => .more hs hc he).mono ?_
    exact fun ts _ ps hs => .some hs.1 hs.2

theorem reads_function {manner : Phrase.Manner} (h : rules.Sound lenient)
    (hb : ReadsBlocks lenient manner blocks) (role : Role) :
    Reads lenient (function rules blocks role) fun ts _ => Phrase.Function manner ts := by
  refine .expect fun name hn => .expect fun left hl => .bind (reads_params h) fun ps => ?_
  refine .expect fun right hr => .expect fun brace hbrace => .bind hb fun body => ?_
  refine .pure fun _ ts hts us hus => ?_
  rw [List.append_nil]
  exact .function hn hl hus hr (hts brace hbrace)

theorem reads_methods {manner : Phrase.Manner} (h : rules.Sound lenient)
    (hb : ReadsBlocks lenient manner blocks) :
    Reads lenient (methods rules blocks) fun ts _ r => Phrase.Members manner ts r.1 r.2 := by
  refine (Reads.chain (α := List FunctionDecl × List FunctionDecl)
    (I := fun ts r => Phrase.Members manner ts r.1 r.2) ?_ ([], [])).mono
    fun ts _ r hs => hs [] .none
  rintro ⟨ms, ss⟩
  refine .check fun b => .atEnd fun b' => ?_
  split
  · exact .pure fun _ us hu => rfl
  refine .accept ?_ fun keyword hk => ?_
  · refine .bind (reads_function h hb .method) fun d => .pure fun _ ts hd _ us hu => ?_
    rw [List.append_nil]
    exact .method hu hd
  · refine .bind (reads_function h hb .static) fun d => .pure fun _ ts hd us hu => ?_
    rw [List.append_nil]
    exact .static hu hk hd

theorem reads_superclass :
    Reads lenient superclass fun ts _ => Phrase.Heritage ts := by
  refine .acceptAny (.pure fun _ _ => .none) fun sign hs => ?_
  exact .expect fun name hn => .fresh fun i => .pure fun _ => .some (by simpa using hs) hn

theorem reads_classDecl {manner : Phrase.Manner} (h : rules.Sound lenient)
    (hb : ReadsBlocks lenient manner blocks) :
    Reads lenient (classDecl rules blocks) fun ts _ s => ∀ keyword, keyword.kind = .classKeyword →
      Phrase.Declaration manner (keyword :: ts) s := by
  refine .expect fun name hn => .bind reads_superclass fun parent => .expect fun left hl => ?_
  refine .bind (reads_methods h hb) fun r => .expect fun right hr => ?_
  refine .pure fun _ ts hts us hus keyword hk => ?_
  exact .class hk hn hus hl hts hr

theorem reads_varDecl (h : rules.Sound lenient) : Reads lenient (varDecl rules) fun ts _ s =>
    ∀ keyword, keyword.kind = .var → Phrase.VarDecl ⟨true, lenient⟩ (keyword :: ts) s := by
  refine .expect fun name hn => ?_
  have hend : ∀ initial, Reads lenient (do terminator .variableEnd; pure (Stmt.var name initial))
      fun ts _ s => s = .var name initial ∧ Phrase.Ending ⟨true, lenient⟩ ts := by
    refine fun initial => .bind .terminator fun _ => .pure fun _ ts ht => ⟨rfl, ?_⟩
    rwa [List.append_nil]
  refine .accept ?_ fun sign hs => ?_
  · refine .bind (D := fun ts _ o => ts = [] ∧ o = none) (.pure fun _ => ⟨rfl, rfl⟩) fun o =>
      (hend o).mono ?_
    rintro vs _ s ⟨rfl, hv⟩ us ⟨rfl, rfl⟩ _ keyword hk
    exact .plain hk hn hv
  · refine .bind (.map (E := fun ts _ o => ∃ e, o = some e ∧ Phrase.Expression ts e)
      ((reads_expression h).mono fun ts _ e he => ⟨e, rfl, he⟩)) fun o => (hend o).mono ?_
    rintro vs _ s ⟨rfl, hv⟩ us ⟨e, rfl, he⟩ keyword hk
    exact .initial hk hn hs he hv

theorem reads_expressionStmt (h : rules.Sound lenient) : Reads lenient (expressionStmt rules)
    fun ts _ s => ∃ us vs e, ts = us ++ vs ∧ s = .expr e ∧ Phrase.Expression us e ∧
      Phrase.Ending ⟨true, lenient⟩ vs := by
  refine .bind (reads_expression h) fun e => .bind .terminator fun _ => ?_
  refine .pure fun _ vs hv us hu => ⟨us, vs, e, ?_, rfl, hu, hv⟩
  rw [List.append_nil]

theorem reads_forInitial (h : rules.Sound lenient) :
    Reads lenient (forInitial rules) fun ts _ => Phrase.ForInitial ⟨true, lenient⟩ ts := by
  refine .acceptAny ?_ fun t ht => ?_
  · refine .map ((reads_expressionStmt h).mono ?_)
    rintro ts rest s ⟨us, vs, e, rfl, rfl, he, hv⟩ _
    exact .expr he hv
  · dsimp only
    split
    · exact .pure fun _ => .none ‹_›
    · rename_i hne
      exact .map ((reads_varDecl h).mono fun ts _ s hs => .var (hs t (by simpa [hne] using ht)))

theorem reads_optional {β : Type} (h : rules.Sound lenient) (absent : Bool)
    {then' : Option Expr → Parse Cursor β} {E : Claim β}
    (ht : ∀ o, Reads lenient (then' o) fun vs rest b =>
      ∀ us, Phrase.Optional us o → E (us ++ vs) rest b) :
    Reads lenient (if absent then pure none >>= then' else some <$> expression rules >>= then')
      E := by
  let D : Claim (Option Expr) := fun ts _ => Phrase.Optional ts
  split
  · exact .bind (D := D) (.pure fun _ => .none) ht
  · exact .bind (D := D) (.map ((reads_expression h).mono fun _ _ _ he => .some he)) ht

/-- An expression that may be left out, or what stands for it. -/
def Given : Claim Expr := fun ts _ c =>
  ∃ o, Phrase.Optional ts o ∧ c = o.getD (.literal (.bool true))

theorem reads_condition {β : Type} (h : rules.Sound lenient) (absent : Bool)
    {then' : Expr → Parse Cursor β} {E : Claim β}
    (ht : ∀ c, Reads lenient (then' c) fun vs rest b =>
      ∀ us, Given us (vs ++ rest) c → E (us ++ vs) rest b) :
    Reads lenient
      (if absent then pure (.literal (.bool true)) >>= then' else expression rules >>= then') E := by
  split
  · exact .bind (.pure fun _ => ⟨none, .none, rfl⟩) ht
  · exact .bind ((reads_expression h).mono fun _ _ e he => ⟨some e, .some he, rfl⟩) ht

theorem reads_forStmt (h : rules.Sound lenient) (hb : blocks.Sound lenient) :
    Reads lenient (forStmt rules blocks) fun ts rest s => ∀ keyword, keyword.kind = .for →
      Settled lenient (keyword :: ts) rest s := by
  refine .expect fun left hl => .bind (reads_forInitial h) fun initial => .check fun absent => ?_
  refine reads_condition h absent fun c => .expect fun sign hs => .check fun absent' => ?_
  refine reads_optional h absent' fun increment => .expect fun right hr => ?_
  refine .bind hb.statement fun body => ?_
  have hloop : ∀ ts rest, Settled lenient ts rest body → ∀ ns, Phrase.Optional ns increment →
      ∀ cs rest', Given cs rest' c → ∀ is, Phrase.ForInitial ⟨true, lenient⟩ is initial →
      ∀ keyword, keyword.kind = .for →
        Settled lenient (keyword :: left :: (is ++ (cs ++ sign :: (ns ++ right :: (ts ++ [])))))
          rest (Phrase.forLoop initial (some c) increment body) := by
    rintro ts rest ⟨opened, hb, hb'⟩ ns hn cs rest' ⟨o, hc, rfl⟩ is hi keyword hk
    have hfor := Phrase.Statement.for hk hl hi hc hs hn hr hb
    rw [List.append_nil]
    exact ⟨opened, hfor, hb'⟩
  split
  · exact .pure fun rest ts ht ns hn cs hc is hi keyword hk =>
      hloop ts rest ht ns hn cs _ hc is hi keyword hk
  · exact .pure fun rest ts ht ns hn cs hc is hi keyword hk =>
      hloop ts rest ht ns hn cs _ hc is hi keyword hk

theorem reads_ifStmt (h : rules.Sound lenient) (hb : blocks.Sound lenient) :
    Reads lenient (ifStmt rules blocks) fun ts rest s => ∀ keyword, keyword.kind = .if →
      Settled lenient (keyword :: ts) rest s := by
  refine .expect fun left hl => .bind (reads_expression h) fun c => .expect fun right hr => ?_
  refine .bind hb.statement fun yes => .accept ?_ fun otherwise ho => ?_
  · refine .pure fun rest hclear us hu cs hc keyword hk => ?_
    obtain ⟨opened, hs, -⟩ := hu
    rw [List.append_nil]
    exact ⟨true, .ifThen hk hl hc hr hs, fun _ => hclear⟩
  · refine .bind hb.statement fun no => .pure fun rest us hu ts ht cs hc keyword hk => ?_
    obtain ⟨opened, hs, hs'⟩ := ht
    obtain ⟨opened', hn, hn'⟩ := hu
    rw [List.append_nil]
    refine ⟨opened', .ifElse hk hl hc hr hs (fun _ => ?_) ho hn, hn'⟩
    -- an open statement would have taken the `else` itself
    cases opened with
    | false => rfl
    | true => exact absurd (by simp [ho]) (hs' rfl otherwise rfl)

theorem reads_whileStmt (h : rules.Sound lenient) (hb : blocks.Sound lenient) :
    Reads lenient (whileStmt rules blocks) fun ts rest s => ∀ keyword, keyword.kind = .while →
      Settled lenient (keyword :: ts) rest s := by
  refine .expect fun left hl => .bind (reads_expression h) fun c => .expect fun right hr => ?_
  refine .bind hb.statement fun body => .pure fun rest us hu cs hc keyword hk => ?_
  obtain ⟨opened, hs, hs'⟩ := hu
  rw [List.append_nil]
  exact ⟨opened, .while hk hl hc hr hs, hs'⟩

theorem reads_returnStmt (h : rules.Sound lenient) {keyword : Token} (hk : keyword.kind = .return) :
    Reads lenient (returnStmt rules keyword) fun ts rest s =>
      Settled lenient (keyword :: ts) rest s := by
  refine .check fun b => .atEnd fun b' => reads_optional h (b || b') fun value => ?_
  refine .bind .terminator fun _ => .pure fun rest ts hts us hu => ⟨false, ?_, by simp⟩
  rw [List.append_nil]
  exact .return hk hu hts

theorem reads_statement (h : rules.Sound lenient) (hb : blocks.Sound lenient) :
    Reads lenient (statement rules blocks) (Settled lenient) := by
  refine .acceptAny ?_ fun t ht => ?_
  · refine (reads_expressionStmt h).mono ?_
    rintro ts rest s ⟨us, vs, e, rfl, rfl, he, hv⟩ _
    exact ⟨false, .expr he hv, by simp⟩
  dsimp only
  split <;> rename_i hk
  · exact (reads_forStmt h hb).mono fun ts rest s hs => hs t hk
  · exact (reads_ifStmt h hb).mono fun ts rest s hs => hs t hk
  · exact (reads_whileStmt h hb).mono fun ts rest s hs => hs t hk
  · exact reads_returnStmt h hk
  · refine .bind .terminator fun _ => .pure fun rest ts hts => ⟨false, ?_, by simp⟩
    rw [List.append_nil]
    exact .break hk hts
  · refine .bind .terminator fun _ => .pure fun rest ts hts => ⟨false, ?_, by simp⟩
    rw [List.append_nil]
    exact .next hk hts
  · have hl : t.kind = .leftBrace := by
      simp only [List.mem_cons, List.not_mem_nil, or_false] at ht
      grind
    exact .map ((reads_block hb).mono fun ts rest body hs => ⟨false, .block (hs t hl), by simp⟩)

theorem reads_declaration (h : rules.Sound lenient) (hb : blocks.Sound lenient) :
    Reads lenient (declaration rules blocks) fun ts _ =>
      Phrase.Declaration ⟨true, lenient⟩ ts := by
  refine .acceptAny ((reads_statement h hb).mono fun _ _ _ hs _ => ?_) fun t ht => ?_
  · obtain ⟨opened, hs, -⟩ := hs
    exact .statement hs
  dsimp only
  split <;> rename_i hk
  · exact (reads_classDecl h (reads_block hb)).mono fun ts _ s hs => hs t hk
  · exact .map ((reads_function h (reads_block hb) .function).mono fun ts _ d hd => .function hk hd)
  · have hv : t.kind = .var := by
      simp only [List.mem_cons, List.not_mem_nil, or_false] at ht
      grind
    exact (reads_varDecl h).mono fun ts _ s hs => .var (hs t hv)

theorem Blocks.upTo_sound (h : rules.Sound lenient) (depth : Nat) :
    (Blocks.upTo rules depth).Sound lenient := by
  induction depth with
  | zero => exact ⟨.recovering .refuse, .refuse⟩
  | succ depth ih => exact ⟨.recovering (reads_declaration h ih), reads_statement h ih⟩

theorem reads_more : Reads lenient (do return !(← atEnd)) fun ts rest b =>
    ts = [] ∧ (b = false → rest = []) := by
  refine ⟨fun c => rfl, ?_⟩
  intro c b c' _ hp hf
  cases hp
  refine ⟨hf, [], rfl, rfl, fun hmore => ?_⟩
  have hempty : (!c.rest.isEmpty) = false := hmore
  simpa using hempty

theorem reads_program (depth : Nat) : Reads lenient (program depth) fun ts rest ss =>
    Phrase.Program ⟨true, lenient⟩ ts ss ∧ rest = [] := by
  have hb := Blocks.upTo_sound (Rules.upTo_sound lenient depth) depth
  refine .and (reads_declarations hb (reads_more.mono fun _ _ _ hm => hm.1)) ?_
  unfold program programOver declarations
  refine Reads.chain_stops (S := (· = [])) (fun read => ?_) []
  refine .bind reads_more fun b => ?_
  cases b with
  | true =>
    refine .bind hb.declaration fun o => .pure fun _ ts ⟨s, _, hs⟩ us hu => ⟨by simp, fun _ => ?_⟩
    simp [hs.ne_nil]
  | false => exact .pure fun rest us hu => ⟨fun _ => hu.2 rfl, by simp⟩

end Grammar

/-- What is claimed of a program that is read up to the end is claimed of all tokens before the end
marker. -/
theorem parse_reads {lenient : Bool} {nextId : ExprId} {tokens : List Token} {ss : List Stmt}
    {D : List Token → List Stmt → Prop}
    (hreads : ∀ depth, Parse.Reads lenient (Grammar.program depth) fun ts rest ss =>
      D ts ss ∧ rest = [])
    (h : (parse lenient nextId tokens).result = .ok ss) :
    D (tokens.takeWhile (·.kind ≠ .eof)) ss := by
  simp only [parse_eq, Cursor.parse] at h
  split at h
  · rename_i statements c hp
    split at h
    · rename_i hf
      cases h
      obtain ⟨-, ts, ht, hs, hr⟩ := (hreads _).phrase
        (Cursor.start lenient nextId tokens) ss c rfl hp (List.isEmpty_iff.1 hf)
      have hrest : tokens.takeWhile (·.kind ≠ .eof) = ts := by
        rw [hr, List.append_nil] at ht
        exact ht
      rwa [hrest]
    · cases h
  · cases h

/-- What is read from tokens without a fault is a program of these tokens, every `else` belonging to
the nearest `if`. -/
theorem parse_program {lenient : Bool} {nextId : ExprId} {tokens : List Token} {ss : List Stmt}
    (h : (parse lenient nextId tokens).result = .ok ss) :
    Phrase.Program ⟨true, lenient⟩ (tokens.takeWhile (·.kind ≠ .eof)) ss :=
  parse_reads Grammar.reads_program h

end Scriptling
