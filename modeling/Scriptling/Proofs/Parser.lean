import Mathlib.Data.List.TakeWhile
import Scriptling.Proofs.AlikeStatements

namespace Scriptling

open Parse

namespace Parser

variable {p : Parser}

def cursor (p : Parser) : Cursor :=
  { Cursor.start p.lenient p.nextId (p.tokens.toList.drop p.current) with faults := p.faults }

theorem drop_eq (p : Parser) :
    p.tokens.toList.drop p.current = p.peek :: p.tokens.toList.drop (p.current + 1) :=
  List.drop_eq_getElem_cons p.inRange

/-- There is an end marker ahead of every parser. -/
theorem exists_eof (p : Parser) : ∃ t ∈ p.tokens.toList.drop p.current, t.kind = .eof := by
  have hrange : p.current ≤ p.tokens.size - 1 := Nat.le_sub_one_of_lt p.inRange
  obtain ⟨t, ht⟩ : ∃ t, p.tokens.back? = some t := by
    rw [Array.back?_eq_getElem?]
    exact ⟨_, Array.getElem?_eq_getElem (Nat.sub_one_lt_of_lt p.inRange)⟩
  refine ⟨t, ?_, p.closed t ht⟩
  apply List.mem_of_getElem? (i := p.tokens.size - 1 - p.current)
  rw [List.getElem?_drop, Nat.add_sub_cancel' hrange, Array.getElem?_toList,
    ← Array.back?_eq_getElem?, ht]

theorem length_rest_lt (p : Parser) : p.cursor.rest.length < Reader.left p := by
  obtain ⟨t, ht, hk⟩ := p.exists_eof
  have hlength : p.cursor.rest.length < (p.tokens.toList.drop p.current).length := by
    apply Nat.lt_of_le_of_ne (List.takeWhile_prefix _).length_le
    intro heq
    rw [← (List.takeWhile_prefix _).eq_of_length heq] at ht
    simpa [hk] using List.mem_takeWhile_imp ht
  rwa [List.length_drop] at hlength

theorem cursor_start (lenient : Bool) (nextId : ExprId) (tokens : List Token) :
    (start lenient nextId tokens).cursor = Cursor.start lenient nextId tokens := by
  have hstart : (start lenient nextId tokens).cursor = Cursor.start lenient nextId (padded tokens) :=
    rfl
  rw [hstart, padded]
  split
  · rfl
  · simp only [Cursor.start, Cursor.mk.injEq, and_true]
    constructor
    · rw [List.takeWhile_append]
      split
      · rename_i hlength
        rw [(List.takeWhile_prefix _).eq_of_length hlength]
        exact List.append_nil tokens
      · rfl
    · rw [List.find?_append]
      cases tokens.find? (·.kind = .eof) <;> rfl

/-- At the end nothing is left. -/
theorem rest_of_atEnd (h : p.atEnd = true) : p.cursor.rest = [] ∧ p.cursor.finish = p.peek := by
  have hk : p.peek.kind = .eof := by simpa [atEnd] using h
  simp [cursor, Cursor.start, p.drop_eq, hk]

/-- Elsewhere a token is left, and the next parser stands behind it. -/
theorem rest_of_not_atEnd (h : p.atEnd = false) : p.advance.previous = p.peek ∧
    p.cursor.rest = p.peek :: p.advance.cursor.rest ∧
      p.advance.cursor = { p.cursor with rest := p.advance.cursor.rest } := by
  have hk : p.peek.kind ≠ .eof := by simpa [atEnd] using h
  have hadvance : p.advance = { p with current := p.current + 1, inRange := p.succ_lt_size h } := by
    rw [advance, dif_pos h]
  rw [hadvance]
  refine ⟨rfl, ?_, ?_⟩ <;> simp [cursor, Cursor.start, p.drop_eq, hk]

theorem peek_eq (p : Parser) : p.peek = p.cursor.rest.headD p.cursor.finish := by
  cases h : p.atEnd with
  | true =>
    obtain ⟨hrest, hfinish⟩ := rest_of_atEnd h
    rw [hrest, hfinish]
    rfl
  | false =>
    rw [(rest_of_not_atEnd h).2.1]
    rfl

theorem atEnd_eq (p : Parser) : p.atEnd = p.cursor.rest.isEmpty := by
  cases h : p.atEnd with
  | true => rw [(rest_of_atEnd h).1]; rfl
  | false => rw [(rest_of_not_atEnd h).2.1]; rfl

theorem cursor_skip {bound : Nat} (hb : p.cursor.rest.length ≤ bound) :
    (skip bound p).cursor = { p.cursor with rest := skipFrom p.previous p.cursor.rest } := by
  induction bound generalizing p with
  | zero =>
    have hnil := List.length_eq_zero_iff.1 (Nat.le_zero.1 hb)
    rw [hnil, skip, skipFrom, ← hnil]
  | succ bound ih =>
    cases h : p.atEnd with
    | true =>
      have hnil := (rest_of_atEnd h).1
      rw [skip, if_pos (.inl h), hnil, skipFrom, ← hnil]
    | false =>
      obtain ⟨hprevious, hrest, hnext⟩ := rest_of_not_atEnd h
      rw [skip, hrest, skipFrom, h]
      simp only [Bool.false_eq_true, false_or]
      split
      · rw [← hrest]
      · rw [hrest, List.length_cons] at hb
        rw [ih (Nat.le_of_succ_le_succ hb), hprevious, hnext]

theorem cursor_synchronize (p : Parser) :
    p.synchronize.cursor = { p.cursor with rest := skipStatement p.cursor.rest } := by
  have hlength : ∀ q : Parser, q.tokens = p.tokens → q.cursor.rest.length ≤ p.tokens.size := by
    intro q hq
    have hlt : q.cursor.rest.length < q.tokens.size - q.current := q.length_rest_lt
    rw [hq] at hlt
    omega
  cases h : p.atEnd with
  | true =>
    have hstay : p.advance = p := by
      rw [advance, dif_neg (by simp [h])]
    have hnil := (rest_of_atEnd h).1
    rw [synchronize, hstay, cursor_skip (hlength p rfl), hnil, skipFrom, skipStatement]
  | false =>
    obtain ⟨hprevious, hrest, hnext⟩ := rest_of_not_atEnd h
    have hsame : p.advance.tokens = p.tokens := by
      rw [advance, dif_pos h]
    rw [synchronize, cursor_skip (hlength _ hsame), hprevious, hrest, skipStatement, hnext]

variable {α β γ δ : Type}

/-- Both readings have come to a result, or both to the same fault, and at most `n` tokens are
left. -/
def Ends (n : Nat) (R : Nat → α → β → Prop) : EStateM.Result (Located ParseFault) Parser α →
    EStateM.Result (Located ParseFault) Cursor β → Prop
  | .ok a p, .ok b c => p.cursor = c ∧ c.rest.length ≤ n ∧ R c.rest.length a b
  | .error e p, .error e' c => e = e' ∧ p.cursor = c ∧ c.rest.length ≤ n
  | _, _ => False

variable {R : Nat → α → β → Prop} {S : Nat → γ → δ → Prop} {n : Nat}

/-- Less may be claimed of the results, and with more tokens left. -/
theorem Ends.mono {m : Nat} {R' : Nat → α → β → Prop}
    {r : EStateM.Result (Located ParseFault) Parser α}
    {r' : EStateM.Result (Located ParseFault) Cursor β} (h : Ends m R r r') (hm : m ≤ n)
    (hr : ∀ m a b, R m a b → R' m a b) : Ends n R' r r' := by
  cases r <;> cases r' <;> simp only [Ends] at h ⊢
  · exact ⟨h.1, Nat.le_trans h.2.1 hm, hr _ _ _ h.2.2⟩
  · exact ⟨h.1, h.2.1, Nat.le_trans h.2.2 hm⟩

/-- Steps that both readings take, one after the other. -/
theorem Ends.bind {a : Parse Parser α} {a' : Parse Cursor β} {q : α → Parse Parser γ}
    {q' : β → Parse Cursor δ} {c : Cursor} (h : Ends n R (a p) (a' c))
    (hq : ∀ p x y, p.cursor.rest.length ≤ n → R p.cursor.rest.length x y →
      Ends p.cursor.rest.length S (q x p) (q' y p.cursor)) :
    Ends n S ((a >>= q) p) ((a' >>= q') c) := by
  rw [bind_eq, bind_eq]
  cases hr : a p with
  | ok x p' =>
    cases hr' : a' c with
    | ok y c' =>
      rw [hr, hr'] at h
      obtain ⟨rfl, hle, hxy⟩ := h
      exact (hq p' x y hle hxy).mono hle fun _ _ _ h => h
    | error e c' =>
      rw [hr, hr'] at h
      exact h.elim
  | error e p' =>
    cases hr' : a' c with
    | ok y c' =>
      rw [hr, hr'] at h
      exact h.elim
    | error e' c' =>
      rw [hr, hr'] at h
      exact h

theorem ends_acceptAny (kinds : List Kind) (p : Parser) :
    Ends p.cursor.rest.length (fun m o o' => o = o' ∧ Taken kinds p.cursor.rest.length m o)
      (acceptAny kinds p) (acceptAny kinds p.cursor) := by
  cases h : p.atEnd with
  | true =>
    have hnone : acceptAny kinds p = .ok none p :=
      if_neg fun hc => Bool.false_ne_true (hc.1.symm.trans h)
    have hnone' : acceptAny kinds p.cursor = .ok none p.cursor := by
      rw [acceptAny_eq, (rest_of_atEnd h).1]
    rw [hnone, hnone']
    exact ⟨rfl, Nat.le_refl _, rfl, rfl⟩
  | false =>
    obtain ⟨hprevious, hrest, hnext⟩ := rest_of_not_atEnd h
    have hstep : acceptAny kinds p =
        if p.peek.kind ∈ kinds then .ok (some p.advance.previous) p.advance else .ok none p :=
      ite_congr (propext (and_iff_right h)) (fun _ => rfl) fun _ => rfl
    have hlength : p.cursor.rest.length = p.advance.cursor.rest.length + 1 := by
      rw [hrest, List.length_cons]
    rw [hstep, hprevious, acceptAny_eq, hrest]
    dsimp only
    split
    · exact ⟨hnext, Nat.le_succ _, rfl, ‹_›, rfl⟩
    · exact ⟨rfl, Nat.le_of_eq hlength, rfl, hlength⟩

theorem ends_refuse (what : Expected) (p : Parser) :
    Ends p.cursor.rest.length R (refuse what p : EStateM.Result _ _ α) (refuse what p.cursor) := by
  rw [refuse_eq, ← p.peek_eq]
  exact ⟨rfl, rfl, Nat.le_refl _⟩

theorem ends_terminator (what : Expected) (p : Parser) :
    Ends p.cursor.rest.length (fun m _ _ => m ≤ p.cursor.rest.length) (terminator what p)
      (terminator what p.cursor) := by
  refine (ends_acceptAny [.semicolon] p).bind fun q o o' hle ho => ?_
  obtain ⟨rfl, ho⟩ := ho
  cases o with
  | some t => exact ⟨rfl, Nat.le_refl _, hle⟩
  | none =>
    dsimp only
    rw [terminator_bare, terminator_bare]
    have hlast : (Reader.lenient q && Reader.atEnd q) =
        (Reader.lenient q.cursor && Reader.atEnd q.cursor) :=
      congrArg (q.lenient && ·) q.atEnd_eq
    rw [hlast]
    split
    · exact ⟨rfl, Nat.le_refl _, hle⟩
    · exact ends_refuse what q

theorem ends_iterate {I : Nat → α → β → Prop} {step : α → Parse Parser (Option α)}
    {step' : β → Parse Cursor (Option β)}
    (hstep : ∀ p a b, p.cursor.rest.length ≤ n → I p.cursor.rest.length a b →
      Ends p.cursor.rest.length (Goes I p.cursor.rest.length) (step a p) (step' b p.cursor))
    {bound bound' : Nat} {a : α} {b : β} (hn : p.cursor.rest.length ≤ n)
    (hb : p.cursor.rest.length < bound) (hb' : p.cursor.rest.length < bound')
    (hab : I p.cursor.rest.length a b) :
    Ends p.cursor.rest.length (fun m a b => m ≤ p.cursor.rest.length ∧ I m a b)
      (iterate step bound a p) (iterate step' bound' b p.cursor) := by
  induction bound generalizing bound' p a b with
  | zero => exact absurd hb (Nat.not_lt_zero _)
  | succ bound ih =>
    obtain ⟨bound', rfl⟩ := Nat.exists_eq_add_one_of_ne_zero (Nat.ne_zero_of_lt hb')
    apply (hstep p a b hn hab).bind
    intro q x y hle hgoes
    match x, y, hgoes with
    | none, none, heq =>
      refine ⟨rfl, Nat.le_refl _, hle, ?_⟩
      rw [show q.cursor.rest.length = _ from heq]
      exact hab
    | some x, some y, ⟨hlt, hxy⟩ =>
      apply (ih (by omega) (by omega) (by omega) hxy).mono (Nat.le_refl _)
      rintro m x y ⟨hm, hxy⟩
      exact ⟨by omega, hxy⟩

theorem ends_recovering {a : Parse Parser α} {a' : Parse Cursor α} {key : α → γ}
    (h : Ends p.cursor.rest.length (Past p.cursor.rest.length key) (a p) (a' p.cursor)) :
    Ends p.cursor.rest.length (Recovered p.cursor.rest.length key) (recovering a p)
      (recovering a' p.cursor) := by
  simp only [recovering]
  cases hr : a p with
  | ok x q =>
    cases hr' : a' p.cursor with
    | error e c => rw [hr, hr'] at h; exact h.elim
    | ok y c =>
      rw [hr, hr'] at h
      obtain ⟨rfl, hle, hlt, hkey⟩ := h
      exact ⟨rfl, hle, hle, fun _ => hlt, congrArg some hkey⟩
  | error e q =>
    cases hr' : a' p.cursor with
    | ok y c => rw [hr, hr'] at h; exact h.elim
    | error e' c =>
      rw [hr, hr'] at h
      obtain ⟨rfl, rfl, hle⟩ := h
      have hskip := Nat.le_trans (skipStatement_suffix q.cursor.rest).length_le hle
      refine ⟨cursor_synchronize _, hskip, hskip, fun hpos => ?_, rfl⟩
      by_cases hrest : q.cursor.rest = []
      · show (skipStatement q.cursor.rest).length < _
        rw [hrest]
        exact hpos
      · exact Nat.lt_of_lt_of_le (length_skipStatement hrest) hle

/-- Readings that are put together alike, one from a parser, the other from what is left of its
tokens, end alike. -/
theorem ends_of_alike {a : Parse Parser α} {a' : Parse Cursor β}
    (h : Alike id true n a a' R) (hn : p.cursor.rest.length = n) :
    Ends n R (a p) (a' p.cursor) := by
  generalize hg : (id : ExprId → ExprId) = g at h
  generalize hw : true = whole at h
  induction h generalizing p with
  | pure hab => exact ⟨rfl, Nat.le_of_eq hn, hn ▸ hab⟩
  | bind _ _ iha ihq => exact (iha hn).bind fun q x y _ hxy => ihq _ x y hxy rfl
  | weaken _ hrs ih => exact (ih hn).mono (Nat.le_refl _) hrs
  | acceptAny _ =>
    subst hn
    exact ends_acceptAny _ p
  | check kind =>
    have hcheck : check kind p.cursor = .ok (!p.atEnd && p.peek.kind = kind) p.cursor := by
      rw [p.atEnd_eq, p.peek_eq]
      rfl
    rw [hcheck]
    exact ⟨rfl, Nat.le_of_eq hn, hn, rfl⟩
  | atEnd =>
    rw [Parse.atEnd_eq]
    refine ⟨rfl, Nat.le_of_eq hn, hn, p.atEnd_eq, fun _ => ?_⟩
    rw [show Reader.atEnd p = p.atEnd from rfl, p.atEnd_eq, List.isEmpty_iff, ← hn,
      List.length_eq_zero_iff]
  | peek => exact ⟨rfl, Nat.le_of_eq hn, hn, p.peek_eq⟩
  | refuse what =>
    subst hn
    exact ends_refuse what p
  | note place _ => exact ⟨rfl, Nat.le_of_eq hn, hn⟩
  | fresh =>
    subst hg
    exact ⟨rfl, Nat.le_of_eq hn, hn, rfl⟩
  | terminator what _ =>
    subst hn
    exact ends_terminator what p
  | chain _ hab ih =>
    subst hn
    have hlt := p.length_rest_lt
    exact ends_iterate (fun q x y hq hxy => ih _ x y hq hxy rfl) (Nat.le_refl _)
      (Nat.lt_succ_of_lt hlt) (Nat.lt_succ_self _) hab
  | recovering _ _ ih =>
    subst hn
    exact ends_recovering (ih rfl)

end Parser

theorem Stmt.under_id (s : Stmt) : s.under id = s := Stmt.turn_eq_self s fun _ _ => rfl

/-- A program is read as from what is left of its tokens. -/
theorem Parser.ends_program (base : Grammar.Rules Parser) (below : Grammar.Blocks Parser)
    {p : Parser} {depth : Nat} (hd : p.cursor.rest.length < depth) :
    Ends p.cursor.rest.length (fun _ ss ss' => ss = ss') (Grammar.programOver base below depth p)
      (Grammar.program (p.cursor.rest.length + 1) p.cursor) := by
  apply (ends_of_alike (Grammar.alike_programOver id base .refusing below .refusing hd
    (Nat.lt_succ_self _)) rfl).mono (Nat.le_refl _)
  rintro m ss ss' ⟨-, hss⟩
  simpa [funext Stmt.under_id] using hss

theorem parse_eq (lenient : Bool) (nextId : ExprId) (tokens : List Token) :
    parse lenient nextId tokens = Cursor.parse lenient nextId tokens := by
  have hends := Parser.ends_program .refusing .refusing
    (Parser.start lenient nextId tokens).length_rest_lt
  rw [Parser.cursor_start] at hends
  have hprogram : Grammar.program (Parser.start lenient nextId tokens).tokens.size
      (Parser.start lenient nextId tokens) =
    Grammar.programOver .refusing .refusing (Reader.left (Parser.start lenient nextId tokens))
      (Parser.start lenient nextId tokens) := rfl
  simp only [parse, Cursor.parse, hprogram]
  revert hends
  generalize Grammar.programOver .refusing .refusing _ (Parser.start lenient nextId tokens) = r
  generalize Grammar.program _ (Cursor.start lenient nextId tokens) = r'
  cases r <;> cases r' <;> intro hends
  · obtain ⟨rfl, -, rfl⟩ := hends
    rfl
  · exact hends.elim
  · exact hends.elim
  · obtain ⟨rfl, rfl, -⟩ := hends
    rfl

end Scriptling
