import Mathlib.Data.List.Chain
import Scriptling.Proofs.Endings

namespace Scriptling

open Parse

def firstEnd (all : List Token) : Nat := all.findIdx (·.kind = .eof)

namespace Parser

/-- From one parser to the next: at most one token is passed, which is no end marker, and noted
faults stay noted. -/
structure Moves (p q : Parser) : Prop where
  tokens : q.tokens = p.tokens
  current : q.current = p.current ∨ q.current = p.current + 1 ∧ p.atEnd = false
  lenient : q.lenient = p.lenient
  faults : p.faults <+: q.faults

structure Way (p : Parser) (ps : List Parser) (q : Parser) : Prop where
  first : ps.head? = some p
  last : ps.getLast? = some q
  chain : ps.IsChain Moves

def skipping : Nat → Parser → List Parser
  | 0, p => [p]
  | bound + 1, p =>
    if p.atEnd ∨ p.previous.kind = .semicolon ∨ startsStatement p.peek.kind then [p]
    else p :: skipping bound p.advance

theorem Moves.refl (p : Parser) : p.Moves p := ⟨rfl, .inl rfl, rfl, List.prefix_refl _⟩

variable {p q r : Parser} {ps qs : List Parser}

theorem moves_advance (p : Parser) : p.Moves p.advance := by
  unfold advance
  split
  · exact ⟨rfl, .inr ⟨rfl, ‹_›⟩, rfl, List.prefix_refl _⟩
  · exact .refl p

theorem Way.refl (p : Parser) : p.Way [p] p := ⟨rfl, rfl, List.isChain_singleton p⟩

theorem Way.single (h : p.Moves q) : p.Way [p, q] q := by
  refine ⟨rfl, rfl, ?_⟩
  simpa using h

theorem Way.append {q' : Parser} (h : p.Way ps q) (hq : q.Moves q') (h' : q'.Way qs r) :
    p.Way (ps ++ qs) r := by
  refine ⟨?_, ?_, ?_⟩
  · rw [List.head?_append, h.first]
    rfl
  · rw [List.getLast?_append, h'.last]
    rfl
  · rw [List.isChain_append]
    refine ⟨h.chain, h'.chain, ?_⟩
    intro x hx y hy
    rw [h.last] at hx
    rw [h'.first] at hy
    cases hx
    cases hy
    exact hq

theorem way_skipping (bound : Nat) (p : Parser) : p.Way (skipping bound p) (skip bound p) := by
  induction bound generalizing p with
  | zero => exact .refl p
  | succ bound ih =>
    unfold skipping skip
    split
    · exact .refl p
    · exact (Way.refl p).append (moves_advance p) (ih p.advance)

end Parser

namespace Parse

/-- The parsers that a reading comes by, in order, with the parser before and after each of its own
steps. A loop is left by its last step only. Where a rule fails that is recovered from, the tokens up
to the next statement are passed one by one. -/
inductive Trail : {α : Type} → Parse Parser α → Parser → List Parser → Prop
  | pure {α : Type} (x : α) (p : Parser) : Trail (pure x) p [p]
  | bind {α β : Type} {a : Parse Parser α} {k : α → Parse Parser β} {x : α} {p q : Parser}
      {ps qs : List Parser} :
      Trail a p ps → a p = .ok x q → Trail (k x) q qs → Trail (a >>= k) p (ps ++ qs)
  | fail {α β : Type} {a : Parse Parser α} {k : α → Parse Parser β} {e : Located ParseFault}
      {p q : Parser} {ps : List Parser} : Trail a p ps → a p = .error e q → Trail (a >>= k) p ps
  | acceptAny (kinds : List Kind) (p : Parser) :
      Trail (acceptAny kinds) p [p, left (acceptAny kinds p)]
  | check (kind : Kind) (p : Parser) : Trail (check kind) p [p]
  | atEnd (p : Parser) : Trail atEnd p [p]
  | peek (p : Parser) : Trail peek p [p]
  | refuse {α : Type} (what : Expected) (p : Parser) : Trail (refuse what : Parse Parser α) p [p]
  | note (fault : ParseFault) (place : Place) (p : Parser) :
      Trail (note fault place) p [p, left (note fault place p)]
  | fresh (p : Parser) : Trail fresh p [p, left (fresh p)]
  | terminator (what : Expected) (p : Parser) :
      Trail (terminator what) p [p, left (terminator what p)]
  | next {α : Type} {step : α → Parse Parser (Option α)} {x y : α} {p q : Parser}
      {ps qs : List Parser} :
      Trail (step x) p ps → step x p = .ok (some y) q → chain step x p = chain step y q →
      Trail (chain step y) q qs → Trail (chain step x) p (ps ++ qs)
  | done {α : Type} {step : α → Parse Parser (Option α)} {x : α} {p q : Parser} {ps : List Parser} :
      Trail (step x) p ps → step x p = .ok none q → Trail (chain step x) p ps
  | broken {α : Type} {step : α → Parse Parser (Option α)} {x : α} {e : Located ParseFault}
      {p q : Parser} {ps : List Parser} :
      Trail (step x) p ps → step x p = .error e q → Trail (chain step x) p ps
  | recovered {α : Type} {a : Parse Parser α} {x : α} {p q : Parser} {ps : List Parser} :
      Trail a p ps → a p = .ok x q → Trail (recovering a) p ps
  | resumed {α : Type} {a : Parse Parser α} {e : Located ParseFault} {p q noted : Parser}
      {ps : List Parser} :
      Trail a p ps → a p = .error e q → noted = Reader.note e q →
      Trail (recovering a) p
        (ps ++ noted :: Parser.skipping noted.tokens.size noted.advance)

variable {α β : Type} {a : Parse Parser α} {p q : Parser} {ps : List Parser} {n : Nat}

theorem moves_acceptAny (kinds : List Kind) (p : Parser) : p.Moves (left (acceptAny kinds p)) := by
  unfold acceptAny
  split
  · exact p.moves_advance
  · exact .refl p

theorem moves_terminator (what : Expected) (p : Parser) : p.Moves (left (terminator what p)) := by
  have haccept := moves_acceptAny [.semicolon] p
  rw [terminator, bind_eq, accept]
  cases hr : acceptAny [.semicolon] p with
  | error e q =>
    rw [hr] at haccept
    exact haccept
  | ok o q =>
    rw [hr] at haccept
    cases o with
    | some t => exact haccept
    | none =>
      dsimp only
      rw [terminator_bare]
      split <;> exact haccept

/-- The parsers a reading comes by are its way to the parser it leaves. -/
theorem Trail.way (h : Trail a p ps) : p.Way ps (left (a p)) := by
  induction h with
  | pure x p => exact .refl p
  | bind _ hp _ ih ihk =>
    rw [bind_eq, hp]
    rw [hp] at ih
    exact ih.append (.refl _) ihk
  | fail _ hp ih =>
    rw [bind_eq, hp]
    rwa [hp] at ih
  | acceptAny kinds p => exact .single (moves_acceptAny kinds p)
  | check kind p => exact .refl p
  | atEnd p => exact .refl p
  | peek p => exact .refl p
  | refuse what p => exact .refl p
  | note fault place p => exact .single ⟨rfl, .inl rfl, rfl, List.prefix_append _ _⟩
  | fresh p => exact .single ⟨rfl, .inl rfl, rfl, List.prefix_refl _⟩
  | terminator what p => exact .single (moves_terminator what p)
  | next _ hp hnext _ ih ihk =>
    rw [hnext]
    rw [hp] at ih
    exact ih.append (.refl _) ihk
  | done _ hp ih =>
    rw [chain_done hp]
    rwa [hp] at ih
  | broken _ hp ih =>
    rw [chain_error hp]
    rwa [hp] at ih
  | recovered _ hp ih =>
    simp only [recovering, hp]
    rwa [hp] at ih
  | @resumed _ a e p q noted ps _ hp hnoted ih =>
    simp only [recovering, hp, ← hnoted]
    rw [hp] at ih
    have hnote : q.Moves noted := by
      rw [hnoted]
      exact ⟨rfl, .inl rfl, rfl, List.prefix_append _ _⟩
    exact ih.append hnote
      ((Parser.Way.refl noted).append noted.moves_advance (Parser.way_skipping _ noted.advance))

/-- What is left after a result is no more than was left before. -/
theorem Alike.passed {a' : Parse Cursor β} {R : Nat → α → β → Prop} {x : α}
    (h : Alike id true n a a' R) (hn : p.cursor.rest.length = n) (hp : a p = .ok x q) :
    q.cursor.rest.length ≤ n ∧ ∃ y, R q.cursor.rest.length x y := by
  have hends := Parser.ends_of_alike h hn
  cases hp' : a' p.cursor with
  | error e c =>
    rw [hp, hp'] at hends
    exact hends.elim
  | ok y c =>
    rw [hp, hp'] at hends
    obtain ⟨rfl, hle, hxy⟩ := hends
    exact ⟨hle, y, hxy⟩

/-- What a step of a chain goes on with passes a token. -/
theorem Goes.some {I : Nat → α → β → Prop} {m : Nat} {x : α} {o : Option β}
    (h : Goes I n m (some x) o) : m < n ∧ ∃ y, I m x y := by
  cases o with
  | none => exact h.elim
  | some y => exact ⟨h.1, y, h.2⟩

/-- The parsers that a loop comes by, if each of its steps has a trail. -/
theorem exists_trail_chain {I : Nat → α → β → Prop} {step : α → Parse Parser (Option α)}
    {step' : β → Parse Cursor (Option β)}
    (hstep : ∀ k x y, k ≤ n → I k x y → Alike id true k (step x) (step' y) (Goes I k))
    (htrail : ∀ k x y, k ≤ n → I k x y → ∀ p : Parser, p.cursor.rest.length = k →
      ∃ ps, Trail (step x) p ps)
    {x : α} {y : β} (hn : p.cursor.rest.length ≤ n) (hxy : I p.cursor.rest.length x y) :
    ∃ ps, Trail (chain step x) p ps := by
  have hpast : ∀ (x x' : α) (p q : Parser),
      (p.cursor.rest.length ≤ n ∧ ∃ y, I p.cursor.rest.length x y) → step x p = .ok (some x') q →
      q.cursor.rest.length < p.cursor.rest.length ∧
        q.cursor.rest.length ≤ n ∧ ∃ y, I q.cursor.rest.length x' y := by
    rintro x x' p q ⟨hp, y, hxy⟩ hs
    obtain ⟨-, o, ho⟩ := (hstep _ x y hp hxy).passed rfl hs
    obtain ⟨hlt, hy⟩ := ho.some
    exact ⟨hlt, by omega, hy⟩
  have hbound : ∀ p : Parser, p.cursor.rest.length ≤ Reader.left p :=
    fun p => Nat.le_of_lt p.length_rest_lt
  generalize hk : p.cursor.rest.length = k
  induction k using Nat.strongRecOn generalizing x y p with
  | ind k ih =>
    obtain ⟨ps, hps⟩ := htrail _ x y hn hxy p rfl
    cases hs : step x p with
    | error e q => exact ⟨ps, .broken hps hs⟩
    | ok o q =>
      cases o with
      | none => exact ⟨ps, .done hps hs⟩
      | some x' =>
        obtain ⟨hlt, hq, y', hxy'⟩ := hpast x x' p q ⟨hn, y, hxy⟩ hs
        obtain ⟨qs, hqs⟩ := ih _ (hk ▸ hlt) hq hxy' rfl
        exact ⟨ps ++ qs, .next hps hs (chain_next hbound hpast ⟨hn, y, hxy⟩ hs) hqs⟩

/-- Every reading that is put together of the parser's own steps has a trail. -/
theorem Alike.exists_trail {a' : Parse Cursor β} {R : Nat → α → β → Prop}
    (h : Alike id true n a a' R) (hn : p.cursor.rest.length = n) : ∃ ps, Trail a p ps := by
  generalize hg : (id : ExprId → ExprId) = g at h
  generalize hw : true = whole at h
  induction h generalizing p with
  | pure _ => exact ⟨_, .pure _ _⟩
  | @bind _ _ _ _ _ a a' k k' R S ha hk iha ihk =>
    subst hg hw hn
    obtain ⟨ps, hps⟩ := iha rfl
    cases hr : a p with
    | error e q => exact ⟨ps, .fail hps hr⟩
    | ok x q =>
      obtain ⟨-, y, hxy⟩ := ha.passed rfl hr
      obtain ⟨qs, hqs⟩ := ihk _ x y hxy rfl
      exact ⟨ps ++ qs, .bind hps hr hqs⟩
  | weaken _ _ ih => exact ih hn
  | acceptAny _ => exact ⟨_, .acceptAny _ _⟩
  | check kind => exact ⟨_, .check _ _⟩
  | atEnd => exact ⟨_, .atEnd _⟩
  | peek => exact ⟨_, .peek _⟩
  | refuse what => exact ⟨_, .refuse _ _⟩
  | note place _ => exact ⟨_, .note _ _ _⟩
  | fresh => exact ⟨_, .fresh _⟩
  | terminator what _ => exact ⟨_, .terminator _ _⟩
  | @chain _ _ n I step step' x y hstep hxy ih =>
    subst hg hw hn
    exact exists_trail_chain hstep (fun k x y hk hxy p hp => ih k x y hk hxy hp)
      (Nat.le_refl _) hxy
  | @recovering _ _ _ a _ _ _ _ ih =>
    obtain ⟨ps, hps⟩ := ih hn
    cases hr : a p with
    | ok x q => exact ⟨ps, .recovered hps hr⟩
    | error e q => exact ⟨_, .resumed hps hr rfl⟩

end Parse

namespace Parser

variable {all : List Token} {p q : Parser} {ps : List Parser}

/-- The parser stands in a list of tokens, not behind their first end marker. The token that it looks
at is there, and so is the one before it, or the first one where there is none before. -/
structure Stands (all : List Token) (p : Parser) : Prop where
  tokens : p.tokens.toList = all
  le : p.current ≤ firstEnd all

theorem Stands.peek (h : p.Stands all) : all[p.current]? = some p.peek := by
  rw [← h.tokens]
  exact List.getElem?_eq_getElem p.inRange

theorem Stands.previous (h : p.Stands all) : all[p.current - 1]? = some p.previous := by
  rw [← h.tokens]
  exact List.getElem?_eq_getElem (Nat.lt_of_le_of_lt (Nat.sub_le _ _) p.inRange)

/-- A parser looks at an end marker at the first one only. -/
theorem Stands.atEnd_iff (h : p.Stands all) : p.atEnd = true ↔ p.current = firstEnd all := by
  have hpeek := h.peek
  constructor
  · intro hend
    apply Nat.le_antisymm h.le
    apply Nat.le_of_not_lt
    intro hbefore
    obtain ⟨hlt, hpeek⟩ := List.getElem?_eq_some_iff.1 hpeek
    have hnot := List.not_of_lt_findIdx hbefore
    rw [hpeek] at hnot
    exact Bool.false_ne_true (hnot.symm.trans hend)
  · intro hlast
    have hfound : all.find? (·.kind = .eof) = some p.peek := by
      rw [List.find?_eq_getElem?_findIdx, ← hpeek, hlast, firstEnd]
    simpa only [atEnd] using List.find?_some hfound

theorem Stands.moves (h : p.Stands all) (hm : p.Moves q) : q.Stands all := by
  refine ⟨by rw [hm.tokens, h.tokens], ?_⟩
  rcases hm.current with heq | ⟨heq, hend⟩
  · exact heq ▸ h.le
  · rw [heq]
    apply Nat.lt_of_le_of_ne h.le
    intro hlast
    rw [h.atEnd_iff.2 hlast] at hend
    cases hend

/-- What the moves on a way keep is kept all along it. -/
theorem Way.kept {P : Parser → Prop} (h : p.Way ps q) (hP : ∀ p q, P p → p.Moves q → P q)
    (hp : P p) : (∀ r ∈ ps, P r) ∧ P q := by
  obtain ⟨hfirst, hlast, hchain⟩ := h
  have hall : ∀ r ∈ ps, P r := by
    induction ps generalizing p with
    | nil => simp
    | cons x ps ih =>
      cases hfirst
      refine List.forall_mem_cons.2 ⟨hp, ?_⟩
      cases ps with
      | nil => simp
      | cons y ps =>
        obtain ⟨hmove, hrest⟩ := List.isChain_cons_cons.1 hchain
        exact ih (hP _ _ hp hmove) rfl (List.getLast?_cons_cons ▸ hlast) hrest
  exact ⟨hall, hall q (List.mem_of_getLast? hlast)⟩

/-- On its way a parser does not go back. -/
theorem Way.forward (h : p.Way ps q) : q.tokens = p.tokens ∧ p.current ≤ q.current := by
  refine (h.kept (P := fun r => r.tokens = p.tokens ∧ p.current ≤ r.current) ?_
    ⟨rfl, Nat.le_refl _⟩).2
  rintro r s ⟨htokens, hle⟩ hm
  refine ⟨hm.tokens.trans htokens, ?_⟩
  rcases hm.current with heq | ⟨heq, -⟩ <;> omega

/-- Where less is left of the same tokens, the parser stands further on. -/
theorem current_lt (htokens : q.tokens = p.tokens) (hle : p.current ≤ q.current)
    (hlt : q.cursor.rest.length < p.cursor.rest.length) : p.current < q.current := by
  apply Nat.lt_of_le_of_ne hle
  intro heq
  have hsame : q.cursor.rest = p.cursor.rest := by
    simp only [cursor, Cursor.start, htokens, heq]
  rw [hsame] at hlt
  exact Nat.lt_irrefl _ hlt

/-- At the start the parser stands at the first token. -/
theorem stands_start (lenient : Bool) (nextId : ExprId) (tokens : List Token) :
    (start lenient nextId tokens).Stands (padded tokens) := ⟨rfl, Nat.zero_le _⟩

/-- The tokens before the first end marker are left at the start. -/
theorem length_rest_start (lenient : Bool) (nextId : ExprId) (tokens : List Token) :
    (start lenient nextId tokens).cursor.rest.length = firstEnd (padded tokens) := by
  have hrest : (start lenient nextId tokens).cursor.rest =
      (padded tokens).takeWhile (·.kind ≠ .eof) := rfl
  rw [hrest, firstEnd, List.takeWhile_eq_take_findIdx_not]
  simp [List.findIdx_le_length]

end Parser

namespace Grammar

/-- A declaration that is read where there is a token passes one. -/
theorem declaration_advances (depth depth' : Nat) {p : Parser} (h : p.atEnd = false) :
    ∃ o q, (Blocks.upTo (Rules.upTo depth) depth').declaration p = .ok o q ∧
      q.tokens = p.tokens ∧ p.current < q.current := by
  have hblocks : (Blocks.upTo (Rules.upTo depth) depth' : Blocks Parser).Alike id
      (p.cursor.rest.length + 1) (Blocks.upTo (Rules.upTo depth) depth' : Blocks Cursor) :=
    Blocks.alike_upTo id (.inl rfl) (.inl rfl)
  have hread := hblocks.declaration _ (Nat.lt_succ_self p.cursor.rest.length)
  obtain ⟨o, q, hq⟩ := declaration_ok (Rules.upTo depth) depth' p
  obtain ⟨ps, htrail⟩ := hread.exists_trail rfl
  have hway := htrail.way
  rw [hq] at hway
  obtain ⟨htokens, hle⟩ := hway.forward
  obtain ⟨-, -, -, hpast, -⟩ := hread.passed rfl hq
  have hleft : 0 < p.cursor.rest.length := by
    rw [(Parser.rest_of_not_atEnd h).2.1]
    exact Nat.succ_pos _
  exact ⟨o, q, hq, htokens, Parser.current_lt htokens hle (hpast hleft)⟩

end Grammar

theorem Parser.eq_of_cursor {p q : Parser} (htokens : p.tokens = q.tokens)
    (hcurrent : p.current = q.current) (h : p.cursor = q.cursor) : p = q := by
  have hnextId : p.nextId = q.nextId := congrArg Cursor.nextId h
  have hfaults : p.faults = q.faults := congrArg Cursor.faults h
  have hlenient : p.lenient = q.lenient := congrArg Cursor.lenient h
  cases p
  cases q
  simp only [Parser.mk.injEq]
  exact ⟨htokens, hcurrent, hnextId, hfaults, hlenient⟩

/-- A program is read up to the first end marker. -/
theorem Parser.program_ends (lenient : Bool) (nextId : ExprId) (tokens : List Token)
    (rules : Grammar.Rules Parser) (blocks : Grammar.Blocks Parser) {depth : Nat}
    (hd : firstEnd (padded tokens) < depth) :
    let start := Parser.start lenient nextId tokens
    ∃ ss last trail, Grammar.programOver rules blocks depth start = .ok ss last ∧
      Parse.Trail (Grammar.programOver rules blocks depth) start trail ∧ start.Way trail last ∧
      last.current = firstEnd (padded tokens) ∧
      Grammar.program (start.cursor.rest.length + 1) start.cursor = .ok ss last.cursor := by
  intro start
  have hlt : start.cursor.rest.length < depth :=
    (length_rest_start lenient nextId tokens).trans_lt hd
  obtain ⟨ss, d, hrun, hend⟩ := Grammar.program_ends (start.cursor.rest.length + 1) start.cursor
  obtain ⟨trail, htrail⟩ := (Grammar.alike_programOver id rules (.refusing : Grammar.Rules Cursor)
    blocks .refusing hlt hlt).exists_trail rfl
  have hway := htrail.way
  have hends := ends_program rules blocks hlt
  rw [hrun] at hends
  cases hr : Grammar.programOver rules blocks depth start with
  | error e q =>
    rw [hr] at hends
    exact hends.elim
  | ok ss' last =>
    rw [hr] at hends hway
    obtain ⟨rfl, -, rfl⟩ := hends
    have hstands := (hway.kept (fun _ _ h hm => h.moves hm) (stands_start lenient nextId tokens)).2
    have hatEnd : last.atEnd = true := by rw [last.atEnd_eq, hend]; rfl
    exact ⟨ss', last, trail, rfl, htrail, hway, hstands.atEnd_iff.1 hatEnd, hrun⟩

/-- Reading any list of tokens whatever comes to an end of its own: as long as the rules are closed
deeper than there are tokens before the first end marker, reading is the same whatever they are
closed over. The parser stands before the first token at first and at the first end marker at last.
On its way it never goes back and moves by one token at a time, no fault that is noted is lost, and
each parser stands at a token that is there, none behind the first end marker. A declaration that is
read where there is a token passes one, whether it is read to its end or recovered from. The answer
is the statements if no fault is noted at the end, or else these faults. -/
theorem reading_total (lenient : Bool) (nextId : ExprId) (tokens : List Token) :
    let start := Parser.start lenient nextId tokens
    let all := padded tokens
    ∃ ss last trail,
      (∀ rules blocks, ∀ depth > firstEnd all,
        Grammar.programOver rules blocks depth start = .ok ss last) ∧
      Parse.Trail (Grammar.program start.tokens.size) start trail ∧ start.Way trail last ∧
      (∀ p ∈ trail, p.tokens.toList = all ∧ p.current ≤ firstEnd all ∧
        all[p.current]? = some p.peek ∧ all[p.current - 1]? = some p.previous) ∧
      start.current = 0 ∧ last.current = firstEnd all ∧
      (∀ depth depth' (p : Parser), p.atEnd = false → ∃ o q,
        (Grammar.Blocks.upTo (Grammar.Rules.upTo depth) depth').declaration p = .ok o q ∧
          q.tokens = p.tokens ∧ p.current < q.current) ∧
      (parse lenient nextId tokens).result =
        if last.faults = [] then .ok ss else .error last.faults := by
  intro start all
  have hsize : firstEnd all < start.tokens.size := by
    rw [← Parser.length_rest_start lenient nextId tokens]
    exact start.length_rest_lt
  obtain ⟨ss, last, trail, hrun, htrail, hway, hlast, hcursor⟩ :=
    Parser.program_ends lenient nextId tokens .refusing .refusing hsize
  have hstands := hway.kept (fun _ _ h hm => h.moves hm) (Parser.stands_start lenient nextId tokens)
  refine ⟨ss, last, trail, ?_, htrail, hway, ?_, rfl, hlast, ?_, ?_⟩
  · intro rules blocks depth hdepth
    obtain ⟨ss', last', trail', hrun', -, hway', hlast', hcursor'⟩ :=
      Parser.program_ends lenient nextId tokens rules blocks hdepth
    rw [hcursor] at hcursor'
    obtain ⟨rfl, hsame⟩ := EStateM.Result.ok.inj hcursor'
    rw [hrun', Parser.eq_of_cursor (hway'.forward.1.trans hway.forward.1.symm)
      (hlast'.trans hlast.symm) hsame.symm]
  · intro p hp
    have h := hstands.1 p hp
    exact ⟨h.tokens, h.le, h.peek, h.previous⟩
  · exact fun depth depth' p hp => Grammar.declaration_advances depth depth' hp
  · rw [Parser.cursor_start] at hcursor
    exact result_parse hcursor

end Scriptling
