import Scriptling.Proofs.Parsing

namespace Scriptling

variable {α β : Type}

namespace Parse

/-- A phrase is there, or all of it but for the sign at its end, and nothing follows. -/
def Cut (D : List Token → α → Prop) : Claim α := fun ts rest a =>
  D ts a ∨ rest = [] ∧ ∀ t, t.kind = .semicolon → D (ts ++ [t]) a

namespace Cut

variable {D : List Token → α → Prop} {E : List Token → β → Prop} {us ts rest : List Token} {a : α}
  {b : β}

theorem whole (h : Cut D ts rest a) (hr : rest ≠ []) : D ts a :=
  h.resolve_right fun hcut => hr hcut.1

/-- What stands before the phrase. -/
theorem after (us : List Token) (h : Cut D ts rest a) (hd : ∀ vs, D vs a → E (us ++ vs) b) :
    Cut E (us ++ ts) rest b := by
  refine h.imp (hd ts) fun ⟨hr, hcut⟩ => ⟨hr, fun t ht => ?_⟩
  rw [List.append_assoc]
  exact hd _ (hcut t ht)

theorem mono (h : Cut D ts rest a) (hd : ∀ vs, D vs a → E vs b) : Cut E ts rest b :=
  h.after [] hd

end Cut

theorem Clear.of_append {kinds : List Kind} {ts us : List Token} (h : Clear kinds (ts ++ us)) :
    Clear kinds (ts ++ []) := by
  intro t ht
  refine h t ?_
  rw [List.append_nil] at ht
  rw [List.head?_append, ht]
  rfl

theorem Reads.terminator_cut {what : Expected} :
    Reads true (Parse.terminator what) (Cut fun ts _ => Phrase.Ending Phrase.nearest ts) := by
  have hsteady := (Reads.terminator : Reads true (Parse.terminator what) _).steady
  refine ⟨hsteady, fun c a c' hl hp hf => ?_⟩
  rw [terminator_eq] at hp
  split at hp
  · rename_i hr
    rw [if_pos hl] at hp
    cases hp
    exact ⟨hf, [], rfl, .inr ⟨hr, fun t ht => .sign ht⟩⟩
  · rename_i t ts hr
    split at hp
    · cases hp
      exact ⟨hf, [t], hr, .inl (.sign ‹_›)⟩
    · cases hp

variable {lenient : Bool} {step : α → Parse Cursor (Option α)} {I : List Token → α → Prop}

/-- A loop ends where its last step does, also when the last token is cut off. -/
theorem Reads.iterate_cut
    (h : ∀ a, Reads lenient (step a) fun ts rest o => (o = none → ts = []) ∧
      ∀ b, o = some b → ts ≠ [] ∧ ∀ us, I us a → Cut I (us ++ ts) rest b) (bound : Nat) (a : α) :
    Reads lenient (Parse.iterate step bound a) fun ts rest b =>
      ∀ us, Cut I us (ts ++ rest) a → Cut I (us ++ ts) rest b := by
  induction bound generalizing a with
  | zero => exact .pure fun _ us hu => by rwa [List.append_nil]
  | succ bound ih =>
    refine .bind (h a) fun o => ?_
    cases o with
    | none =>
      refine .pure fun _ ts ht us hu => ?_
      obtain rfl : ts = [] := ht.1 rfl
      rwa [List.append_nil, List.append_nil]
    | some b =>
      refine (ih b).mono fun vs rest d hd ts ht us hu => ?_
      obtain ⟨hne, hstep⟩ := ht.2 b rfl
      rw [← List.append_assoc]
      -- behind a phrase that is cut off there would be nothing to go on with
      exact hd (us ++ ts) (hstep us (hu.whole (by simp [hne])))

/-- Where every step that goes on passes a token, only the last one can be cut off. -/
theorem Reads.chain_cut
    (h : ∀ a, Reads lenient (step a) fun ts rest o => (o = none → ts = []) ∧
      ∀ b, o = some b → ts ≠ [] ∧ ∀ us, I us a → Cut I (us ++ ts) rest b) (a : α) :
    Reads lenient (Parse.chain step a) fun ts rest b => ∀ us, I us a → Cut I (us ++ ts) rest b := by
  have hiterate := fun c : Cursor =>
    (Reads.iterate_cut h (c.rest.length + 1) a).mono fun ts rest b hb us hu => hb us (.inl hu)
  exact ⟨fun c => (hiterate c).steady c, fun c b c' hl hp hf => (hiterate c).phrase c b c' hl hp hf⟩

/-- A chain that takes a row of links and then one more, behind which nothing follows. -/
theorem Takes.chain_last {J : α → List Token → α → Prop} {R : α → α → Prop}
    {F : List Token → Prop} {us vs : List Token} {a d e : α} (hrow : Row J a us d) (hvs : F vs)
    (hlink : ∀ a us b ws, J a us b → F (us ++ ws))
    (hstep : ∀ a us' b ws a', J a us' b → us'.length ≤ us.length → F ws → R a' a →
      Takes lenient (step a') us' ws fun o => ∃ b', o = some b' ∧ R b' b)
    (hlast : ∀ d', R d' d → Takes lenient (step d') vs [] fun o => ∃ e', o = some e' ∧ R e' e)
    (hv : vs ≠ []) (hend : ∀ a, Takes lenient (step a) [] [] (· = none)) {a' : α} (ha : R a' a) :
    Takes lenient (Parse.chain step a') (us ++ vs) [] fun e' => R e' e := by
  have hiterate : ∀ bound, us.length + 1 < bound →
      Takes lenient (Parse.iterate step bound a') (us ++ vs) [] fun e' => R e' e := by
    induction hrow generalizing a' with
    | done =>
      intro bound hb
      obtain ⟨n, rfl⟩ : ∃ n, bound = n + 1 + 1 := ⟨bound - 2, by omega⟩
      refine (hlast a' ha).finish ?_
      rintro _ ⟨e', rfl, he⟩
      refine (hend e').finish ?_
      rintro _ rfl
      exact .pure he
    | @link a us' b ws d hj hu hws ih =>
      intro bound hb
      have hpos := List.length_pos_iff.2 hu
      rw [List.length_append] at hb
      obtain ⟨n, rfl⟩ : ∃ n, bound = n + 1 := ⟨bound - 1, by omega⟩
      have hfollow : F (ws ++ vs) := hws.follows hvs hlink
      rw [List.append_assoc]
      refine Takes.bind (hstep a us' b _ a' hj (by simp) (by simpa using hfollow) ha) ?_
      rintro _ ⟨b', rfl, hb'⟩
      refine ih (fun a us'' b ws a' hj hl => hstep a us'' b ws a' hj ?_) hlast hb' n (by omega)
      rw [List.length_append]
      omega
  intro c hl hc
  have hpos := List.length_pos_iff.2 hv
  refine hiterate (c.rest.length + 1) ?_ c hl hc
  rw [hc, List.append_nil, List.length_append]
  omega

end Parse

namespace Grammar

open Parse Cursor Phrase

variable {rules : Rules Cursor} {blocks : Blocks Cursor}

/-- A statement that may be cut off, and no `else` after an open `if`. -/
def SettledCut : Claim Stmt := fun ts rest s =>
  ∃ opened, Cut (fun ts s => Statement nearest ts s opened) ts rest s ∧
    (opened = true → Clear [.else] rest)

/-- The rules for statements read statements, of which the last may be cut off. -/
structure Blocks.Loose (blocks : Blocks Cursor) : Prop where
  declaration : Reads true blocks.declaration fun ts rest o =>
    ∃ s, o = some s ∧ Cut (Declaration nearest) ts rest s
  statement : Reads true blocks.statement SettledCut

/-- No declaration is a sign alone. -/
theorem declaration_ne_sign {ts : List Token} {t : Token} {s : Stmt} (ht : t.kind = .semicolon)
    (h : Declaration nearest (ts ++ [t]) s) : ts ≠ [] := by
  rintro rfl
  obtain ⟨u, us, heq, hk⟩ := h.starts
  cases heq
  rw [ht] at hk
  exact absurd hk (by decide)

theorem declaration_cut_ne_nil {ts rest : List Token} {s : Stmt}
    (h : Cut (Declaration nearest) ts rest s) : ts ≠ [] := by
  rcases h with h | ⟨-, h⟩
  · exact h.ne_nil
  · exact declaration_ne_sign rfl (h (.synthetic .semicolon ";") rfl)

theorem reads_declarations_cut (h : blocks.Loose) {more : Parse Cursor Bool}
    (hm : Reads true more fun ts _ _ => ts = []) :
    Reads true (declarations blocks more) (Cut (Declarations nearest)) := by
  refine (Reads.chain_cut (I := Declarations nearest) (fun read => ?_) []).mono
    fun ts _ ss hs => hs [] .none
  refine .bind hm fun b => ?_
  split
  · refine .bind h.declaration fun o => .pure fun rest ts hd vs hv => ⟨nofun, ?_⟩
    rintro _ ⟨⟩
    obtain ⟨s, rfl, hs⟩ := hd
    subst hv
    rw [List.append_nil, List.nil_append]
    exact ⟨declaration_cut_ne_nil hs, fun us hu => hs.after us fun vs hv => .more hu hv⟩
  · exact .pure fun _ vs hv => ⟨fun _ => by simpa using hv, nofun⟩

theorem reads_block_cut (h : blocks.Loose) : ReadsBlocks true nearest blocks := by
  refine .bind (reads_declarations_cut h ?_) fun body => .expect fun right hr =>
    .pure fun _ ts hd left hl => .block hl (hd.whole (by simp)) hr
  exact .check fun b => .atEnd fun b' => .pure fun _ => rfl

theorem reads_varDecl_cut (h : rules.Sound true) : Reads true (varDecl rules)
    (Cut fun ts s => ∀ keyword, keyword.kind = .var → VarDecl nearest (keyword :: ts) s) := by
  refine .expect fun name hn => ?_
  have hend : ∀ initial, Reads true (do terminator .variableEnd; pure (Stmt.var name initial))
      (Cut fun ts s => s = .var name initial ∧ Ending nearest ts) := by
    refine fun initial => .bind .terminator_cut fun _ => .pure fun _ ts ht => ?_
    rw [List.append_nil]
    exact ht.mono fun vs hv => ⟨rfl, hv⟩
  refine .accept ?_ fun sign hs => ?_
  · refine .bind (D := fun ts _ o => ts = [] ∧ o = none) (.pure fun _ => ⟨rfl, rfl⟩) fun o =>
      (hend o).mono ?_
    rintro vs rest s hv us ⟨rfl, rfl⟩ _
    exact hv.after [name] fun ws ⟨hs, hw⟩ keyword hk => hs ▸ .plain hk hn hw
  · refine .bind (.map (E := fun ts _ o => ∃ e, o = some e ∧ Expression ts e)
      ((reads_expression h).mono fun ts _ e he => ⟨e, rfl, he⟩)) fun o => (hend o).mono ?_
    rintro vs rest s hv us ⟨e, rfl, he⟩
    refine hv.after (name :: sign :: us) fun ws ⟨hs', hw⟩ keyword hk => ?_
    exact hs' ▸ .initial hk hn hs he hw

theorem reads_expressionStmt_cut (h : rules.Sound true) : Reads true (expressionStmt rules)
    (Cut fun ts s => ∃ us vs e, ts = us ++ vs ∧ s = .expr e ∧ Expression us e ∧
      Ending nearest vs) := by
  refine .bind (reads_expression h) fun e => .bind .terminator_cut fun _ => ?_
  refine .pure fun _ vs hv us hu => ?_
  rw [List.append_nil]
  exact hv.after us fun ws hw => ⟨us, ws, e, rfl, rfl, hu, hw⟩

theorem reads_forInitial_cut (h : rules.Sound true) :
    Reads true (forInitial rules) (Cut (ForInitial nearest)) := by
  refine .acceptAny ?_ fun t ht => ?_
  · refine .map ((reads_expressionStmt_cut h).mono fun ts rest s hs _ => hs.mono ?_)
    rintro ws ⟨us, vs, e, rfl, rfl, he, hv⟩
    exact .expr he hv
  · dsimp only
    split
    · exact .pure fun _ => .inl (.none ‹_›)
    · rename_i hne
      have hvar : t.kind = .var := by simpa [hne] using ht
      exact .map ((reads_varDecl_cut h).mono fun ts _ s hs =>
        hs.after [t] fun vs hv => .var (hv t hvar))

/-- The clauses of a loop are not cut off, since its body follows. -/
theorem reads_forStmt_cut (h : rules.Sound true) (hb : blocks.Loose) :
    Reads true (forStmt rules blocks) fun ts rest s => ∀ keyword, keyword.kind = .for →
      SettledCut (keyword :: ts) rest s := by
  refine .expect fun left hl => .bind (reads_forInitial_cut h) fun initial => .check fun absent => ?_
  refine reads_condition h absent fun c => .expect fun sign hs => .check fun absent' => ?_
  refine reads_optional h absent' fun increment => .expect fun right hr => ?_
  refine .bind hb.statement fun body => ?_
  have hloop : ∀ ts rest, SettledCut ts rest body → ∀ ns, Optional ns increment →
      ∀ cs rest', Given cs rest' c → ∀ is, ForInitial nearest is initial →
      ∀ keyword, keyword.kind = .for →
        SettledCut (keyword :: left :: (is ++ (cs ++ sign :: (ns ++ right :: (ts ++ [])))))
          rest (forLoop initial (some c) increment body) := by
    rintro ts rest ⟨opened, hb, hb'⟩ ns hn cs rest' ⟨o, hc, rfl⟩ is hi keyword hk
    change SettledCut _ rest (forLoop initial o increment body)
    have hfor := hb.after (keyword :: left :: (is ++ (cs ++ sign :: (ns ++ [right]))))
      (E := fun ts s => Statement nearest ts s opened) (b := forLoop initial o increment body)
      fun vs hv => by simpa using Statement.for hk hl hi hc hs hn hr hv
    exact ⟨opened, by simpa using hfor, hb'⟩
  split
  · exact .pure fun rest ts ht ns hn cs hc is hi keyword hk =>
      hloop ts rest ht ns hn cs _ hc is (hi.whole (by simp)) keyword hk
  · exact .pure fun rest ts ht ns hn cs hc is hi keyword hk =>
      hloop ts rest ht ns hn cs _ hc is (hi.whole (by simp)) keyword hk

theorem reads_ifStmt_cut (h : rules.Sound true) (hb : blocks.Loose) :
    Reads true (ifStmt rules blocks) fun ts rest s => ∀ keyword, keyword.kind = .if →
      SettledCut (keyword :: ts) rest s := by
  refine .expect fun left hl => .bind (reads_expression h) fun c => .expect fun right hr => ?_
  refine .bind hb.statement fun yes => .accept ?_ fun otherwise ho => ?_
  · refine .pure fun rest hclear us hu cs hc keyword hk => ?_
    obtain ⟨opened, hs, -⟩ := hu
    have hif := hs.after (keyword :: left :: (cs ++ [right]))
      (E := fun ts s => Statement nearest ts s true) (b := Stmt.ifThen c yes)
      fun vs hv => by simpa using Statement.ifThen hk hl hc hr hv
    exact ⟨true, by simpa using hif, fun _ => hclear⟩
  · refine .bind hb.statement fun no => .pure fun rest us hu ts ht cs hc keyword hk => ?_
    obtain ⟨opened, hs, hs'⟩ := ht
    obtain ⟨opened', hn, hn'⟩ := hu
    -- an open statement would have taken the `else` itself, and one that is cut off has none
    have hclosed : opened = false := by
      cases opened with
      | false => rfl
      | true => exact absurd (by simp [ho]) (hs' rfl otherwise rfl)
    have hif := hn.after (keyword :: left :: (cs ++ right :: (ts ++ [otherwise])))
      (E := fun ts s => Statement nearest ts s opened') (b := Stmt.ifElse c yes no)
      fun vs hv => by
        simpa using Statement.ifElse hk hl hc hr (hs.whole (by simp)) (fun _ => hclosed) ho hv
    exact ⟨opened', by simpa using hif, hn'⟩

theorem reads_whileStmt_cut (h : rules.Sound true) (hb : blocks.Loose) :
    Reads true (whileStmt rules blocks) fun ts rest s => ∀ keyword, keyword.kind = .while →
      SettledCut (keyword :: ts) rest s := by
  refine .expect fun left hl => .bind (reads_expression h) fun c => .expect fun right hr => ?_
  refine .bind hb.statement fun body => .pure fun rest us hu cs hc keyword hk => ?_
  obtain ⟨opened, hs, hs'⟩ := hu
  have hwhile := hs.after (keyword :: left :: (cs ++ [right]))
    (E := fun ts s => Statement nearest ts s opened) (b := Stmt.while c body)
    fun vs hv => by simpa using Statement.while hk hl hc hr hv
  exact ⟨opened, by simpa using hwhile, hs'⟩

theorem reads_returnStmt_cut (h : rules.Sound true) {keyword : Token}
    (hk : keyword.kind = .return) :
    Reads true (returnStmt rules keyword) fun ts rest s => SettledCut (keyword :: ts) rest s := by
  refine .check fun b => .atEnd fun b' => reads_optional h (b || b') fun value => ?_
  refine .bind .terminator_cut fun _ => .pure fun rest ts hts us hu => ⟨false, ?_, nofun⟩
  rw [List.append_nil]
  exact hts.after (keyword :: us) fun vs hv => .return hk hu hv

theorem reads_statement_cut (h : rules.Sound true) (hb : blocks.Loose) :
    Reads true (statement rules blocks) SettledCut := by
  refine .acceptAny ?_ fun t ht => ?_
  · refine (reads_expressionStmt_cut h).mono fun ts rest s hs _ => ⟨false, hs.mono ?_, nofun⟩
    rintro ws ⟨us, vs, e, rfl, rfl, he, hv⟩
    exact .expr he hv
  dsimp only
  split <;> rename_i hk
  · exact (reads_forStmt_cut h hb).mono fun ts rest s hs => hs t hk
  · exact (reads_ifStmt_cut h hb).mono fun ts rest s hs => hs t hk
  · exact (reads_whileStmt_cut h hb).mono fun ts rest s hs => hs t hk
  · exact reads_returnStmt_cut h hk
  · refine .bind .terminator_cut fun _ => .pure fun rest ts hts => ⟨false, ?_, nofun⟩
    rw [List.append_nil]
    exact hts.after [t] fun vs hv => .break hk hv
  · refine .bind .terminator_cut fun _ => .pure fun rest ts hts => ⟨false, ?_, nofun⟩
    rw [List.append_nil]
    exact hts.after [t] fun vs hv => .next hk hv
  · have hl : t.kind = .leftBrace := by
      simp only [List.mem_cons, List.not_mem_nil, or_false] at ht
      grind
    exact .map ((reads_block_cut hb).mono fun ts rest body hs =>
      ⟨false, .inl (.block (hs t hl)), nofun⟩)

theorem reads_declaration_cut (h : rules.Sound true) (hb : blocks.Loose) :
    Reads true (declaration rules blocks) (Cut (Declaration nearest)) := by
  have hblock := reads_block_cut hb
  refine .acceptAny ((reads_statement_cut h hb).mono fun _ _ _ hs _ => ?_) fun t ht => ?_
  · obtain ⟨opened, hs, -⟩ := hs
    exact hs.mono fun vs hv => .statement hv
  dsimp only
  split <;> rename_i hk
  · exact (reads_classDecl h hblock).mono fun ts _ s hs => .inl (hs t hk)
  · exact .map ((reads_function h hblock .function).mono fun ts _ d hd => .inl (.function hk hd))
  · have hv : t.kind = .var := by
      simp only [List.mem_cons, List.not_mem_nil, or_false] at ht
      grind
    exact (reads_varDecl_cut h).mono fun ts _ s hs => hs.after [t] fun vs hvs => .var (hvs t hv)

theorem Blocks.upTo_loose (h : rules.Sound true) (depth : Nat) :
    (Blocks.upTo rules depth).Loose := by
  induction depth with
  | zero => exact ⟨.recovering .refuse, .refuse⟩
  | succ depth ih => exact ⟨.recovering (reads_declaration_cut h ih), reads_statement_cut h ih⟩

theorem reads_program_cut (depth : Nat) :
    Reads true (program depth) fun ts rest ss => Cut (Program nearest) ts [] ss ∧ rest = [] := by
  have hb := Blocks.upTo_loose (Rules.upTo_sound true depth) depth
  have hcut := reads_declarations_cut hb (reads_more.mono fun _ _ _ hm => hm.1)
  refine (Reads.and hcut (reads_program depth)).mono fun ts rest ss h => ⟨?_, h.2.2⟩
  exact h.2.2 ▸ h.1

end Grammar

/-- What is read leniently is a program of the grammar, or would be with one more sign. -/
theorem parse_program_cut {nextId : ExprId} {tokens : List Token} {ss : List Stmt}
    (h : (parse true nextId tokens).result = .ok ss) :
    Parse.Cut (Phrase.Program Phrase.nearest) (tokens.takeWhile (·.kind ≠ .eof)) [] ss :=
  parse_reads Grammar.reads_program_cut h

namespace Phrase

variable {ts bs : List Token} {t : Token}

/-- The last token of a phrase is the last one of its last part. -/
theorem cut_last (us : List Token) (h : ts ++ [t] = us ++ bs) (hb : bs ≠ []) :
    ∃ cs, bs = cs ++ [t] ∧ ts = us ++ cs := by
  obtain ⟨cs, u, rfl⟩ : ∃ cs u, bs = cs ++ [u] :=
    ⟨bs.dropLast, bs.getLast hb, (List.dropLast_concat_getLast hb).symm⟩
  rw [← List.append_assoc] at h
  obtain ⟨hts, hu⟩ := List.append_inj' h rfl
  cases hu
  exact ⟨cs, rfl, hts⟩

theorem Ending.cut (he : Ending nearest bs) (us : List Token) (h : ts ++ [t] = us ++ bs) :
    ts = us ++ [] := by
  cases he with
  | sign => exact (List.append_inj' h rfl).1.trans (List.append_nil us).symm
  | bare hb => cases hb

/-- What ends with a brace does not end with a sign. -/
theorem Block.not_cut {ss : List Stmt} (hs : Block nearest bs ss) (us : List Token)
    (h : ts ++ [t] = us ++ bs) : t.kind ≠ .semicolon := by
  cases hs with
  | @block ds _ left right _ _ hr =>
    have heq : ts ++ [t] = (us ++ left :: ds) ++ [right] := by simpa using h
    cases (List.append_inj' heq rfl).2
    rw [hr]
    decide

theorem Function.not_cut {d : FunctionDecl} (hd : Function nearest bs d) (us : List Token)
    (h : ts ++ [t] = us ++ bs) : t.kind ≠ .semicolon := by
  cases hd with
  | @function ps _ bs _ name left right _ _ _ _ hb =>
    exact hb.not_cut (us ++ name :: left :: (ps ++ [right])) (by simpa using h)

end Phrase

namespace Grammar

open Parse Cursor Phrase

variable {rules : Rules Cursor} {blocks : Blocks Cursor} {n : Nat} {ts : List Token} {t : Token}

/-- Lenient rules take a statement of at most `n` tokens, also one that lacks its sign where nothing
follows. -/
structure Blocks.Closes (n : Nat) (blocks : Blocks Cursor) : Prop extends blocks.Complete true n where
  declaration_cut : ∀ ts t s, t.kind = .semicolon → Declaration nearest (ts ++ [t]) s →
    ts.length ≤ n →
    Takes true blocks.declaration ts [] fun o => ∃ s', o = some s' ∧ s'.bare = s.bare
  statement_cut : ∀ ts t s opened, t.kind = .semicolon → Statement nearest (ts ++ [t]) s opened →
    ts.length ≤ n → Takes true blocks.statement ts [] (·.bare = s.bare)

/-- A statement that ends in a semicolon is read leniently without it. -/
theorem takes_statement_cut (h : rules.Complete true (n + 1)) (hb : blocks.Closes n) {s : Stmt}
    {opened : Bool} (ht : t.kind = .semicolon) (hs : Statement nearest (ts ++ [t]) s opened)
    (hn : ts.length ≤ n + 1) : Takes true (statement rules blocks) ts [] (·.bare = s.bare) := by
  have h' := h.mono (Nat.le_succ n)
  generalize hus : ts ++ [t] = us at hs
  have hbody : ∀ {bs : List Token} {s : Stmt} {opened : Bool}, Statement nearest bs s opened →
      bs ≠ [] := fun hs => (Declaration.statement hs).ne_nil
  cases hs with
  | expr he hend =>
    obtain rfl := hend.cut _ hus
    rw [List.append_nil] at hn
    exact .acceptAny_none (he.starts.append.clear (by decide))
      (takes_expressionStmt h he hn (.bare rfl))
  | @«for» is _ cs _ ns _ bs _ _ keyword left sign right hk hl hi hc hs hi' hr hb' =>
    obtain ⟨bs, rfl, rfl⟩ := cut_last
      (keyword :: left :: (is ++ (cs ++ sign :: (ns ++ [right])))) (by simpa using hus) (hbody hb')
    simp only [List.length_cons, List.length_append, List.length_nil] at hn
    have hfor := takes_forStmt h' hl hi hc hs hi' hr
      (by simp only [List.length_cons, List.length_append]; omega)
      (hb.statement_cut bs t _ _ ht hb' (by omega))
    refine .acceptAny_some (by simp [hk]) ?_
    simp only [hk]
    simpa using hfor
  | @ifThen cs _ bs _ _ keyword left right hk hl hc hr hs =>
    obtain ⟨bs, rfl, rfl⟩ := cut_last (keyword :: left :: (cs ++ [right])) (by simpa using hus)
      (hbody hs)
    simp only [List.length_cons, List.length_append, List.length_nil] at hn
    have hif := takes_ifStmt h' hl hc hr
      (by simp only [List.length_cons, List.length_append]; omega)
      (hb.statement_cut bs t _ _ ht hs (by omega)) clear_nil
    refine .acceptAny_some (by simp [hk]) ?_
    simp only [hk]
    simpa using hif
  | @ifElse cs _ ts _ _ us _ _ keyword left right otherwise hk hl hc hr hs hopened ho hd =>
    obtain rfl := hopened rfl
    obtain ⟨us, rfl, rfl⟩ := cut_last (keyword :: left :: (cs ++ right :: (ts ++ [otherwise])))
      (by simpa using hus) (hbody hd)
    simp only [List.length_cons, List.length_append, List.length_nil] at hn
    have hif := takes_ifElse h' hl hc hr ho
      (by simp only [List.length_cons, List.length_append]; omega)
      (hb.statement ts _ _ (otherwise :: us ++ []) hs (by omega) nofun)
      (hb.statement_cut us t _ _ ht hd (by omega))
    refine .acceptAny_some (by simp [hk]) ?_
    simp only [hk]
    simpa using hif
  | @«while» cs _ bs _ _ keyword left right hk hl hc hr hs =>
    obtain ⟨bs, rfl, rfl⟩ := cut_last (keyword :: left :: (cs ++ [right])) (by simpa using hus)
      (hbody hs)
    simp only [List.length_cons, List.length_append, List.length_nil] at hn
    have hwhile := takes_whileStmt h' hl hc hr
      (by simp only [List.length_cons, List.length_append]; omega)
      (hb.statement_cut bs t _ _ ht hs (by omega))
    refine .acceptAny_some (by simp [hk]) ?_
    simp only [hk]
    simpa using hwhile
  | @«return» vs _ _ keyword hk hv hend =>
    obtain rfl := hend.cut (keyword :: vs) (by simpa using hus)
    simp only [List.length_cons, List.length_append] at hn
    refine .acceptAny_some (by simp [hk]) ?_
    simp only [hk]
    exact takes_returnStmt h hv (by omega) (.bare rfl)
  | @«break» _ keyword hk hend =>
    obtain rfl := hend.cut [keyword] (by simpa using hus)
    refine .acceptAny_some (by simp [hk]) ?_
    simp only [hk]
    exact (Ends.bare rfl).takes.finish fun _ _ => .pure rfl
  | @next _ keyword hk hend =>
    obtain rfl := hend.cut [keyword] (by simpa using hus)
    refine .acceptAny_some (by simp [hk]) ?_
    simp only [hk]
    exact (Ends.bare rfl).takes.finish fun _ _ => .pure rfl
  | block hblock => exact absurd ht (hblock.not_cut [] hus)

/-- So is a variable's declaration. -/
theorem takes_varDecl_cut (h : rules.Complete true n) {keyword : Token} {s : Stmt}
    (hs : VarDecl nearest (keyword :: ts ++ [t]) s) (hn : ts.length ≤ n) :
    Takes true (varDecl rules) ts [] (·.bare = s.bare) := by
  generalize hus : keyword :: ts ++ [t] = us at hs
  cases hs with
  | @plain _ _ name hk hname hend =>
    obtain rfl := hend.cut [name] (List.cons.inj hus).2
    exact takes_varPlain hname (.bare rfl)
  | @initial vs _ _ _ name sign hk hname hsign he hend =>
    obtain rfl := hend.cut (name :: sign :: vs) (List.cons.inj hus).2
    simp only [List.length_cons, List.length_append] at hn
    exact takes_varInitial h hname hsign he (by omega) (.bare rfl)

/-- And every declaration. -/
theorem takes_declaration_cut (h : rules.Complete true (n + 1)) (hb : blocks.Closes n) {s : Stmt}
    (ht : t.kind = .semicolon) (hs : Declaration nearest (ts ++ [t]) s) (hn : ts.length ≤ n + 1) :
    Takes true (declaration rules blocks) ts [] (·.bare = s.bare) := by
  generalize hus : ts ++ [t] = us at hs
  cases hs with
  | @«class» hs _ ds _ _ keyword name left right _ _ _ _ _ hr =>
    have heq : ts ++ [t] = (keyword :: name :: (hs ++ left :: ds)) ++ [right] := by simpa using hus
    cases (List.append_inj' heq rfl).2
    rw [hr] at ht
    cases ht
  | @function _ _ keyword hk hf => exact absurd ht (hf.not_cut [keyword] hus)
  | var hv =>
    obtain ⟨keyword, us, rfl, hk⟩ := hv.starts
    have hvar := List.mem_singleton.1 hk
    cases ts with
    | nil =>
      cases hus
      rw [ht] at hvar
      cases hvar
    | cons _ ts =>
      cases hus
      rw [List.length_cons] at hn
      refine .acceptAny_some (by simp [hvar]) ?_
      simp only [hvar]
      exact takes_varDecl_cut h hv (by omega)
  | statement hs =>
    subst hus
    have hclear : Clear [.classKeyword, .func, .var] (ts ++ [t] ++ []) :=
      hs.starts.clear (by decide)
    rw [List.append_nil] at hclear
    exact .acceptAny_none hclear.of_append (takes_statement_cut h hb ht hs hn)

theorem Blocks.upTo_closes {N : Nat} (h : rules.Complete true N) (n : Nat) (hn : n ≤ N) :
    (Blocks.upTo rules n).Closes n := by
  induction n with
  | zero =>
    have hsign : ∀ ts t s, t.kind = .semicolon → Declaration nearest (ts ++ [t]) s →
        ¬ ts.length ≤ 0 := fun ts t s ht hs hz =>
      declaration_ne_sign ht hs (List.length_eq_zero_iff.1 (Nat.le_zero.1 hz))
    refine ⟨Blocks.upTo_complete h 0 hn, fun ts t s ht hs hz => ?_,
      fun ts t s opened ht hs hz => ?_⟩
    · exact absurd hz (hsign ts t s ht hs)
    · exact absurd hz (hsign ts t s ht (.statement hs))
  | succ n ih =>
    have hb := ih (Nat.le_of_succ_le hn)
    refine ⟨Blocks.upTo_complete h (n + 1) hn, fun ts t s ht hs hl => ?_,
      fun ts t s opened ht hs hl => ?_⟩
    · exact .recovering (takes_declaration_cut (h.mono hn) hb ht hs hl)
    · exact takes_statement_cut (h.mono hn) hb ht hs hl

/-- The declarations before the last one have their signs. -/
theorem takes_program_cut {ss : List Stmt} (ht : t.kind = .semicolon)
    (hs : Program nearest (ts ++ [t]) ss) (hn : ts.length ≤ n) :
    Takes true (program n) ts [] (·.map Stmt.bare = ss.map Stmt.bare) := by
  have hb := Blocks.upTo_closes (Rules.upTo_complete true n) n (Nat.le_refl n)
  -- one more declaration, whether or not it has its sign
  have hnext : ∀ {us ws : List Token} {as as' : List Stmt} {s : Stmt}, us ≠ [] →
      Takes true (Blocks.upTo (Rules.upTo n) n).declaration us ws
        (fun o => ∃ s', o = some s' ∧ s'.bare = s.bare) →
      as'.map Stmt.bare = as.map Stmt.bare →
      Takes true (do
        if ← (do return !(← atEnd)) then
          return some (as' ++ (← (Blocks.upTo (Rules.upTo n) n).declaration).toList)
        else pure none) us ws
        fun o => ∃ bs, o = some bs ∧ bs.map Stmt.bare = (as ++ [s]).map Stmt.bare := by
    intro us ws as as' s hne hd has
    have hmore : Takes true (do return !(← atEnd) : Parse Cursor Bool) [] (us ++ ws) (· = true) := by
      refine .atEnd (.pure ?_)
      cases us with
      | nil => exact absurd rfl hne
      | cons => rfl
    refine hmore.begin ?_
    rintro _ rfl
    refine hd.finish ?_
    rintro _ ⟨s', rfl, hs'⟩
    refine .pure ⟨_, rfl, ?_⟩
    simp only [Option.toList_some, List.map_append, List.map_cons, List.map_nil, has, hs']
  generalize hus : ts ++ [t] = us at hs
  cases hs with
  | none => simp at hus
  | @more us ss vs s hss hs =>
    obtain ⟨vs, rfl, rfl⟩ := cut_last us hus hs.ne_nil
    rw [List.length_append] at hn
    have hne := declaration_ne_sign ht hs
    have hclear : Clear [.else] (vs ++ [t] ++ []) := hs.starts.clear (by decide)
    rw [List.append_nil] at hclear
    have hvs : Clear [.else] vs := by simpa using hclear.of_append
    unfold program programOver declarations
    refine Takes.chain_last (R := fun as' as => as'.map Stmt.bare = as.map Stmt.bare) hss.row hvs
      ?_ ?_ (fun ss' hss' => ?_) hne (fun as => ?_) rfl
    · rintro as us _ ws ⟨s, hd, rfl⟩
      exact hd.starts.clear (by decide)
    · rintro as us' _ ws as' ⟨s, hd, rfl⟩ hle hws has
      exact hnext hd.ne_nil (hb.declaration us' s ws hd (by omega) hws) has
    · exact hnext hne (hb.declaration_cut vs t s ht hs (by omega)) hss'
    · refine Takes.finish (D := (· = false)) (.atEnd (.pure rfl)) ?_
      rintro _ rfl
      exact .pure rfl

end Grammar

/-- A program that lacks its last sign is read leniently, with the tree it has with that sign. -/
theorem parse_of_program_cut {nextId : ExprId} {tokens : List Token} {t : Token} {ss : List Stmt}
    (ht : t.kind = .semicolon)
    (h : Phrase.Program Phrase.nearest (tokens.takeWhile (·.kind ≠ .eof) ++ [t]) ss) :
    ∃ ss', (parse true nextId tokens).result = .ok ss' ∧ ss'.map Stmt.bare = ss.map Stmt.bare := by
  obtain ⟨ss', n, hp, hs⟩ := Grammar.takes_program_cut ht h (Nat.le_succ _)
    (Cursor.start true nextId tokens) (fun _ => rfl) (by rw [List.append_nil]; rfl)
  refine ⟨ss', ?_, hs⟩
  simp only [parse_eq, Cursor.parse]
  rw [show (Cursor.start true nextId tokens).rest.length + 1 =
    (tokens.takeWhile (·.kind ≠ .eof)).length.succ from rfl, hp]
  rfl

/-- The tokens of a program are those before the first end marker. -/
theorem takeWhile_before_tail {ts tail : List Token} (hts : ∀ t ∈ ts, t.kind ≠ .eof)
    (htail : ∀ t, tail.head? = some t → t.kind = .eof) :
    (ts ++ tail).takeWhile (·.kind ≠ .eof) = ts := by
  rw [List.takeWhile_append_of_pos (by simpa using hts)]
  cases tail with
  | nil => simp
  | cons t tail => simp [htail t rfl]

/-- Lenient reading gives the statements that strict reading gives, of the same tokens or of these
with a semicolon behind them, and nothing else. The tokens end at an end marker or where the list
ends, and numbers are left open. -/
theorem parse_lenient (n n' : ExprId) (ts tail : List Token) (semicolon : Token) (ss : List Stmt)
    (hts : ∀ t ∈ ts, t.kind ≠ .eof) (htail : ∀ t, tail.head? = some t → t.kind = .eof)
    (hs : semicolon.kind = .semicolon) :
    (∃ ss', (parse true n (ts ++ tail)).result = .ok ss' ∧
      ss'.map Stmt.bare = ss.map Stmt.bare) ↔
    (∃ ss', (parse false n' (ts ++ tail)).result = .ok ss' ∧
      ss'.map Stmt.bare = ss.map Stmt.bare) ∨
    ∃ ss', (parse false n' (ts ++ semicolon :: tail)).result = .ok ss' ∧
      ss'.map Stmt.bare = ss.map Stmt.bare := by
  have hbefore := takeWhile_before_tail hts htail
  have hbehind : (ts ++ semicolon :: tail).takeWhile (·.kind ≠ .eof) = ts ++ [semicolon] := by
    rw [← List.singleton_append, ← List.append_assoc]
    refine takeWhile_before_tail (fun t ht => ?_) htail
    rcases List.mem_append.1 ht with ht | ht
    · exact hts t ht
    · rw [List.mem_singleton.1 ht, hs]
      decide
  constructor
  · rintro ⟨ss', hp, hss⟩
    rcases parse_program_cut hp with h | ⟨-, h⟩
    · obtain ⟨ss'', hp', hss'⟩ := parse_of_program h
      exact .inl ⟨ss'', hp', hss'.trans hss⟩
    · have hprogram := h semicolon hs
      rw [hbefore, ← hbehind] at hprogram
      obtain ⟨ss'', hp', hss'⟩ := parse_of_program hprogram
      exact .inr ⟨ss'', hp', hss'.trans hss⟩
  · rintro (⟨ss', hp, hss⟩ | ⟨ss', hp, hss⟩)
    · obtain ⟨ss'', hp', hss'⟩ := parse_of_program (parse_program hp)
      exact ⟨ss'', hp', hss'.trans hss⟩
    · have hprogram := parse_program hp
      rw [hbehind, ← hbefore] at hprogram
      obtain ⟨ss'', hp', hss'⟩ := parse_of_program_cut hs hprogram
      exact ⟨ss'', hp', hss'.trans hss⟩

/-- Without its last sign `if (a) if (b) c; else d` is not read strictly, but it is read leniently,
with the tree it has with the sign. -/
theorem parse_lenient_openElse :
    (parse false 0 (openElse.dropLast ++ [.synthetic .eof ""])).result.isOk = false ∧
    ∃ ss', (parse true 7 (openElse.dropLast ++ [.synthetic .eof ""])).result = .ok ss' ∧
      ss'.map Stmt.bare = (openElseTree 0 1 2 3).map Stmt.bare := by
  have hread : (parse false 0 (openElse.dropLast ++ [.synthetic .semicolon ";",
      .synthetic .eof ""])).result = .ok (openElseTree 0 1 2 3) := rfl
  refine ⟨by decide +kernel, ?_⟩
  exact (parse_lenient 7 0 openElse.dropLast [.synthetic .eof ""] (.synthetic .semicolon ";") _
    (by decide) (by rintro t ⟨⟩; rfl) rfl).2 (.inr ⟨_, hread, rfl⟩)

end Scriptling
