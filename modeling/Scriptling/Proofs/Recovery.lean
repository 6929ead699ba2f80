import Scriptling.Proofs.Endings

namespace Scriptling

open Parse

/-- Kinds of which a simple statement has no token: signs that end or hold statements, and words that
other statements begin with. -/
def Kind.structural : List Kind :=
  [.semicolon, .leftBrace, .rightBrace, .eof, .classKeyword, .func, .for, .if, .while, .return]

/-- The tokens of a simple statement, in order or not, and the semicolon behind them. -/
structure Line where
  tokens : List Token
  semicolon : Token
  simple : ∀ t ∈ tokens, t.kind ∉ Kind.structural
  closed : semicolon.kind = .semicolon

def Line.all (l : Line) : List Token := l.tokens ++ [l.semicolon]

def Parsed.faults (p : Parsed) : List (Located ParseFault) :=
  match p.result with
  | .ok _ => []
  | .error faults => faults

def Parsed.statements (p : Parsed) : List Stmt :=
  match p.result with
  | .ok ss => ss
  | .error _ => []

namespace Sides

variable {o : Sides} {g : ExprId → ExprId} {front : List Token} {c c' : Cursor}

def behind (o : Sides) (us us' : List Token) : Sides := { o with beyond := us, beyond' := us' }

/-- Two readings of a statement have both come behind the semicolon, with the same result, or both to
the same fault before it. -/
def Closes (o : Sides) (g : ExprId → ExprId) (front us us' : List Token) {α γ : Type}
    (key : α → γ) : EStateM.Result (Located ParseFault) Cursor α →
      EStateM.Result (Located ParseFault) Cursor α → Prop
  | .ok a d, .ok a' d' => (o.behind us us').At g false [] d d' ∧ key a = key a'
  | .error e d, .error e' d' => e = e' ∧ ∃ left, left <:+ front ∧ o.At g false left d d'
  | _, _ => False

namespace Closes

variable {α β γ : Type} {us us' left : List Token} {key : α → γ} {p p' : Parse Cursor α}

theorem earlier (h : o.Closes g left us us' key (p c) (p' c')) (hl : left <:+ front) :
    o.Closes g front us us' key (p c) (p' c') := by
  cases hr : p c <;> cases hr' : p' c' <;> simp only [hr, hr', Closes] at h ⊢
  · exact h
  · obtain ⟨he, rest, hs, hrest⟩ := h
    exact ⟨he, rest, hs.trans hl, hrest⟩

/-- A step before the semicolon, and then the rest. -/
theorem after {p : Parse Cursor β} {p' : Parse Cursor δ} {q : β → Parse Cursor α}
    {q' : δ → Parse Cursor α} {R : Nat → β → δ → Prop} (h : o.Ends g false front R (p c) (p' c'))
    (hq : ∀ left a b d d', left <:+ front → o.At g false left d d' → R left.length a b →
      o.Closes g left us us' key (q a d) (q' b d')) :
    o.Closes g front us us' key ((p >>= q) c) ((p' >>= q') c') := by
  rw [bind_eq, bind_eq]
  cases hr : p c with
  | ok a d =>
    cases hr' : p' c' with
    | ok b d' =>
      rw [hr, hr'] at h
      obtain ⟨left, hl, hd, hab⟩ := h
      exact (hq left a b d d' hl hd hab).earlier hl
    | error e d' =>
      rw [hr, hr'] at h
      exact h.elim
  | error e d =>
    cases hr' : p' c' with
    | ok b d' =>
      rw [hr, hr'] at h
      exact h.elim
    | error e' d' =>
      rw [hr, hr'] at h
      exact h

/-- A refusal is the same fault in both readings. -/
theorem refuse (ho : o.Fit false) (what : Expected) (hc : o.At g false front c c') :
    o.Closes g front us us' key ((Parse.refuse what : Parse Cursor α) c)
      ((Parse.refuse what : Parse Cursor α) c') := by
  rw [refuse_eq, refuse_eq, hc.headD_eq ho]
  exact ⟨rfl, front, List.suffix_refl _, hc⟩

/-- Both readings pass an optional token, or neither does. -/
theorem option (ho : o.Fit false) {kinds : List Kind} (hk : .semicolon ∉ kinds)
    {q q' : Option Token → Parse Cursor α} (hc : o.At g false front c c')
    (hn : o.Closes g front us us' key (q none c) (q' none c'))
    (hs : ∀ t left d d', front = t :: left → t.kind ∈ kinds → o.At g false left d d' →
      o.Closes g left us us' key (q (some t) d) (q' (some t) d')) :
    o.Closes g front us us' key ((acceptAny kinds >>= q) c) ((acceptAny kinds >>= q') c') := by
  rw [bind_eq, bind_eq]
  cases front with
  | nil =>
    obtain ⟨hnone, hnone'⟩ := acceptAny_beyond ho (.inr hk) hc
    rw [hnone, hnone']
    exact hn
  | cons t left =>
    simp only [acceptAny_eq, hc.rest, hc.rest', List.cons_append]
    by_cases hmem : t.kind ∈ kinds
    · simp only [hmem, if_true]
      exact (hs t left _ _ rfl hmem hc.step).earlier (List.suffix_cons t left)
    · simp only [hmem, if_false]
      exact hn

end Closes

end Sides

namespace Line

variable {α γ : Type} {l : Line} {o : Sides} {g : ExprId → ExprId} {front us us' : List Token}
  {c c' : Cursor} {N : Nat} {rules rules' : Grammar.Rules Cursor} {key : α → γ}

/-- Tokens that are passed over end with the semicolon. -/
theorem skipFrom_line (hs : front <:+ l.tokens) {previous : Token}
    (hp : previous.kind ≠ .semicolon) (us : List Token) :
    skipFrom previous (front ++ l.semicolon :: us) = us := by
  induction front generalizing previous with
  | nil =>
    have hstart : startsStatement l.semicolon.kind = false := by
      rw [l.closed]
      rfl
    simp only [List.nil_append, skipFrom, hp, hstart, Bool.false_eq_true, or_self, if_false]
    cases us with
    | nil => rfl
    | cons u us => simp only [skipFrom, l.closed, true_or, if_true]
  | cons t front ih =>
    have hnot := l.simple t (hs.subset (.head _))
    simp only [Kind.structural, List.mem_cons, List.not_mem_nil, or_false, not_or] at hnot
    have hstart : startsStatement t.kind = false := by simp [startsStatement, hnot]
    simp only [List.cons_append, skipFrom, hp, hstart, Bool.false_eq_true, or_self, if_false]
    exact ih ((List.suffix_cons t front).trans hs) hnot.1

theorem skipStatement_line (hs : front <:+ l.tokens) (us : List Token) :
    skipStatement (front ++ l.semicolon :: us) = us := by
  cases front with
  | nil =>
    cases us with
    | nil => rfl
    | cons u us => simp only [List.nil_append, skipStatement, skipFrom, l.closed, true_or, if_true]
  | cons t front =>
    have hnot := l.simple t (hs.subset (.head _))
    simp only [Kind.structural, List.mem_cons, List.not_mem_nil, or_false, not_or] at hnot
    exact skipFrom_line ((List.suffix_cons t front).trans hs) hnot.1 us

/-- The two readings have different tokens from some place behind the semicolon on. -/
structure Between (l : Line) (o : Sides) (us us' : List Token) : Prop where
  beyond : o.beyond = l.semicolon :: us
  beyond' : o.beyond' = l.semicolon :: us'

theorem Between.fit (h : l.Between o us us') : o.Fit false :=
  ⟨fun hw => absurd hw (by decide), fun _ => ⟨_, _, _, l.closed, h.beyond, h.beyond'⟩⟩

/-- A statement is closed by its semicolon and nothing before it. -/
theorem closes_terminator (h : l.Between o us us') (what : Expected) {a a' : α}
    (ha : key a = key a') (hs : front <:+ l.tokens) (hc : o.At g false front c c') :
    o.Closes g front us us' key ((do terminator what; pure a) c)
      ((do terminator what; pure a') c') := by
  cases front with
  | nil =>
    have hrest : c.rest = l.semicolon :: us := hc.rest.trans h.beyond
    have hrest' : c'.rest = l.semicolon :: us' := hc.rest'.trans h.beyond'
    simp only [bind_eq, terminator_eq, hrest, hrest', l.closed, if_true]
    exact ⟨⟨rfl, rfl, hc.finish, hc.finish', hc.lenient, hc.lenient', hc.ids, hc.faults⟩, ha⟩
  | cons t front =>
    have hkind : t.kind ≠ .semicolon := by
      intro hk
      exact l.simple t (hs.subset (.head _)) (by simp [hk, Kind.structural])
    have hrest : c.rest = t :: (front ++ o.beyond) := hc.rest
    have hrest' : c'.rest = t :: (front ++ o.beyond') := hc.rest'
    simp only [bind_eq, terminator_eq, hrest, hrest', hkind, if_false, refuse_eq, List.headD_cons]
    exact ⟨rfl, t :: front, List.suffix_refl _, hc⟩

variable (hg : ∀ i j, g i = g j → g (i + 1) = g (j + 1)) (h : l.Between o us us')
  (hr : rules.Alike g false N rules')

include hg h hr

/-- An expression and its semicolon, or the fault that comes before that. -/
theorem closes_expressionStmt (hn : front.length < N) (hs : front <:+ l.tokens)
    (hc : o.At g false front c c') :
    o.Closes g front us us' (Stmt.under g) (Grammar.expressionStmt rules c)
      (Grammar.expressionStmt rules' c') := by
  apply Sides.Closes.after ((Grammar.alike_expression hr hn).ends hg h.fit hc rfl)
  rintro left e e' d d' hl hd ⟨-, he⟩
  apply closes_terminator h _ _ (hl.trans hs) hd
  simp only [Stmt.under, Stmt.turn, Stmt.expr.injEq]
  exact he

/-- A variable's declaration and its semicolon. -/
theorem closes_varDecl (hn : front.length ≤ N) (hs : front <:+ l.tokens)
    (hc : o.At g false front c c') :
    o.Closes g front us us' (Stmt.under g) (Grammar.varDecl rules c)
      (Grammar.varDecl rules' c') := by
  rw [Grammar.varDecl, Grammar.varDecl, expect_bind, expect_bind]
  refine .option h.fit (by decide) hc (.refuse h.fit _ hc) ?_
  rintro name left d d' rfl - hd
  have hleft : left <:+ l.tokens := (List.suffix_cons name left).trans hs
  have hend : ∀ (x x' : Option Expr) (left : List Token) (d d' : Cursor), left <:+ l.tokens →
      x.map (Expr.under g) = x'.map (Expr.under g) → o.At g false left d d' →
      o.Closes g left us us' (Stmt.under g)
        ((do terminator .variableEnd; pure (Stmt.var name x)) d)
        ((do terminator .variableEnd; pure (Stmt.var name x')) d') := by
    intro x x' left d d' hleft hx hd
    apply closes_terminator h _ _ hleft hd
    simp only [Stmt.under, Stmt.turn, Stmt.var.injEq, true_and]
    exact hx
  refine .option h.fit (by decide) hd (hend none none left d d' hleft rfl hd) ?_
  rintro sign left e e' rfl - he
  have hlength : left.length < N := by
    simp only [List.length_cons] at hn
    omega
  apply Sides.Closes.after ((Grammar.alike_expression? hr hlength).ends hg h.fit he rfl)
  rintro rest x x' d d' hrest hd ⟨-, hx⟩
  exact hend x x' rest d d' (hrest.trans ((List.suffix_cons sign left).trans hleft)) hx hd

/-- A simple statement is a declaration of a variable, a way out of a loop or an expression. -/
theorem closes_declaration (blocks blocks' : Grammar.Blocks Cursor) (hn : front.length < N)
    (hs : front <:+ l.tokens) (hc : o.At g false front c c') :
    o.Closes g front us us' (Stmt.under g) (Grammar.declaration rules blocks c)
      (Grammar.declaration rules' blocks' c') := by
  have hsimple : ∀ t left, front = t :: left → t.kind ∉ Kind.structural := by
    rintro t left rfl
    exact l.simple t (hs.subset (.head _))
  have hbelow : ∀ t left, front = t :: left → left.length ≤ N ∧ left <:+ l.tokens := by
    rintro t left rfl
    simp only [List.length_cons] at hn
    exact ⟨by omega, (List.suffix_cons t left).trans hs⟩
  refine .option h.fit (by decide) hc ?_ ?_
  · refine .option h.fit (by decide) hc (closes_expressionStmt hg h hr hn hs hc) ?_
    intro t left d d' hfront hk hd
    have hnot := hsimple t left hfront
    obtain ⟨-, hleft⟩ := hbelow t left hfront
    have hleaves : t.kind = .break ∨ t.kind = .next := by
      simp only [List.mem_cons, List.not_mem_nil, or_false] at hk
      rcases hk with hk | hk | hk | hk | hk | hk | hk <;> simp [hk, Kind.structural] at hnot ⊢
    rcases hleaves with hk | hk
    · simp only [hk]
      exact closes_terminator h _ rfl hleft hd
    · simp only [hk]
      exact closes_terminator h _ rfl hleft hd
  · intro t left d d' hfront hk hd
    have hnot := hsimple t left hfront
    obtain ⟨hlength, hleft⟩ := hbelow t left hfront
    have hvar : t.kind = .var := by
      simp only [List.mem_cons, List.not_mem_nil, or_false] at hk
      rcases hk with hk | hk | hk <;> simp [hk, Kind.structural] at hnot ⊢
    simp only [hvar]
    exact closes_varDecl hg h hr hlength hleft hd

end Line

namespace Line

open Grammar

variable {l : Line} {rules rules' : Rules Cursor} {c c' d d' : Cursor} {us us' : List Token}
  {N : Nat}

/-- The cursor has come past a line, with these faults noted on the way. -/
structure Passed (us : List Token) (fs : List (Located ParseFault)) (c d : Cursor) : Prop where
  rest : d.rest = us
  finish : d.finish = c.finish
  lenient : d.lenient = c.lenient
  faults : d.faults = c.faults ++ fs

/-- Faults of which one at most is not mild. -/
def Isolated (fs : List (Located ParseFault)) : Prop :=
  (fs.filter fun f => !f.fault.mild).length ≤ 1

theorem isolated_of_mild {fs gs : List (Located ParseFault)}
    (hfs : ∀ f ∈ fs, f.fault.mild = true) (hgs : gs.length ≤ 1) : Isolated (fs ++ gs) := by
  have hnone : fs.filter (fun f => !f.fault.mild) = [] := by
    rw [List.filter_eq_nil_iff]
    intro f hf
    simp [hfs f hf]
  rw [Isolated, List.filter_append, hnone, List.nil_append]
  exact Nat.le_trans (List.length_filter_le _ _) hgs

/-- A line is read alike whatever stands behind it. Reading stops for one fault at most, and goes on
behind the line in any case. -/
theorem recovering_declaration (l : Line) (hr : rules.Alike (fun _ => 0) false N rules')
    (blocks blocks' : Blocks Cursor) (hn : l.tokens.length < N) (hc : c.rest = l.all ++ us)
    (hc' : c'.rest = l.all ++ us') :
    ∃ x x' d d' fs, recovering (declaration rules blocks) c = .ok x d ∧
      recovering (declaration rules' blocks') c' = .ok x' d' ∧
      x.map Stmt.bare = x'.map Stmt.bare ∧ Passed us fs c d ∧ Passed us' fs c' d' ∧
      Isolated fs := by
  let o : Sides := ⟨l.semicolon :: us, l.semicolon :: us', c.finish, c'.finish, c.lenient,
    c'.lenient, c.faults, c'.faults⟩
  have hall : ∀ vs, l.all ++ vs = l.tokens ++ l.semicolon :: vs := by
    intro vs
    rw [all, List.append_assoc]
    rfl
  have hat : o.At (fun _ => 0) false l.tokens c c' :=
    ⟨hc.trans (hall us), hc'.trans (hall us'), rfl, rfl, rfl, rfl, rfl, [],
      (List.append_nil _).symm, (List.append_nil _).symm, .inr (by simp)⟩
  have hcloses := closes_declaration (fun _ _ _ => rfl) ⟨rfl, rfl⟩ hr blocks blocks' hn
    (List.suffix_refl _) hat
  simp only [recovering_eq]
  cases hp : declaration rules blocks c with
  | ok s d =>
    cases hp' : declaration rules' blocks' c' with
    | error e d' =>
      rw [hp, hp'] at hcloses
      exact hcloses.elim
    | ok s' d' =>
      rw [hp, hp'] at hcloses
      obtain ⟨hd, hs⟩ := hcloses
      obtain ⟨fs, hf, hf', hmild⟩ := hd.faults
      refine ⟨_, _, d, d', fs, rfl, rfl, congrArg some hs, ?_, ?_, ?_⟩
      · exact ⟨hd.rest, hd.finish, hd.lenient, hf⟩
      · exact ⟨hd.rest', hd.finish', hd.lenient', hf'⟩
      · have hisolated : Isolated (fs ++ []) :=
          isolated_of_mild (hmild.resolve_left Bool.false_ne_true) (by simp)
        simpa using hisolated
  | error e d =>
    cases hp' : declaration rules' blocks' c' with
    | ok s' d' =>
      rw [hp, hp'] at hcloses
      exact hcloses.elim
    | error e' d' =>
      rw [hp, hp'] at hcloses
      obtain ⟨rfl, left, hl, hd⟩ := hcloses
      obtain ⟨fs, hf, hf', hmild⟩ := hd.faults
      refine ⟨_, _, _, _, fs ++ [e], rfl, rfl, rfl, ?_, ?_, ?_⟩
      · refine ⟨?_, hd.finish, hd.lenient, ?_⟩
        · rw [hd.rest]
          exact skipStatement_line hl us
        · rw [hf, List.append_assoc]
      · refine ⟨?_, hd.finish', hd.lenient', ?_⟩
        · rw [hd.rest']
          exact skipStatement_line hl us'
        · rw [hf', List.append_assoc]
      · exact isolated_of_mild (hmild.resolve_left Bool.false_ne_true) (by simp)

end Line

namespace Grammar

theorem program_done (depth : Nat) {c : Cursor} (hc : c.rest = []) : program depth c = .ok [] c := by
  rw [program_eq]
  apply chain_done
  rw [declared_toEnd, if_pos hc]

/-- A program goes on behind its first declaration. -/
theorem program_next (depth : Nat) {c d : Cursor} {x : Option Stmt} (hc : c.rest ≠ [])
    (h : (Blocks.upTo (Rules.upTo depth) depth).declaration c = .ok x d) :
    program depth c = chain (declared (Blocks.upTo (Rules.upTo depth) depth)
      (do return !(← atEnd))) x.toList d := by
  have hpast : ∀ (read read' : List Stmt) (c d : Cursor), True →
      declared (Blocks.upTo (Rules.upTo depth) depth) (do return !(← atEnd)) read c =
        .ok (some read') d → d.rest.length < c.rest.length ∧ True := by
    intro read read' c d _ hs
    exact ⟨declared_passes depth hs, trivial⟩
  refine chain_next (μ := fun c : Cursor => c.rest.length) (fun _ => Nat.le_refl _) hpast trivial ?_
  rw [declared_toEnd, if_neg hc, bind_eq, h]
  rfl

/-- Two programs are read alike where the same tokens are left, though one of them began earlier. -/
theorem program_behind {depth depth' : Nat} {c c' d d' : Cursor} {ss read ss' : List Stmt}
    {fs : List (Located ParseFault)} (hd : c'.rest.length < depth) (hd' : c'.rest.length < depth')
    (hc : Line.Passed c'.rest fs c' c) (hf : c'.faults = [])
    (h : chain (declared (Blocks.upTo (Rules.upTo depth) depth) (do return !(← atEnd))) read c =
      .ok ss d) (h' : program depth' c' = .ok ss' d') :
    d.faults = fs ++ d'.faults ∧ ss.map Stmt.bare = read.map Stmt.bare ++ ss'.map Stmt.bare := by
  have hblocks : (Blocks.upTo (Rules.upTo depth) depth : Blocks Cursor).Alike (fun _ => 0)
      (c'.rest.length + 1) (Blocks.upTo (Rules.upTo depth') depth' : Blocks Cursor) :=
    Blocks.alike_upTo _ (.inr ⟨hd, hd'⟩) (.inr ⟨hd, hd'⟩)
  let o : Sides := ⟨[], [], c'.finish, c'.finish, c'.lenient, c'.lenient, fs, []⟩
  have hfit : o.Fit true := ⟨fun _ => ⟨rfl, rfl, rfl, rfl⟩, fun hw => absurd hw (by decide)⟩
  have hat : o.At (fun _ => 0) true c'.rest c c' := by
    refine ⟨?_, (List.append_nil _).symm, hc.finish, rfl, hc.lenient, rfl, rfl, [], ?_, hf, .inl rfl⟩
    · rw [hc.rest]
      exact (List.append_nil _).symm
    · rw [hc.faults, hf, List.nil_append]
      exact (List.append_nil _).symm
  have hends := (alike_behind hblocks (onward_toEnd _) (Nat.lt_succ_self _) read).ends
    (fun _ _ _ => rfl) hfit hat rfl
  have hrun : declarations (Blocks.upTo (Rules.upTo depth') depth') (do return !(← atEnd)) c' =
      .ok ss' d' := h'
  rw [h, hrun] at hends
  obtain ⟨left, -, hleft, -, hss⟩ := hends
  obtain ⟨gs, hgs, hgs', -⟩ := hleft.faults
  rw [List.nil_append] at hgs'
  exact ⟨hgs' ▸ hgs, hss⟩

end Grammar

/-- An answer without faults is the statements. -/
theorem Parsed.result_eq {p : Parsed} {ss : List Stmt} {last : Cursor}
    (h : p.result = if last.faults = [] then .ok ss else .error last.faults) :
    p.faults = last.faults ∧
      (last.faults = [] → p.result = .ok p.statements ∧ p.statements = ss) := by
  unfold Parsed.faults Parsed.statements
  rw [h]
  by_cases hfaults : last.faults = []
  · rw [if_pos hfaults]
    exact ⟨hfaults.symm, fun _ => ⟨rfl, rfl⟩⟩
  · rw [if_neg hfaults]
    exact ⟨rfl, fun hempty => absurd hempty hfaults⟩

namespace Line

open Grammar

theorem kind_ne_eof (l : Line) : ∀ t ∈ l.all, t.kind ≠ .eof := by
  intro t ht
  rcases List.mem_append.1 ht with hmem | hmem
  · have hnot := l.simple t hmem
    simp only [Kind.structural, List.mem_cons, List.not_mem_nil, or_false, not_or] at hnot
    exact hnot.2.2.2.1
  · rw [List.mem_singleton.1 hmem, l.closed]
    decide

/-- Reading a line with others behind it begins as reading it alone. -/
theorem start_line (l : Line) (lenient : Bool) (nextId nextId' : ExprId) (ts : List Token) :
    (Cursor.start lenient nextId (l.all ++ ts)).rest =
        l.all ++ (Cursor.start lenient nextId' ts).rest ∧
      (Cursor.start lenient nextId (l.all ++ ts)).finish =
        (Cursor.start lenient nextId' ts).finish := by
  have hnone : l.all.find? (·.kind = .eof) = none := by
    rw [List.find?_eq_none]
    intro t ht
    simpa using l.kind_ne_eof t ht
  constructor
  · simp only [Cursor.start]
    apply List.takeWhile_append_of_pos
    intro t ht
    simpa using l.kind_ne_eof t ht
  · simp only [Cursor.start, List.find?_append, hnone, Option.none_or]

/-- A line and what stands behind it are read each by itself. -/
theorem parse_append (l : Line) (lenient : Bool) (n n₁ n₂ : ExprId) (ts : List Token) {e : Token}
    (he : e.kind = .eof) :
    let both := parse lenient n (l.all ++ ts)
    let alone := parse lenient n₁ (l.all ++ [e])
    let after := parse lenient n₂ ts
    both.faults = alone.faults ++ after.faults ∧ Isolated alone.faults ∧
      (both.faults = [] → both.result = .ok both.statements ∧
        both.statements.map Stmt.bare =
          alone.statements.map Stmt.bare ++ after.statements.map Stmt.bare) := by
  intro both alone after
  let c := Cursor.start lenient n (l.all ++ ts)
  let c₁ := Cursor.start lenient n₁ (l.all ++ [e])
  let c₂ := Cursor.start lenient n₂ ts
  obtain ⟨hrest, hfinish⟩ := l.start_line lenient n n₂ ts
  have hrest₁ : c₁.rest = l.all ++ [] := by
    rw [(l.start_line lenient n₁ n₁ [e]).1]
    simp [Cursor.start, he, List.takeWhile]
  have hlong : l.tokens.length < c.rest.length ∧ l.tokens.length < c₁.rest.length := by
    rw [hrest, hrest₁]
    simp only [List.length_append, all, List.length_cons, List.length_nil]
    omega
  have hne : c.rest ≠ [] := List.ne_nil_of_length_pos (by omega)
  have hne₁ : c₁.rest ≠ [] := List.ne_nil_of_length_pos (by omega)
  have hrules : (Rules.upTo (c.rest.length + 1) : Rules Cursor).Alike (fun _ => 0) false
      (l.tokens.length + 1) (Rules.upTo (c₁.rest.length + 1) : Rules Cursor) :=
    Rules.alike_upTo _ false (.inr ⟨by omega, by omega⟩)
  obtain ⟨x, x₁, d, d₁, fs, hx, hx₁, hsame, hd, hd₁, hfs⟩ :=
    l.recovering_declaration hrules (Blocks.upTo (Rules.upTo (c.rest.length + 1)) c.rest.length)
      (Blocks.upTo (Rules.upTo (c₁.rest.length + 1)) c₁.rest.length) (Nat.lt_succ_self _) hrest hrest₁
  obtain ⟨ss, last, hrun, -⟩ := program_ends (c.rest.length + 1) c
  obtain ⟨ss₂, last₂, hrun₂, -⟩ := program_ends (c₂.rest.length + 1) c₂
  have hrun₁ : program (c₁.rest.length + 1) c₁ = .ok x₁.toList d₁ := by
    rw [program_next (c₁.rest.length + 1) hne₁ hx₁]
    apply chain_done
    rw [declared_toEnd, if_pos hd₁.rest]
  have hbehind : Passed c₂.rest fs c₂ d := ⟨hd.rest, hd.finish.trans hfinish, hd.lenient, hd.faults⟩
  have hlength : c₂.rest.length < c.rest.length + 1 := by
    rw [show c.rest = l.all ++ c₂.rest from hrest, List.length_append]
    omega
  obtain ⟨hfaults, hss⟩ := program_behind hlength (Nat.lt_succ_self _) hbehind rfl
    ((program_next (c.rest.length + 1) hne hx).symm.trans hrun) hrun₂
  obtain ⟨hboth, hok⟩ := Parsed.result_eq (result_parse hrun)
  obtain ⟨halone, hok₁⟩ := Parsed.result_eq (result_parse hrun₁)
  obtain ⟨hafter, hok₂⟩ := Parsed.result_eq (result_parse hrun₂)
  have hfs₁ : alone.faults = fs := halone.trans hd₁.faults
  have hfs₂ : both.faults = alone.faults ++ after.faults := by
    rw [hfs₁]
    exact hboth.trans (hfaults.trans (congrArg (fs ++ ·) hafter.symm))
  refine ⟨hfs₂, hfs₁ ▸ hfs, ?_⟩
  intro hclean
  obtain ⟨hclean₁, hclean₂⟩ := List.append_eq_nil_iff.1 (hfs₂.symm.trans hclean)
  obtain ⟨hresult, hboth'⟩ := hok (hboth.symm.trans hclean)
  refine ⟨hresult, ?_⟩
  have hfirst : x.toList.map Stmt.bare = x₁.toList.map Stmt.bare := by
    cases x <;> cases x₁ <;> simp_all
  change (parse lenient n (l.all ++ ts)).statements.map Stmt.bare = _
  rw [hboth', hss, hfirst, (hok₁ (halone.symm.trans hclean₁)).2,
    (hok₂ (hafter.symm.trans hclean₂)).2]

/-- Any number of lines are read each by itself. -/
theorem parse_lines (lenient : Bool) (n m : ExprId) {e e₁ : Token} (he : e.kind = .eof)
    (he₁ : e₁.kind = .eof) (ls : List Line) :
    let together := parse lenient n (ls.flatMap all ++ [e])
    let alone := fun l : Line => parse lenient m (l.all ++ [e₁])
    together.faults = ls.flatMap (fun l => (alone l).faults) ∧
      (together.faults = [] → together.result = .ok together.statements ∧
        together.statements.map Stmt.bare =
          ls.flatMap fun l => (alone l).statements.map Stmt.bare) := by
  intro together alone
  induction ls generalizing n with
  | nil =>
    have hrest : (Cursor.start lenient n [e]).rest = [] := by simp [Cursor.start, he, List.takeWhile]
    obtain ⟨hfaults, hok⟩ := Parsed.result_eq (result_parse (program_done _ hrest))
    obtain ⟨hresult, hss⟩ := hok rfl
    exact ⟨hfaults, fun _ => ⟨hresult, congrArg (List.map Stmt.bare) hss⟩⟩
  | cons l ls ih =>
    obtain ⟨hfaults, -, hok⟩ := l.parse_append lenient n m m (ls.flatMap all ++ [e]) he₁
    obtain ⟨hfaults', hok'⟩ := ih m
    have htokens : (l :: ls).flatMap all ++ [e] = l.all ++ (ls.flatMap all ++ [e]) := by
      rw [List.flatMap_cons, List.append_assoc]
    have htogether : together = parse lenient n (l.all ++ (ls.flatMap all ++ [e])) :=
      congrArg (parse lenient n) htokens
    rw [htogether]
    constructor
    · rw [hfaults, hfaults', List.flatMap_cons]
    · intro hclean
      obtain ⟨-, hclean'⟩ := List.append_eq_nil_iff.1 (hfaults.symm.trans hclean)
      obtain ⟨hresult, hss⟩ := hok hclean
      refine ⟨hresult, ?_⟩
      rw [hss, (hok' hclean').2, List.flatMap_cons]

end Line

/-- Panic at a broken statement ends with it. Read together with what stands behind it, a simple
statement with its semicolon has the faults that it has alone, in front of those that what stands
behind has alone; of its own, all but one are faults that reading does not stop for. If there are
none, the statements are those that are read apart, but for the numbers of their nodes. So any
sequence of simple statements has the faults of each of them, whatever the others are. -/
theorem broken_lines_apart (lenient : Bool) (e e₁ : Token) (he : e.kind = .eof)
    (he₁ : e₁.kind = .eof) :
    (∀ (l : Line) (q : List Token) (n n₁ n₂ : ExprId),
      let both := parse lenient n (l.all ++ (q ++ [e]))
      let alone := parse lenient n₁ (l.all ++ [e₁])
      let after := parse lenient n₂ (q ++ [e])
      both.faults = alone.faults ++ after.faults ∧
        (alone.faults.filter fun f => !f.fault.mild).length ≤ 1 ∧
        (both.faults = [] → both.result = .ok both.statements ∧
          both.statements.map Stmt.bare =
            alone.statements.map Stmt.bare ++ after.statements.map Stmt.bare)) ∧
    ∀ (ls : List Line) (n m : ExprId),
      let together := parse lenient n (ls.flatMap Line.all ++ [e])
      let alone := fun l : Line => parse lenient m (l.all ++ [e₁])
      together.faults = ls.flatMap (fun l => (alone l).faults) ∧
        (together.faults = [] → together.result = .ok together.statements ∧
          together.statements.map Stmt.bare =
            ls.flatMap fun l => (alone l).statements.map Stmt.bare) := by
  constructor
  · intro l q n n₁ n₂
    exact l.parse_append lenient n n₁ n₂ (q ++ [e]) he₁
  · intro ls n m
    exact Line.parse_lines lenient n m he he₁ ls

/-- A statement that breaks off, a target that cannot be assigned, and one that is in order. -/
def brokenLines : List Line :=
  [⟨[.synthetic .var "var"], .synthetic .semicolon ";", by decide, rfl⟩,
   ⟨[.synthetic .nil "nil", .synthetic .equal "=", .synthetic .nil "nil"],
      .synthetic .semicolon ";", by decide, rfl⟩,
   ⟨[.synthetic .nil "nil"], .synthetic .semicolon ";", by decide, rfl⟩]

/-- Two of the three lines are reported, each with its own fault. -/
theorem broken_lines_apart_three :
    (parse false 0 (brokenLines.flatMap Line.all ++ [.synthetic .eof ""])).faults =
      [⟨.expected .variableName, .nowhere⟩, ⟨.assignmentTarget, .nowhere⟩] := by
  obtain ⟨-, hlines⟩ := broken_lines_apart false (.synthetic .eof "") (.synthetic .eof "") rfl rfl
  rw [(hlines brokenLines 0 0).1]
  decide

end Scriptling
