import Scriptling.Proofs.Reading
import Scriptling.Proofs.TakingSteps
import Scriptling.Proofs.Uses

namespace Scriptling

namespace Parse

variable {kinds kinds' : List Kind} {t : Token} {ts us rest : List Token}

theorem Clear.mono (h : Clear kinds ts) (hs : ∀ k ∈ kinds', k ∈ kinds) : Clear kinds' ts :=
  fun t ht hk => h t ht (hs _ hk)

theorem clear_nil : Clear kinds [] := fun _ h => by cases h

theorem clear_cons (h : t.kind ∉ kinds) : Clear kinds (t :: ts) := by
  intro u hu
  cases hu
  exact h

/-- Tokens of which the first is of one of these kinds. -/
def Starts (kinds : List Kind) (ts : List Token) : Prop := ∃ t us, ts = t :: us ∧ t.kind ∈ kinds

theorem Starts.mono (h : Starts kinds ts) (hs : ∀ k ∈ kinds, k ∈ kinds') : Starts kinds' ts := by
  obtain ⟨t, us, rfl, ht⟩ := h
  exact ⟨t, us, rfl, hs _ ht⟩

theorem Starts.append (h : Starts kinds ts) : Starts kinds (ts ++ us) := by
  obtain ⟨t, vs, rfl, ht⟩ := h
  exact ⟨t, vs ++ us, rfl, ht⟩

theorem Starts.clear (h : Starts kinds ts) (hs : ∀ k ∈ kinds, k ∉ kinds') :
    Clear kinds' (ts ++ us) := by
  obtain ⟨t, vs, rfl, ht⟩ := h
  exact clear_cons (hs _ ht)

/-- Each link may say less. -/
theorem Row.mono {α : Type} {J J' : α → List Token → α → Prop} {a b : α} (h : Row J a ts b)
    (hj : ∀ a us b, J a us b → J' a us b) : Row J' a ts b := by
  induction h with
  | done => exact .done
  | link h hu _ ih => exact .link (hj _ _ _ h) hu ih

/-- A row of items behind commas, and one more. -/
theorem Row.further {α : Type} {S : List Token → α → Prop} {comma : Token} {a b : α} {as : List α}
    (h : Row (fun bs ts cs => Further S bs ts cs ∧ bs.length < as.length) [a] ts as)
    (hc : comma.kind = .comma) (hb : S us b) :
    Row (fun bs ts cs => Further S bs ts cs ∧ bs.length < (as ++ [b]).length) [a]
      (ts ++ comma :: us) (as ++ [b]) := by
  have hlen : (as ++ [b]).length = as.length + 1 := by simp
  rw [hlen]
  refine Row.snoc (h.mono fun bs _ _ hlink => ⟨hlink.1, Nat.lt_succ_of_lt hlink.2⟩) ?_ (by simp)
  exact ⟨⟨comma, us, b, rfl, hc, hb, rfl⟩, Nat.lt_succ_self _⟩

end Parse

namespace Phrase

open Parse

def callFollow : List Kind := [.leftParen, .dot]

def unaryFollow : List Kind := .plusPlus :: .minusMinus :: callFollow

def binaryFollow (rows : List (List Kind)) : List Kind := rows.flatten ++ unaryFollow

def ternaryFollow : List Kind := .question :: binaryFollow precedence

def assignmentFollow : List Kind := .equal :: (compoundSigns ++ ternaryFollow)

def expressionFollow : List Kind := .comma :: assignmentFollow

def primaryStarts : List Kind :=
  [.false, .true, .nil, .number, .string, .identifier, .this, .super, .leftParen]

def expressionStarts : List Kind := .bang :: .minus :: .plusPlus :: .minusMinus :: primaryStarts

theorem Primary.starts {ts : List Token} {e : Expr} (h : Primary ts e) :
    Starts primaryStarts ts := by
  cases h with
  | constant hk => exact ⟨_, _, rfl, by rcases hk with hk | hk <;> simp [hk, primaryStarts]⟩
  | _ => exact ⟨_, _, rfl, by simp [*, primaryStarts]⟩

theorem Call.starts {ts : List Token} {e : Expr} : Call ts e → Starts primaryStarts ts
  | .primary h => h.starts
  | .call h _ _ _ => h.starts.append
  | .get h _ _ => h.starts.append

theorem Target.call {ts : List Token} {e : Expr} (h : Target ts e) : Call ts e := by
  cases h with
  | name hn => exact .primary (.name hn)
  | property h hd hn => exact .get h hd hn

/-- A call by itself is an operand of every row. -/
theorem Call.ternary {ts : List Token} {e : Expr} (h : Call ts e) : Ternary ts e :=
  .plain (.tighter (.tighter (.tighter (.tighter (.tighter (.tighter
    (.unary (.postfixed (.plain h)))))))))

theorem Postfixed.starts {ts : List Token} {e : Expr} (h : Postfixed ts e) :
    Starts primaryStarts ts := by
  cases h with
  | plain h => exact h.starts
  | update h => exact h.call.starts.append

theorem Unary.starts {ts : List Token} {e : Expr} (h : Unary ts e) : Starts expressionStarts ts := by
  cases h with
  | sign ho => exact ⟨_, _, rfl, by rcases ho with ho | ho <;> simp [ho, expressionStarts]⟩
  | update ho => exact ⟨_, _, rfl, by rcases ho with ho | ho <;> simp [ho, expressionStarts]⟩
  | postfixed h => exact h.starts.mono (by decide)

theorem Binary.starts {rows : List (List Kind)} {ts : List Token} {e : Expr} :
    Binary rows ts e → Starts expressionStarts ts
  | .unary h => h.starts
  | .tighter h => h.starts
  | .join h _ _ => h.starts.append

theorem Ternary.starts {ts : List Token} {e : Expr} (h : Ternary ts e) :
    Starts expressionStarts ts := by
  cases h with
  | plain h => exact h.starts
  | choice h => exact h.starts.append

theorem Assignment.starts {ts : List Token} {e : Expr} (h : Assignment ts e) :
    Starts expressionStarts ts := by
  cases h with
  | name hn => exact ⟨_, _, rfl, by rw [hn]; decide⟩
  | compoundName hn => exact ⟨_, _, rfl, by rw [hn]; decide⟩
  | property h => exact (h.starts.mono (by decide)).append
  | compoundProperty h => exact (h.starts.mono (by decide)).append
  | ternary h => exact h.starts

theorem Assignments.starts {ts : List Token} {es : List Expr} :
    Assignments ts es → Starts expressionStarts ts
  | .one h => h.starts
  | .more h _ _ => h.starts.append

theorem Expression.starts {ts : List Token} {e : Expr} (h : Expression ts e) :
    Starts expressionStarts ts := by
  cases h with
  | single h => exact h.starts
  | comma h => exact h.starts

/-- Assignments with commas are a first one and a row of others. -/
theorem Assignments.row {ts : List Token} {es : List Expr} : Assignments ts es →
    ∃ us vs e, ts = us ++ vs ∧ Assignment us e ∧
      Row (fun as ts bs => Further Assignment as ts bs ∧ as.length < es.length) [e] vs es
  | .one h => ⟨ts, [], _, by simp, h, .done⟩
  | .more h hc he => by
    obtain ⟨us, vs, e, rfl, hu, hrow⟩ := h.row
    exact ⟨us, vs ++ _, e, by rw [List.append_assoc], hu, hrow.further hc he⟩

/-- An expression is one assignment, or several with commas between them. -/
theorem Expression.assignments {ts : List Token} {e : Expr} (h : Expression ts e) :
    ∃ es, Assignments ts es ∧ (es = [e] ∨ 2 ≤ es.length ∧ e = .comma es) := by
  cases h with
  | single h => exact ⟨_, .one h, .inl rfl⟩
  | comma h hl => exact ⟨_, h, .inr ⟨hl, rfl⟩⟩

inductive Suffix : Expr → List Token → Expr → Prop
  | call : opening.kind = .leftParen → Arguments us args → closing.kind = .rightParen →
      Suffix e (opening :: (us ++ [closing])) (.call e closing args)
  | get : dot.kind = .dot → name.kind = .identifier → Suffix e [dot, name] (.get e name)

/-- A call is a primary and a row of argument lists and properties. -/
theorem Call.row {ts : List Token} {e : Expr} : Call ts e →
    ∃ us vs p, ts = us ++ vs ∧ Primary us p ∧ Row Suffix p vs e
  | .primary h => ⟨ts, [], _, by simp, h, .done⟩
  | .call h hl ha hr => by
    obtain ⟨us, vs, p, rfl, hp, hrow⟩ := h.row
    exact ⟨us, vs ++ _, p, by rw [List.append_assoc], hp, hrow.snoc (.call hl ha hr) (by simp)⟩
  | .get h hd hn => by
    obtain ⟨us, vs, p, rfl, hp, hrow⟩ := h.row
    exact ⟨us, vs ++ _, p, by rw [List.append_assoc], hp, hrow.snoc (.get hd hn) (by simp)⟩

def Joins (row : List Kind) (rows : List (List Kind)) (e : Expr) (ts : List Token) (e' : Expr) :
    Prop :=
  ∃ operator us right, ts = operator :: us ∧ operator.kind ∈ row ∧ Binary rows us right ∧
    e' = joined e operator right

theorem Binary.row_of_eq {all : List (List Kind)} {ts : List Token} {e : Expr}
    {row : List Kind} {rows : List (List Kind)} : Binary all ts e → all = row :: rows →
    ∃ us vs first, ts = us ++ vs ∧ Binary rows us first ∧ Row (Joins row rows) first vs e
  | .unary _, hall => by cases hall
  | .tighter h, hall => by
    cases hall
    exact ⟨ts, [], _, by simp, h, .done⟩
  | .join h ho hr, hall => by
    obtain ⟨us, vs, first, rfl, hf, hrow⟩ := h.row_of_eq hall
    cases hall
    exact ⟨us, vs ++ _, first, by rw [List.append_assoc], hf,
      hrow.snoc ⟨_, _, _, rfl, ho, hr, rfl⟩ (by simp)⟩

/-- Operands of a row of operators are a first one and a row of others. -/
theorem Binary.row {row : List Kind} {rows : List (List Kind)} {ts : List Token} {e : Expr}
    (h : Binary (row :: rows) ts e) :
    ∃ us vs first, ts = us ++ vs ∧ Binary rows us first ∧ Row (Joins row rows) first vs e :=
  h.row_of_eq rfl

/-- No operator of a row prolongs an operand of that row. -/
def Apart : List (List Kind) → Prop
  | [] => True
  | row :: rows => (∀ k ∈ row, k ∉ binaryFollow rows) ∧ Apart rows

theorem precedence_apart : Apart precedence := by
  simp [Apart, precedence, binaryFollow, unaryFollow, callFollow]

end Phrase

namespace Grammar

open Parse Cursor Phrase

/-- The rules for expressions take every phrase of at most `n` tokens. -/
structure Rules.Complete (lenient : Bool) (n : Nat) (rules : Rules Cursor) : Prop where
  assignment : ∀ ts e rest, Assignment ts e → ts.length ≤ n → Clear assignmentFollow rest →
    Takes lenient rules.assignment ts rest (·.bare = e.bare)
  ternary : ∀ ts e rest, Ternary ts e → ts.length ≤ n → Clear ternaryFollow rest →
    Takes lenient rules.ternary ts rest (·.bare = e.bare)
  unary : ∀ ts e rest, Unary ts e → ts.length ≤ n → Clear unaryFollow rest →
    Takes lenient rules.unary ts rest (·.bare = e.bare)

variable {lenient : Bool} {rules : Rules Cursor} {n : Nat} {ts rest : List Token} {e : Expr}

theorem clear_comma {ts : List Token} {t : Token} (h : t.kind = .comma) :
    Clear assignmentFollow (t :: ts) :=
  clear_cons (by rw [h]; decide)

/-- A comma cannot prolong an assignment. -/
theorem clear_further {as bs : List Expr} {us : List Token} (h : Further Assignment as us bs)
    (ws : List Token) : Clear assignmentFollow (us ++ ws) := by
  obtain ⟨comma, us, b, rfl, hc, -⟩ := h
  exact clear_comma hc

/-- The assignments after the first one of an expression. -/
theorem takes_further (h : rules.Complete lenient n) {first first' : Expr} {es : List Expr}
    (hrow : Row (fun as ts bs => Further Assignment as ts bs ∧ as.length < es.length) [first] ts es)
    (hn : ts.length ≤ n) (hr : Clear expressionFollow rest) (hf : first'.bare = first.bare) :
    Takes lenient (chain (fun read => do
        match ← accept .comma with
        | none => pure none
        | some _ => return some (read ++ [← rules.assignment])) [first']) ts rest
      fun es' => es'.map Expr.bare = es.map Expr.bare := by
  have hend : Clear [.comma] rest := hr.mono (by decide)
  refine Takes.chain (R := fun as' as => as'.map Expr.bare = as.map Expr.bare) hrow
    (hr.mono (by decide)) (fun _ _ _ ws hus => clear_further hus.1 ws) ?_ ?_ ?_
  · rintro as _ _ ws as' ⟨⟨comma, us', b, rfl, hc, hb, rfl⟩, -⟩ hle hws has
    rw [List.length_cons] at hle
    refine .accept_some hc ((h.assignment us' b ws hb (by omega) hws).finish fun b' hb' => ?_)
    exact .pure ⟨_, rfl, by simp only [List.map_append, List.map_cons, List.map_nil, has, hb']⟩
  · exact fun as => .accept_none hend (.pure rfl)
  · simp only [List.map_cons, List.map_nil, hf]

theorem takes_expression (h : rules.Complete lenient n) (he : Expression ts e) (hn : ts.length ≤ n)
    (hr : Clear expressionFollow rest) :
    Takes lenient (expression rules) ts rest (·.bare = e.bare) := by
  obtain ⟨es, hes, hform⟩ := he.assignments
  obtain ⟨us, vs, first, rfl, hu, hrow⟩ := hes.row
  rw [List.length_append] at hn
  have hrest : Clear assignmentFollow (vs ++ rest) :=
    hrow.follows (hr.mono (by decide)) fun _ _ _ ws hus => clear_further hus.1 ws
  refine (h.assignment us first (vs ++ rest) hu (by omega) hrest).bind fun first' hf =>
    (takes_further h hrow (by omega) hr hf).finish fun es' hes' => ?_
  rcases hform with rfl | ⟨hl, rfl⟩
  · obtain ⟨e', rfl, he'⟩ := List.map_eq_singleton_iff.1 hes'
    exact .pure he'
  · have hlen : es'.length = es.length := by simpa using congrArg List.length hes'
    obtain _ | ⟨e₁, _ | ⟨e₂, es'⟩⟩ := es'
    · simp at hlen
      omega
    · simp at hlen
      omega
    · refine .pure ?_
      simp only [Expr.bare, Expr.turn, Expr.turnAll_eq_map]
      exact congrArg Expr.comma hes'

theorem takes_primary (h : rules.Complete lenient n) (he : Primary ts e) (hn : ts.length ≤ n + 1) :
    Takes lenient (primary rules) ts rest (·.bare = e.bare) := by
  cases he with
  | false hk => exact .acceptAny_some (by simp [hk]) (by simp only [hk]; exact .pure rfl)
  | true hk => exact .acceptAny_some (by simp [hk]) (by simp only [hk]; exact .pure rfl)
  | nil hk => exact .acceptAny_some (by simp [hk]) (by simp only [hk]; exact .pure rfl)
  | constant hk =>
    rcases hk with hk | hk <;>
      exact .acceptAny_some (by simp [hk]) (by simp only [hk]; exact .pure rfl)
  | name hk =>
    refine .acceptAny_some (by simp [hk]) ?_
    simp only [hk]
    exact .fresh fun i => .pure rfl
  | this hk =>
    refine .acceptAny_some (by simp [hk]) ?_
    simp only [hk]
    exact .fresh fun i => .pure rfl
  | super hk hd hm =>
    refine .acceptAny_some (by simp [hk]) ?_
    simp only [hk]
    exact .expect hd (.expect hm (.fresh fun i => .pure rfl))
  | @group left ts e right hl he hr =>
    simp only [List.length_cons, List.length_append, List.length_nil] at hn
    refine .acceptAny_some (by simp [hl]) ?_
    simp only [hl]
    refine (takes_expression h he (by omega) (clear_cons (by rw [hr]; decide))).bind
      fun e' he' => .expect hr (.pure ?_)
    simp only [Expr.bare, Expr.turn] at he' ⊢
    rw [he']

theorem takes_arguments (h : rules.Complete lenient n) {es : List Expr} (he : Arguments ts es)
    (hn : ts.length ≤ n) {right : Token} (hr : right.kind = .rightParen) :
    Takes lenient (arguments rules) ts (right :: rest) (·.map Expr.bare = es.map Expr.bare) := by
  cases he with
  | none => exact .check_true rfl hr (.pure rfl)
  | some hes hl =>
    refine .check_false (hes.starts.clear (by decide)) ?_
    obtain ⟨us, vs, first, rfl, hu, hrow⟩ := hes.row
    rw [List.length_append] at hn
    have hrest : Clear assignmentFollow (right :: rest) := clear_cons (by rw [hr]; decide)
    refine Takes.items (S := Assignment) (F := Clear assignmentFollow) ?_
      (hrow.mono fun as us bs hj => ⟨hj.1, Nat.lt_of_lt_of_le hj.2 hl⟩) hrest
      (fun t ts => clear_comma) ?_ (clear_cons (by rw [hr]; decide))
    · refine h.assignment us first _ hu (by omega) (hrow.follows hrest ?_)
      rintro as _ bs ws ⟨⟨comma, us, b, rfl, hc, -⟩, -⟩
      exact clear_comma hc
    · exact fun us b ws hb hle hws => h.assignment us b ws hb (by omega) hws

theorem takes_suffix (h : rules.Complete lenient n) {e e' : Expr} (he : Suffix e ts e')
    (hn : ts.length ≤ n) {d : Expr} (hd : d.bare = e.bare) :
    Takes lenient (suffix rules d) ts rest fun o => ∃ d', o = some d' ∧ d'.bare = e'.bare := by
  simp only [Expr.bare] at hd
  cases he with
  | call hl ha hr =>
    simp only [List.length_cons, List.length_append, List.length_nil] at hn
    refine .acceptAny_some (by simp [hl]) ?_
    simp only [hl, if_true]
    refine (takes_arguments h ha (by omega) hr).bind fun args hargs =>
      .expect hr (.pure ⟨_, rfl, ?_⟩)
    simp only [Expr.bare, Expr.turn, Expr.turnAll_eq_map, hd] at hargs ⊢
    exact congrArg (Expr.call _ _) hargs
  | get hdot hname =>
    refine .acceptAny_some (by simp [hdot]) ?_
    simp only [hdot, reduceCtorEq, if_false]
    exact .expect hname (.pure ⟨_, rfl, by simp only [Expr.bare, Expr.turn, hd]⟩)

theorem takes_call (h : rules.Complete lenient n) (he : Call ts e) (hn : ts.length ≤ n + 1)
    (hr : Clear callFollow rest) : Takes lenient (call rules) ts rest (·.bare = e.bare) := by
  obtain ⟨us, vs, p, rfl, hp, hrow⟩ := he.row
  obtain ⟨t, us', rfl, -⟩ := hp.starts
  simp only [List.length_append, List.length_cons] at hn
  refine (takes_primary h hp (by simp only [List.length_cons]; omega)).bind fun p' hp' => ?_
  refine Takes.chain (R := fun d e => d.bare = e.bare) (F := fun _ => True) hrow trivial
    (fun _ _ _ _ _ => trivial) ?_ ?_ hp'
  · exact fun e us e' ws d hj hle _ hd => takes_suffix h hj (by omega) hd
  · exact fun d => .acceptAny_none hr (.pure rfl)

theorem bare_eq_var {d : Expr} {i : ExprId} {name : Token} (h : d.bare = (Expr.var i name).bare) :
    ∃ j, d = .var j name := by
  cases d <;> simp only [Expr.bare, Expr.turn, reduceCtorEq] at h
  simp only [Use.bare, Expr.var.injEq] at h
  exact ⟨_, by rw [h.2]⟩

theorem bare_eq_get {d object : Expr} {name : Token}
    (h : d.bare = (Expr.get object name).bare) :
    ∃ o, d = .get o name ∧ o.bare = object.bare := by
  cases d <;> simp only [Expr.bare, Expr.turn, reduceCtorEq] at h
  simp only [Expr.get.injEq] at h
  exact ⟨_, by rw [h.2], h.1⟩

theorem takes_update {operator : Token} {before : Bool} {d : Expr} (he : Target ts e)
    (hd : d.bare = e.bare) :
    Takes lenient (update operator d before) [] rest
      (·.bare = (Expr.update operator e before).bare) := by
  have hsame : (Expr.update operator d before).bare = (Expr.update operator e before).bare := by
    simp only [Expr.bare, Expr.turn] at hd ⊢
    rw [hd]
  cases he with
  | name hn =>
    obtain ⟨j, rfl⟩ := bare_eq_var hd
    exact .pure hsame
  | property ho hdot hn =>
    obtain ⟨o, rfl, -⟩ := bare_eq_get hd
    exact .pure hsame

theorem takes_postfixed (h : rules.Complete lenient n) (he : Postfixed ts e)
    (hn : ts.length ≤ n + 1) (hr : Clear unaryFollow rest) :
    Takes lenient (postfixed rules) ts rest (·.bare = e.bare) := by
  cases he with
  | plain he =>
    refine (takes_call h he hn (hr.mono (by decide))).finish fun d hd => ?_
    exact .acceptAny_none (hr.mono (by decide)) (.pure hd)
  | update he ho =>
    rw [List.length_append] at hn
    have hcall : Clear callFollow (_ :: rest) :=
      clear_cons (by rcases ho with ho | ho <;> rw [ho] <;> decide)
    refine (takes_call h he.call (by omega) hcall).bind fun d hd => ?_
    exact .acceptAny_some (by simpa using ho) (takes_update he hd)

theorem takes_unary (h : rules.Complete lenient n) (he : Unary ts e) (hn : ts.length ≤ n + 1)
    (hr : Clear unaryFollow rest) : Takes lenient (unary rules) ts rest (·.bare = e.bare) := by
  cases he with
  | sign ho he =>
    rw [List.length_cons] at hn
    refine .acceptAny_some (by rcases ho with ho | ho <;> simp [ho]) ?_
    refine (h.unary _ _ _ he (by omega) hr).finish fun d hd => ?_
    simp only [ho, if_true]
    refine .pure ?_
    simp only [Expr.bare, Expr.turn] at hd ⊢
    rw [hd]
  | update ho he =>
    rw [List.length_cons] at hn
    refine .acceptAny_some (by rcases ho with ho | ho <;> simp [ho]) ?_
    refine (h.unary _ _ _ (.postfixed (.plain he.call)) (by omega) hr).finish fun d hd => ?_
    rw [if_neg (by rcases ho with ho | ho <;> simp [ho])]
    exact takes_update he hd
  | postfixed he =>
    exact .acceptAny_none (he.starts.clear (by decide)) (takes_postfixed h he hn hr)

theorem joined_bare (left right : Expr) (operator : Token) :
    (joined left operator right).bare = joined left.bare operator right.bare := by
  unfold joined
  split <;> rfl

theorem takes_binary {operand : Parse Cursor Expr}
    (h : ∀ ts e rest, Unary ts e → ts.length ≤ n → Clear unaryFollow rest →
      Takes lenient operand ts rest (·.bare = e.bare)) (ls : List Level)
    (hl : ∀ level ∈ ls, level.Faithful) (hrows : Apart (ls.map Level.operators)) :
    ∀ ts e rest, Binary (ls.map Level.operators) ts e → ts.length ≤ n →
      Clear (binaryFollow (ls.map Level.operators)) rest →
      Takes lenient (binary operand ls) ts rest (·.bare = e.bare) := by
  induction ls with
  | nil =>
    intro ts e rest he hn hr
    cases he with
    | unary he => exact h ts e rest he hn hr
  | cons level ls ih =>
    intro ts e rest he hn hr
    have hls := ih (fun l hm => hl l (List.mem_cons_of_mem _ hm)) hrows.2
    obtain ⟨us, vs, first, rfl, hf, hrow⟩ := he.row
    rw [List.length_append] at hn
    have hrest : Clear (binaryFollow (ls.map Level.operators)) rest :=
      hr.mono fun k hk => by simp only [binaryFollow, List.map_cons, List.flatten_cons,
        List.mem_append] at hk ⊢; grind
    have hend : Clear level.operators rest :=
      hr.mono fun k hk => by simp [binaryFollow, hk]
    have hlink : ∀ e us e' ws, Joins level.operators (ls.map Level.operators) e us e' →
        Clear (binaryFollow (ls.map Level.operators)) (us ++ ws) := by
      rintro e _ _ ws ⟨operator, us, right, rfl, ho, -⟩
      exact clear_cons (hrows.1 _ ho)
    refine (hls us first _ hf (by omega) (hrow.follows hrest hlink)).bind fun first' hf' => ?_
    refine Takes.chain (R := fun d e => d.bare = e.bare) hrow hrest hlink ?_ ?_ hf'
    · rintro e _ _ ws d ⟨operator, us, right, rfl, ho, hb, rfl⟩ hle hws hd
      rw [List.length_cons] at hle
      refine .acceptAny_some ho ((hls us right ws hb (by omega) hws).finish fun right' hr' => ?_)
      refine .pure ⟨_, rfl, ?_⟩
      rw [hl level (by simp) _ _ _ ho, joined_bare, joined_bare, hd, hr']
    · exact fun d => .acceptAny_none hend (.pure rfl)

theorem takes_ternary (h : rules.Complete lenient n) (he : Ternary ts e) (hn : ts.length ≤ n + 1)
    (hr : Clear ternaryFollow rest) : Takes lenient (ternary rules) ts rest (·.bare = e.bare) := by
  have hbinary := takes_binary (n := n + 1) (fun ts e rest => takes_unary h) levels levels_faithful
    precedence_apart
  cases he with
  | plain he =>
    refine (hbinary _ _ _ he hn (hr.mono (by decide))).finish fun d hd => ?_
    exact .accept_none (hr.mono (by decide)) (.pure hd)
  | choice hc hq hyes hcolon hno =>
    simp only [List.length_append, List.length_cons] at hn
    refine (hbinary _ _ _ hc (by omega) (clear_cons (by rw [hq]; decide))).bind fun c' hc' => ?_
    refine .accept_some hq ?_
    refine (h.ternary _ _ _ hyes (by omega) (clear_cons (by rw [hcolon]; decide))).bind
      fun yes hyes' => .expect hcolon ?_
    refine (h.ternary _ _ _ hno (by omega) hr).finish fun no hno' => .pure ?_
    simp only [Expr.bare, Expr.turn] at hc' hyes' hno' ⊢
    rw [hc', hyes', hno']

/-- A target, a sign and a value, put together by `assignTo`. -/
theorem takes_assigned (h : rules.Complete lenient n) {us vs : List Token} {target value : Expr}
    {sign : Token} {D : Expr → Prop} (ht : Target us target)
    (hs : sign.kind = .equal ∨ sign.kind ∈ compoundSigns) (hv : Assignment vs value)
    (hn : us.length + (vs.length + 1) ≤ n + 1) (hr : Clear assignmentFollow rest)
    (hd : ∀ target' value', target'.bare = target.bare → value'.bare = value.bare →
      Takes lenient (assignTo target' sign value') [] rest D) :
    Takes lenient (assignment rules) (us ++ sign :: vs) rest D := by
  have hpos := List.length_pos_iff.2 (Unary.postfixed (.plain ht.call)).ne_nil
  have hsign : sign.kind ∈ Kind.equal :: compoundSigns := by
    rcases hs with hs | hs <;> simp [hs]
  have hfollow : ∀ k ∈ Kind.equal :: compoundSigns, k ∉ ternaryFollow := by decide
  refine (takes_ternary h ht.call.ternary (by omega) (clear_cons (hfollow _ hsign))).bind
    fun target' ht' => .acceptAny_some hsign ?_
  exact (h.assignment vs value rest hv (by omega) hr).finish fun value' hv' =>
    hd target' value' ht' hv'

theorem not_equal_of_compound {sign : Token} (h : sign.kind ∈ compoundSigns) :
    sign.kind ≠ .equal := by
  intro he
  rw [he] at h
  exact absurd h (by decide)

theorem takes_assignment (h : rules.Complete lenient n) (he : Assignment ts e)
    (hn : ts.length ≤ n + 1) (hr : Clear assignmentFollow rest) :
    Takes lenient (assignment rules) ts rest (·.bare = e.bare) := by
  cases he with
  | name hname hs hv =>
    simp only [List.length_cons] at hn
    have htarget : Target [_] (.var 0 _) := .name hname
    refine takes_assigned h htarget (.inl hs) hv
      (by simp only [List.length_cons, List.length_nil]; omega) hr fun d v hd hv => ?_
    obtain ⟨j, rfl⟩ := bare_eq_var hd
    refine .fresh fun i => .pure ?_
    simp only [hs, if_true, Expr.bare, Expr.turn, Use.bare] at hv ⊢
    rw [hv]
  | compoundName hname hs hv =>
    simp only [List.length_cons] at hn
    have htarget : Target [_] (.var 0 _) := .name hname
    refine takes_assigned h htarget (.inr hs) hv
      (by simp only [List.length_cons, List.length_nil]; omega) hr fun d v hd hv => ?_
    obtain ⟨j, rfl⟩ := bare_eq_var hd
    refine .fresh fun i => .pure ?_
    simp only [not_equal_of_compound hs, if_false, Expr.bare, Expr.turn, Use.bare] at hv ⊢
    rw [hv]
  | @property us object vs value dot name sign ho hdot hname hs hv =>
    simp only [List.length_append, List.length_cons] at hn
    have hsplit : us ++ dot :: name :: sign :: vs = (us ++ [dot, name]) ++ sign :: vs := by simp
    rw [hsplit]
    refine takes_assigned h (.property ho hdot hname) (.inl hs) hv
      (by simp only [List.length_append, List.length_cons, List.length_nil]; omega) hr
      fun d v hd hv => ?_
    obtain ⟨o, rfl, ho'⟩ := bare_eq_get hd
    refine .pure ?_
    simp only [hs, if_true, Expr.bare, Expr.turn] at hv ho' ⊢
    rw [hv, ho']
  | @compoundProperty us object vs value dot name sign ho hdot hname hs hv =>
    simp only [List.length_append, List.length_cons] at hn
    have hsplit : us ++ dot :: name :: sign :: vs = (us ++ [dot, name]) ++ sign :: vs := by simp
    rw [hsplit]
    refine takes_assigned h (.property ho hdot hname) (.inr hs) hv
      (by simp only [List.length_append, List.length_cons, List.length_nil]; omega) hr
      fun d v hd hv => ?_
    obtain ⟨o, rfl, ho'⟩ := bare_eq_get hd
    refine .pure ?_
    simp only [not_equal_of_compound hs, if_false, Expr.bare, Expr.turn] at hv ho' ⊢
    rw [hv, ho']
  | ternary he =>
    refine (takes_ternary h he hn (hr.mono (by decide))).finish fun d hd => ?_
    exact .acceptAny_none (hr.mono (by decide)) (.pure hd)

theorem Rules.upTo_complete (lenient : Bool) (n : Nat) : (Rules.upTo n).Complete lenient n := by
  induction n with
  | zero =>
    refine ⟨fun ts e rest he hn _ => ?_, fun ts e rest he hn _ => ?_, fun ts e rest he hn _ => ?_⟩
    · exact absurd (List.length_eq_zero_iff.1 (Nat.le_zero.1 hn)) he.ne_nil
    · exact absurd (List.length_eq_zero_iff.1 (Nat.le_zero.1 hn)) (Assignment.ternary he).ne_nil
    · exact absurd (List.length_eq_zero_iff.1 (Nat.le_zero.1 hn)) he.ne_nil
  | succ n ih =>
    exact ⟨fun ts e rest => takes_assignment ih, fun ts e rest => takes_ternary ih,
      fun ts e rest => takes_unary ih⟩

end Grammar

end Scriptling
