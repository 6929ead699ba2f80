import Scriptling.Proofs.Taking

namespace Scriptling

namespace Phrase

open Parse

def statementStarts : List Kind :=
  .for :: .if :: .while :: .return :: .break :: .next :: .leftBrace :: expressionStarts

def declarationStarts : List Kind := .classKeyword :: .func :: .var :: statementStarts

variable {manner : Manner} {ts us : List Token}

theorem Block.starts {ss : List Stmt} (h : Block manner ts ss) : Starts [.leftBrace] ts := by
  cases h with
  | block hl => exact ⟨_, _, rfl, by simp [hl]⟩

theorem VarDecl.starts {s : Stmt} (h : VarDecl manner ts s) : Starts [.var] ts := by
  cases h <;> exact ⟨_, _, rfl, by simp [*]⟩

theorem Statement.starts {s : Stmt} {opened : Bool} (h : Statement manner ts s opened) :
    Starts statementStarts ts := by
  cases h with
  | expr h => exact (h.starts.mono (by decide)).append
  | block h => exact h.starts.mono (by decide)
  | _ => exact ⟨_, _, rfl, by simp [*, statementStarts]⟩

theorem Declaration.starts {s : Stmt} (h : Declaration manner ts s) :
    Starts declarationStarts ts := by
  cases h with
  | var h => exact h.starts.mono (by decide)
  | statement h => exact h.starts.mono (by decide)
  | _ => exact ⟨_, _, rfl, by simp [*, declarationStarts]⟩

theorem Function.starts {d : FunctionDecl} (h : Function manner ts d) : Starts [.identifier] ts := by
  cases h with
  | function hn => exact ⟨_, _, rfl, by simp [hn]⟩

def Declared (manner : Manner) (as : List Stmt) (ts : List Token) (bs : List Stmt) : Prop :=
  ∃ s, Declaration manner ts s ∧ bs = as ++ [s]

theorem Declarations.row {ts : List Token} {ss : List Stmt} : Declarations manner ts ss →
    Row (Declared manner) [] ts ss
  | .none => .done
  | .more h hd => h.row.snoc ⟨_, hd, rfl⟩ hd.ne_nil

def Joined (manner : Manner) (r : List FunctionDecl × List FunctionDecl) (ts : List Token)
    (r' : List FunctionDecl × List FunctionDecl) : Prop :=
  (∃ d, Function manner ts d ∧ r' = (r.1 ++ [d], r.2)) ∨
    ∃ keyword us d, ts = keyword :: us ∧ keyword.kind = .static ∧ Function manner us d ∧
      r' = (r.1, r.2 ++ [d])

/-- The members of a class are a row of methods. -/
theorem Members.row {ts : List Token} {ms ss : List FunctionDecl} : Members manner ts ms ss →
    Row (Joined manner) ([], []) ts (ms, ss)
  | .none => .done
  | .method h hd => h.row.snoc (.inl ⟨_, hd, rfl⟩) (by
      obtain ⟨t, us, rfl, -⟩ := hd.starts
      simp)
  | .static h hk hd => h.row.snoc (.inr ⟨_, _, _, rfl, hk, hd, rfl⟩) (by simp)

/-- Parameters are a first one and a row of others. -/
theorem Parameters.row {ps : List Param} (h : Parameters ts ps) :
    ∃ us vs p, ts = us ++ vs ∧ Parameter us p ∧
      Row (fun as ts bs => Further Parameter as ts bs ∧ as.length < ps.length) [p] vs ps := by
  induction h with
  | one h => exact ⟨_, [], _, by simp, h, .done⟩
  | more _ hc hp ih =>
    obtain ⟨us, vs, p, rfl, hu, hrow⟩ := ih
    exact ⟨us, vs ++ _, p, by rw [List.append_assoc], hu, hrow.further hc hp⟩

theorem Parameter.starts {p : Param} (h : Parameter ts p) : Starts [.identifier] ts := by
  cases h with
  | plain hn => exact ⟨_, _, rfl, by simp [hn]⟩
  | fallback hn => exact ⟨_, _, rfl, by simp [hn]⟩

/-- In a strict reading a statement ends with its sign, which ends it in every reading. -/
theorem Ending.ends {lenient : Bool} {rest : List Token} (h : Ending nearest ts) :
    Ends lenient ts rest := by
  cases h with
  | sign ht => exact .sign ht
  | bare hb => cases hb

end Phrase

namespace Grammar

open Parse Cursor Phrase

/-- Rules that take long phrases take short ones. -/
theorem Rules.Complete.mono {lenient : Bool} {rules : Rules Cursor} {m n : Nat}
    (h : rules.Complete lenient n) (hm : m ≤ n) : rules.Complete lenient m :=
  ⟨fun ts e rest he hl => h.assignment ts e rest he (Nat.le_trans hl hm),
    fun ts e rest he hl => h.ternary ts e rest he (Nat.le_trans hl hm),
    fun ts e rest he hl => h.unary ts e rest he (Nat.le_trans hl hm)⟩

/-- The rules for statements take every statement of at most `n` tokens. -/
structure Blocks.Complete (lenient : Bool) (n : Nat) (blocks : Blocks Cursor) : Prop where
  declaration : ∀ ts s rest, Declaration nearest ts s → ts.length ≤ n → Clear [.else] rest →
    Takes lenient blocks.declaration ts rest fun o => ∃ s', o = some s' ∧ s'.bare = s.bare
  statement : ∀ ts s opened rest, Statement nearest ts s opened → ts.length ≤ n →
    (opened = true → Clear [.else] rest) → Takes lenient blocks.statement ts rest (·.bare = s.bare)

variable {lenient : Bool} {rules : Rules Cursor} {blocks : Blocks Cursor} {n : Nat}
  {ts rest : List Token}

theorem takes_declarations (hb : blocks.Complete lenient n) {more : Parse Cursor Bool} {ss : List Stmt}
    (hs : Declarations nearest ts ss) (hn : ts.length ≤ n)
    (hmore : ∀ us s ws, Declaration nearest us s → Takes lenient more [] (us ++ ws) (· = true))
    (hend : Takes lenient more [] rest (· = false)) (hr : Clear [.else] rest) :
    Takes lenient (declarations blocks more) ts rest (·.map Stmt.bare = ss.map Stmt.bare) := by
  refine Takes.chain (R := fun as' as => as'.map Stmt.bare = as.map Stmt.bare) hs.row hr ?_ ?_ ?_
    rfl
  · rintro as us _ ws ⟨s, hd, rfl⟩
    exact hd.starts.clear (by decide)
  · rintro as us _ ws as' ⟨s, hd, rfl⟩ hle hws has
    refine (hmore us s ws hd).begin ?_
    rintro _ rfl
    refine (hb.declaration us s ws hd (by omega) hws).finish ?_
    rintro _ ⟨s', rfl, hs'⟩
    refine .pure ⟨_, rfl, ?_⟩
    simp only [Option.toList_some, List.map_append, List.map_cons, List.map_nil, has, hs']
  · intro as
    refine hend.finish ?_
    rintro _ rfl
    exact .pure rfl

theorem takes_block (hb : blocks.Complete lenient n) {left : Token} {ss : List Stmt}
    (hs : Block nearest (left :: ts) ss) (hn : ts.length ≤ n + 1) :
    Takes lenient (block blocks) ts rest (·.map Stmt.bare = ss.map Stmt.bare) := by
  cases hs with
  | block hl hs hr =>
    rw [List.length_append] at hn
    have hclear : Clear [.else] (_ :: rest) := clear_cons (by rw [hr]; decide)
    refine (takes_declarations hb hs (by simp at hn; omega) ?_ ?_ hclear).bind fun body hbody =>
      .expect hr (.pure hbody)
    · intro us s ws hd
      have hstarts := hd.starts
      have hclear : Clear [.rightBrace] ([] ++ (us ++ ws)) := hstarts.clear (by decide)
      refine .check_false hclear (.atEnd (.pure ?_))
      obtain ⟨t, us, rfl, -⟩ := hstarts
      rfl
    · exact .check_true rfl hr (.atEnd (.pure rfl))

theorem takes_param (h : rules.Complete lenient n) {p : Param} (hp : Parameter ts p)
    (hn : ts.length ≤ n) (hr : Clear assignmentFollow rest) :
    Takes lenient (param rules) ts rest (·.bare = p.bare) := by
  cases hp with
  | plain hname =>
    exact .expect hname (.accept_none (hr.mono (by decide)) (.pure rfl))
  | fallback hname hs he =>
    simp only [List.length_cons] at hn
    refine .expect hname (.accept_some hs ?_)
    refine (h.assignment _ _ _ he (by omega) hr).finish fun e' he' => .pure ?_
    simp only [Expr.bare] at he'
    simp only [Param.bare, Param.turn, Option.map_some, he']

theorem takes_params (h : rules.Complete lenient n) {ps : List Param} (hp : ParameterList ts ps)
    (hn : ts.length ≤ n) {right : Token} (hr : right.kind = .rightParen) :
    Takes lenient (params rules) ts (right :: rest) (·.map Param.bare = ps.map Param.bare) := by
  cases hp with
  | none => exact .check_true rfl hr (.pure rfl)
  | some hps hl =>
    obtain ⟨us, vs, first, rfl, hu, hrow⟩ := hps.row
    rw [List.length_append] at hn
    refine .check_false (hu.starts.append.clear (by decide)) ?_
    have hrest : Clear assignmentFollow (right :: rest) := clear_cons (by rw [hr]; decide)
    refine Takes.items (S := Parameter) (F := Clear assignmentFollow) ?_
      (hrow.mono fun as us bs hj => ⟨hj.1, Nat.lt_of_lt_of_le hj.2 hl⟩) hrest
      (fun t ts => clear_comma) ?_ (clear_cons (by rw [hr]; decide))
    · refine takes_param h hu (by omega) (hrow.follows hrest ?_)
      rintro as _ bs ws ⟨⟨comma, us, b, rfl, hc, -⟩, -⟩
      exact clear_comma hc
    · exact fun us b ws hb hle hws => takes_param h hb (by omega) hws

theorem takes_function (h : rules.Complete lenient n) (hb : blocks.Complete lenient n)
    {d : FunctionDecl} (hd : Function nearest ts d) (hn : ts.length ≤ n + 1) (role : Role) :
    Takes lenient (function rules blocks role) ts rest (·.bare = d.bare) := by
  cases hd with
  | function hname hl hps hr hbody =>
    obtain ⟨left, bs, rfl, hleft⟩ := hbody.starts
    simp only [List.length_cons, List.length_append] at hn
    refine .expect hname (.expect hl ((takes_params h hps (by omega) hr).bind fun ps hps' => ?_))
    refine .expect hr (.expect (List.mem_singleton.1 hleft) ?_)
    refine (takes_block hb hbody (by omega)).finish fun body hbody' => .pure ?_
    simp only [Param.bare, Stmt.bare] at hps' hbody'
    simp only [FunctionDecl.bare, FunctionDecl.turn, Stmt.turnAll_eq_map, hps', hbody']

theorem takes_methods (h : rules.Complete lenient n) (hb : blocks.Complete lenient n)
    {ms ss : List FunctionDecl} (hm : Members nearest ts ms ss) (hn : ts.length ≤ n)
    {right : Token} (hr : right.kind = .rightBrace) :
    Takes lenient (methods rules blocks) ts (right :: rest) fun r =>
      r.1.map FunctionDecl.bare = ms.map FunctionDecl.bare ∧
        r.2.map FunctionDecl.bare = ss.map FunctionDecl.bare := by
  refine Takes.chain (F := fun _ => True) (R := fun r' r =>
    r'.1.map FunctionDecl.bare = r.1.map FunctionDecl.bare ∧
      r'.2.map FunctionDecl.bare = r.2.map FunctionDecl.bare) hm.row trivial
      (fun _ _ _ _ _ => trivial) ?_ ?_ ⟨rfl, rfl⟩
  · rintro ⟨as, bs⟩ us r ws ⟨as', bs'⟩ hj hle - ⟨has, hbs⟩
    rcases hj with ⟨d, hd, rfl⟩ | ⟨keyword, us, d, rfl, hk, hd, rfl⟩
    · have hstarts := hd.starts
      refine .check_false (hstarts.clear (by decide)) (.atEnd ?_)
      have hne : (us ++ ws).isEmpty = false := by
        obtain ⟨t, vs, rfl, -⟩ := hstarts
        rfl
      simp only [hne, Bool.or_false, Bool.false_eq_true, if_false]
      refine .accept_none (hstarts.clear (by decide)) ?_
      refine (takes_function h hb hd (by omega) .method).finish fun d' hd' => .pure ⟨_, rfl, ?_, hbs⟩
      simp only [List.map_append, List.map_cons, List.map_nil, has, hd']
    · rw [List.length_cons] at hle
      refine .check_false (clear_cons (by rw [hk]; decide)) (.atEnd ?_)
      simp only [List.cons_append, List.isEmpty_cons, Bool.or_false, Bool.false_eq_true, if_false]
      refine .accept_some hk ?_
      refine (takes_function h hb hd (by omega) .static).finish fun d' hd' => .pure ⟨_, rfl, has, ?_⟩
      simp only [List.map_append, List.map_cons, List.map_nil, hbs, hd']
  · rintro ⟨as, bs⟩
    exact .check_true rfl hr (.atEnd (.pure rfl))

theorem takes_superclass {parent : Option Superclass} (hp : Heritage ts parent)
    (hr : Clear [.less, .leftArrow] rest) :
    Takes lenient superclass ts rest (·.map Superclass.bare = parent.map Superclass.bare) := by
  cases hp with
  | none => exact .acceptAny_none hr (.pure rfl)
  | some hs hn =>
    exact .acceptAny_some (by simpa using hs) (.expect hn (.fresh fun i => .pure rfl))

theorem takes_classDecl (h : rules.Complete lenient n) (hb : blocks.Complete lenient n)
    {name left right : Token} {hs ms : List Token} {parent : Option Superclass}
    {methods statics : List FunctionDecl}
    (hname : name.kind = .identifier) (hp : Heritage hs parent) (hl : left.kind = .leftBrace)
    (hm : Members nearest ms methods statics) (hr : right.kind = .rightBrace)
    (hn : ms.length ≤ n) :
    Takes lenient (classDecl rules blocks) (name :: (hs ++ left :: (ms ++ [right]))) rest
      (·.bare = (Stmt.class name parent methods statics).bare) := by
  have hclear : Clear [.less, .leftArrow] (left :: (ms ++ [right]) ++ rest) :=
    clear_cons (by rw [hl]; decide)
  refine .expect hname ((takes_superclass hp hclear).bind fun parent' hp' => .expect hl ?_)
  refine (takes_methods h hb hm hn hr).bind fun r hr' => .expect hr (.pure ?_)
  simp only [Stmt.bare, Stmt.turn, FunctionDecl.turnAll_eq_map]
  simp only [Superclass.bare, FunctionDecl.bare] at hp' hr'
  rw [hp', hr'.1, hr'.2]

theorem takes_varPlain {name : Token} {us : List Token} (hname : name.kind = .identifier)
    (hend : Ends lenient us rest) :
    Takes lenient (varDecl rules) (name :: us) rest (·.bare = (Stmt.var name none).bare) := by
  refine .expect hname (.accept_none (hend.clear (by decide)) ?_)
  refine (Takes.pure (D := (· = none)) rfl).begin ?_
  rintro _ rfl
  exact hend.takes.finish fun _ _ => .pure rfl

theorem takes_varInitial (h : rules.Complete lenient n) {name sign : Token} {us : List Token}
    {e : Expr} (hname : name.kind = .identifier) (hsign : sign.kind = .equal)
    (he : Expression ts e) (hn : ts.length ≤ n) (hend : Ends lenient us rest) :
    Takes lenient (varDecl rules) (name :: sign :: (ts ++ us)) rest
      (·.bare = (Stmt.var name (some e)).bare) := by
  refine .expect hname (.accept_some hsign ?_)
  refine Takes.bind (.map (E := fun o => ∃ e', o = some e' ∧ e'.bare = _)
    ((takes_expression h he hn (hend.clear (by decide))).mono fun e' he' => ⟨e', rfl, he'⟩)) ?_
  rintro _ ⟨e', rfl, he'⟩
  refine hend.takes.finish fun _ _ => .pure ?_
  simp only [Expr.bare] at he'
  simp only [Stmt.bare, Stmt.turn, Option.map_some, he']

theorem takes_varDecl (h : rules.Complete lenient n) {keyword : Token} {s : Stmt}
    (hs : VarDecl nearest (keyword :: ts) s) (hn : ts.length ≤ n) :
    Takes lenient (varDecl rules) ts rest (·.bare = s.bare) := by
  cases hs with
  | plain hk hname he => exact takes_varPlain hname he.ends
  | initial hk hname hsign he hend =>
    simp only [List.length_cons, List.length_append] at hn
    exact takes_varInitial h hname hsign he (by omega) hend.ends

theorem takes_expressionStmt (h : rules.Complete lenient n) {us : List Token} {e : Expr}
    (he : Expression ts e) (hn : ts.length ≤ n) (hend : Ends lenient us rest) :
    Takes lenient (expressionStmt rules) (ts ++ us) rest (·.bare = (Stmt.expr e).bare) := by
  refine (takes_expression h he hn (hend.clear (by decide))).bind fun e' he' => ?_
  refine hend.takes.finish fun _ _ => .pure ?_
  simp only [Expr.bare] at he'
  simp only [Stmt.bare, Stmt.turn, he']

theorem takes_forInitial (h : rules.Complete lenient n) {initial : Option Stmt}
    (hi : ForInitial nearest ts initial) (hn : ts.length ≤ n) :
    Takes lenient (forInitial rules) ts rest (·.map Stmt.bare = initial.map Stmt.bare) := by
  cases hi with
  | none ht =>
    refine .acceptAny_some (by simp [ht]) ?_
    simp only [ht, if_true]
    exact .pure rfl
  | var hv =>
    obtain ⟨keyword, us, rfl, hk⟩ := hv.starts
    have hvar := List.mem_singleton.1 hk
    rw [List.length_cons] at hn
    refine .acceptAny_some (by simp [hvar]) ?_
    simp only [hvar, reduceCtorEq, if_false]
    exact .map ((takes_varDecl h hv (by omega)).mono fun s hs => by simp only [Option.map_some, hs])
  | expr he hend =>
    rw [List.length_append] at hn
    refine .acceptAny_none (he.starts.append.clear (by decide)) ?_
    refine .map ((takes_expressionStmt h he (by omega) hend.ends).mono fun s hs => ?_)
    simp only [Option.map_some, hs]

/-- A part that may be left out is there unless the token behind it comes at once. -/
theorem takes_presence {β : Type} {us vs : List Token} {o : Option Expr} (ho : Optional us o)
    {t : Token} {kind : Kind} (ht : t.kind = kind) (hk : kind ∉ expressionStarts)
    {q : Bool → Parse Cursor β} {E : β → Prop}
    (h : Takes lenient (q us.isEmpty) (us ++ t :: vs) rest E) :
    Takes lenient (check kind >>= q) (us ++ t :: vs) rest E := by
  cases ho with
  | none => exact .check_true rfl ht h
  | some he =>
    have hstarts := he.starts
    have hne : us.isEmpty = false := by
      obtain ⟨t, us, rfl, -⟩ := hstarts
      rfl
    rw [hne] at h
    refine .check_false (hstarts.append.clear fun k hm hc => ?_) h
    exact hk (List.mem_singleton.1 hc ▸ hm)

theorem takes_optional {β : Type} (h : rules.Complete lenient n) {us vs : List Token}
    {o : Option Expr} (ho : Optional us o) (hn : us.length ≤ n)
    (hr : Clear expressionFollow (vs ++ rest))
    {then' : Option Expr → Parse Cursor β} {E : β → Prop}
    (ht : ∀ o', o'.map Expr.bare = o.map Expr.bare → Takes lenient (then' o') vs rest E) :
    Takes lenient (if us.isEmpty then pure none >>= then' else some <$> expression rules >>= then')
      (us ++ vs) rest E := by
  cases ho with
  | none =>
    refine (Takes.pure (D := (· = none)) rfl).begin ?_
    rintro _ rfl
    exact ht none rfl
  | some he =>
    rw [if_neg (by simpa using he.ne_nil)]
    refine Takes.bind (.map ((takes_expression h he hn hr).mono fun e' he' => ?_)) ht
    simp only [Option.map_some, he']

theorem takes_condition {β : Type} (h : rules.Complete lenient n) {us vs : List Token}
    {o : Option Expr} (ho : Optional us o) (hn : us.length ≤ n)
    (hr : Clear expressionFollow (vs ++ rest))
    {then' : Expr → Parse Cursor β} {E : β → Prop}
    (ht : ∀ c, c.bare = (o.getD (.literal (.bool true))).bare → Takes lenient (then' c) vs rest E) :
    Takes lenient (if us.isEmpty then pure (.literal (.bool true)) >>= then'
      else expression rules >>= then') (us ++ vs) rest E := by
  cases ho with
  | none =>
    refine (Takes.pure (D := (·.bare = (Expr.literal (.bool true)).bare)) rfl).begin ?_
    exact ht
  | some he =>
    rw [if_neg (by simpa using he.ne_nil)]
    exact (takes_expression h he hn hr).bind ht

theorem takes_forStmt (h : rules.Complete lenient n) {left sign right : Token}
    {is cs ns bs : List Token} {initial : Option Stmt} {condition increment : Option Expr}
    {body : Stmt} (hl : left.kind = .leftParen) (hi : ForInitial nearest is initial)
    (hc : Optional cs condition) (hs : sign.kind = .semicolon) (hi' : Optional ns increment)
    (hr : right.kind = .rightParen)
    (hn : (left :: (is ++ (cs ++ sign :: (ns ++ right :: bs)))).length ≤ n)
    (hbody : Takes lenient blocks.statement bs rest (·.bare = body.bare)) :
    Takes lenient (forStmt rules blocks) (left :: (is ++ (cs ++ sign :: (ns ++ right :: bs)))) rest
      (·.bare = (forLoop initial condition increment body).bare) := by
  simp only [List.length_cons, List.length_append] at hn
  refine .expect hl ((takes_forInitial h hi (by omega)).bind fun initial' hinitial => ?_)
  refine takes_presence hc hs (by decide) ?_
  refine takes_condition h hc (by omega) (clear_cons (by rw [hs]; decide)) fun c' hc' => ?_
  refine .expect hs (takes_presence hi' hr (by decide) ?_)
  refine takes_optional h hi' (by omega) (clear_cons (by rw [hr]; decide)) fun inc' hinc => ?_
  refine .expect hr (hbody.finish fun body' hbody' => ?_)
  simp only [Expr.bare, Stmt.bare] at hc' hinc hbody' hinitial
  cases initial with
  | none =>
    obtain rfl : initial' = none := by simpa using hinitial
    refine .pure ?_
    simp only [forLoop, Stmt.bare, Stmt.turn, hc', hinc, hbody']
  | some first =>
    obtain ⟨first', rfl, hf⟩ := Option.map_eq_some_iff.1 hinitial
    refine .pure ?_
    simp only [forLoop, Stmt.bare, Stmt.turn, Stmt.turnAll_eq_map, List.map_cons, List.map_nil, hc',
      hinc, hbody', hf]

theorem takes_ifStmt (h : rules.Complete lenient n) {left right : Token} {cs ts : List Token}
    {c : Expr} {s : Stmt} (hl : left.kind = .leftParen) (hc : Expression cs c)
    (hr : right.kind = .rightParen) (hn : (left :: (cs ++ right :: ts)).length ≤ n)
    (hs : Takes lenient blocks.statement ts rest (·.bare = s.bare)) (hrest : Clear [.else] rest) :
    Takes lenient (ifStmt rules blocks) (left :: (cs ++ right :: ts)) rest
      (·.bare = (Stmt.ifThen c s).bare) := by
  simp only [List.length_cons, List.length_append] at hn
  refine .expect hl ((takes_expression h hc (by omega) (clear_cons (by rw [hr]; decide))).bind
    fun c' hc' => .expect hr ?_)
  refine hs.finish fun s' hs' => .accept_none hrest (.pure ?_)
  simp only [Expr.bare, Stmt.bare] at hc' hs'
  simp only [Stmt.bare, Stmt.turn, hc', hs']

theorem takes_ifElse (h : rules.Complete lenient n) {left right otherwise : Token}
    {cs ts us : List Token} {c : Expr} {s d : Stmt} (hl : left.kind = .leftParen)
    (hc : Expression cs c) (hr : right.kind = .rightParen) (ho : otherwise.kind = .else)
    (hn : (left :: (cs ++ right :: (ts ++ otherwise :: us))).length ≤ n)
    (hs : Takes lenient blocks.statement ts (otherwise :: us ++ rest) (·.bare = s.bare))
    (hd : Takes lenient blocks.statement us rest (·.bare = d.bare)) :
    Takes lenient (ifStmt rules blocks) (left :: (cs ++ right :: (ts ++ otherwise :: us))) rest
      (·.bare = (Stmt.ifElse c s d).bare) := by
  simp only [List.length_cons, List.length_append] at hn
  refine .expect hl ((takes_expression h hc (by omega) (clear_cons (by rw [hr]; decide))).bind
    fun c' hc' => .expect hr ?_)
  refine hs.bind fun s' hs' => .accept_some ho (hd.finish fun d' hd' => .pure ?_)
  simp only [Expr.bare, Stmt.bare] at hc' hs' hd'
  simp only [Stmt.bare, Stmt.turn, hc', hs', hd']

theorem takes_whileStmt (h : rules.Complete lenient n) {left right : Token} {cs ts : List Token}
    {c : Expr} {s : Stmt} (hl : left.kind = .leftParen) (hc : Expression cs c)
    (hr : right.kind = .rightParen) (hn : (left :: (cs ++ right :: ts)).length ≤ n)
    (hs : Takes lenient blocks.statement ts rest (·.bare = s.bare)) :
    Takes lenient (whileStmt rules blocks) (left :: (cs ++ right :: ts)) rest
      (·.bare = (Stmt.while c s).bare) := by
  simp only [List.length_cons, List.length_append] at hn
  refine .expect hl ((takes_expression h hc (by omega) (clear_cons (by rw [hr]; decide))).bind
    fun c' hc' => .expect hr (hs.finish fun s' hs' => .pure ?_))
  simp only [Expr.bare, Stmt.bare] at hc' hs'
  simp only [Stmt.bare, Stmt.turn, hc', hs']

/-- A value is left out where the statement ends at once. -/
theorem takes_returnStmt (h : rules.Complete lenient n) {keyword : Token} {us vs : List Token}
    {value : Option Expr} (hv : Optional vs value) (hn : vs.length ≤ n)
    (hend : Ends lenient us rest) :
    Takes lenient (returnStmt rules keyword) (vs ++ us) rest
      (·.bare = (Stmt.return keyword value).bare) := by
  have hclose : ∀ value' : Option Expr, value'.map Expr.bare = value.map Expr.bare →
      Takes lenient (do terminator .returnEnd; pure (Stmt.return keyword value')) us rest
        (·.bare = (Stmt.return keyword value).bare) := by
    intro value' hvalue'
    refine hend.takes.finish fun _ _ => .pure ?_
    simp only [Expr.bare] at hvalue'
    simp only [Stmt.bare, Stmt.turn, hvalue']
  have hvalue := takes_optional h hv hn (hend.clear (by decide)) hclose
  cases hv with
  | none =>
    cases hend with
    | sign ht => exact .check_true rfl ht (.atEnd hvalue)
    | bare _ => exact .check_false clear_nil (.atEnd hvalue)
  | some he =>
    have hstarts := he.starts
    refine .check_false (hstarts.append.clear (by decide)) (.atEnd ?_)
    obtain ⟨t, vs, rfl, -⟩ := hstarts
    exact hvalue

theorem takes_statement (h : rules.Complete lenient (n + 1)) (hb : blocks.Complete lenient n)
    {s : Stmt} {opened : Bool} (hs : Statement nearest ts s opened) (hn : ts.length ≤ n + 1)
    (hrest : opened = true → Clear [.else] rest) :
    Takes lenient (statement rules blocks) ts rest (·.bare = s.bare) := by
  have h' := h.mono (Nat.le_succ n)
  cases hs with
  | expr he hend =>
    rw [List.length_append] at hn
    exact .acceptAny_none (he.starts.append.clear (by decide))
      (takes_expressionStmt h he (by omega) hend.ends)
  | «for» hk hl hi hc hs hi' hr hbody =>
    simp only [List.length_cons, List.length_append] at hn
    refine .acceptAny_some (by simp [hk]) ?_
    simp only [hk]
    refine takes_forStmt h' hl hi hc hs hi' hr (by simp; omega) ?_
    exact hb.statement _ _ _ _ hbody (by omega) hrest
  | ifThen hk hl hc hr hs =>
    simp only [List.length_cons, List.length_append] at hn
    refine .acceptAny_some (by simp [hk]) ?_
    simp only [hk]
    refine takes_ifStmt h' hl hc hr (by simp; omega) ?_ (hrest rfl)
    exact hb.statement _ _ _ _ hs (by omega) fun _ => hrest rfl
  | ifElse hk hl hc hr hs hopened ho hd =>
    obtain rfl := hopened rfl
    simp only [List.length_cons, List.length_append] at hn
    refine .acceptAny_some (by simp [hk]) ?_
    simp only [hk]
    refine takes_ifElse h' hl hc hr ho (by simp; omega) ?_ ?_
    · exact hb.statement _ _ _ _ hs (by omega) nofun
    · exact hb.statement _ _ _ _ hd (by omega) hrest
  | «while» hk hl hc hr hs =>
    simp only [List.length_cons, List.length_append] at hn
    refine .acceptAny_some (by simp [hk]) ?_
    simp only [hk]
    refine takes_whileStmt h' hl hc hr (by simp; omega) ?_
    exact hb.statement _ _ _ _ hs (by omega) hrest
  | «return» hk hv hend =>
    simp only [List.length_cons, List.length_append] at hn
    refine .acceptAny_some (by simp [hk]) ?_
    simp only [hk]
    exact takes_returnStmt h hv (by omega) hend.ends
  | «break» hk hend =>
    refine .acceptAny_some (by simp [hk]) ?_
    simp only [hk]
    exact hend.ends.takes.finish fun _ _ => .pure rfl
  | next hk hend =>
    refine .acceptAny_some (by simp [hk]) ?_
    simp only [hk]
    exact hend.ends.takes.finish fun _ _ => .pure rfl
  | block hblock =>
    obtain ⟨left, bs, rfl, hl⟩ := hblock.starts
    have hk := List.mem_singleton.1 hl
    rw [List.length_cons] at hn
    refine .acceptAny_some (by simp [hk]) ?_
    simp only [hk]
    refine .map ((takes_block hb hblock (by omega)).mono fun body hbody => ?_)
    simp only [Stmt.bare] at hbody
    simp only [Stmt.bare, Stmt.turn, Stmt.turnAll_eq_map, hbody]

theorem takes_declaration (h : rules.Complete lenient (n + 1)) (hb : blocks.Complete lenient n)
    {s : Stmt} (hs : Declaration nearest ts s) (hn : ts.length ≤ n + 1) (hrest : Clear [.else] rest) :
    Takes lenient (declaration rules blocks) ts rest (·.bare = s.bare) := by
  have h' := h.mono (Nat.le_succ n)
  cases hs with
  | «class» hk hname hp hl hm hr =>
    simp only [List.length_cons, List.length_append] at hn
    refine .acceptAny_some (by simp [hk]) ?_
    simp only [hk]
    exact takes_classDecl h' hb hname hp hl hm hr (by omega)
  | function hk hf =>
    rw [List.length_cons] at hn
    refine .acceptAny_some (by simp [hk]) ?_
    simp only [hk]
    refine .map ((takes_function h' hb hf (by omega) .function).mono fun d hd => ?_)
    simp only [FunctionDecl.bare] at hd
    simp only [Stmt.bare, Stmt.turn, hd]
  | var hv =>
    obtain ⟨keyword, us, rfl, hk⟩ := hv.starts
    have hvar := List.mem_singleton.1 hk
    rw [List.length_cons] at hn
    refine .acceptAny_some (by simp [hvar]) ?_
    simp only [hvar]
    exact takes_varDecl h hv (by omega)
  | statement hs =>
    exact .acceptAny_none (hs.starts.clear (by decide))
      (takes_statement h hb hs hn fun _ => hrest)

theorem Blocks.upTo_complete {N : Nat} (h : rules.Complete lenient N) (n : Nat) (hn : n ≤ N) :
    (Blocks.upTo rules n).Complete lenient n := by
  induction n with
  | zero =>
    refine ⟨fun ts s rest hs hz _ => ?_, fun ts s opened rest hs hz _ => ?_⟩
    · exact absurd (List.length_eq_zero_iff.1 (Nat.le_zero.1 hz)) hs.ne_nil
    · exact absurd (List.length_eq_zero_iff.1 (Nat.le_zero.1 hz)) (Declaration.statement hs).ne_nil
  | succ n ih =>
    have hb := ih (Nat.le_of_succ_le hn)
    exact ⟨fun ts s rest hs hl hr => .recovering (takes_declaration (h.mono hn) hb hs hl hr),
      fun ts s opened rest => takes_statement (h.mono hn) hb⟩

theorem takes_program (lenient : Bool) {ss : List Stmt} (hs : Program nearest ts ss)
    (hn : ts.length ≤ n) :
    Takes lenient (program n) ts [] (·.map Stmt.bare = ss.map Stmt.bare) := by
  have hb := Blocks.upTo_complete (Rules.upTo_complete lenient n) n (Nat.le_refl n)
  refine takes_declarations hb hs hn ?_ (.atEnd (.pure rfl)) clear_nil
  intro us s ws hd
  refine .atEnd (.pure ?_)
  obtain ⟨t, us, rfl, -⟩ := hd.starts
  rfl

end Grammar

/-- A program of the grammar is read without a fault, and its tree is the one that is read. -/
theorem parse_of_program {lenient : Bool} {nextId : ExprId} {tokens : List Token} {ss : List Stmt}
    (h : Phrase.Program Phrase.nearest (tokens.takeWhile (·.kind ≠ .eof)) ss) :
    ∃ ss', (parse lenient nextId tokens).result = .ok ss' ∧
      ss'.map Stmt.bare = ss.map Stmt.bare := by
  obtain ⟨ss', n, hp, hs⟩ := Grammar.takes_program false h (Nat.le_succ _)
    (Cursor.start lenient nextId tokens) nofun (by rw [List.append_nil]; rfl)
  refine ⟨ss', ?_, hs⟩
  simp only [parse_eq, Cursor.parse]
  rw [show (Cursor.start lenient nextId tokens).rest.length + 1 =
    (tokens.takeWhile (·.kind ≠ .eof)).length.succ from rfl, hp]
  rfl

end Scriptling
