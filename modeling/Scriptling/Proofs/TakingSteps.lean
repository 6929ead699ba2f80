import Scriptling.Proofs.ReadingSteps

namespace Scriptling.Parse

/-- A step that passes `ts` when `rest` follows, and what holds of its result. It may be claimed of
lenient reading only. -/
def Takes {α : Type} (lenient : Bool) (p : Parse Cursor α) (ts rest : List Token) (D : α → Prop) :
    Prop :=
  ∀ c, (lenient = true → c.lenient = true) → c.rest = ts ++ rest →
    ∃ a n, p c = .ok a { c with rest, nextId := n } ∧ D a

inductive Row {α : Type} (J : α → List Token → α → Prop) : α → List Token → α → Prop
  | done : Row J a [] a
  | link : J a us b → us ≠ [] → Row J b vs d → Row J a (us ++ vs) d

variable {α β : Type} {p : Parse Cursor α} {q : α → Parse Cursor β} {D D' : α → Prop} {E : β → Prop}
  {ts us vs rest : List Token} {lenient : Bool}

theorem Takes.mono (h : Takes lenient p ts rest D) (hd : ∀ a, D a → D' a) :
    Takes lenient p ts rest D' := by
  intro c hl hc
  obtain ⟨a, n, hp, ha⟩ := h c hl hc
  exact ⟨a, n, hp, hd a ha⟩

theorem Takes.pure {a : α} (h : D a) : Takes lenient (pure a) [] rest D := by
  intro c hl hc
  have hr : c.rest = rest := hc
  exact ⟨a, c.nextId, by subst hr; rfl, h⟩

/-- Two steps take their tokens one after the other. -/
theorem Takes.bind (hp : Takes lenient p us (vs ++ rest) D)
    (hq : ∀ a, D a → Takes lenient (q a) vs rest E) :
    Takes lenient (p >>= q) (us ++ vs) rest E := by
  intro c hl hc
  obtain ⟨a, n, h₁, ha⟩ := hp c hl (by rw [hc, List.append_assoc])
  obtain ⟨b, k, h₂, hb⟩ := hq a ha { c with rest := vs ++ rest, nextId := n } hl rfl
  exact ⟨b, k, bind_ok.2 ⟨a, _, h₁, h₂⟩, hb⟩

/-- The last step passes nothing. -/
theorem Takes.finish (hp : Takes lenient p ts rest D)
    (hq : ∀ a, D a → Takes lenient (q a) [] rest E) :
    Takes lenient (p >>= q) ts rest E := by
  have h : Takes lenient (p >>= q) (ts ++ []) rest E := Takes.bind hp hq
  rwa [List.append_nil] at h

/-- The first step passes nothing. -/
theorem Takes.begin (hp : Takes lenient p [] (ts ++ rest) D)
    (hq : ∀ a, D a → Takes lenient (q a) ts rest E) :
    Takes lenient (p >>= q) ts rest E := Takes.bind hp hq

theorem Takes.map {f : α → β} (h : Takes lenient p ts rest fun a => E (f a)) :
    Takes lenient (f <$> p) ts rest E := by
  intro c hl hc
  obtain ⟨a, n, hp, ha⟩ := h c hl hc
  exact ⟨f a, n, by simp only [Functor.map, EStateM.map, hp], ha⟩

/-- A token of one of the kinds is taken. -/
theorem Takes.acceptAny_some {kinds : List Kind} {q : Option Token → Parse Cursor β} {t : Token}
    (ht : t.kind ∈ kinds) (h : Takes lenient (q (some t)) ts rest E) :
    Takes lenient (acceptAny kinds >>= q) (t :: ts) rest E := by
  intro c hl hc
  obtain ⟨b, n, hq, hb⟩ := h { c with rest := ts ++ rest } hl rfl
  refine ⟨b, n, bind_ok.2 ⟨some t, { c with rest := ts ++ rest }, ?_, hq⟩, hb⟩
  rw [List.cons_append] at hc
  simp only [acceptAny_eq, hc, ht, if_true]

/-- Where none is, nothing is. -/
theorem Takes.acceptAny_none {kinds : List Kind} {q : Option Token → Parse Cursor β}
    (hk : Clear kinds (ts ++ rest)) (h : Takes lenient (q none) ts rest E) :
    Takes lenient (acceptAny kinds >>= q) ts rest E := by
  intro c hl hc
  obtain ⟨b, n, hq, hb⟩ := h c hl hc
  refine ⟨b, n, bind_ok.2 ⟨none, c, ?_, hq⟩, hb⟩
  rw [acceptAny_eq]
  split
  · rfl
  · rename_i t us hr
    rw [if_neg (hk t (by rw [← hc, hr]; rfl))]

theorem Takes.accept_some {kind : Kind} {q : Option Token → Parse Cursor β} {t : Token}
    (ht : t.kind = kind) (h : Takes lenient (q (some t)) ts rest E) :
    Takes lenient (accept kind >>= q) (t :: ts) rest E :=
  .acceptAny_some (by simp [ht]) h

theorem Takes.accept_none {kind : Kind} {q : Option Token → Parse Cursor β}
    (hk : Clear [kind] (ts ++ rest)) (h : Takes lenient (q none) ts rest E) :
    Takes lenient (accept kind >>= q) ts rest E :=
  .acceptAny_none hk h

/-- A token that must be there is taken. -/
theorem Takes.expect {kind : Kind} {what : Expected} {q : Token → Parse Cursor β} {t : Token}
    (ht : t.kind = kind) (h : Takes lenient (q t) ts rest E) :
    Takes lenient (expect kind what >>= q) (t :: ts) rest E := by
  intro c hl hc
  obtain ⟨b, n, hq, hb⟩ := h { c with rest := ts ++ rest } hl rfl
  refine ⟨b, n, bind_ok.2 ⟨t, { c with rest := ts ++ rest }, ?_, hq⟩, hb⟩
  rw [List.cons_append] at hc
  simp only [expect_eq, hc, ht, if_true]

/-- A token is seen and not taken. -/
theorem Takes.check_true {kind : Kind} {q : Bool → Parse Cursor β} {t : Token}
    (ht : (ts ++ rest).head? = some t) (hk : t.kind = kind) (h : Takes lenient (q true) ts rest E) :
    Takes lenient (check kind >>= q) ts rest E := by
  intro c hl hc
  obtain ⟨b, n, hq, hb⟩ := h c hl hc
  refine ⟨b, n, bind_ok.2 ⟨true, c, ?_, hq⟩, hb⟩
  simp [check_eq, hc, ht, hk]

theorem Takes.check_false {kind : Kind} {q : Bool → Parse Cursor β} (hk : Clear [kind] (ts ++ rest))
    (h : Takes lenient (q false) ts rest E) : Takes lenient (check kind >>= q) ts rest E := by
  intro c hl hc
  obtain ⟨b, n, hq, hb⟩ := h c hl hc
  refine ⟨b, n, bind_ok.2 ⟨false, c, ?_, hq⟩, hb⟩
  rw [check_eq]
  rw [hc]
  cases ht : (ts ++ rest).head? with
  | none => rfl
  | some t => simpa using hk t ht

theorem Takes.atEnd {q : Bool → Parse Cursor β} (h : Takes lenient (q (ts ++ rest).isEmpty) ts rest E) :
    Takes lenient (atEnd >>= q) ts rest E := by
  intro c hl hc
  obtain ⟨b, n, hq, hb⟩ := h c hl hc
  exact ⟨b, n, bind_ok.2 ⟨_, c, by rw [atEnd_eq, hc], hq⟩, hb⟩

theorem Takes.fresh {q : ExprId → Parse Cursor β} (h : ∀ i, Takes lenient (q i) ts rest E) :
    Takes lenient (fresh >>= q) ts rest E := by
  intro c hl hc
  obtain ⟨b, n, hq, hb⟩ := h c.nextId { c with nextId := c.nextId + 1 } hl hc
  exact ⟨b, n, hq, hb⟩

/-- What ends a statement: its sign, or in lenient reading the end of the tokens. -/
inductive Ends (lenient : Bool) : List Token → List Token → Prop
  | sign {t : Token} {rest : List Token} : t.kind = .semicolon → Ends lenient [t] rest
  | bare : lenient = true → Ends lenient [] []

theorem Ends.takes {what : Expected} (h : Ends lenient ts rest) :
    Takes lenient (terminator what) ts rest fun _ => True := by
  intro c hl hc
  cases h with
  | sign ht =>
    rw [List.singleton_append] at hc
    refine ⟨(), c.nextId, ?_, trivial⟩
    simp only [terminator_eq, hc, ht, if_true]
  | bare hb =>
    refine ⟨(), c.nextId, ?_, trivial⟩
    have hrest : c.rest = [] := hc
    simp only [terminator_eq, hrest]
    rw [if_pos (hl hb), ← hrest]

theorem Ends.clear {kinds : List Kind} (h : Ends lenient ts rest) (hk : .semicolon ∉ kinds) :
    Clear kinds (ts ++ rest) := by
  cases h with
  | sign ht =>
    intro t hu
    cases hu
    rwa [ht]
  | bare _ => exact fun _ hu => by cases hu

theorem Row.snoc {J : α → List Token → α → Prop} {a b d : α} (h : Row J a us b) (hj : J b vs d)
    (hv : vs ≠ []) : Row J a (us ++ vs) d := by
  induction h with
  | done => simpa using Row.link hj hv .done
  | link hk hu _ ih => simpa using Row.link hk hu (ih hj)

/-- What the last link ends before stands before every link, if links begin with it. -/
theorem Row.follows {J : α → List Token → α → Prop} {F : List Token → Prop} {a d : α}
    (h : Row J a ts d) (hrest : F rest) (hlink : ∀ a us b ws, J a us b → F (us ++ ws)) :
    F (ts ++ rest) := by
  cases h with
  | done => exact hrest
  | link hj =>
    rw [List.append_assoc]
    exact hlink _ _ _ _ hj

/-- A chain takes a row of links if each of its steps takes one, whatever it started from that is
`R` to the link's own start, and the last one takes nothing. `F` holds of what follows a link. -/
theorem Takes.iterate {step : α → Parse Cursor (Option α)} {J : α → List Token → α → Prop}
    {R : α → α → Prop} {F : List Token → Prop} {a d : α} (hrow : Row J a ts d) (hrest : F rest)
    (hlink : ∀ a us b ws, J a us b → F (us ++ ws))
    (hstep : ∀ a us b ws a', J a us b → us.length ≤ ts.length → F ws → R a' a →
      Takes lenient (step a') us ws fun o => ∃ b', o = some b' ∧ R b' b)
    (hlast : ∀ a, Takes lenient (step a) [] rest (· = none)) {bound : Nat} (hb : ts.length < bound)
    {a' : α} (ha : R a' a) :
    Takes lenient (iterate step bound a') ts rest fun d' => R d' d := by
  induction hrow generalizing bound a' with
  | done =>
    obtain ⟨n, rfl⟩ : ∃ n, bound = n + 1 := ⟨bound - 1, by simp at hb; omega⟩
    refine (hlast a').finish ?_
    rintro _ rfl
    exact .pure ha
  | @link a us b vs d hj hu hvs ih =>
    have hpos := List.length_pos_iff.2 hu
    rw [List.length_append] at hb
    obtain ⟨n, rfl⟩ : ∃ n, bound = n + 1 := ⟨bound - 1, by omega⟩
    refine (hstep a us b (vs ++ rest) a' hj (by simp) (hvs.follows hrest hlink) ha).bind ?_
    rintro _ ⟨b', rfl, hb'⟩
    refine ih (fun a us' b ws a' hj hl => hstep a us' b ws a' hj ?_) (by omega) hb'
    rw [List.length_append]
    omega

/-- A loop takes a row of links, each with a step. -/
theorem Takes.chain {step : α → Parse Cursor (Option α)} {J : α → List Token → α → Prop}
    {R : α → α → Prop} {F : List Token → Prop} {a d : α} (hrow : Row J a ts d) (hrest : F rest)
    (hlink : ∀ a us b ws, J a us b → F (us ++ ws))
    (hstep : ∀ a us b ws a', J a us b → us.length ≤ ts.length → F ws → R a' a →
      Takes lenient (step a') us ws fun o => ∃ b', o = some b' ∧ R b' b)
    (hlast : ∀ a, Takes lenient (step a) [] rest (· = none)) {a' : α} (ha : R a' a) :
    Takes lenient (chain step a') ts rest fun d' => R d' d := by
  intro c hl hc
  have hb : ts.length < c.rest.length + 1 := by
    rw [hc, List.length_append]
    omega
  exact Takes.iterate hrow hrest hlink hstep hlast hb ha c hl hc

def Further (S : List Token → α → Prop) (as : List α) (ts : List Token) (bs : List α) : Prop :=
  ∃ comma us b, ts = comma :: us ∧ comma.kind = .comma ∧ S us b ∧ bs = as ++ [b]

/-- Items are taken as long as there are not too many of them; `m` is what is known of an item. -/
theorem Takes.items {γ : Type} {tooMany : ParseFault} {item : Parse Cursor α}
    {S : List Token → α → Prop} {m : α → γ} {F : List Token → Prop} {a : α} {as : List α}
    (hfirst : Takes lenient item us (ts ++ rest) fun a' => m a' = m a)
    (hrow : Row (fun as ts bs => Further S as ts bs ∧ as.length < maxItems) [a] ts as)
    (hrest : F rest) (hcomma : ∀ t ts, t.kind = .comma → F (t :: ts))
    (hitem : ∀ us b ws, S us b → us.length ≤ ts.length → F ws →
      Takes lenient item us ws fun b' => m b' = m b)
    (hend : Clear [.comma] rest) :
    Takes lenient (items tooMany item) (us ++ ts) rest fun as' => as'.map m = as.map m := by
  refine hfirst.bind fun a' ha => Takes.chain (R := fun as' as => as'.map m = as.map m) hrow hrest
    ?_ ?_ ?_ (by simp [ha])
  · rintro as _ bs ws ⟨⟨comma, us, b, rfl, hc, -⟩, -⟩
    exact hcomma comma _ hc
  · rintro as _ _ ws as' ⟨⟨comma, us, b, rfl, hc, hb, rfl⟩, hlen⟩ hle hws has
    have hlen' : as'.length = as.length := by simpa using congrArg List.length has
    have hne : ¬ as'.length = maxItems := by omega
    refine .accept_some hc ?_
    rw [List.length_cons] at hle
    simp only [hne, if_false]
    refine (hitem us b ws hb (by omega) hws).finish fun b' hb' => .pure ⟨_, rfl, ?_⟩
    simp only [List.map_append, List.map_cons, List.map_nil, has, hb']
  · intro as
    exact .accept_none hend (.pure rfl)

theorem Takes.recovering (h : Takes lenient p ts rest D) :
    Takes lenient (recovering p) ts rest fun o => ∃ a, o = some a ∧ D a := by
  intro c hl hc
  obtain ⟨a, n, hp, ha⟩ := h c hl hc
  exact ⟨some a, n, by simp only [recovering_eq, hp], a, rfl, ha⟩

end Scriptling.Parse
