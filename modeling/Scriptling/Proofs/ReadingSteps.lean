import Scriptling.Proofs.Cursor
import Scriptling.Proofs.Phrase

namespace Scriptling.Parse

def left {C α : Type} : EStateM.Result (Located ParseFault) C α → C
  | .ok _ c => c
  | .error _ c => c

/-- What may be claimed of the tokens a step passed, those that follow, and its result. -/
abbrev Claim (α : Type) := List Token → List Token → α → Prop

/-- A step that keeps to its mode of reading, and of which something can be claimed where nothing is
noted by its end. -/
structure Reads {α : Type} (lenient : Bool) (p : Parse Cursor α) (D : Claim α) : Prop where
  steady : ∀ c, (left (p c)).lenient = c.lenient
  phrase : ∀ c a c', c.lenient = lenient → p c = .ok a c' → c'.faults = [] →
    c.faults = [] ∧ ∃ ts, c.rest = ts ++ c'.rest ∧ D ts c'.rest a

variable {α β : Type} {p : Parse Cursor α} {q : α → Parse Cursor β} {D D' : Claim α} {E : Claim β}
  {c c' : Cursor} {lenient : Bool}

theorem bind_ok {b : β} :
    (p >>= q) c = .ok b c' ↔ ∃ a c₁, p c = .ok a c₁ ∧ q a c₁ = .ok b c' := by
  rw [bind_eq]
  cases p c with
  | ok a c₁ =>
    constructor
    · exact fun h => ⟨a, c₁, rfl, h⟩
    · rintro ⟨a', c₂, h, hq⟩
      cases h
      exact hq
  | error e c₁ => simp

/-- Steps that keep the mode of reading keep it together. -/
theorem steady_bind (hp : ∀ c, (left (p c)).lenient = c.lenient)
    (hq : ∀ a c, (left (q a c)).lenient = c.lenient) (c : Cursor) :
    (left ((p >>= q) c)).lenient = c.lenient := by
  have h := hp c
  rw [bind_eq]
  cases hr : p c with
  | ok a c₁ => exact (hq a c₁).trans (by simpa [hr, left] using h)
  | error e c₁ => simpa [hr, left] using h

/-- Either nothing is consumed, or the first token, which is of one of the kinds. -/
theorem acceptAny_ok {kinds : List Kind} {o : Option Token} (h : acceptAny kinds c = .ok o c') :
    (o = none ∧ c' = c) ∨
      ∃ t ts, o = some t ∧ t.kind ∈ kinds ∧ c.rest = t :: ts ∧ c' = { c with rest := ts } := by
  rw [acceptAny_eq] at h
  split at h
  · cases h
    exact .inl ⟨rfl, rfl⟩
  · rename_i t ts hr
    split at h <;> cases h
    · exact .inr ⟨t, ts, rfl, ‹_›, hr, rfl⟩
    · exact .inl ⟨rfl, rfl⟩

/-- Tokens of which the first is of none of these kinds. -/
def Clear (kinds : List Kind) (ts : List Token) : Prop := ∀ t, ts.head? = some t → t.kind ∉ kinds

theorem acceptAny_none {kinds : List Kind} (h : acceptAny kinds c = .ok none c') :
    c' = c ∧ Clear kinds c.rest := by
  rw [acceptAny_eq] at h
  split at h
  · rename_i hr
    cases h
    exact ⟨rfl, by simp [Clear, hr]⟩
  · rename_i t ts hr
    split at h <;> cases h
    refine ⟨rfl, ?_⟩
    intro u hu
    rw [hr] at hu
    cases hu
    assumption

theorem acceptAny_steady (kinds : List Kind) (c : Cursor) :
    (left (acceptAny kinds c)).lenient = c.lenient := by
  rw [acceptAny_eq]
  split
  · rfl
  · split <;> rfl

theorem refuse_eq (what : Expected) (c : Cursor) :
    (refuse what : Parse Cursor α) c = .error ⟨.expected what, (c.rest.headD c.finish).place⟩ c := rfl

/-- A token of the kind is consumed; without one reading fails where it stands. -/
theorem expect_eq (kind : Kind) (what : Expected) (c : Cursor) :
    expect kind what c =
      match c.rest with
      | [] => .error ⟨.expected what, c.finish.place⟩ c
      | t :: ts =>
        if t.kind = kind then .ok t { c with rest := ts }
        else .error ⟨.expected what, t.place⟩ c := by
  simp only [expect, accept, bind_eq, acceptAny_eq]
  cases hr : c.rest with
  | nil => simp [refuse_eq, hr]
  | cons t ts =>
    by_cases hk : t.kind = kind
    · simp [hk, pure, EStateM.pure]
    · simp [hk, refuse_eq, hr]

theorem Reads.mono (h : Reads lenient p D) (hd : ∀ ts rest a, D ts rest a → D' ts rest a) :
    Reads lenient p D' := by
  refine ⟨h.steady, ?_⟩
  intro c a c' hl hp hf
  obtain ⟨hc, ts, ht, ha⟩ := h.phrase c a c' hl hp hf
  exact ⟨hc, ts, ht, hd ts _ a ha⟩

theorem Reads.pure {a : α} (h : ∀ rest, D [] rest a) : Reads lenient (pure a) D := by
  refine ⟨fun c => rfl, ?_⟩
  intro c a' c' _ hp hf
  cases hp
  exact ⟨hf, [], rfl, h _⟩

/-- The relation for the second step may use the one for the first; that nothing was noted in
between is known only at the end. -/
theorem Reads.bind (hp : Reads lenient p D)
    (hq : ∀ a, Reads lenient (q a) fun vs rest b =>
      ∀ us, D us (vs ++ rest) a → E (us ++ vs) rest b) :
    Reads lenient (p >>= q) E := by
  refine ⟨steady_bind hp.steady fun a => (hq a).steady, ?_⟩
  intro c b c' hl h hf
  obtain ⟨a, c₁, h₁, h₂⟩ := bind_ok.1 h
  have hl₁ : c₁.lenient = c.lenient := by simpa [h₁, left] using hp.steady c
  obtain ⟨hc₁, vs, hv, hb⟩ := (hq a).phrase c₁ b c' (hl₁.trans hl) h₂ hf
  obtain ⟨hc, us, hu, ha⟩ := hp.phrase c a c₁ hl h₁ hc₁
  refine ⟨hc, us ++ vs, ?_, hb us (hv ▸ ha)⟩
  rw [hu, hv, List.append_assoc]

theorem Reads.map {f : α → β} (hp : Reads lenient p fun ts rest a => E ts rest (f a)) :
    Reads lenient (f <$> p) E := by
  have hs := hp.steady
  constructor
  · intro c
    have h := hs c
    simp only [Functor.map, EStateM.map]
    cases hr : p c <;> simpa [hr, left] using h
  · intro c b c' hl h hf
    simp only [Functor.map, EStateM.map] at h
    split at h <;> cases h
    exact hp.phrase _ _ _ hl ‹_› hf

/-- What is claimed behind a token that was passed, and what where there is none. -/
theorem Reads.acceptAny {kinds : List Kind} {q : Option Token → Parse Cursor β}
    (hn : Reads lenient (q none) fun ts rest b => Clear kinds (ts ++ rest) → E ts rest b)
    (hs : ∀ t, t.kind ∈ kinds → Reads lenient (q (some t)) fun ts => E (t :: ts)) :
    Reads lenient (acceptAny kinds >>= q) E := by
  constructor
  · intro c
    have ha := acceptAny_steady kinds c
    rw [bind_eq]
    cases hr : Parse.acceptAny kinds c with
    | error e c₁ => simpa [hr, left] using ha
    | ok o c₁ =>
      rcases acceptAny_ok hr with ⟨rfl, rfl⟩ | ⟨t, ts, rfl, hk, _, rfl⟩
      · exact hn.steady _
      · exact (hs t hk).steady _
  · intro c b c' hl h hf
    obtain ⟨o, c₁, h₁, h₂⟩ := bind_ok.1 h
    rcases acceptAny_ok h₁ with ⟨rfl, rfl⟩ | ⟨t, ts, rfl, hk, hr, rfl⟩
    · obtain ⟨hc, us, hu, hb⟩ := hn.phrase _ _ _ hl h₂ hf
      exact ⟨hc, us, hu, hb (hu ▸ (acceptAny_none h₁).2)⟩
    · obtain ⟨hc, us, hu, hb⟩ := (hs t hk).phrase { c with rest := ts } b c' hl h₂ hf
      have hrest : ts = us ++ c'.rest := hu
      refine ⟨hc, t :: us, ?_, hb⟩
      rw [hr, hrest, List.cons_append]

theorem Reads.accept {kind : Kind} {q : Option Token → Parse Cursor β}
    (hn : Reads lenient (q none) fun ts rest b => Clear [kind] (ts ++ rest) → E ts rest b)
    (hs : ∀ t, t.kind = kind → Reads lenient (q (some t)) fun ts => E (t :: ts)) :
    Reads lenient (accept kind >>= q) E :=
  .acceptAny hn fun t ht => hs t (by simpa using ht)

theorem Reads.refuse {what : Expected} : Reads lenient (refuse what : Parse Cursor α) D :=
  ⟨fun _ => rfl, fun _ _ _ _ h _ => by cases h⟩

/-- Expecting a token is accepting it, or failing. -/
theorem expect_bind {C : Type} [Reader C] (kind : Kind) (what : Expected) (q : Token → Parse C β) :
    expect kind what >>= q = accept kind >>= fun
      | some t => q t
      | none => refuse what := by
  funext c
  simp only [Parse.expect, bind_eq]
  cases Parse.accept kind c with
  | error e c₁ => rfl
  | ok o c₁ => cases o <;> rfl

theorem Reads.expect {kind : Kind} {what : Expected} {q : Token → Parse Cursor β}
    (h : ∀ t, t.kind = kind → Reads lenient (q t) fun ts => E (t :: ts)) :
    Reads lenient (expect kind what >>= q) E := by
  rw [expect_bind]
  exact .accept .refuse h

/-- Looking at a token passes none. -/
theorem Reads.check {kind : Kind} {q : Bool → Parse Cursor β} (h : ∀ b, Reads lenient (q b) E) :
    Reads lenient (check kind >>= q) E :=
  ⟨fun c => (h _).steady c, fun c b c' hl hp hf => (h _).phrase c b c' hl hp hf⟩

theorem Reads.atEnd {q : Bool → Parse Cursor β} (h : ∀ b, Reads lenient (q b) E) :
    Reads lenient (atEnd >>= q) E :=
  ⟨fun c => (h _).steady c, fun c b c' hl hp hf => (h _).phrase c b c' hl hp hf⟩

theorem Reads.peek {q : Token → Parse Cursor β} (h : ∀ t, Reads lenient (q t) E) :
    Reads lenient (peek >>= q) E :=
  ⟨fun c => (h _).steady c, fun c b c' hl hp hf => (h _).phrase c b c' hl hp hf⟩

theorem Reads.fresh {q : ExprId → Parse Cursor β} (h : ∀ i, Reads lenient (q i) E) :
    Reads lenient (fresh >>= q) E :=
  ⟨fun c => (h c.nextId).steady { c with nextId := c.nextId + 1 },
    fun c b c' hl hp hf => (h c.nextId).phrase { c with nextId := c.nextId + 1 } b c' hl hp hf⟩

/-- After a note nothing is claimed. -/
theorem Reads.note {fault : ParseFault} {place : Place} {q : Unit → Parse Cursor β}
    {F : Claim β} (h : Reads lenient (q ()) F) :
    Reads lenient (note fault place >>= q) E := by
  refine ⟨fun c => h.steady { c with faults := c.faults ++ [⟨fault, place⟩] }, ?_⟩
  intro c b c' hl hp hf
  have hn := (h.phrase { c with faults := c.faults ++ [⟨fault, place⟩] } b c' hl hp hf).1
  exact absurd hn (by simp)

theorem Reads.terminator {what : Expected} :
    Reads lenient (terminator what) fun ts _ _ => Phrase.Ending ⟨true, lenient⟩ ts := by
  constructor
  · intro c
    rw [terminator_eq]
    split
    · split <;> rfl
    · split <;> rfl
  · intro c a c' hl hp hf
    rw [terminator_eq] at hp
    split at hp
    · rename_i hr
      split at hp
      · cases hp
        exact ⟨hf, [], rfl, .bare (hl.symm.trans ‹_›)⟩
      · cases hp
    · rename_i t ts hr
      split at hp
      · cases hp
        exact ⟨hf, [t], hr, .sign ‹_›⟩
      · cases hp

/-- A step that ends a chain passes nothing; any other one prolongs what has been read. -/
def Prolongs {α : Type} (I : List Token → α → Prop) (us ts : List Token) : Option α → Prop
  | none => ts = []
  | some b => I (us ++ ts) b

/-- A loop prolongs what has been read with each of its steps. -/
theorem Reads.iterate {step : α → Parse Cursor (Option α)} {I : List Token → α → Prop}
    (h : ∀ a, Reads lenient (step a) fun ts _ o => ∀ us, I us a → Prolongs I us ts o) (bound : Nat)
    (a : α) :
    Reads lenient (iterate step bound a) fun ts _ b => ∀ us, I us a → I (us ++ ts) b := by
  induction bound generalizing a with
  | zero => exact .pure fun _ us hu => by rwa [List.append_nil]
  | succ bound ih =>
    refine .bind (h a) fun o => ?_
    cases o with
    | none =>
      refine .pure fun _ ts ht us hu => ?_
      have hn : ts = [] := ht us hu
      simpa [hn] using hu
    | some b =>
      refine (ih b).mono fun vs _ d hd ts ht us hu => ?_
      rw [← List.append_assoc]
      exact hd (us ++ ts) (ht us hu)

theorem Reads.chain {step : α → Parse Cursor (Option α)} {I : List Token → α → Prop}
    (h : ∀ a, Reads lenient (step a) fun ts _ o => ∀ us, I us a → Prolongs I us ts o) (a : α) :
    Reads lenient (chain step a) fun ts _ b => ∀ us, I us a → I (us ++ ts) b :=
  ⟨fun c => (Reads.iterate h (c.rest.length + 1) a).steady c,
    fun c b c' hl hp hf => (Reads.iterate h (c.rest.length + 1) a).phrase c b c' hl hp hf⟩

/-- Two claims at once. -/
theorem Reads.and {D' : Claim α} (h : Reads lenient p D) (h' : Reads lenient p D') :
    Reads lenient p fun ts rest a => D ts rest a ∧ D' ts rest a := by
  refine ⟨h.steady, ?_⟩
  intro c a c' hl hp hf
  obtain ⟨hc, ts, ht, hd⟩ := h.phrase c a c' hl hp hf
  obtain ⟨-, us, hu, hd'⟩ := h'.phrase c a c' hl hp hf
  have he : us = ts := List.append_cancel_right (hu.symm.trans ht)
  exact ⟨hc, ts, ht, hd, he ▸ hd'⟩

/-- A loop ends where its step has nothing more. -/
theorem Reads.iterate_stops {step : α → Parse Cursor (Option α)} {S : List Token → Prop}
    (h : ∀ a, Reads lenient (step a) fun ts rest o =>
      (o = none → S rest) ∧ (o ≠ none → ts ≠ [])) (bound : Nat) (a : α) :
    Reads lenient (Parse.iterate step bound a) fun ts rest _ => S rest ∨ bound ≤ ts.length := by
  induction bound generalizing a with
  | zero => exact .pure fun _ => .inr (Nat.zero_le _)
  | succ bound ih =>
    refine .bind (h a) fun o => ?_
    cases o with
    | none => exact .pure fun rest us hu => .inl (hu.1 rfl)
    | some b =>
      refine (ih b).mono fun vs rest d hd us hu => hd.imp_right fun hb => ?_
      have hne := List.length_pos_iff.2 (hu.2 (by simp))
      rw [List.length_append]
      omega

/-- Where every step that goes on passes a token, a chain ends with a step that does not. -/
theorem Reads.chain_stops {step : α → Parse Cursor (Option α)} {S : List Token → Prop}
    (h : ∀ a, Reads lenient (step a) fun ts rest o =>
      (o = none → S rest) ∧ (o ≠ none → ts ≠ [])) (a : α) :
    Reads lenient (Parse.chain step a) fun _ rest _ => S rest := by
  refine ⟨fun c => (Reads.iterate_stops h (c.rest.length + 1) a).steady c, ?_⟩
  intro c b c' hl hp hf
  obtain ⟨hc, ts, ht, hs | hb⟩ :=
    (Reads.iterate_stops h (c.rest.length + 1) a).phrase c b c' hl hp hf
  · exact ⟨hc, ts, ht, hs⟩
  · have hlen := congrArg List.length ht
    rw [List.length_append] at hlen
    omega

/-- Items with commas between them, of which there are not too many. -/
theorem Reads.items {tooMany : ParseFault} {item : Parse Cursor α} {D : List Token → α → Prop}
    {L : List Token → List α → Prop} (h : Reads lenient item fun ts _ => D ts)
    (hone : ∀ ts a, D ts a → L ts [a])
    (hmore : ∀ ts as comma us a, L ts as → comma.kind = .comma → D us a →
      L (ts ++ comma :: us) (as ++ [a])) :
    Reads lenient (items tooMany item) fun ts _ as => L ts as ∧ as.length ≤ maxItems := by
  refine .bind h fun first => ?_
  refine (Reads.chain (I := fun ts as => L ts as ∧ as.length ≤ maxItems) ?_ [first]).mono
    fun ts _ as hs us hu => hs us ⟨hone us first hu, by simp [maxItems]⟩
  intro read
  refine .accept (.pure fun _ _ us _ => rfl) fun comma hc => ?_
  have hnext : Reads lenient (do return some (read ++ [← item])) fun ts _ o => ∀ us,
      (L us read ∧ read.length ≤ maxItems) → read.length ≠ maxItems →
        Prolongs (fun ts as => L ts as ∧ as.length ≤ maxItems) us (comma :: ts) o := by
    refine .bind h fun a => .pure fun _ ts ht us hu hne => ?_
    rw [List.append_nil]
    refine ⟨hmore us read comma ts a hu.1 hc ht, ?_⟩
    have := hu.2
    simp only [List.length_append, List.length_cons, List.length_nil]
    omega
  dsimp only
  split
  · exact .peek fun t => .note hnext
  · rename_i hne
    exact hnext.mono fun ts _ o ho us hu => ho us hu hne

theorem Reads.recovering (h : Reads lenient p D) :
    Reads lenient (recovering p) fun ts rest o => ∃ a, o = some a ∧ D ts rest a := by
  constructor
  · intro c
    have hs := h.steady c
    rw [recovering_eq]
    cases hp : p c <;> simpa [hp, left] using hs
  · intro c o c' hl hp hf
    rw [recovering_eq] at hp
    cases hr : p c with
    | ok a c₁ =>
      rw [hr] at hp
      cases hp
      obtain ⟨hc, ts, ht, ha⟩ := h.phrase c a _ hl hr hf
      exact ⟨hc, ts, ht, a, rfl, ha⟩
    | error e c₁ =>
      rw [hr] at hp
      cases hp
      exact absurd hf (by simp)

end Scriptling.Parse
