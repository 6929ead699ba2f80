import Scriptling.Proofs.AlikeStatements

namespace Scriptling

/-- What two readings do not share: the tokens behind the common ones, the end markers, the modes and
the faults that were noted before. -/
structure Sides where
  beyond : List Token
  beyond' : List Token
  finish : Token
  finish' : Token
  lenient : Bool
  lenient' : Bool
  noted : List (Located ParseFault)
  noted' : List (Located ParseFault)

namespace Sides

variable {o : Sides} {g : ExprId → ExprId} {whole : Bool} {front : List Token} {c c' : Cursor}

/-- A whole reading shares all tokens, the end and the mode. One that takes no semicolon may have
other tokens before it from the next semicolon on. -/
structure Fit (o : Sides) (whole : Bool) : Prop where
  same : whole = true →
    o.beyond = [] ∧ o.beyond' = [] ∧ o.finish = o.finish' ∧ o.lenient = o.lenient'
  stop : whole = false → ∃ t us us', t.kind = .semicolon ∧ o.beyond = t :: us ∧ o.beyond' = t :: us'

/-- The two cursors of such readings, with `front` the common tokens that are left. -/
structure At (o : Sides) (g : ExprId → ExprId) (whole : Bool) (front : List Token)
    (c c' : Cursor) : Prop where
  rest : c.rest = front ++ o.beyond
  rest' : c'.rest = front ++ o.beyond'
  finish : c.finish = o.finish
  finish' : c'.finish = o.finish'
  lenient : c.lenient = o.lenient
  lenient' : c'.lenient = o.lenient'
  ids : g c.nextId = g c'.nextId
  faults : ∃ fs, c.faults = o.noted ++ fs ∧ c'.faults = o.noted' ++ fs ∧
    (whole = true ∨ ∀ e ∈ fs, e.fault.mild = true)

/-- Both readings have come to a result, or both to the same fault. -/
def Ends (o : Sides) (g : ExprId → ExprId) (whole : Bool) (front : List Token) {α β : Type}
    (R : Nat → α → β → Prop) : EStateM.Result (Located ParseFault) Cursor α →
      EStateM.Result (Located ParseFault) Cursor β → Prop
  | .ok a c, .ok b c' => ∃ left, left <:+ front ∧ o.At g whole left c c' ∧ R left.length a b
  | .error e c, .error e' c' => e = e' ∧ ∃ left, left <:+ front ∧ o.At g whole left c c'
  | _, _ => False

theorem Fit.head?_beyond (ho : o.Fit whole) : o.beyond.head? = o.beyond'.head? := by
  cases whole with
  | true =>
    obtain ⟨hb, hb', -, -⟩ := ho.same rfl
    rw [hb, hb']
  | false =>
    obtain ⟨t, us, us', -, hb, hb'⟩ := ho.stop rfl
    rw [hb, hb']
    rfl

namespace At

/-- Both cursors are at the same token. -/
theorem head?_eq (ho : o.Fit whole) (hc : o.At g whole front c c') :
    c.rest.head? = c'.rest.head? := by
  rw [hc.rest, hc.rest', List.head?_append, List.head?_append, ho.head?_beyond]

theorem isEmpty_eq (ho : o.Fit whole) (hc : o.At g whole front c c') :
    c.rest.isEmpty = c'.rest.isEmpty := by
  have hhead := hc.head?_eq ho
  cases hr : c.rest <;> cases hr' : c'.rest <;> simp [hr, hr'] at hhead ⊢

theorem headD_eq (ho : o.Fit whole) (hc : o.At g whole front c c') :
    c.rest.headD c.finish = c'.rest.headD c'.finish := by
  have hhead := hc.head?_eq ho
  rw [List.headD_eq_head?_getD, List.headD_eq_head?_getD, ← hhead]
  cases hr : c.rest.head? with
  | some t => rfl
  | none =>
    cases whole with
    | true => rw [hc.finish, hc.finish', (ho.same rfl).2.2.1]
    | false =>
      obtain ⟨t, us, us', -, hb, -⟩ := ho.stop rfl
      rw [hc.rest, hb] at hr
      simp at hr

/-- Taking a common token. -/
theorem step {t : Token} (hc : o.At g whole (t :: front) c c') :
    o.At g whole front { c with rest := front ++ o.beyond }
      { c' with rest := front ++ o.beyond' } :=
  ⟨rfl, rfl, hc.finish, hc.finish', hc.lenient, hc.lenient', hc.ids, hc.faults⟩

/-- Noting the same fault. -/
theorem note (hc : o.At g whole front c c') {e : Located ParseFault}
    (he : whole = true ∨ e.fault.mild = true) :
    o.At g whole front { c with faults := c.faults ++ [e] }
      { c' with faults := c'.faults ++ [e] } := by
  refine ⟨hc.rest, hc.rest', hc.finish, hc.finish', hc.lenient, hc.lenient', hc.ids, ?_⟩
  obtain ⟨fs, hf, hf', hmild⟩ := hc.faults
  refine ⟨fs ++ [e], by rw [hf, List.append_assoc], by rw [hf', List.append_assoc], ?_⟩
  rcases hmild with hw | hmild
  · exact .inl hw
  · apply he.imp_right
    intro he e' he'
    rcases List.mem_append.1 he' with hfs | hlast
    · exact hmild e' hfs
    · obtain rfl := List.mem_singleton.1 hlast
      exact he

end At

namespace Ends

variable {α β γ δ : Type} {R : Nat → α → β → Prop} {S : Nat → γ → δ → Prop} {p : Parse Cursor α}
  {p' : Parse Cursor β} {q : α → Parse Cursor γ} {q' : β → Parse Cursor δ} {left : List Token}

theorem earlier (h : o.Ends g whole left R (p c) (p' c')) (hl : left <:+ front) :
    o.Ends g whole front R (p c) (p' c') := by
  cases hr : p c <;> cases hr' : p' c' <;> simp only [hr, hr', Ends] at h ⊢
  · obtain ⟨rest, hs, hrest⟩ := h
    exact ⟨rest, hs.trans hl, hrest⟩
  · obtain ⟨he, rest, hs, hrest⟩ := h
    exact ⟨he, rest, hs.trans hl, hrest⟩

/-- Less may be claimed of the results. -/
theorem mono {R' : Nat → α → β → Prop} (h : o.Ends g whole front R (p c) (p' c'))
    (hr : ∀ m a b, R m a b → R' m a b) : o.Ends g whole front R' (p c) (p' c') := by
  cases hp : p c <;> cases hp' : p' c' <;> simp only [hp, hp', Ends] at h ⊢
  · obtain ⟨left, hl, hc, hab⟩ := h
    exact ⟨left, hl, hc, hr _ _ _ hab⟩
  · exact h

/-- Steps that both readings take, one after the other. -/
theorem bind (h : o.Ends g whole front R (p c) (p' c'))
    (hq : ∀ left a b d d', left <:+ front → o.At g whole left d d' → R left.length a b →
      o.Ends g whole left S (q a d) (q' b d')) :
    o.Ends g whole front S ((p >>= q) c) ((p' >>= q') c') := by
  rw [Parse.bind_eq, Parse.bind_eq]
  cases hr : p c with
  | ok a d =>
    cases hr' : p' c' with
    | ok b d' =>
      rw [hr, hr'] at h
      obtain ⟨left, hl, hd, hab⟩ := h
      exact (hq left a b d d' hl hd hab).earlier hl
    | error e d' =>
      rw [hr, hr'] at h
      exact h.elim
  | error e d =>
    cases hr' : p' c' with
    | ok b d' =>
      rw [hr, hr'] at h
      exact h.elim
    | error e' d' =>
      rw [hr, hr'] at h
      exact h

end Ends

end Sides

namespace Parse

variable {α β γ : Type} {o : Sides} {g : ExprId → ExprId} {whole : Bool} {front : List Token}
  {c c' : Cursor} {n : Nat}

/-- No token is taken that is not common. -/
theorem acceptAny_beyond (ho : o.Fit whole) {kinds : List Kind}
    (hk : whole = true ∨ .semicolon ∉ kinds) (hc : o.At g whole [] c c') :
    acceptAny kinds c = .ok none c ∧ acceptAny kinds c' = .ok none c' := by
  simp only [acceptAny_eq, hc.rest, hc.rest', List.nil_append]
  cases whole with
  | true =>
    obtain ⟨hb, hb', -, -⟩ := ho.same rfl
    rw [hb, hb']
    exact ⟨rfl, rfl⟩
  | false =>
    obtain ⟨t, us, us', ht, hb, hb'⟩ := ho.stop rfl
    have hnot : t.kind ∉ kinds := by
      rw [ht]
      exact hk.resolve_left Bool.false_ne_true
    rw [hb, hb']
    simp [hnot]

theorem ends_acceptAny (ho : o.Fit whole) {kinds : List Kind}
    (hk : whole = true ∨ .semicolon ∉ kinds) (hc : o.At g whole front c c') :
    o.Ends g whole front (fun m o o' => o = o' ∧ Taken kinds front.length m o)
      (acceptAny kinds c) (acceptAny kinds c') := by
  cases front with
  | nil =>
    obtain ⟨hnone, hnone'⟩ := acceptAny_beyond ho hk hc
    rw [hnone, hnone']
    exact ⟨[], List.suffix_refl _, hc, rfl, rfl⟩
  | cons t front =>
    simp only [acceptAny_eq, hc.rest, hc.rest', List.cons_append]
    split
    · exact ⟨front, List.suffix_cons t front, hc.step, rfl, ‹_›, rfl⟩
    · exact ⟨t :: front, List.suffix_refl _, hc, rfl, rfl⟩

theorem ends_refuse (ho : o.Fit whole) (what : Expected) {R : Nat → α → β → Prop}
    (hc : o.At g whole front c c') :
    o.Ends g whole front R ((refuse what : Parse Cursor α) c) ((refuse what : Parse Cursor β) c') := by
  rw [refuse_eq, refuse_eq, hc.headD_eq ho]
  exact ⟨rfl, front, List.suffix_refl _, hc⟩

theorem ends_terminator (ho : o.Fit true) (what : Expected) (hc : o.At g true front c c') :
    o.Ends g true front (fun m _ _ => m ≤ front.length) (terminator what c) (terminator what c') := by
  obtain ⟨hb, hb', -, hlenient⟩ := ho.same rfl
  have hmode : c.lenient = c'.lenient := by rw [hc.lenient, hc.lenient', hlenient]
  cases front with
  | nil =>
    simp only [terminator_eq, hc.rest, hc.rest', hb, hb', List.append_nil, ← hmode]
    split
    · exact ⟨[], List.suffix_refl _, hc, Nat.le_refl _⟩
    · exact ends_refuse ho what hc
  | cons t front =>
    simp only [terminator_eq, hc.rest, hc.rest', List.cons_append]
    split
    · exact ⟨front, List.suffix_cons t front, hc.step, Nat.le_succ _⟩
    · exact ends_refuse ho what hc

/-- Chains go on alike, and the bound that was set for their steps is of no account where it is
larger than the number of tokens. -/
theorem ends_iterate {I : Nat → α → β → Prop} {step : α → Parse Cursor (Option α)}
    {step' : β → Parse Cursor (Option β)}
    (hstep : ∀ front a b c c', front.length ≤ n → o.At g whole front c c' → I front.length a b →
      o.Ends g whole front (Goes I front.length) (step a c) (step' b c'))
    {bound bound' : Nat} {a : α} {b : β} (hc : o.At g whole front c c') (hn : front.length ≤ n)
    (hb : front.length < bound) (hb' : front.length < bound') (hab : I front.length a b) :
    o.Ends g whole front (fun m a b => m ≤ front.length ∧ I m a b) (iterate step bound a c)
      (iterate step' bound' b c') := by
  induction bound generalizing bound' front a b c c' with
  | zero => exact absurd hb (Nat.not_lt_zero _)
  | succ bound ih =>
    obtain ⟨bound', rfl⟩ := Nat.exists_eq_add_one_of_ne_zero (Nat.ne_zero_of_lt hb')
    apply (hstep front a b c c' hn hc hab).bind
    intro left x y d d' hl hd hgoes
    match x, y, hgoes with
    | none, none, heq =>
      refine ⟨left, List.suffix_refl _, hd, hl.length_le, ?_⟩
      exact hl.eq_of_length heq ▸ hab
    | some x, some y, ⟨hlt, hxy⟩ =>
      apply (ih hd (by omega) (by omega) (by omega) hxy).mono
      rintro m x y ⟨hm, hxy⟩
      exact ⟨by omega, hxy⟩

theorem ends_recovering (ho : o.Fit true) {p p' : Parse Cursor α} {key : α → γ}
    (h : o.Ends g true front (Past front.length key) (p c) (p' c')) :
    o.Ends g true front (Recovered front.length key) (recovering p c) (recovering p' c') := by
  obtain ⟨hb, hb', -, -⟩ := ho.same rfl
  simp only [recovering_eq]
  cases hr : p c with
  | ok a d =>
    cases hr' : p' c' with
    | ok a' d' =>
      rw [hr, hr'] at h
      obtain ⟨left, hl, hd, hlt, hkey⟩ := h
      exact ⟨left, hl, hd, Nat.le_of_lt hlt, fun _ => hlt, congrArg some hkey⟩
    | error e d' =>
      rw [hr, hr'] at h
      exact h.elim
  | error e d =>
    cases hr' : p' c' with
    | ok a' d' =>
      rw [hr, hr'] at h
      exact h.elim
    | error e' d' =>
      rw [hr, hr'] at h
      obtain ⟨rfl, left, hl, hd⟩ := h
      have hrest : d.rest = left := by rw [hd.rest, hb, List.append_nil]
      have hrest' : d'.rest = left := by rw [hd.rest', hb', List.append_nil]
      have hnoted := hd.note (e := e) (.inl rfl)
      have hskip := skipStatement_suffix left
      refine ⟨skipStatement left, hskip.trans hl, ?_, Nat.le_trans hskip.length_le hl.length_le,
        ?_, rfl⟩
      · refine ⟨?_, ?_, hd.finish, hd.finish', hd.lenient, hd.lenient', hd.ids, hnoted.faults⟩
        · rw [hrest, hb, List.append_nil]
        · rw [hrest', hb', List.append_nil]
      · intro hpos
        by_cases hleft : left = []
        · rw [hleft]
          exact hpos
        · exact Nat.lt_of_lt_of_le (length_skipStatement hleft) hl.length_le

/-- Two readings that are put together alike end alike. -/
theorem Alike.ends {n : Nat} {p : Parse Cursor α} {p' : Parse Cursor β} {R : Nat → α → β → Prop}
    (hg : ∀ i j, g i = g j → g (i + 1) = g (j + 1)) (h : Alike g whole n p p' R)
    (ho : o.Fit whole) (hc : o.At g whole front c c') (hn : front.length = n) :
    o.Ends g whole front R (p c) (p' c') := by
  induction h generalizing front c c' with
  | pure hab => exact ⟨front, List.suffix_refl _, hc, hn ▸ hab⟩
  | bind _ _ ihp ihq =>
    apply (ihp hc hn).bind
    intro left a b d d' _ hd hab
    exact ihq _ a b hab hd rfl
  | weaken _ hrs ih => exact (ih hc hn).mono hrs
  | acceptAny hk =>
    subst hn
    exact ends_acceptAny ho hk hc
  | check kind =>
    rw [check_eq, check_eq]
    refine ⟨front, List.suffix_refl _, hc, hn, ?_⟩
    rw [hc.head?_eq ho]
  | atEnd =>
    rw [atEnd_eq, atEnd_eq]
    refine ⟨front, List.suffix_refl _, hc, hn, hc.isEmpty_eq ho, ?_⟩
    rintro rfl
    rw [hc.rest, (ho.same rfl).1, List.append_nil, List.isEmpty_iff, ← hn,
      List.length_eq_zero_iff]
  | peek =>
    exact ⟨front, List.suffix_refl _, hc, hn, hc.headD_eq ho⟩
  | refuse what => exact ends_refuse ho what hc
  | note place hmild => exact ⟨front, List.suffix_refl _, hc.note hmild, hn⟩
  | fresh =>
    refine ⟨front, List.suffix_refl _, ?_, hn, hc.ids⟩
    exact ⟨hc.rest, hc.rest', hc.finish, hc.finish', hc.lenient, hc.lenient', hg _ _ hc.ids,
      hc.faults⟩
  | terminator what hw =>
    subst hw hn
    exact ends_terminator ho what hc
  | @chain _ _ _ _ _ _ _ _ _ hab ih =>
    subst hn
    rw [chain_eq, chain_eq]
    apply ends_iterate (fun left a b d d' hl hd hab => ih _ a b hl hab hd rfl) hc (Nat.le_refl _)
    · rw [hc.rest, List.length_append]
      omega
    · rw [hc.rest', List.length_append]
      omega
    · exact hab
  | recovering hw _ ih =>
    subst hw hn
    exact ends_recovering ho (ih hc rfl)

end Parse

end Scriptling
