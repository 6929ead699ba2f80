import Scriptling.Proofs.Parser
import Scriptling.Proofs.SideBySide

namespace Scriptling

def Sides.alone (c : Cursor) : Sides where
  beyond := []
  beyond' := []
  finish := c.finish
  finish' := c.finish
  lenient := c.lenient
  lenient' := c.lenient
  noted := c.faults
  noted' := c.faults

theorem Sides.fit_alone (c : Cursor) : (Sides.alone c).Fit true :=
  ⟨fun _ => ⟨rfl, rfl, rfl, rfl⟩, fun h => absurd h (by decide)⟩

theorem Sides.at_alone (c : Cursor) : (Sides.alone c).At id true c.rest c c :=
  ⟨(List.append_nil _).symm, (List.append_nil _).symm, rfl, rfl, rfl, rfl, rfl,
    [], (List.append_nil _).symm, (List.append_nil _).symm, .inl rfl⟩

namespace Parse

variable {α β : Type}

/-- What is left after a result is the end of what was left before. -/
theorem Alike.ok {p : Parse Cursor α} {p' : Parse Cursor β} {R : Nat → α → β → Prop} {a : α}
    {c d : Cursor} (h : Alike id true c.rest.length p p' R) (hp : p c = .ok a d) :
    d.rest <:+ c.rest ∧ ∃ b, R d.rest.length a b := by
  have hnumber : ∀ i j : ExprId, id i = id j → id (i + 1) = id (j + 1) :=
    fun _ _ hij => congrArg Nat.succ hij
  have hends := h.ends hnumber (Sides.fit_alone c) (Sides.at_alone c) rfl
  cases hp' : p' c with
  | error e d' =>
    rw [hp, hp'] at hends
    exact hends.elim
  | ok b d' =>
    rw [hp, hp'] at hends
    obtain ⟨left, hl, hd, hab⟩ := hends
    obtain rfl : d.rest = left := hd.rest.trans (List.append_nil left)
    exact ⟨hl, b, hab⟩

variable {C : Type} {μ : C → Nat} {c d : C}

/-- Where every step that goes on passes a token, the bound is never reached. -/
theorem iterate_eq {P : C → α → Prop} {step : α → Parse C (Option α)}
    (hstep : ∀ a b c d, P c a → step a c = .ok (some b) d → μ d < μ c ∧ P d b)
    {bound bound' : Nat} {a : α} (ha : P c a) (hb : μ c < bound) (hb' : μ c < bound') :
    iterate step bound a c = iterate step bound' a c := by
  induction bound generalizing bound' a c with
  | zero => exact absurd hb (Nat.not_lt_zero _)
  | succ bound ih =>
    obtain ⟨bound', rfl⟩ := Nat.exists_eq_add_one_of_ne_zero (Nat.ne_zero_of_lt hb')
    simp only [iterate, bind_eq]
    cases hs : step a c with
    | error e d => rfl
    | ok o d =>
      cases o with
      | none => rfl
      | some b =>
        obtain ⟨hlt, hPd⟩ := hstep a b c d ha hs
        exact ih hPd (by omega) (by omega)

variable [Reader C]

/-- So a chain that goes on is the chain from there. -/
theorem chain_next (hμ : ∀ c : C, μ c ≤ Reader.left c) {P : C → α → Prop}
    {step : α → Parse C (Option α)}
    (hstep : ∀ a b c d, P c a → step a c = .ok (some b) d → μ d < μ c ∧ P d b)
    {a b : α} (ha : P c a) (h : step a c = .ok (some b) d) : chain step a c = chain step b d := by
  obtain ⟨hlt, hPd⟩ := hstep a b c d ha h
  have hbound : iterate step (Reader.left c) b d = chain step b d :=
    iterate_eq hstep hPd (Nat.lt_of_lt_of_le hlt (hμ c)) (Nat.lt_succ_of_le (hμ d))
  rw [← hbound, chain, iterate, bind_eq, h]

theorem chain_done {step : α → Parse C (Option α)} {a : α} (h : step a c = .ok none d) :
    chain step a c = .ok a d := by
  simp only [chain, iterate, bind_eq, h]
  rfl

theorem chain_error {step : α → Parse C (Option α)} {a : α} {e : Located ParseFault}
    (h : step a c = .error e d) : chain step a c = .error e d := by
  simp only [chain, iterate, bind_eq, h]

/-- A chain of steps that do not fail does not fail. -/
theorem chain_ok {step : α → Parse C (Option α)} (hstep : ∀ a c, ∃ o d, step a c = .ok o d) (a : α)
    (c : C) : ∃ b d, chain step a c = .ok b d := by
  have hiterate : ∀ bound (a : α) c, ∃ b d, iterate step bound a c = .ok b d := by
    intro bound
    induction bound with
    | zero => exact fun a c => ⟨a, c, rfl⟩
    | succ bound ih =>
      intro a c
      obtain ⟨o, d, hs⟩ := hstep a c
      rw [iterate, bind_eq, hs]
      cases o with
      | none => exact ⟨a, d, rfl⟩
      | some b => exact ih b d
  exact hiterate _ a c

/-- A chain ends with a step that has nothing more. -/
theorem chain_stops (hμ : ∀ c : C, μ c ≤ Reader.left c) {P : C → α → Prop} {Q : C → Prop}
    {step : α → Parse C (Option α)}
    (hstep : ∀ a b c d, P c a → step a c = .ok (some b) d → μ d < μ c ∧ P d b)
    (hstop : ∀ a c d, step a c = .ok none d → Q d) {a b : α} (ha : P c a)
    (h : chain step a c = .ok b d) : Q d := by
  generalize hk : μ c = k
  induction k using Nat.strongRecOn generalizing a c with
  | ind k ih =>
    cases hs : step a c with
    | error e d' =>
      rw [chain_error hs] at h
      cases h
    | ok o d' =>
      cases o with
      | none =>
        rw [chain_done hs] at h
        cases h
        exact hstop _ _ _ hs
      | some a' =>
        obtain ⟨hlt, ha'⟩ := hstep a a' c d' ha hs
        rw [chain_next hμ hstep ha hs] at h
        exact ih _ (hk ▸ hlt) ha' h rfl

end Parse

namespace Grammar

open Parse

variable {depth : Nat} {c d : Cursor}

/-- A declaration is read to its end or recovered from; it does not fail. -/
theorem declaration_ok {C : Type} [Reader C] (rules : Rules C) (depth : Nat) (c : C) :
    ∃ o d, (Blocks.upTo rules depth).declaration c = .ok o d := by
  obtain ⟨p, hp⟩ : ∃ p, (Blocks.upTo rules depth).declaration = recovering p := by
    cases depth with
    | zero => exact ⟨refuse .expression, rfl⟩
    | succ depth => exact ⟨declaration rules (Blocks.upTo rules depth), rfl⟩
  rw [hp, recovering]
  cases p c with
  | ok s d => exact ⟨_, _, rfl⟩
  | error e d => exact ⟨_, _, rfl⟩

/-- Where there is a token before it, it passes one. -/
theorem declaration_passes (depth depth' : Nat) (hc : c.rest ≠ []) :
    ∃ o d, (Blocks.upTo (Rules.upTo depth) depth').declaration c = .ok o d ∧
      d.rest.length < c.rest.length := by
  have hblocks : (Blocks.upTo (Rules.upTo depth) depth' : Blocks Cursor).Alike id
      (c.rest.length + 1) (Blocks.upTo (Rules.upTo depth) depth' : Blocks Cursor) :=
    Blocks.alike_upTo id (.inl rfl) (.inl rfl)
  obtain ⟨o, d, hd⟩ := declaration_ok (Rules.upTo depth) depth' c
  obtain ⟨-, -, -, hpast, -⟩ := (hblocks.declaration _ (Nat.lt_succ_self c.rest.length)).ok hd
  exact ⟨o, d, hd, hpast (List.length_pos_iff.2 hc)⟩

/-- Declarations go on while tokens are left. -/
theorem declared_toEnd (blocks : Blocks Cursor) (read : List Stmt) (c : Cursor) :
    declared blocks (do return !(← atEnd)) read c =
      if c.rest = [] then .ok none c
      else (do return some (read ++ (← blocks.declaration).toList)) c := by
  have hend : (do return !(← atEnd) : Parse Cursor Bool) c = .ok (!c.rest.isEmpty) c := rfl
  rw [declared, bind_eq, hend]
  cases c.rest <;> rfl

/-- Declarations go on past a token. -/
theorem declared_passes (depth : Nat) {read read' : List Stmt}
    (h : declared (Blocks.upTo (Rules.upTo depth) depth) (do return !(← atEnd)) read c =
      .ok (some read') d) : d.rest.length < c.rest.length := by
  rw [declared_toEnd] at h
  split at h
  · cases h
  · obtain ⟨o, d', hd', hlt⟩ := declaration_passes depth depth ‹_›
    rw [bind_eq, hd'] at h
    cases h
    exact hlt

/-- A program is read up to the end, and reading it does not fail. -/
theorem program_ends (depth : Nat) (c : Cursor) :
    ∃ ss d, program depth c = .ok ss d ∧ d.rest = [] := by
  have hok : ∀ read (c : Cursor), ∃ o d, declared (Blocks.upTo (Rules.upTo depth) depth)
      (do return !(← atEnd)) read c = .ok o d := by
    intro read c
    rw [declared_toEnd, bind_eq]
    split
    · exact ⟨_, _, rfl⟩
    · obtain ⟨o, d, hd⟩ := declaration_ok (Rules.upTo depth) depth c
      rw [hd]
      exact ⟨_, _, rfl⟩
  obtain ⟨ss, d, hd⟩ := chain_ok hok [] c
  refine ⟨ss, d, hd, ?_⟩
  apply chain_stops (μ := fun c => c.rest.length) (P := fun _ _ => True) (fun _ => Nat.le_refl _)
    ?_ ?_ trivial hd
  · intro read read' c d _ hs
    exact ⟨declared_passes depth hs, trivial⟩
  · intro read c d hs
    rw [declared_toEnd] at hs
    split at hs
    · cases hs
      assumption
    · obtain ⟨o, d', hd'⟩ := declaration_ok (Rules.upTo depth) depth c
      rw [bind_eq, hd'] at hs
      cases hs

end Grammar

/-- The answer is the statements if no fault is noted, or else these faults. -/
theorem result_parse {lenient : Bool} {nextId : ExprId} {tokens : List Token} {ss : List Stmt}
    {last : Cursor}
    (h : Grammar.program ((Cursor.start lenient nextId tokens).rest.length + 1)
      (Cursor.start lenient nextId tokens) = .ok ss last) :
    (parse lenient nextId tokens).result =
      if last.faults = [] then .ok ss else .error last.faults := by
  simp only [parse_eq, Cursor.parse, h, List.isEmpty_iff]

end Scriptling
