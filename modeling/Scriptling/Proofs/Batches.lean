import Scriptling.Proofs.Statuses

namespace Scriptling

variable {P : Site → Prop} {w : World} {s : Session} {p q : List Stmt}

theorem Stmt.sitesAll_append (p q : List Stmt) :
    Stmt.sitesAll [] (p ++ q) = Stmt.sitesAll [] p ++ Stmt.sitesAll [] q := by
  induction p with
  | nil => rfl
  | cons s p ih =>
    rw [List.cons_append, Stmt.sitesAll, Stmt.sitesAll, Stmt.after_outside, ih, List.append_assoc]

/-- Each of the two is noted as it is alone, whatever globals are known to it there. -/
theorem resolve_append {globals globals' globals'' : List String} (hp : Stmt.ProperAll p)
    (hq : Stmt.ProperAll q)
    (hwhole : (resolve globals (p ++ q)).faults = []) (hfirst : (resolve globals' p).faults = [])
    (hsecond : (resolve globals'' q).faults = []) :
    (resolve globals (p ++ q)).distances =
      (resolve globals'' q).distances ++ (resolve globals' p).distances := by
  rw [(resolve_notes (Stmt.properAll_append hp hq) hwhole).1, (resolve_notes hp hfirst).1,
    (resolve_notes hq hsecond).1, Stmt.sitesAll_append]
  simp only [notesOf, List.flatMap_append, List.reverse_append]

/-- Notes may be made in two goes. -/
theorem Session.noteDistances_append (s : Session) (notes notes' : List (ExprId × Nat)) :
    s.noteDistances (notes' ++ notes) = (s.noteDistances notes).noteDistances notes' := by
  unfold Session.noteDistances
  rw [List.foldr_append]

/-- A program that was read has numbers from the first unused one on, and properly spelled names. -/
theorem parse_delivered {lenient : Bool} {n : ExprId} {source : String}
    (h : (parse lenient n (tokensOf (scan source))).result = .ok p) :
    Delivered n (parse lenient n (tokensOf (scan source))).nextId p := by
  have hread : (Session.read ⟨.start [] .unlimited 0 0, n, lenient⟩ source).parsed = .ok p := by
    simp only [Session.read, h]
  exact Session.read_delivered hread

namespace Session.Settled

/-- A program that was read already, and all functions, refer by numbers below those of the notes. -/
theorem runAll_noteDistances (h : s.Settled P w) (hp : ∀ u ∈ Stmt.usesAll p, u.id < s.nextId)
    {notes : List (ExprId × Nat)} {bound : ExprId}
    (hnotes : ∀ id, ¬ (s.nextId ≤ id ∧ id < bound) → notes.lookup id = none)
    (depth : Nat) (interactive : Bool) :
    runAll (.upTo depth) interactive p (s.noteDistances notes).machine =
      { runAll (.upTo depth) interactive p s.machine with
        machine := ({ s with machine := (runAll (.upTo depth) interactive p s.machine).machine
          }.noteDistances notes).machine } := by
  -- numbers that are not given yet are moved beyond the notes: once with the notes, once without
  have hturn : ∀ table, p.map (Stmt.turn (Shift.mk s.nextId bound table).use) = p := by
    intro table
    rw [← Stmt.turnAll_eq_map]
    refine Stmt.turnAll_eq_self p fun u hu => ?_
    rw [Shift.use, Use.shift, shiftId_of_lt (hp u hu)]
  have hshift : ∀ table, s.machine.shift ⟨s.nextId, bound, table⟩ =
      { s.machine with distances := table } := by
    intro table
    unfold Machine.shift
    rw [h.closures_shift _ (Nat.le_refl _)]
  have hunnoted : ∀ id : ExprId, s.nextId ≤ id → s.machine.distances[id + bound]? = none :=
    fun id hid => h.unnoted _ (Nat.le_trans hid (Nat.le_add_right _ _))
  have hplain : (Shift.mk s.nextId bound s.machine.distances).Fits s.machine := by
    intro id
    rcases Nat.lt_or_ge id s.nextId with hid | hid
    · rw [shiftId_of_lt hid]
    · rw [shiftId_of_le hid, hunnoted id hid, h.unnoted id hid]
  have hnoted : (Shift.mk s.nextId bound (s.noteDistances notes).machine.distances).Fits
      s.machine := by
    intro id
    refine (getElem?_notes notes s.machine.distances _).trans ?_
    rcases Nat.lt_or_ge id s.nextId with hid | hid
    · rw [shiftId_of_lt hid, hnotes id fun hand => Nat.not_le_of_lt hid hand.1, Option.none_or]
    · rw [shiftId_of_le hid, hunnoted id hid, h.unnoted id hid, Option.or_none]
      exact hnotes _ fun hand => Nat.not_lt_of_le (Nat.le_add_left bound id) hand.2
  obtain ⟨-, hsame⟩ := (Shift.below_upTo _ depth).runAll interactive p hplain
  obtain ⟨-, hran⟩ := (Shift.below_upTo _ depth).runAll interactive p hnoted
  rw [hturn, hshift] at hsame hran
  have hfixed : (runAll (.upTo depth) interactive p s.machine).machine.shift
      ⟨s.nextId, bound, s.machine.distances⟩ =
        (runAll (.upTo depth) interactive p s.machine).machine :=
    (congrArg Session.Ran.machine hsame).symm
  have hdistances : (runAll (.upTo depth) interactive p s.machine).machine.distances =
      s.machine.distances := (congrArg Machine.distances hfixed).symm
  have hstore : (runAll (.upTo depth) interactive p s.machine).machine.store.shift
      ⟨s.nextId, bound, (s.noteDistances notes).machine.distances⟩ =
        (runAll (.upTo depth) interactive p s.machine).machine.store :=
    congrArg Machine.store hfixed
  refine hran.trans ?_
  unfold Session.Ran.shift Machine.shift
  rw [hstore]
  unfold Session.noteDistances
  rw [hdistances]

/-- The second of two programs starts as it does when it is noted after the first one has run. -/
theorem runAll_append (h : s.Settled P w) (hp : ∀ u ∈ Stmt.usesAll p, u.id < s.nextId)
    {notes : List (ExprId × Nat)} {bound : ExprId}
    (hnotes : ∀ id, ¬ (s.nextId ≤ id ∧ id < bound) → notes.lookup id = none)
    (depth : Nat) (interactive : Bool) :
    runAll (.upTo depth) interactive (p ++ q) (s.noteDistances notes).machine =
      let ran := runAll (.upTo depth) interactive p s.machine
      let t := ({ s with machine := ran.machine }.noteDistances notes).machine
      let ran' := runAll (.upTo depth) interactive q t
      if ran.complete then { ran' with failures := ran.failures ++ ran'.failures }
      else { ran with machine := t } := by
  rw [Session.runAll_append, h.runAll_noteDistances hp hnotes]

end Session.Settled

namespace Session

/-- Flushing at the end changes nothing. -/
theorem interpret_flushed {b : Below} (h : b.Steps) (interactive : Bool) (ss : List Stmt)
    {m : Machine} (hm : m.output.flush = (true, m.output)) :
    interpret b interactive ss m = runAll b interactive ss m := by
  have hflush := (reaches_runAll h interactive ss m).flush_eq hm
  unfold interpret Ran.flush
  dsimp only
  rw [hflush]
  exact ite_self _

/-- Where every flush works, a program does nothing but run its statements. -/
theorem perform_flushed {b : Below} (h : b.Steps) {ss : List Stmt}
    (hclean : (resolve s.globalNames ss).faults = [])
    (hs : s.machine.output.flush = (true, s.machine.output)) :
    s.perform b ss = (s.noteDistances (resolve s.globalNames ss).distances).outcomeOf
      (runAll b s.interactive ss
        (s.noteDistances (resolve s.globalNames ss).distances).machine) := by
  rw [perform_clean b hclean, interpret_flushed h]
  exact hs

/-- What is reported of two runs, one after the other, as it is told apart and as it is told at
once. -/
theorem outcomeOf_joined (s : Session) (ran ran' : Ran) (notes : List (ExprId × Nat)) :
    let first := s.outcomeOf ran
    let second := (first.session.noteDistances notes).outcomeOf ran'
    let whole := (s.noteDistances notes).outcomeOf
      (if ran.complete then { ran' with failures := ran.failures ++ ran'.failures }
      else { ran with machine := (first.session.noteDistances notes).machine })
    (first.status ≠ .exhausted →
      whole.session = second.session ∧ whole.reports = first.reports ++ second.reports ∧
      (whole.status = .exhausted ↔ second.status = .exhausted) ∧
      (whole.status = .ok ↔ first.status = .ok ∧ second.status = .ok)) ∧
    (first.status = .exhausted →
      whole.status = .exhausted ∧ whole.reports = first.reports ∧
      ∃ distances, whole.session.machine = { first.session.machine with distances }) := by
  intro first second whole
  cases hc : ran.complete with
  | true =>
    have hwhole : whole = (s.noteDistances notes).outcomeOf
        { ran' with failures := ran.failures ++ ran'.failures } := by
      simp only [whole, hc, if_true]
    have hfirst : first.status ≠ .exhausted := by
      rw [ne_eq, exhausted_outcomeOf, hc]
      decide
    refine ⟨fun _ => ?_, fun h => absurd h hfirst⟩
    rw [hwhole]
    refine ⟨rfl, List.map_append, ?_, ?_⟩
    · rw [exhausted_outcomeOf, exhausted_outcomeOf]
    · rw [ok_outcomeOf, ok_outcomeOf, ok_outcomeOf, hc, List.append_eq_nil_iff]
      tauto
  | false =>
    have hwhole : whole = (s.noteDistances notes).outcomeOf
        { ran with machine := (first.session.noteDistances notes).machine } := by
      simp only [whole, hc, Bool.false_eq_true, if_false]
    have hfirst : first.status = .exhausted := (exhausted_outcomeOf s ran).2 hc
    refine ⟨fun h => absurd hfirst h, fun _ => ?_⟩
    rw [hwhole]
    exact ⟨(exhausted_outcomeOf _ _).2 hc, rfl, _, rfl⟩

end Session

/-- Two programs, read one after the other, that are accepted joined as well as alone. Run as one
they leave the session as they leave it when the second is run after the first, and what fails is
the same in the same order. If the first is not done within the depth, the two are not either. -/
theorem batch_incremental (interactive : Bool) (input : List UInt8) (output : Output)
    (clock : Supply Int) (chances : Supply Nat) (before depth : Nat) (turns : List Turn)
    (t : Turn) {s : Session}
    (hs : s = ((Session.start interactive (.start input output clock chances)).after (.upTo before)
      turns).supply t)
    (hsink : t.output.flush = (true, t.output))
    {lenient lenient' : Bool} {n n' : ExprId} {source source' : String} {p q : List Stmt}
    (hn : s.nextId ≤ n) (hp : (parse lenient n (tokensOf (scan source))).result = .ok p)
    (hn' : (parse lenient n (tokensOf (scan source))).nextId ≤ n')
    (hq : (parse lenient' n' (tokensOf (scan source'))).result = .ok q)
    (hwhole : (resolve s.globalNames (p ++ q)).faults = [])
    (hfirst : (resolve s.globalNames p).faults = [])
    (hsecond : (resolve (s.perform (.upTo depth) p).session.globalNames q).faults = []) :
    let whole := s.perform (.upTo depth) (p ++ q)
    let first := s.perform (.upTo depth) p
    let second := first.session.perform (.upTo depth) q
    (first.status ≠ .exhausted →
      whole.session = second.session ∧ whole.reports = first.reports ++ second.reports ∧
      (whole.status = .exhausted ↔ second.status = .exhausted) ∧
      (whole.status = .ok ↔ first.status = .ok ∧ second.status = .ok)) ∧
    (first.status = .exhausted →
      whole.status = .exhausted ∧ whole.reports = first.reports ∧
      ∃ distances, whole.session.machine = { first.session.machine with distances }) := by
  intro whole first second
  have hflush : s.machine.output.flush = (true, s.machine.output) := by
    rw [hs]
    exact hsink
  obtain ⟨w, hafter⟩ := (Session.settled_start (fun _ => True) interactive input output clock
    chances).after (fun _ => trivial) before turns
  have hsettled := hafter.supply t
  rw [← hs] at hsettled
  have hdp := parse_delivered hp
  have hdq := parse_delivered hq
  have hsteps := Below.steps_upTo depth
  have hnext := Nat.le_trans hn hdp.spread.le
  have hnoted := hsettled.noteDistances hnext (resolve s.globalNames p).distances fun id hid =>
    hdp.lookup_outside fun hand => hid ⟨Nat.le_trans hn hand.1, hand.2⟩
  have hnotes := resolve_append hdp.proper hdq.proper hwhole hfirst hsecond
  have hlater : ∀ id, ¬ ((parse lenient n (tokensOf (scan source))).nextId ≤ id ∧
      id < (parse lenient' n' (tokensOf (scan source'))).nextId) →
      (resolve first.session.globalNames q).distances.lookup id = none :=
    fun id hid => hdq.lookup_outside fun hand => hid ⟨Nat.le_trans hn' hand.1, hand.2⟩
  have hran := hnoted.runAll_append (q := q) (fun u hu => (hdp.spread.within u hu).2) hlater
    depth s.interactive
  have hfirst_eq : first = _ := Session.perform_flushed hsteps hfirst hflush
  have hflush' : first.session.machine.output.flush = (true, first.session.machine.output) := by
    rw [hfirst_eq]
    exact (Session.reaches_runAll hsteps _ _ _).flush_eq hflush
  have hsecond_eq : second = _ := Session.perform_flushed hsteps hsecond hflush'
  have hwhole_eq : whole = _ := Session.perform_flushed hsteps hwhole hflush
  rw [hnotes, Session.noteDistances_append] at hwhole_eq
  replace hwhole_eq := hwhole_eq.trans (congrArg _ hran)
  have hjoined := Session.outcomeOf_joined (s.noteDistances (resolve s.globalNames p).distances)
    (Session.runAll (.upTo depth) s.interactive p
      (s.noteDistances (resolve s.globalNames p).distances).machine)
    (Session.runAll (.upTo depth) s.interactive q
      (first.session.noteDistances (resolve first.session.globalNames q).distances).machine)
    (resolve first.session.globalNames q).distances
  have hsame : first.session.interactive = s.interactive := by rw [hfirst_eq]; rfl
  rw [hsame] at hsecond_eq
  rw [hwhole_eq, hsecond_eq, hfirst_eq]
  rw [hfirst_eq] at hjoined
  exact hjoined

def statementsOf (n : ExprId) (source : String) : List Stmt :=
  match (parse false n (tokensOf (scan source))).result with
  | .ok ss => ss
  | .error _ => []

/-- A source text that can be read is read to its statements. -/
theorem result_statementsOf (n : ExprId) (source : String)
    (h : (parse false n (tokensOf (scan source))).result.isOk = true) :
    (parse false n (tokensOf (scan source))).result = .ok (statementsOf n source) := by
  unfold statementsOf
  cases hr : (parse false n (tokensOf (scan source))).result with
  | ok ss => rfl
  | error faults =>
    rw [hr] at h
    cases h

/-- A program that makes a variable and fails in its second statement. -/
def variableFailing : String := "var a = f(1); a + nil;"

def variableCounted : String := "func g() \x7b a = a + 1; return a; \x7d print(g());"

def unheard : Turn := ⟨"", false, [], .unlimited, 0, 0⟩

/-- Of the joined program the last statement sees the variable and the function, and what failed
before is reported once. -/
theorem batch_incremental_counted :
    let p := statementsOf 1 variableFailing
    let q := statementsOf 9 variableCounted
    let whole := (functionMade.supply unheard).perform (.upTo 12) (p ++ q)
    let first := (functionMade.supply unheard).perform (.upTo 12) p
    let second := first.session.perform (.upTo 12) q
    p.length = 2 ∧ q.length = 2 ∧ first.status = .runtimeError ∧ second.status = .ok ∧
    first.reports.length = 1 ∧ whole.session = second.session ∧
    whole.reports = first.reports ++ second.reports ∧ whole.status ≠ .ok := by
  intro p q whole first second
  have hjoined := batch_incremental false [] .unlimited 0 0 9 12
    [⟨"func f(x) \x7b return x; \x7d", false, [], .unlimited, 0, 0⟩] unheard
    (s := functionMade.supply unheard) rfl rfl
    (by decide +kernel) (result_statementsOf 1 variableFailing (by decide +kernel))
    (by decide +kernel) (result_statementsOf 9 variableCounted (by decide +kernel))
    (List.isEmpty_iff.1 (by decide +kernel)) (List.isEmpty_iff.1 (by decide +kernel))
    (List.isEmpty_iff.1 (by decide +kernel))
  have hstatus : first.status = .runtimeError := by decide +kernel
  obtain ⟨hsession, hreports, -, hok⟩ := hjoined.1 (by rw [hstatus]; decide)
  refine ⟨by decide +kernel, by decide +kernel, hstatus, by decide +kernel, by decide +kernel,
    hsession, hreports, fun h => ?_⟩
  have hfirst := (hok.1 h).1
  rw [hstatus] at hfirst
  cases hfirst

end Scriptling
