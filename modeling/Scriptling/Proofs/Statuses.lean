import Scriptling.Proofs.Refusal

namespace Scriptling

variable {s : Session} {source : String} {ss : List Stmt} {b : Below}

/-- The status says what is reported: nothing, only what was found before the program ran, or only
what failed while it ran. -/
structure Outcome.Told (o : Outcome) : Prop where
  ok : o.status = .ok ↔ o.reports = []
  compileError : o.status = .compileError ↔
    o.reports ≠ [] ∧ ∀ r ∈ o.reports, r.compileTime = true
  runtimeError : o.status = .runtimeError ↔
    o.reports ≠ [] ∧ ∀ r ∈ o.reports, r.compileTime = false

/-- No report is of both kinds. -/
theorem Report.not_both {reports : List Report} {c : Bool} (hne : reports ≠ [])
    (h : ∀ r ∈ reports, r.compileTime = c) : ¬ ∀ r ∈ reports, r.compileTime = !c := by
  intro h'
  obtain ⟨r, hr⟩ := List.exists_mem_of_ne_nil reports hne
  have hboth := (h r hr).symm.trans (h' r hr)
  cases c <;> cases hboth

/-- A program that cannot be read has faults. -/
theorem parse_faults {lenient : Bool} {n : ExprId} {tokens : List Token}
    {faults : List (Located ParseFault)} (h : (parse lenient n tokens).result = .error faults) :
    faults ≠ [] := by
  unfold parse at h
  dsimp only at h
  split at h
  · dsimp only at h
    split at h
    · cases h
    · rename_i hfaults
      cases h
      simpa using hfaults
  · cases h
    simp

/-- They are reported, and found before it runs. -/
theorem Session.read_faults {reports : List Report} (h : (s.read source).parsed = .error reports) :
    reports ≠ [] ∧ ∀ r ∈ reports, r.compileTime = true := by
  unfold Session.read at h
  dsimp only at h
  split at h
  · cases h
  · rename_i faults hfaults
    cases h
    refine ⟨by simpa using parse_faults hfaults, fun r hr => ?_⟩
    obtain ⟨fault, -, rfl⟩ := List.mem_map.1 hr
    rfl

theorem Session.compileTime_lexReports (s : Session) (source : String) :
    ∀ r ∈ (s.read source).lexReports, r.compileTime = true := by
  intro r hr
  obtain ⟨fault, -, rfl⟩ := List.mem_map.1 hr
  rfl

/-- A program that is refused reports something, and only what was found before it could run. -/
theorem Session.reports_refused (h : s.accepted? source = none) (b : Below) :
    (s.runBy b source).status = .compileError ∧ (s.runBy b source).reports ≠ [] ∧
      ∀ r ∈ (s.runBy b source).reports, r.compileTime = true := by
  have hlex := s.compileTime_lexReports source
  cases hparsed : (s.read source).parsed with
  | error reports =>
    obtain ⟨hne, hall⟩ := read_faults hparsed
    rw [runBy_unread b hparsed]
    exact ⟨rfl, by simp [hne], List.forall_mem_append.2 ⟨hlex, hall⟩⟩
  | ok ss =>
    by_cases hscanned : (s.read source).lexReports = []
    · have hfaults := faults_of_refused h hparsed hscanned
      rw [runBy_read b hparsed hscanned, perform_faulty b hfaults]
      refine ⟨rfl, by simpa using hfaults, fun r hr => ?_⟩
      obtain ⟨fault, -, rfl⟩ := List.mem_map.1 hr
      rfl
    · rw [runBy_unscanned b hparsed hscanned]
      exact ⟨rfl, hscanned, hlex⟩

theorem Session.told_refused (h : s.accepted? source = none) (b : Below) :
    (s.runBy b source).Told := by
  obtain ⟨hstatus, hne, hall⟩ := reports_refused h b
  refine ⟨?_, ?_, ?_⟩
  · rw [hstatus]
    exact ⟨nofun, fun hnil => absurd hnil hne⟩
  · exact ⟨fun _ => ⟨hne, hall⟩, fun _ => hstatus⟩
  · rw [hstatus]
    exact ⟨nofun, fun hfailed => absurd hfailed.2 (Report.not_both hne hall)⟩

namespace Session

theorem exhausted_outcomeOf (s : Session) (ran : Ran) :
    (s.outcomeOf ran).status = .exhausted ↔ ran.complete = false := by
  obtain ⟨failures, complete, machine⟩ := ran
  cases complete with
  | false => exact ⟨fun _ => rfl, fun _ => rfl⟩
  | true => cases failures <;> simp [outcomeOf]

theorem ok_outcomeOf (s : Session) (ran : Ran) :
    (s.outcomeOf ran).status = .ok ↔ ran.complete = true ∧ ran.failures = [] := by
  obtain ⟨failures, complete, machine⟩ := ran
  cases complete with
  | false => simp [outcomeOf]
  | true => cases failures <;> simp [outcomeOf]

theorem runtimeError_outcomeOf (s : Session) (ran : Ran) :
    (s.outcomeOf ran).status = .runtimeError ↔ ran.complete = true ∧ ran.failures ≠ [] := by
  obtain ⟨failures, complete, machine⟩ := ran
  cases complete with
  | false => simp [outcomeOf]
  | true => cases failures <;> simp [outcomeOf]

theorem told_outcomeOf (s : Session) {ran : Ran} (hc : ran.complete = true) :
    (s.outcomeOf ran).Told := by
  have hall : ∀ r ∈ (s.outcomeOf ran).reports, r.compileTime = false := by
    intro r hr
    obtain ⟨failure, -, rfl⟩ := List.mem_map.1 hr
    rfl
  have hnil : (s.outcomeOf ran).reports = [] ↔ ran.failures = [] := List.map_eq_nil_iff
  refine ⟨?_, ?_, ?_⟩
  · rw [ok_outcomeOf, hnil]
    exact ⟨And.right, fun h => ⟨hc, h⟩⟩
  · refine ⟨fun h => ?_, fun h => absurd h.2 (Report.not_both h.1 hall)⟩
    exact absurd h (status_outcomeOf s ran)
  · rw [runtimeError_outcomeOf, ne_eq, ne_eq, hnil]
    exact ⟨fun h => ⟨h.2, hall⟩, fun h => ⟨hc, h.1⟩⟩

end Session

/-- A statement outside all others that was tried, from one machine to another, and what it was
given up for, if it was. -/
structure Attempt where
  statement : Stmt
  before : Machine
  failure : Option Failure
  after : Machine

/-- This is what running the statement does. -/
def Attempt.Made (b : Below) (interactive : Bool) (a : Attempt) : Prop :=
  (Session.runTopLevel b interactive a.statement).run a.before =
    match a.failure with
    | none => .ok () a.after
    | some failure => .error (.failed failure) a.after

/-- Attempts one after the other, each on the machine that the one before it left. -/
inductive Attempts (b : Below) (interactive : Bool) : Machine → List Attempt → Machine → Prop
  | none (m : Machine) : Attempts b interactive m [] m
  | next {a : Attempt} {as : List Attempt} {m : Machine} : a.Made b interactive →
      Attempts b interactive a.after as m → Attempts b interactive a.before (a :: as) m

/-- Attempts only take steps. -/
theorem Attempts.reaches {b : Below} (h : b.Steps) {interactive : Bool} {m m₁ : Machine}
    {as : List Attempt} (has : Attempts b interactive m as m₁) : m.Reaches m₁ := by
  induction has with
  | none m => exact .refl m
  | @next a as m ha _ ih =>
    have hstep := Session.runs_runTopLevel h interactive a.statement a.before
    unfold Attempt.Made at ha
    cases hf : a.failure with
    | none =>
      rw [hf] at ha
      rw [Machine.after_ok ha] at hstep
      exact hstep.trans ih
    | some failure =>
      rw [hf] at ha
      rw [Machine.after_error ha] at hstep
      exact hstep.trans ih

/-- Where flushes are all alike, they stay as they are. -/
theorem Machine.Reaches.flushFails_eq {m m₁ : Machine} (h : m.Reaches m₁)
    (hm : m.output.flushFails.rest = m.output.flushFails) :
    m₁.output.flushFails = m.output.flushFails := by
  induction h with
  | refl => rfl
  | step h =>
    cases h with
    | write text =>
      unfold Output.write
      split <;> rfl
    | flush => exact hm
    | _ => rfl
  | trans _ _ ih ih' =>
    have hfirst := ih hm
    exact (ih' (by rw [hfirst, hm])).trans hfirst
  | inside _ _ ih => exact ih hm

/-- Where flushes always end alike, they do after every step. -/
theorem Machine.Reaches.flush_eq {done : Bool} {m m₁ : Machine} (h : m.Reaches m₁)
    (hm : m.output.flush = (done, m.output)) : m₁.output.flush = (done, m₁.output) := by
  obtain ⟨hnext, hrest⟩ := Prod.ext_iff.1 hm
  replace hrest : m.output.flushFails.rest = m.output.flushFails := congrArg Output.flushFails hrest
  have hsame := h.flushFails_eq hrest
  have hdone : (!m.output.flushFails.next) = done := hnext
  rw [Output.flush, hsame, hrest, hdone, ← hsame]

namespace Session

/-- Where no statement runs out of depth, all of them are tried. -/
theorem runAll_attempts (h : b.Steps) (interactive : Bool) {m : Machine}
    (hm : m.current = .globals) (hc : (runAll b interactive ss m).complete = true) :
    ∃ attempts : List Attempt, attempts.map Attempt.statement = ss ∧
      Attempts b interactive m attempts (runAll b interactive ss m).machine ∧
      (runAll b interactive ss m).failures = attempts.filterMap Attempt.failure := by
  induction ss generalizing m with
  | nil => exact ⟨[], rfl, .none m, rfl⟩
  | cons s ss ih =>
    have hback := (runs_runTopLevel h interactive s).current_eq m
    rw [runAll_cons] at hc ⊢
    cases hr : (runTopLevel b interactive s).run m with
    | ok u m₁ =>
      rw [hr] at hc
      rw [Machine.after_ok hr] at hback
      obtain ⟨as, hss, has, hfailures⟩ := ih (hback.trans hm) hc
      have hmade : Attempt.Made b interactive ⟨s, m, none, m₁⟩ := hr
      exact ⟨_ :: as, congrArg _ hss, .next hmade has, hfailures⟩
    | error e m₁ =>
      rw [Machine.after_error hr] at hback
      rw [hr] at hc
      cases e with
      | exhausted => cases hc
      | failed failure =>
        -- the machine is among the globals already
        have hglobals : ({ m₁ with current := .globals } : Machine) = m₁ := by
          rw [← hm, ← hback]
        dsimp only at hc ⊢
        rw [hglobals] at hc ⊢
        obtain ⟨as, hss, has, hfailures⟩ := ih (hback.trans hm) hc
        have hmade : Attempt.Made b interactive ⟨s, m, some failure, m₁⟩ := hr
        exact ⟨_ :: as, congrArg _ hss, .next hmade has, congrArg _ hfailures⟩

/-- The last flush changes the output, and it may add to the failures of statements. -/
theorem interpret_flush (b : Below) (interactive : Bool) (ss : List Stmt) {m : Machine}
    (hc : (runAll b interactive ss m).complete = true) :
    let ran := interpret b interactive ss m
    (Machine.flush.run (runAll b interactive ss m).machine = .ok () ran.machine ∧
      ran.failures = (runAll b interactive ss m).failures) ∨
    (Machine.flush.run (runAll b interactive ss m).machine =
        .error (.failed (.stream .flushFailed)) ran.machine ∧
      ran.failures = (runAll b interactive ss m).failures ++ [.stream .flushFailed]) := by
  intro ran
  have hran : ran = (runAll b interactive ss m).flush := if_pos hc
  rw [hran, Machine.run_flush]
  unfold Ran.flush
  cases hdone : (runAll b interactive ss m).machine.output.flush.1 with
  | true => exact .inl ⟨rfl, by simp only [hdone, if_true]⟩
  | false => exact .inr ⟨rfl, by simp only [hdone, Bool.false_eq_true, if_false]⟩

/-- A program does not change whether flushes fail where that is always the same. -/
theorem flushFails_runBy {b : Below} (h : b.Steps) {s : Session}
    (hs : s.machine.output.flushFails.rest = s.machine.output.flushFails) (source : String) :
    (s.runBy b source).session.machine.output.flushFails = s.machine.output.flushFails := by
  cases hss : s.accepted? source with
  | none =>
    obtain ⟨distances, hmachine⟩ := machine_runBy_refused hss b
    rw [hmachine]
  | some ss =>
    have hran := (reaches_runAll h s.interactive ss (s.entered source ss)).flushFails_eq hs
    rw [runBy_accepted hss]
    change (interpret b s.interactive ss (s.entered source ss)).machine.output.flushFails = _
    unfold interpret
    dsimp only
    split
    · exact (congrArg Supply.rest hran).trans hs
    · exact hran

end Session

/-- In every session a program that comes to an end, within the depth, is told by its status: nothing
is reported, or only what was found before it ran, or only what failed while it ran. If it ran, each
of its statements was tried once, in the order they stand in, on the machine that was left by those
before it; the output is flushed then, and the reports are one for each that failed, and one more if
that flush fails. -/
theorem status_reports (interactive : Bool) (input : List UInt8) (output : Output)
    (clock : Supply Int) (chances : Supply Nat) (depth : Nat) (turns : List Turn) (t : Turn)
    {s : Session} {o : Outcome}
    (hs : s = ((Session.start interactive (.start input output clock chances)).after (.upTo depth)
      turns).supply t)
    (ho : o = s.run depth t.source) (hdone : o.status ≠ .exhausted) :
    o.Told ∧
    (o.status = .ok ∨ o.status = .runtimeError → ∃ ss failures last, ∃ attempts : List Attempt,
      s.accepted? t.source = some ss ∧ attempts.map Attempt.statement = ss ∧
      Attempts (.upTo depth) t.interactive (s.entered t.source ss) attempts last ∧
      failures = attempts.filterMap Attempt.failure ∧
      ((Machine.flush.run last = .ok () o.session.machine ∧
          o.reports = failures.map .failure) ∨
        (Machine.flush.run last = .error (.failed (.stream .flushFailed)) o.session.machine ∧
          o.reports = failures.map .failure ++ [.failure (.stream .flushFailed)]))) := by
  have hsteps := Below.steps_upTo depth
  have hstart : s.machine.current = .globals := by
    rw [hs]
    exact Session.current_after (s := .start interactive (.start input output clock chances)) hsteps
      rfl turns
  have hmode : s.interactive = t.interactive := by rw [hs]; rfl
  cases hss : s.accepted? t.source with
  | none =>
    rw [ho]
    refine ⟨Session.told_refused hss _, fun h => ?_⟩
    have hrefused := (Session.reports_refused hss (.upTo depth)).1
    unfold Session.run at h
    rw [hrefused] at h
    rcases h with h | h <;> cases h
  | some ss =>
    have hrun : o = _ := ho.trans (Session.runBy_accepted hss (.upTo depth))
    rw [hmode] at hrun
    have hcomplete : (Session.interpret (.upTo depth) t.interactive ss
        (s.entered t.source ss)).complete = true := by
      rw [hrun, ne_eq, Session.exhausted_outcomeOf, Bool.not_eq_false] at hdone
      exact hdone
    refine ⟨hrun ▸ Session.told_outcomeOf _ hcomplete, fun _ => ?_⟩
    rw [Session.complete_interpret] at hcomplete
    obtain ⟨attempts, hstatements, hattempts, hfailures⟩ :=
      Session.runAll_attempts hsteps t.interactive (m := s.entered t.source ss) hstart hcomplete
    refine ⟨ss, _, _, attempts, rfl, hstatements, hattempts, rfl, ?_⟩
    have hreports : o.reports = (Session.interpret (.upTo depth) t.interactive ss
      (s.entered t.source ss)).failures.map .failure := by rw [hrun]; rfl
    have hmachine : o.session.machine = (Session.interpret (.upTo depth) t.interactive ss
      (s.entered t.source ss)).machine := by rw [hrun]; rfl
    rw [hreports, hmachine, ← hfailures]
    rcases Session.interpret_flush _ _ _ hcomplete with ⟨hflush, hran⟩ | ⟨hflush, hran⟩
    · exact .inl ⟨hflush, congrArg _ hran⟩
    · refine .inr ⟨hflush, ?_⟩
      rw [hran, List.map_append]
      rfl

/-- A session in which a function was made, as programs were run one after the other. -/
def functionMade : Session :=
  (Session.start false (.start [] .unlimited 0 0)).after (.upTo 9)
    [⟨"func f(x) \x7b return x; \x7d", false, [], .unlimited, 0, 0⟩]

/-- A program whose second statement fails, on an output that is never flushed. -/
def unflushed : Turn := ⟨"print(f(1)); f(nil) + 1; print(2);", false, [], ⟨.empty, none, true⟩, 0, 0⟩

/-- All three statements are tried, and the flush is reported after the one that fails. -/
theorem status_reports_unflushed :
    let o := (functionMade.supply unflushed).run 9 unflushed.source
    o.Told ∧ o.status = .runtimeError ∧ o.reports.length = 2 ∧
    ∃ attempts : List Attempt, attempts.length = 3 ∧
      (attempts.filterMap Attempt.failure).length = 1 := by
  intro o
  have hstatus : o.status = .runtimeError := by decide +kernel
  have hlength : o.reports.length = 2 := by decide +kernel
  have hsize : ((functionMade.supply unflushed).accepted? unflushed.source).map List.length =
      some 3 := by decide +kernel
  obtain ⟨htold, hran⟩ := status_reports false [] .unlimited 0 0 9
    [⟨"func f(x) \x7b return x; \x7d", false, [], .unlimited, 0, 0⟩] unflushed
    (s := functionMade.supply unflushed) (o := o) rfl rfl (by rw [hstatus]; decide)
  obtain ⟨ss, failures, last, attempts, hss, hstatements, hattempts, hfailures, hreports⟩ :=
    hran (.inr hstatus)
  refine ⟨htold, hstatus, hlength, attempts, ?_, ?_⟩
  · rw [hss, Option.map_some, Option.some_inj, ← hstatements, List.length_map] at hsize
    exact hsize
  · have hflush : last.output.flush = (false, last.output) :=
      (hattempts.reaches (Below.steps_upTo 9)).flush_eq rfl
    rcases hreports with ⟨hrun, -⟩ | ⟨-, hreports⟩
    · rw [Machine.run_flush, hflush] at hrun
      cases hrun
    · rw [hreports, List.length_append, List.length_map, hfailures] at hlength
      exact Nat.succ.inj hlength

end Scriptling
