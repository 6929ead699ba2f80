import Scriptling.Proofs.Current
import Scriptling.Proofs.Renumbered
import Scriptling.Proofs.Sessions

namespace Scriptling

variable {n k : ExprId} {s s' : Session} {source : String}

def Session.Ran.shift (σ : Shift) (ran : Session.Ran) : Session.Ran :=
  { ran with machine := ran.machine.shift σ }

namespace Shift.Below

variable {σ : Shift} {b : Scriptling.Below} (h : σ.Below b)
include h

theorem echo (e : Expr) : σ.Mirrors (Session.echo b e) (Session.echo b (e.turn σ.use)) := by
  refine (h.evaluate e).bind fun v => ?_
  split
  · exact .pure _
  · exact (mirrors_text v).bind fun _ => mirrors_write _

theorem runStatement (s : Stmt) :
    σ.Mirrors (Session.runStatement b s) (Session.runStatement b (s.turn σ.use)) := by
  refine (h.execute s).bind fun flow => ?_
  cases flow with
  | «break» keyword => exact .fail _ _
  | next keyword => exact .fail _ _
  | _ => exact .pure _

/-- A statement does on the machine further on what it does on the other. -/
theorem runTopLevel (interactive : Bool) (s : Stmt) :
    σ.Mirrors (Session.runTopLevel b interactive s)
      (Session.runTopLevel b interactive (s.turn σ.use)) := by
  have hrun := h.runStatement s
  cases interactive with
  | false => exact hrun
  | true =>
    cases s with
    | expr e => exact h.echo e
    | _ => exact hrun

/-- And so do statements one after the other. -/
theorem runAll (interactive : Bool) (ss : List Stmt) {m : Machine} (hm : σ.Fits m) :
    σ.Fits (Session.runAll b interactive ss m).machine ∧
      Session.runAll b interactive (ss.map (Stmt.turn σ.use)) (m.shift σ) =
        (Session.runAll b interactive ss m).shift σ := by
  induction ss generalizing m with
  | nil => exact ⟨hm, rfl⟩
  | cons s ss ih =>
    have hs := h.runTopLevel interactive s m hm
    rw [List.map_cons, Session.runAll_cons, Session.runAll_cons]
    generalize (Session.runTopLevel b interactive s).run m = r at hs ⊢
    generalize (Session.runTopLevel b interactive (s.turn σ.use)).run (m.shift σ) = r' at hs ⊢
    cases hs with
    | ok hm₁ => exact ih hm₁
    | @error e m₁ hm₁ =>
      cases e with
      | exhausted => exact ⟨hm₁, rfl⟩
      | failed failure =>
        obtain ⟨hfits, hran⟩ := ih (m := { m₁ with current := .globals }) hm₁
        exact ⟨hfits, congrArg (fun ran : Session.Ran =>
          { ran with failures := failure :: ran.failures }) hran⟩

/-- Flushing at the end does not see numbers either. -/
theorem interpret (interactive : Bool) (ss : List Stmt) {m : Machine} (hm : σ.Fits m) :
    σ.Fits (Session.interpret b interactive ss m).machine ∧
      Session.interpret b interactive (ss.map (Stmt.turn σ.use)) (m.shift σ) =
        (Session.interpret b interactive ss m).shift σ := by
  obtain ⟨hfits, hran⟩ := h.runAll interactive ss hm
  obtain ⟨output, hmachine⟩ := Session.machine_interpret b interactive ss m
  rw [hmachine]
  refine ⟨hfits, ?_⟩
  unfold Session.interpret
  dsimp only
  rw [hran]
  rw [apply_ite (Session.Ran.shift σ)]
  rfl

end Shift.Below

/-- The second session is further on in its numbers by `k`. Those below `n` are used by both. -/
structure Session.Apart (n k : ExprId) (s s' : Session) : Prop where
  reached : n ≤ s.nextId
  nextId : s'.nextId = s.nextId + k
  interactive : s'.interactive = s.interactive
  fits : (Shift.mk n k s'.machine.distances).Fits s.machine
  machine : s'.machine = s.machine.shift ⟨n, k, s'.machine.distances⟩

/-- A note is found under the number it was moved to. -/
theorem lookup_shift (n k : ExprId) (notes : List (ExprId × Nat)) (i : ExprId) :
    (notes.map (Prod.map (shiftId n k) id)).lookup (shiftId n k i) = notes.lookup i := by
  induction notes with
  | nil => rfl
  | cons note notes ih =>
    obtain ⟨j, d⟩ := note
    have hsame : (shiftId n k i == shiftId n k j) = (i == j) := by
      rw [Bool.eq_iff_iff, beq_iff_eq, beq_iff_eq]
      exact (shiftId_injective n k).eq_iff
    rw [List.map_cons, Prod.map_apply, List.lookup_cons, List.lookup_cons, ih, hsame]
    rfl

namespace Session.Apart

theorem globalNames (h : s.Apart n k s') : s'.globalNames = s.globalNames := by
  unfold Session.globalNames
  rw [h.machine]
  rfl

/-- Notes made in both sessions keep them apart by as much. -/
theorem noteDistances (h : s.Apart n k s') (notes : List (ExprId × Nat)) :
    (s.noteDistances notes).Apart n k
      (s'.noteDistances (notes.map (Prod.map (shiftId n k) id))) := by
  have hmachine := fun distances =>
    congrArg (fun m : Machine => { m with distances }) h.machine
  refine ⟨h.reached, h.nextId, h.interactive, fun id => ?_, hmachine _⟩
  refine (getElem?_notes _ s'.machine.distances _).trans ?_
  refine Eq.trans ?_ (getElem?_notes notes s.machine.distances id).symm
  rw [lookup_shift, show s'.machine.distances[shiftId n k id]? = s.machine.distances[id]? from
    h.fits id]

/-- A source text is read with numbers that are further on. -/
theorem read (h : s.Apart n k s') (source : String) :
    (s'.read source).lexReports = (s.read source).lexReports ∧
    (s'.read source).parsed =
      (s.read source).parsed.map (List.map (Stmt.turn (Use.shift n k))) ∧
    (s.read source).session.Apart n k (s'.read source).session := by
  have hparse := parse_shift s.interactive k (tokensOf (scan source)) h.reached
  unfold Session.read
  dsimp only
  rw [h.interactive, h.nextId, hparse]
  refine ⟨rfl, ?_, Nat.le_trans h.reached (s.nextId_le_read source), rfl, rfl, h.fits,
    h.machine⟩
  cases (parse s.interactive s.nextId (tokensOf (scan source))).result <;> rfl

end Session.Apart

structure Outcome.Apart (n k : ExprId) (o o' : Outcome) : Prop where
  status : o'.status = o.status
  reports : o'.reports = o.reports
  session : o.session.Apart n k o'.session

def Below.Steady (b : Below) : Prop := ∀ σ : Shift, σ.Below b

namespace Session.Apart

variable {b : Below}

/-- Runs that differ in numbers have outcomes that do. -/
theorem outcomeOf (h : s.Apart n k s') {ran ran' : Ran}
    (hfits : (Shift.mk n k s'.machine.distances).Fits ran.machine)
    (hran : ran' = ran.shift ⟨n, k, s'.machine.distances⟩) :
    (s.outcomeOf ran).Apart n k (s'.outcomeOf ran') := by
  subst hran
  exact ⟨rfl, rfl, h.reached, h.nextId, h.interactive, hfits, rfl⟩

/-- So do programs. -/
theorem perform (h : s.Apart n k s') (hb : b.Steady) (ss : List Stmt) :
    (s.perform b ss).Apart n k (s'.perform b (ss.map (Stmt.turn (Use.shift n k)))) := by
  have hresolve : resolve s'.globalNames (ss.map (Stmt.turn (Use.shift n k))) =
      (resolve s.globalNames ss).shift n k := by
    rw [h.globalNames]
    exact resolve_shift n k s.globalNames ss
  have hfaults : (resolve s'.globalNames (ss.map (Stmt.turn (Use.shift n k)))).faults =
      (resolve s.globalNames ss).faults := by
    rw [hresolve]
    rfl
  have hnoted := h.noteDistances (resolve s.globalNames ss).distances
  by_cases hclean : (resolve s.globalNames ss).faults = []
  · rw [perform_clean b hclean, perform_clean b (hfaults.trans hclean), hresolve, h.interactive]
    obtain ⟨hfits, hran⟩ := (hb _).interpret s.interactive ss hnoted.fits
    rw [← hnoted.machine] at hran
    exact hnoted.outcomeOf hfits hran
  · rw [perform_faulty b hclean, perform_faulty b (hfaults ▸ hclean), hfaults, hresolve]
    exact ⟨rfl, rfl, hnoted⟩

theorem runBy (h : s.Apart n k s') (hb : b.Steady) (source : String) :
    (s.runBy b source).Apart n k (s'.runBy b source) := by
  obtain ⟨hlex, hparsed, hsession⟩ := h.read source
  cases hp : (s.read source).parsed with
  | error reports =>
    rw [hp] at hparsed
    rw [runBy_unread b hp, runBy_unread b hparsed, hlex]
    exact ⟨rfl, rfl, hsession⟩
  | ok ss =>
    rw [hp] at hparsed
    by_cases hclean : (s.read source).lexReports = []
    · rw [runBy_read b hp hclean, runBy_read b hparsed (hlex.trans hclean)]
      exact hsession.perform hb ss
    · rw [runBy_unscanned b hp hclean, runBy_unscanned b hparsed (hlex ▸ hclean), hlex]
      exact ⟨rfl, rfl, hsession⟩

end Session.Apart

/-- To run a source text, or to read a line of the input. -/
inductive Ask where
  | run (source : String)
  | readLine

/-- How a source text ended or which line was read, what was reported, and the session then. -/
structure Answer where
  status : Option Status
  line : Option String
  reports : List Report
  session : Session

namespace Session

def answer (below : Below) (s : Session) : Ask → Answer
  | .run source =>
    ⟨some (s.runBy below source).status, none, (s.runBy below source).reports,
      (s.runBy below source).session⟩
  | .readLine => ⟨none, s.readLine.line, s.readLine.reports, s.readLine.session⟩

def answers (below : Below) : Session → List Ask → List Answer
  | _, [] => []
  | s, a :: as => s.answer below a :: answers below (s.answer below a).session as

def asked (below : Below) : Session → List Ask → Session
  | s, [] => s
  | s, a :: as => asked below (s.answer below a).session as

theorem answers_append (b : Below) (s : Session) (as as' : List Ask) :
    s.answers b (as ++ as') = s.answers b as ++ (s.asked b as).answers b as' := by
  induction as generalizing s with
  | nil => rfl
  | cons a as ih => rw [List.cons_append, answers, answers, asked, ih, List.cons_append]

end Session

/-- The same answer, and the same machine after it but for the numbers of references and the notes
under them: the output, the input, all frames, classes and objects are the same. -/
structure Answer.Same (a a' : Answer) : Prop where
  status : a'.status = a.status
  line : a'.line = a.line
  reports : a'.reports = a.reports
  machine : ∃ σ : Shift, a'.session.machine = a.session.machine.shift σ

namespace Session.Apart

variable {b : Below}

/-- A line of the input is read alike. -/
theorem readLine (h : s.Apart n k s') : s'.readLine.line = s.readLine.line ∧
    s'.readLine.reports = s.readLine.reports ∧ s.readLine.session.Apart n k s'.readLine.session := by
  have hline := Shift.mirrors_readLine (σ := ⟨n, k, s'.machine.distances⟩) s.machine h.fits
  rw [← h.machine] at hline
  unfold Session.readLine
  change Shift.Alike _ (Machine.readLine s.machine) (Machine.readLine s'.machine) at hline
  generalize Machine.readLine s.machine = r at hline ⊢
  generalize Machine.readLine s'.machine = r' at hline ⊢
  cases hline with
  | ok hfits => exact ⟨rfl, rfl, h.reached, h.nextId, h.interactive, hfits, rfl⟩
  | @error e m hfits =>
    cases e with
    | failed failure => exact ⟨rfl, rfl, h.reached, h.nextId, h.interactive, hfits, rfl⟩
    | exhausted => exact ⟨rfl, rfl, h.reached, h.nextId, h.interactive, hfits, rfl⟩

/-- Whatever is asked next is answered alike, and leaves the sessions as far apart. -/
theorem answer (h : s.Apart n k s') (hb : b.Steady) (a : Ask) :
    (s.answer b a).Same (s'.answer b a) ∧
      (s.answer b a).session.Apart n k (s'.answer b a).session := by
  cases a with
  | run source =>
    have hrun := h.runBy hb source
    exact ⟨⟨congrArg some hrun.status, rfl, hrun.reports, _, hrun.session.machine⟩, hrun.session⟩
  | readLine =>
    obtain ⟨hline, hreports, hsession⟩ := h.readLine
    exact ⟨⟨rfl, hline, hreports, _, hsession.machine⟩, hsession⟩

theorem answers (h : s.Apart n k s') (hb : b.Steady) (as : List Ask) :
    List.Forall₂ Answer.Same (s.answers b as) (s'.answers b as) := by
  induction as generalizing s s' with
  | nil => exact .nil
  | cons a as ih =>
    obtain ⟨hsame, hnext⟩ := h.answer hb a
    exact .cons hsame (ih hnext)

end Session.Apart

theorem Machine.after_takeLine (m : Machine) : ∃ input, after takeLine m = { m with input } := by
  rw [after, run_takeLine]
  cases m.input.isEmpty with
  | true => exact ⟨m.input, rfl⟩
  | false => cases Input.lineText (Input.cutLine m.input).1 <;> exact ⟨_, rfl⟩

theorem Machine.after_readLine (m : Machine) :
    ∃ input output, after readLine m = { m with input, output } := by
  unfold readLine
  cases hr : flush.run m with
  | ok u m₁ =>
    rw [after, Eval.run_bind_ok hr, ← after]
    have hm₁ : m₁ = { m with output := m.output.flush.2 } := by
      rw [run_flush] at hr
      split at hr <;> cases hr
      rfl
    obtain ⟨input, h⟩ := m₁.after_takeLine
    exact ⟨input, m.output.flush.2, by rw [h, hm₁]⟩
  | error e m₁ =>
    rw [after_error (Eval.run_bind_error hr)]
    rw [run_flush] at hr
    split at hr <;> cases hr
    exact ⟨m.input, _, rfl⟩

theorem Session.session_readLine (s : Session) :
    ∃ input output, s.readLine.session = { s with machine := { s.machine with input, output } } := by
  obtain ⟨input, output, hafter⟩ := s.machine.after_readLine
  refine ⟨input, output, ?_⟩
  rw [← hafter]
  unfold Session.readLine
  cases hr : Machine.readLine.run s.machine with
  | ok line m => rw [Machine.after_ok hr, show Machine.readLine s.machine = .ok line m from hr]
  | error e m =>
    rw [Machine.after_error hr, show Machine.readLine s.machine = .error e m from hr]
    cases e <;> rfl

theorem Session.status_outcomeOf (s : Session) (ran : Ran) :
    (s.outcomeOf ran).status ≠ .compileError := by
  unfold Session.outcomeOf
  dsimp only
  split
  · decide
  · split <;> decide

/-- All that is left of a program that is refused: its numbers and its notes under them. -/
theorem Session.runBy_refused {b : Below} (h : (s.runBy b source).status = .compileError) :
    ∃ notes nextId, s.nextId ≤ nextId ∧
      (∀ id, ¬ (s.nextId ≤ id ∧ id < nextId) → notes.lookup id = none) ∧
      (s.runBy b source).session = { s with nextId }.noteDistances notes ∧
      ∀ failure, .failure failure ∉ (s.runBy b source).reports := by
  have hle := s.nextId_le_read source
  have hlex : ∀ failure, Report.failure failure ∉ (s.read source).lexReports := by
    intro failure
    simp [Session.read]
  cases hp : (s.read source).parsed with
  | error reports =>
    have hreports : ∀ failure, Report.failure failure ∉ reports := by
      intro failure
      unfold Session.read at hp
      dsimp only at hp
      split at hp
      · cases hp
      · cases hp
        simp
    rw [runBy_unread b hp]
    refine ⟨[], _, hle, fun _ _ => rfl, rfl, fun failure hfailure => ?_⟩
    rcases List.mem_append.1 hfailure with hfailure | hfailure
    · exact hlex failure hfailure
    · exact hreports failure hfailure
  | ok ss =>
    by_cases hscanned : (s.read source).lexReports = []
    · rw [runBy_read b hp hscanned] at h ⊢
      have hfaults : (resolve (s.read source).session.globalNames ss).faults ≠ [] := by
        intro hclean
        rw [perform_clean b hclean] at h
        exact status_outcomeOf _ _ h
      rw [perform_faulty b hfaults]
      exact ⟨_, _, hle, fun id hid => (read_delivered hp).lookup_outside hid, rfl, by simp⟩
    · rw [runBy_unscanned b hp hscanned]
      exact ⟨[], _, hle, fun _ _ => rfl, rfl, hlex⟩

namespace Session.Settled

variable {P : Site → Prop} {w : World}

/-- Functions refer by numbers that are given already. -/
theorem closures_shift (h : s.Settled P w) (σ : Shift) (hσ : s.nextId ≤ σ.start) :
    s.machine.store.shift σ = s.machine.store := by
  have hclosures : s.machine.store.closures.map (Closure.shift σ) = s.machine.store.closures := by
    refine Array.ext_getElem? fun id => ?_
    rw [Array.getElem?_map]
    cases hc : s.machine.store.closures[id]? with
    | none => rfl
    | some c =>
      obtain ⟨t, -, htyped, -⟩ := h.twins.closures.paired id c hc
      have hdecl : c.decl.turn σ.use = c.decl := by
        refine FunctionDecl.turn_eq_self c.decl fun u hu => ?_
        rw [← FunctionDecl.uses_sites c.decl t.context] at hu
        obtain ⟨site, hsite, rfl⟩ := List.mem_map.1 hu
        have hlt := (htyped.good site hsite).member.2
        rw [Shift.use, Use.shift, shiftId_of_lt (Nat.lt_of_lt_of_le hlt hσ)]
      rw [Option.map_some, Closure.shift, hdecl]
  rw [Store.shift, hclosures]

/-- Numbers that are used up and notes that nothing refers to are all that the other session has
more. -/
theorem apart (h : s.Settled P w) {nextId : ExprId} (hle : s.nextId ≤ nextId)
    {notes : List (ExprId × Nat)}
    (hin : ∀ id, ¬ (s.nextId ≤ id ∧ id < nextId) → notes.lookup id = none) :
    s.Apart s.nextId (nextId - s.nextId) ({ s with nextId }.noteDistances notes) := by
  have hget : ∀ id : ExprId, ({ s with nextId }.noteDistances notes).machine.distances[id]? =
      (notes.lookup id).or s.machine.distances[id]? :=
    fun id => getElem?_notes notes s.machine.distances id
  refine ⟨Nat.le_refl _, (Nat.add_sub_cancel' hle).symm, rfl, fun id => ?_, ?_⟩
  · refine (hget _).trans ?_
    rcases Nat.lt_or_ge id s.nextId with hid | hid
    · rw [shiftId_of_lt hid, hin id fun hand => Nat.lt_irrefl _ (Nat.lt_of_lt_of_le hid hand.1),
        Option.none_or]
    · have hbeyond : nextId ≤ id + (nextId - s.nextId) := by
        calc nextId = s.nextId + (nextId - s.nextId) := (Nat.add_sub_cancel' hle).symm
          _ ≤ id + (nextId - s.nextId) := Nat.add_le_add_right hid _
      rw [shiftId_of_le hid, hin _ fun hand => Nat.lt_irrefl _ (Nat.lt_of_lt_of_le hand.2 hbeyond),
        h.unnoted _ (Nat.le_trans hid (Nat.le_add_right _ _)), h.unnoted id hid, Option.none_or]
  · unfold Machine.shift
    rw [h.closures_shift _ (Nat.le_refl _)]
    rfl

theorem readLine (h : s.Settled P w) : s.readLine.session.Settled P w := by
  obtain ⟨input, output, hsession⟩ := s.session_readLine
  rw [hsession]
  exact ⟨h.twins, h.current, h.unnoted⟩

theorem asked (h : s.Settled P w) (hP : ∀ σ, P σ) (depth : Nat) (as : List Ask) :
    ∃ w₁, (s.asked (.upTo depth) as).Settled P w₁ := by
  induction as generalizing s w with
  | nil => exact ⟨w, h⟩
  | cons a as ih =>
    cases a with
    | run source =>
      obtain ⟨w₁, -, hs, -⟩ := h.runBy (fun S _ _ => engine_upTo S depth) source
        fun _ _ σ _ => hP σ
      exact ih hs
    | readLine => exact ih h.readLine

end Session.Settled

/-- However a session goes, its functions are of programs that were accepted. -/
theorem Session.exists_settled (interactive : Bool) (input : List UInt8) (output : Output)
    (clock : Supply Int) (chances : Supply Nat) (depth : Nat) (as : List Ask) :
    ∃ w, ((Session.start interactive (.start input output clock chances)).asked (.upTo depth)
      as).Settled (fun _ => True) w :=
  (Session.settled_start _ interactive input output clock chances).asked (fun _ => trivial) depth as

/-- A program that is refused has no effect, wherever in a session it is given. The machine keeps
all but the notes, nothing fails, and every answer before and after is the same without it. -/
theorem refused_inert (interactive : Bool) (input : List UInt8) (output : Output)
    (clock : Supply Int) (chances : Supply Nat) (depth : Nat) (before later : List Ask)
    (source : String) {s t : Session}
    (hs : s = .start interactive (.start input output clock chances))
    (ht : t = s.asked (.upTo depth) before)
    (h : (t.run depth source).status = .compileError) :
    (∃ distances, (t.run depth source).session.machine = { t.machine with distances }) ∧
    (∀ failure, .failure failure ∉ (t.run depth source).reports) ∧
    ∃ without within,
      s.answers (.upTo depth) (before ++ later) = s.answers (.upTo depth) before ++ without ∧
      s.answers (.upTo depth) (before ++ .run source :: later) =
        s.answers (.upTo depth) before ++ t.answer (.upTo depth) (.run source) :: within ∧
      List.Forall₂ Answer.Same without within := by
  obtain ⟨notes, nextId, hle, hin, hsession, hreports⟩ := Session.runBy_refused h
  obtain ⟨w, hsettled⟩ := Session.exists_settled interactive input output clock chances depth before
  rw [← hs, ← ht] at hsettled
  have hapart := hsettled.apart hle hin
  rw [← hsession] at hapart
  have hmachine := congrArg Session.machine hsession
  refine ⟨⟨_, hmachine⟩, hreports, t.answers (.upTo depth) later,
    (t.run depth source).session.answers (.upTo depth) later, ?_, ?_,
    hapart.answers (fun σ => σ.below_upTo depth) later⟩
  · rw [Session.answers_append, ht]
  · rw [Session.answers_append, ht]
    rfl

def functionGiven : Session :=
  (Session.start false (.start [] .unlimited 0 0)).asked (.upTo 9)
    [.run "func f(x) \x7b return x; \x7d"]

/-- A block with a variable that stands in its own initial value. -/
def blockRefused : String := "\x7b var a = 1; a; var b = b; \x7d"

/-- The block is refused after a name in it was noted, and a call of the function is answered as if
it had not been there. -/
theorem refused_inert_block :
    functionGiven.machine.store.closures.size = 1 ∧
    (functionGiven.run 9 blockRefused).status = .compileError ∧
    (functionGiven.run 9 blockRefused).session.machine.distances[1]? = some 0 ∧
    List.Forall₂ Answer.Same (functionGiven.answers (.upTo 9) [.run "print(f(1));", .readLine])
      ((functionGiven.run 9 blockRefused).session.answers (.upTo 9)
        [.run "print(f(1));", .readLine]) := by
  have hrefused : (functionGiven.run 9 blockRefused).status = .compileError := by decide +kernel
  refine ⟨by decide +kernel, hrefused, by decide +kernel, ?_⟩
  obtain ⟨-, -, without, within, hwithout, hwithin, hsame⟩ :=
    refused_inert false [] .unlimited 0 0 9 [.run "func f(x) \x7b return x; \x7d"]
      [.run "print(f(1));", .readLine] blockRefused rfl rfl hrefused
  rw [Session.answers_append] at hwithout hwithin
  rw [← List.append_cancel_left hwithout] at hsame
  rw [← (List.cons.inj (List.append_cancel_left hwithin)).2] at hsame
  exact hsame

end Scriptling
