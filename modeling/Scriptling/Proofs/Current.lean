import Scriptling.Proofs.Realms
import Scriptling.Proofs.Watch

namespace Scriptling

open Machine

variable {α β : Type}

def placed (f : FrameId) : EStateM.Result Stop Machine α → EStateM.Result Stop Machine α
  | .ok v m => .ok v { m with current := f }
  | .error e m => .error e { m with current := f }

/-- Nothing depends on the current frame, and only that one differs afterwards. -/
def Eval.Blind (act : Eval α) : Prop :=
  ∀ (m : Machine) (f : FrameId), act.run { m with current := f } = placed f (act.run m)

namespace Eval.Blind

theorem pure (v : α) : Blind (pure v) := fun _ _ => rfl

theorem throw (e : Stop) : Blind (throw e : Eval α) := fun _ _ => rfl

theorem fail (token : Token) (fault : RuntimeFault) : Blind (Machine.fail token fault : Eval α) :=
  throw _

theorem bind {a : Eval α} {k : α → Eval β} (ha : Blind a) (hk : ∀ v, Blind (k v)) :
    Blind (a >>= k) := by
  intro m f
  have hm := ha m f
  cases hr : a.run m with
  | ok v m₁ =>
    rw [hr] at hm
    rw [Eval.run_bind_ok hm, Eval.run_bind_ok hr]
    exact hk v m₁ f
  | error e m₁ =>
    rw [hr] at hm
    rw [Eval.run_bind_error hm, Eval.run_bind_error hr]
    rfl

/-- A look at the machine, but not at its current frame. -/
theorem get {k : Machine → Eval β} (hk : ∀ (m : Machine) (f : FrameId), k { m with current := f } = k m)
    (h : ∀ m, Blind (k m)) : Blind (get >>= k) := by
  intro m f
  change (k { m with current := f }).run { m with current := f } = placed f ((k m).run m)
  rw [hk]
  exact h m m f

theorem discard {a : Eval α} (ha : Blind a) : Blind (Functor.discard a) := by
  change Blind (a >>= fun _ => Pure.pure ())
  exact ha.bind fun _ => pure ()

/-- What is done inside another frame sees that one only. -/
theorem inFrame (f : FrameId) (a : Eval α) : Blind (Machine.inFrame f a) := by
  intro m g
  rw [Eval.run_inFrame, Eval.run_inFrame]
  cases a.run { m with current := f } <;> rfl

end Eval.Blind

open Eval

theorem blind_write (text : String) : Blind (write text) := by
  intro m f
  rw [run_write, run_write]
  cases (m.output.write text).1 <;> rfl

theorem blind_flush : Blind flush := by
  intro m f
  rw [run_flush, run_flush]
  cases m.output.flush.1 <;> rfl

theorem blind_takeLine : Blind takeLine := by
  intro m f
  rw [run_takeLine, run_takeLine]
  cases m.input.isEmpty with
  | true => rfl
  | false => cases Input.lineText (Input.cutLine m.input).1 <;> rfl

theorem blind_readLine : Blind readLine := blind_flush.bind fun _ => blind_takeLine

theorem blind_text (v : Value) : Blind (Machine.text v) :=
  .get (fun _ _ => rfl) fun _ => .pure _

theorem Builtin.blind_run (b : Builtin) (site : Token) (arguments : List Value) :
    Blind (b.run site arguments) := by
  have hprint : ∀ (v : Value) (ending : String),
      Blind (do write ((← Machine.text v) ++ ending); pure Value.nil) :=
    fun v ending => (blind_text v).bind fun _ => (blind_write _).bind fun _ => .pure _
  unfold Builtin.run
  split
  · have hclock : Blind readClock := fun _ _ => rfl
    exact hclock.bind fun _ => .pure _
  · unfold printValue
    split
    · exact hprint _ _
    · exact hprint _ _
    · exact .fail _ _
  · unfold numberText
    split
    · exact .pure _
    · exact .fail _ _
  · unfold readInput
    split
    · exact blind_readLine.bind fun _ => .pure _
    · exact (blind_write _).bind fun _ => blind_readLine.bind fun _ => .pure _
    · exact .fail _ _
  · unfold parseNumber
    split
    · split
      · exact .pure _
      · exact .fail _ _
    · exact .fail _ _
  · exact .pure _
  · unfold squareRoot
    split
    · split
      · exact .pure _
      · exact .fail _ _
    · exact .fail _ _
  · unfold randomWhole
    split
    · split
      · have hchance : ∀ count, Blind (chance count) := fun _ _ _ => rfl
        exact (hchance _).bind fun _ => .pure _
      · exact .fail _ _
    · exact .fail _ _
  · exact .get (fun _ _ => rfl) fun _ => .pure _
  · exact .pure _
  · exact .pure _

namespace Below

variable (b : Below)

theorem blind_bindParams (f : FrameId) (paren : Token) (ps : List Param) (vs : List Value) :
    Blind (b.bindParams f paren ps vs) := by
  have hdefine : ∀ name v, Blind (define f name v) := fun _ _ _ _ => rfl
  induction ps generalizing vs with
  | nil => exact .pure _
  | cons p ps ih =>
    cases vs with
    | cons v vs => exact (hdefine _ _).bind fun _ => ih vs
    | nil =>
      unfold Below.bindParams
      split
      · exact .fail _ _
      · exact (Blind.inFrame f _).bind fun _ => (hdefine _ _).bind fun _ => ih []

/-- Fallbacks and the body are evaluated in the function's own frame. -/
theorem blind_callClosure (c : Closure) (arguments : List Value) (paren : Token) :
    Blind (b.callClosure c arguments paren) := by
  have hopen : Blind (openFrame c.scope []) := fun _ _ => rfl
  have hreceiver : Blind (receiver c) := .get (fun _ _ => rfl) fun _ => .pure _
  refine hopen.bind fun f => (b.blind_bindParams f paren _ _).bind fun _ =>
    (Blind.inFrame f _).bind fun flow => ?_
  cases flow with
  | «break» keyword => exact .fail _ _
  | next keyword => exact .fail _ _
  | «return» v =>
    dsimp only
    split
    · exact hreceiver
    · exact .pure v
  | normal =>
    dsimp only
    split
    · exact hreceiver
    · exact .pure _

theorem blind_callClosureId (id : ClosureId) (arguments : List Value) (paren : Token) :
    Blind (b.callClosureId id arguments paren) := by
  refine .get (fun _ _ => rfl) fun m => ?_
  split
  · exact b.blind_callClosure _ arguments paren
  · exact .fail _ _

theorem blind_counted (callee : Value) (arguments : List Value) (paren : Token) {act : Eval Value}
    (h : Blind act) : Blind (counted callee arguments paren act) := by
  refine .get (fun _ _ => rfl) fun m => ?_
  split
  · exact .fail _ _
  · split
    · exact .fail _ _
    · exact h

theorem blind_instantiate (c : ClassId) (arguments : List Value) (paren : Token) :
    Blind (b.instantiate c arguments paren) := by
  have hnew : Blind (newObject c) := fun _ _ => rfl
  have hmethod : ∀ method receiver, Blind (bindMethod method receiver) := fun _ _ _ _ => rfl
  refine hnew.bind fun o => .get (fun _ _ => rfl) fun m => ?_
  dsimp only
  split
  · exact .pure _
  · refine (hmethod _ _).bind fun method => ?_
    split
    · exact (blind_counted _ arguments paren
        (b.blind_callClosureId _ arguments paren)).discard.bind fun _ => .pure _
    · exact .pure _

theorem blind_call (callee : Value) (arguments : List Value) (paren : Token) :
    Blind (b.call callee arguments paren) := by
  refine blind_counted callee arguments paren ?_
  split
  · exact b.blind_callClosureId _ arguments paren
  · exact Builtin.blind_run _ paren arguments
  · exact b.blind_instantiate _ arguments paren
  · exact .fail _ _

end Below

namespace Session

/-- A statement that fails is followed by the next one among the globals; what runs out of depth
ends all. -/
theorem runAll_cons (b : Below) (interactive : Bool) (s : Stmt) (ss : List Stmt)
    (m : Machine) : runAll b interactive (s :: ss) m =
      match (runTopLevel b interactive s).run m with
      | .ok () m => runAll b interactive ss m
      | .error (.failed failure) m =>
        { runAll b interactive ss { m with current := .globals } with
          failures := failure :: (runAll b interactive ss { m with current := .globals }).failures }
      | .error .exhausted m => ⟨[], false, m⟩ := rfl

/-- Statements start on the machine that those before them left, if they are tried at all. -/
theorem runAll_append (b : Below) (interactive : Bool) (ss ss' : List Stmt) (m : Machine) :
    runAll b interactive (ss ++ ss') m =
      if (runAll b interactive ss m).complete then
        { runAll b interactive ss' (runAll b interactive ss m).machine with
          failures := (runAll b interactive ss m).failures ++
            (runAll b interactive ss' (runAll b interactive ss m).machine).failures }
      else runAll b interactive ss m := by
  induction ss generalizing m with
  | nil => rfl
  | cons s ss ih =>
    rw [List.cons_append, runAll_cons, runAll_cons]
    cases (runTopLevel b interactive s).run m with
    | ok u m₁ => exact ih m₁
    | error e m₁ =>
      cases e with
      | exhausted => rfl
      | failed failure =>
        dsimp only
        rw [ih]
        split <;> rfl

theorem runs_runTopLevel {b : Below} (h : b.Steps) (interactive : Bool) (s : Stmt) :
    Runs (runTopLevel b interactive s) := by
  have hrun : Runs (runStatement b s) := by
    refine (h.execute s).bind fun flow => ?_
    cases flow with
    | «break» keyword => exact .fail _ _
    | next keyword => exact .fail _ _
    | _ => exact .pure _
  cases interactive with
  | false => exact hrun
  | true =>
    cases s with
    | expr e =>
      refine (h.evaluate e).bind fun v => ?_
      split
      · exact .pure _
      · exact (runs_text v).bind fun _ => runs_write _
    | _ => exact hrun

/-- Statements one after the other only take steps, but that after a failure the next one starts among
the globals. -/
theorem reaches_runAll {b : Below} (h : b.Steps) (interactive : Bool) (ss : List Stmt)
    (m : Machine) :
    m.Reaches { (runAll b interactive ss m).machine with current := m.current } := by
  induction ss generalizing m with
  | nil => exact .refl m
  | cons s ss ih =>
    have hstep := runs_runTopLevel h interactive s m
    rw [runAll_cons]
    cases hr : (runTopLevel b interactive s).run m with
    | ok u m₁ =>
      rw [after_ok hr] at hstep
      exact hstep.current_eq ▸ hstep.trans (ih m₁)
    | error e m₁ =>
      rw [after_error hr] at hstep
      cases e with
      | exhausted => exact hstep.current_eq ▸ hstep
      | failed failure =>
        have hrest := Reaches.inside .globals (ih { m₁ with current := .globals })
        exact hstep.current_eq ▸ hstep.trans hrest

/-- Statements run one after the other end among the globals if they began there. -/
theorem current_runAll {b : Below} (h : b.Steps) (interactive : Bool) (ss : List Stmt)
    {m : Machine} (hm : m.current = .globals) :
    (runAll b interactive ss m).machine.current = .globals := by
  induction ss generalizing m with
  | nil => exact hm
  | cons s ss ih =>
    have hback := (runs_runTopLevel h interactive s).current_eq m
    rw [runAll_cons]
    cases hr : (runTopLevel b interactive s).run m with
    | ok u m₁ =>
      rw [after_ok hr] at hback
      exact ih (hback.trans hm)
    | error e m₁ =>
      rw [after_error hr] at hback
      cases e with
      | exhausted => exact hback.trans hm
      | failed failure => exact ih rfl

def entered (s : Session) (source : String) (ss : List Stmt) : Machine :=
  ((s.read source).session.noteDistances (resolve s.globalNames ss).distances).machine

variable {s : Session} {source : String} {ss : List Stmt}

/-- A program without faults of scope is run with its notes made. -/
theorem perform_clean (b : Below) (h : (resolve s.globalNames ss).faults = []) :
    s.perform b ss = (s.noteDistances (resolve s.globalNames ss).distances).outcomeOf
      (interpret b s.interactive ss
        (s.noteDistances (resolve s.globalNames ss).distances).machine) := by
  simp only [perform, h]
  rfl

/-- A program with faults of scope is refused, though its notes are made. -/
theorem perform_faulty (b : Below) (h : (resolve s.globalNames ss).faults ≠ []) :
    s.perform b ss = ⟨.compileError, (resolve s.globalNames ss).faults.map .scope,
      s.noteDistances (resolve s.globalNames ss).distances⟩ := by
  simp only [perform]
  rw [if_pos (by simpa using h)]

/-- A source text that cannot be read is refused with both kinds of reports. -/
theorem runBy_unread {reports : List Report} (b : Below)
    (h : (s.read source).parsed = .error reports) : s.runBy b source =
      ⟨.compileError, (s.read source).lexReports ++ reports, (s.read source).session⟩ := by
  simp only [runBy, h]

/-- A source text with lexical faults is refused even if what is left can be read. -/
theorem runBy_unscanned (b : Below) (h : (s.read source).parsed = .ok ss)
    (hlex : (s.read source).lexReports ≠ []) : s.runBy b source =
      ⟨.compileError, (s.read source).lexReports, (s.read source).session⟩ := by
  simp only [runBy, h]
  rw [if_pos (by simpa using hlex)]

/-- A source text that was read without reports goes on to the scope walk. -/
theorem runBy_read (b : Below) (h : (s.read source).parsed = .ok ss)
    (hlex : (s.read source).lexReports = []) :
    s.runBy b source = (s.read source).session.perform b ss := by
  simp only [runBy, h, hlex]
  rfl

/-- A program is accepted if no stage has anything to report. -/
theorem accepted?_eq_some_iff : s.accepted? source = some ss ↔ (s.read source).parsed = .ok ss ∧
    (s.read source).lexReports = [] ∧ (resolve s.globalNames ss).faults = [] := by
  unfold accepted?
  cases hparsed : (s.read source).parsed with
  | error reports => simp
  | ok statements =>
    dsimp only
    constructor
    · intro h
      split at h
      · rename_i hclean
        cases h
        simpa using hclean
      · cases h
    · rintro ⟨h, hclean⟩
      cases h
      rw [if_pos (by simpa using hclean)]

/-- A program that is refused after all, though it was read and scanned well, has faults of scope. -/
theorem faults_of_refused (h : s.accepted? source = none) (hparsed : (s.read source).parsed = .ok ss)
    (hlex : (s.read source).lexReports = []) :
    (resolve (s.read source).session.globalNames ss).faults ≠ [] := by
  intro hfaults
  rw [accepted?_eq_some_iff.2 ⟨hparsed, hlex, hfaults⟩] at h
  cases h

/-- A program that is accepted runs on the machine of its session, with its own notes. -/
theorem runBy_accepted (h : s.accepted? source = some ss) (b : Below) :
    s.runBy b source = ((s.read source).session.noteDistances
      (resolve s.globalNames ss).distances).outcomeOf
        (interpret b s.interactive ss (s.entered source ss)) := by
  obtain ⟨hparsed, hlex, hfaults⟩ := accepted?_eq_some_iff.1 h
  rw [runBy_read b hparsed hlex]
  exact perform_clean b hfaults

/-- Of a program that is not accepted the machine keeps notes at most. -/
theorem machine_runBy_refused (h : s.accepted? source = none) (b : Below) :
    ∃ distances, (s.runBy b source).session.machine = { s.machine with distances } := by
  cases hparsed : (s.read source).parsed with
  | error reports =>
    rw [runBy_unread b hparsed]
    exact ⟨s.machine.distances, rfl⟩
  | ok ss =>
    by_cases hlex : (s.read source).lexReports = []
    · have hfaults := faults_of_refused h hparsed hlex
      rw [runBy_read b hparsed hlex, perform_faulty b hfaults]
      exact ⟨_, rfl⟩
    · rw [runBy_unscanned b hparsed hlex]
      exact ⟨s.machine.distances, rfl⟩

/-- The flush at the end changes nothing but the output. -/
theorem machine_interpret (b : Below) (interactive : Bool) (ss : List Stmt) (m : Machine) :
    ∃ output, (interpret b interactive ss m).machine =
      { (runAll b interactive ss m).machine with output } := by
  unfold interpret
  dsimp only
  split
  · exact ⟨_, rfl⟩
  · exact ⟨_, rfl⟩

/-- The flush at the end does not cut a run short. -/
theorem complete_interpret (b : Below) (interactive : Bool) (ss : List Stmt) (m : Machine) :
    (interpret b interactive ss m).complete = (runAll b interactive ss m).complete := by
  unfold interpret
  dsimp only
  split <;> rfl

/-- The failures are those of the statements, and that of the flush if all have run and it fails. -/
theorem mem_failures_interpret {b : Below} {interactive : Bool} {ss : List Stmt} {m : Machine}
    {failure : Failure} : failure ∈ (interpret b interactive ss m).failures ↔
      failure ∈ (runAll b interactive ss m).failures ∨
        (failure = .stream .flushFailed ∧ (runAll b interactive ss m).complete = true ∧
          (runAll b interactive ss m).machine.output.flush.1 = false) := by
  unfold interpret
  dsimp only
  cases (runAll b interactive ss m).complete with
  | false => simp
  | true =>
    unfold Ran.flush
    cases hdone : (runAll b interactive ss m).machine.output.flush.1 <;> simp [hdone]

/-- Whatever becomes of a program, the session is among the globals again. -/
theorem current_runBy {b : Below} (h : b.Steps) (hs : s.machine.current = .globals)
    (source : String) :
    (s.runBy b source).session.machine.current = .globals := by
  cases hss : s.accepted? source with
  | none =>
    obtain ⟨distances, hm⟩ := machine_runBy_refused hss b
    rw [hm]
    exact hs
  | some ss =>
    rw [runBy_accepted hss]
    obtain ⟨output, hmachine⟩ := machine_interpret b s.interactive ss (s.entered source ss)
    change (interpret b s.interactive ss (s.entered source ss)).machine.current = _
    rw [hmachine]
    exact current_runAll h s.interactive ss hs

/-- And so it is after programs run one after the other. -/
theorem current_after {b : Below} (h : b.Steps) (hs : s.machine.current = .globals)
    (turns : List Turn) :
    (s.after b turns).machine.current = .globals := by
  induction turns generalizing s with
  | nil => exact hs
  | cons t ts ih => exact ih (current_runBy h (s := s.supply t) hs t.source)

end Session

/-- Evaluation ends in the frame it began in, with a result or without one: of expressions and
statements, in the current frame and inside others, and of calls. In every session every statement
outside all others starts among the globals. A call made from another frame does the same, and only
the current frame differs. -/
theorem current_restored (depth : Nat) :
    (∀ e m, (after (evaluate depth e) m).current = m.current) ∧
    (∀ s m, (after (execute depth s) m).current = m.current) ∧
    (∀ f ss m, (after (inFrame f ((Below.upTo depth).executeAll ss)) m).current = m.current) ∧
    (∀ f e m, (after (inFrame f (evaluate depth e)) m).current = m.current) ∧
    (∀ callee arguments paren m,
      (after (callValue depth callee arguments paren) m).current = m.current) ∧
    (∀ interactive input output clock chances turns (t : Turn) ss s ss',
      let session := ((Session.start interactive (.start input output clock chances)).after
        (.upTo depth) turns).supply t
      session.accepted? t.source = some (ss ++ s :: ss') →
        (Session.runAll (.upTo depth) t.interactive ss
          (session.entered t.source (ss ++ s :: ss'))).machine.current = .globals) ∧
    ∀ callee arguments paren (m : Machine) f,
      (callValue depth callee arguments paren).run { m with current := f } =
        placed f ((callValue depth callee arguments paren).run m) := by
  have h := Below.steps_upTo depth
  have hall : ∀ ss, Runs ((Below.upTo depth).executeAll ss) := fun _ =>
    Composed.runs fun _ => Below.composed_executeAll trivial fun _ _ => trivial
  have hcall : ∀ callee arguments paren, Runs (callValue depth callee arguments paren) :=
    fun callee arguments paren => Composed.runs fun _ =>
      Below.composed_call callee arguments paren
  refine ⟨fun e => (h.evaluate e).current_eq, fun s => (h.execute s).current_eq,
    fun f ss => ((hall ss).inFrame f).current_eq,
    fun f e => ((h.evaluate e).inFrame f).current_eq,
    fun callee arguments paren => (hcall callee arguments paren).current_eq, ?_,
    fun callee arguments paren => (Below.upTo depth).blind_call callee arguments paren⟩
  intro interactive input output clock chances turns t ss s ss' session _
  have hstart : session.machine.current = .globals :=
    Session.current_after (s := .start interactive (.start input output clock chances)) h rfl turns
  exact Session.current_runAll h t.interactive ss hstart

end Scriptling
