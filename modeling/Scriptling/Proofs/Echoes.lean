import Scriptling.Proofs.Batches
import Scriptling.Proofs.Composition
import Scriptling.Proofs.Following

namespace Scriptling

open Machine

variable {p q : ByteArray} {b b' : Below} {m : Machine}

def Output.since (after before : Output) : ByteArray :=
  after.written.extract before.written.size after.written.size

theorem Output.since_endless (w text : ByteArray) :
    (Output.endless (w ++ text)).since (.endless w) = text :=
  ByteArray.extract_append_eq_right rfl ByteArray.size_append

/-- What an interactive session writes when it has run a statement: the text of an expression's
value and a line break, unless the value is nil. -/
def Stmt.shown (b : Below) (m : Machine) : Stmt → ByteArray
  | .expr e =>
    match (b.evaluate e).run m with
    | .ok v m₁ => if v.isNil then .empty else (m₁.store.text v ++ "\n").toByteArray
    | .error _ _ => .empty
  | _ => .empty

/-- A statement's share of the output: what it writes itself, and what is shown when it has been
run. -/
structure Share where
  written : ByteArray
  shown : ByteArray

namespace Session

/-- The shares of statements run one after the other. Nothing is shown of one that fails. -/
def shares (b : Below) : List Stmt → Machine → List Share
  | [], _ => []
  | s :: ss, m =>
    match (runStatement b s).run m with
    | .ok () m₁ => ⟨m₁.output.since m.output, s.shown b m⟩ :: shares b ss m₁
    | .error _ m₁ =>
      ⟨m₁.output.since m.output, .empty⟩ :: shares b ss { m₁ with current := .globals }

theorem follows_runStatement (h : b.Follows p q b') (s : Stmt) :
    Eval.Follows p q (runStatement b s) (runStatement b' s) := by
  refine (h.execute s).bind fun flow => ?_
  cases flow with
  | «break» keyword => exact .fail _ _
  | next keyword => exact .fail _ _
  | _ => exact .pure _

theorem follows_echo (h : b.Follows p q b') (e : Expr) :
    Eval.Follows p q (echo b e) (echo b' e) := by
  refine (h.evaluate e).bind fun v => ?_
  split
  · exact .pure _
  · exact (follows_text v).bind fun _ => follows_write _

/-- A statement does the same on an output that goes on from other writings. -/
theorem follows_runTopLevel (h : b.Follows p q b') (interactive : Bool) (s : Stmt) :
    Eval.Follows p q (runTopLevel b interactive s) (runTopLevel b' interactive s) := by
  cases interactive with
  | false => exact follows_runStatement h s
  | true =>
    cases s with
    | expr e => exact follows_echo h e
    | _ => exact follows_runStatement h _

/-- An expression stands one level below its statement. -/
theorem run_runStatement_expr (depth : Nat) (e : Expr) (m : Machine) :
    (runStatement (.upTo (depth + 1)) (.expr e)).run m =
      match (evaluate depth e).run m with
      | .ok _ m₁ => .ok () m₁
      | .error stop m₁ => .error stop m₁ := by
  cases hr : (evaluate depth e).run m with
  | ok v m₁ =>
    have hdiscard : (discard (evaluate depth e)).run m = .ok () m₁ := Eval.run_bind_ok hr
    have hexecute : (execute (depth + 1) (.expr e)).run m = .ok .normal m₁ :=
      Eval.run_bind_ok hdiscard
    exact Eval.run_bind_ok hexecute
  | error stop m₁ =>
    have hdiscard : (discard (evaluate depth e)).run m = .error stop m₁ := Eval.run_bind_error hr
    have hexecute : (execute (depth + 1) (.expr e)).run m = .error stop m₁ :=
      Eval.run_bind_error hdiscard
    exact Eval.run_bind_error hexecute

/-- An echo evaluates the expression, and writes its value unless that is nil. -/
theorem run_echo (b : Below) (e : Expr) (m : Machine) : (echo b e).run m =
    match (b.evaluate e).run m with
    | .ok v m₁ => if v.isNil then .ok () m₁ else (write (m₁.store.text v ++ "\n")).run m₁
    | .error stop m₁ => .error stop m₁ := by
  cases hr : (b.evaluate e).run m with
  | ok v m₁ =>
    refine (Eval.run_bind_ok hr).trans ?_
    dsimp only
    cases v.isNil <;> rfl
  | error stop m₁ => exact Eval.run_bind_error hr

/-- A statement's results without and with its value shown, unless it runs out of depth. -/
inductive Echoed (p q shown : ByteArray) :
    EStateM.Result Stop Machine Unit → EStateM.Result Stop Machine Unit → Prop
  | ok {m : Machine} (text : ByteArray) : m.output = .endless (p ++ text) →
      Echoed p q shown (.ok () m) (.ok () { m with output := .endless (q ++ (text ++ shown)) })
  | failed {failure : Failure} {m : Machine} (text : ByteArray) : m.output = .endless (p ++ text) →
      Echoed p q shown (.error (.failed failure) m)
        (.error (.failed failure) { m with output := .endless (q ++ text) })
  | exhausted {m : Machine} {r' : EStateM.Result Stop Machine Unit} :
      Echoed p q shown (.error .exhausted m) r'

theorem Echoed.of_matched {r r' : EStateM.Result Stop Machine Unit} (h : Eval.Matched p q r r') :
    Echoed p q .empty r r' := by
  cases r with
  | ok u m =>
    obtain ⟨text, hm, rfl⟩ := h.of_ok
    have hok : Echoed p q .empty (.ok () m) _ := .ok text hm
    simpa using hok
  | error stop m =>
    cases stop with
    | exhausted => exact .exhausted
    | failed failure =>
      obtain ⟨text, hm, rfl⟩ := h.of_failed
      exact .failed text hm

/-- Beside a statement that is run without its value shown, an interactive session does the same
and then shows the value. -/
theorem echoed_runTopLevel (q : ByteArray) (depth : Nat) (s : Stmt)
    (hm : m.output = .endless p) :
    Echoed p q (s.shown (.upTo depth) m) ((runTopLevel (.upTo depth) false s).run m)
      ((runTopLevel (.upTo depth) true s).run { m with output := .endless q }) := by
  have hstart : Output.Resumed p q m.output (.endless q) := hm ▸ .start p q
  have hplain : Eval.Matched p q ((runStatement (.upTo depth) s).run m)
      ((runStatement (.upTo depth) s).run { m with output := .endless q }) :=
    follows_runStatement (Below.follows_upTo (Nat.le_refl depth)) s m _ hstart
  cases s with
  | expr e =>
    cases depth with
    | zero => exact .exhausted
    | succ depth =>
      have hle := Nat.le_succ depth
      have hsame := ((Below.follows_upTo hle).evaluate e).on hm
      have hbeside := (Below.follows_upTo (p := p) (q := q) hle).evaluate e m _ hstart
      change Echoed p q _ ((runStatement (.upTo (depth + 1)) (.expr e)).run m)
        ((echo (.upTo (depth + 1)) e).run { m with output := .endless q })
      change Eval.Matched p p ((evaluate depth e).run m)
        (((Below.upTo (depth + 1)).evaluate e).run m) at hsame
      change Eval.Matched p q ((evaluate depth e).run m) _ at hbeside
      rw [run_runStatement_expr, run_echo, Stmt.shown]
      cases hr : (evaluate depth e).run m with
      | ok v m₁ =>
        rw [hr] at hsame hbeside
        obtain ⟨text, hm₁, hsame⟩ := hsame.of_ok
        obtain ⟨text', hm₁', hbeside⟩ := hbeside.of_ok
        obtain rfl : text = text' := (ByteArray.append_right_inj p).1
          (congrArg Output.written (hm₁.symm.trans hm₁'))
        rw [hsame, hbeside]
        dsimp only
        cases v.isNil with
        | true =>
          have hok : Echoed p q .empty (.ok () m₁) _ := .ok text hm₁
          simpa using hok
        | false =>
          have hok : Echoed p q (m₁.store.text v ++ "\n").toByteArray (.ok () m₁) _ := .ok text hm₁
          rw [← ByteArray.append_assoc] at hok
          exact hok
      | error stop m₁ =>
        rw [hr] at hbeside
        cases stop with
        | exhausted => exact .exhausted
        | failed failure =>
          obtain ⟨text, hm₁, hbeside⟩ := hbeside.of_failed
          rw [hbeside]
          exact .failed text hm₁
  | _ => exact .of_matched hplain

/-- An output that had the shares of some statements written to it, without what is shown. -/
def writeAll (out : ByteArray) (shares : List Share) : ByteArray :=
  shares.foldl (fun out share => out ++ share.written) out

def showAll (out : ByteArray) (shares : List Share) : ByteArray :=
  shares.foldl (fun out share => out ++ (share.written ++ share.shown)) out

/-- All statements run alike, and the outputs differ in what is shown. -/
theorem runAll_echoed (depth : Nat) (ss : List Stmt) (hm : m.output = .endless p)
    (hc : (runAll (.upTo depth) false ss m).complete = true) :
    let ran := runAll (.upTo depth) false ss m
    let told := shares (.upTo depth) ss m
    ran.machine.output = .endless (writeAll p told) ∧
      runAll (.upTo depth) true ss { m with output := .endless q } =
        { ran with machine := { ran.machine with output := .endless (showAll q told) } } := by
  induction ss generalizing m p q with
  | nil => exact ⟨hm, rfl⟩
  | cons s ss ih =>
    have hecho := echoed_runTopLevel q depth s hm
    rw [runAll_cons] at hc
    simp only [runAll_cons]
    rw [shares]
    have hplain : runStatement (.upTo depth) s = runTopLevel (.upTo depth) false s := rfl
    rw [hplain]
    generalize (runTopLevel (.upTo depth) false s).run m = r at hc hecho
    generalize (runTopLevel (.upTo depth) true s).run { m with output := .endless q } = r' at hecho
    cases hecho with
    | ok text hm₁ =>
      rename_i m₁
      have hsince : m₁.output.since m.output = text := by rw [hm, hm₁, Output.since_endless]
      dsimp only
      rw [hsince]
      exact ih hm₁ hc
    | failed text hm₁ =>
      rename_i failure m₁
      have hsince : m₁.output.since m.output = text := by rw [hm, hm₁, Output.since_endless]
      obtain ⟨hout, hran⟩ := ih (m := { m₁ with current := .globals }) (q := q ++ text) hm₁ hc
      dsimp only
      rw [hsince, writeAll, showAll, List.foldl_cons, List.foldl_cons, ByteArray.append_empty]
      exact ⟨hout, by rw [hran]; rfl⟩
    | exhausted => cases hc

/-- More depth changes nothing where there was enough. -/
theorem runTopLevel_deeper {depth depth' : Nat} (hle : depth ≤ depth') (interactive : Bool)
    (s : Stmt) (hm : m.output = .endless p)
    (hdone : Eval.Done ((runTopLevel (.upTo depth) interactive s).run m)) :
    (runTopLevel (.upTo depth') interactive s).run m =
      (runTopLevel (.upTo depth) interactive s).run m :=
  ((follows_runTopLevel (Below.follows_upTo hle) interactive s).on hm).eq hdone

/-- A statement whose value is shown needs at most one level more when it is not. -/
theorem done_runTopLevel {depth : Nat} (s : Stmt) (hm : m.output = .endless p)
    (hdone : Eval.Done ((runTopLevel (.upTo depth) true s).run { m with output := .endless q })) :
    Eval.Done ((runTopLevel (.upTo (depth + 1)) false s).run m) := by
  have hstart : Output.Resumed q p (.endless q) m.output := hm ▸ .start q p
  have hplain : Eval.Matched q p ((runStatement (.upTo depth) s).run { m with output := .endless q })
      ((runStatement (.upTo (depth + 1)) s).run m) :=
    follows_runStatement (Below.follows_upTo (Nat.le_succ depth)) s _ _ hstart
  cases s with
  | expr e =>
    have hvalue : Eval.Matched q p ((evaluate depth e).run { m with output := .endless q })
        ((evaluate depth e).run m) :=
      (Below.follows_upTo (Nat.le_refl depth)).evaluate e _ _ hstart
    have hecho := run_echo (.upTo depth) e { m with output := .endless q }
    change Eval.Done ((echo (.upTo depth) e).run { m with output := .endless q }) at hdone
    change Eval.Done ((runStatement (.upTo (depth + 1)) (.expr e)).run m)
    rw [hecho] at hdone
    rw [run_runStatement_expr]
    have hfirst : Eval.Done ((evaluate depth e).run { m with output := .endless q }) := by
      intro m₁ hr
      exact hdone m₁ (by rw [show (Below.upTo depth).evaluate e = evaluate depth e from rfl, hr])
    have hsecond := hvalue.done hfirst
    cases hr : (evaluate depth e).run m with
    | ok v m₁ => exact nofun
    | error stop m₁ =>
      rw [hr] at hsecond
      rintro m₂ ⟨⟩
      exact hsecond m₁ rfl
  | _ => exact hplain.done hdone

/-- If all statements were run, the first one did not run out of depth. -/
theorem done_of_complete {interactive : Bool} {s : Stmt} {ss : List Stmt}
    (hc : (runAll b interactive (s :: ss) m).complete = true) :
    Eval.Done ((runTopLevel b interactive s).run m) := by
  intro m₁ hr
  rw [runAll_cons, hr] at hc
  cases hc

/-- Statements that all were run end alike at every greater depth. -/
theorem runAll_deeper {depth depth' : Nat} (hle : depth ≤ depth') (interactive : Bool)
    (ss : List Stmt) (hm : m.output = .endless p)
    (hc : (runAll (.upTo depth) interactive ss m).complete = true) :
    runAll (.upTo depth') interactive ss m = runAll (.upTo depth) interactive ss m := by
  induction ss generalizing m p with
  | nil => rfl
  | cons s ss ih =>
    have hmatched := (follows_runTopLevel (Below.follows_upTo (Nat.le_refl depth)) interactive s).on
      hm
    have hsame := runTopLevel_deeper hle interactive s hm (done_of_complete hc)
    rw [runAll_cons] at hc ⊢
    rw [runAll_cons, hsame]
    cases hr : (runTopLevel (.upTo depth) interactive s).run m with
    | ok u m₁ =>
      rw [hr] at hc hmatched
      obtain ⟨text, hm₁, -⟩ := hmatched.of_ok
      exact ih hm₁ hc
    | error stop m₁ =>
      rw [hr] at hc hmatched
      cases stop with
      | exhausted => rfl
      | failed failure =>
        obtain ⟨text, hm₁, -⟩ := hmatched.of_failed
        dsimp only
        rw [ih (m := { m₁ with current := .globals }) hm₁ hc]

/-- If an interactive run was complete, a silent one is. -/
theorem complete_runAll {depth : Nat} (ss : List Stmt) (hm : m.output = .endless p)
    (hc : (runAll (.upTo depth) true ss { m with output := .endless q }).complete = true) :
    (runAll (.upTo (depth + 1)) false ss m).complete = true := by
  induction ss generalizing m p q with
  | nil => rfl
  | cons s ss ih =>
    have hdone := done_of_complete hc
    have hsame := runTopLevel_deeper (m := { m with output := .endless q }) (Nat.le_succ depth) true
      s rfl hdone
    have hsilent := done_runTopLevel s hm hdone
    have hecho := echoed_runTopLevel q (depth + 1) s hm
    rw [runAll_cons] at hc ⊢
    rw [hsame] at hecho
    generalize (runTopLevel (.upTo (depth + 1)) false s).run m = r at hsilent hecho ⊢
    generalize (runTopLevel (.upTo depth) true s).run { m with output := .endless q } = r' at hc hecho
    cases hecho with
    | ok text hm₁ => exact ih hm₁ hc
    | @failed failure m₁ text hm₁ => exact ih (m := { m₁ with current := .globals }) hm₁ hc
    | exhausted => exact absurd rfl (hsilent _)

/-- What is read strictly is read interactively, to the same end. -/
theorem read_interactive {s : Session} {source : String} {ss : List Stmt}
    (h : ({ s with interactive := false }.read source).parsed = .ok ss) :
    { s with interactive := true }.read source =
      { { s with interactive := false }.read source with
        session := { ({ s with interactive := false }.read source).session with
          interactive := true } } := by
  have hparse : (parse false s.nextId (tokensOf (scan source))).result = .ok ss := by
    unfold read at h
    dsimp only at h
    split at h
    · rename_i hresult
      cases h
      exact hresult
    · cases h
  unfold read
  dsimp only
  rw [parse_loosen hparse]

theorem accepted?_interactive {s : Session} {source : String} {ss : List Stmt}
    (h : { s with interactive := false }.accepted? source = some ss) :
    { s with interactive := true }.accepted? source = some ss := by
  obtain ⟨hparsed, hlex, hfaults⟩ := accepted?_eq_some_iff.1 h
  rw [accepted?_eq_some_iff, read_interactive hparsed]
  exact ⟨hparsed, hlex, hfaults⟩

variable {s : Session} {source : String} {ss : List Stmt}

theorem run_silent (hss : { s with interactive := false }.accepted? source = some ss)
    (depth : Nat) : { s with interactive := false }.run depth source =
      (({ s with interactive := false }.read source).session.noteDistances
        (resolve s.globalNames ss).distances).outcomeOf
          (interpret (.upTo depth) false ss ({ s with interactive := false }.entered source ss)) :=
  runBy_accepted hss (.upTo depth)

/-- The machine on which the statements are run is the same. -/
theorem run_shown (hss : { s with interactive := false }.accepted? source = some ss)
    (depth : Nat) : { s with interactive := true }.run depth source =
      ({ (({ s with interactive := false }.read source).session.noteDistances
        (resolve s.globalNames ss).distances) with interactive := true }).outcomeOf
          (interpret (.upTo depth) true ss ({ s with interactive := false }.entered source ss)) := by
  refine (runBy_accepted (accepted?_interactive hss) (.upTo depth)).trans ?_
  rw [read_interactive (accepted?_eq_some_iff.1 hss).1]
  rfl

end Session

/-- Showing values only adds to the output. On any machine whose output takes everything, a source
that is accepted without it ends with the same status, the same reports and the same machine, if
either of the two ends, and the output has after each expression that was evaluated, unless its
value is nil, the value's text and a line break. -/
theorem echoes_added (s : Session) (source : String) (ss : List Stmt) (depth : Nat)
    (hroom : s.machine.output.room = none)
    (hflush : s.machine.output.flushFails = .always false)
    (hss : { s with interactive := false }.accepted? source = some ss) :
    let silent := fun depth => { s with interactive := false }.run depth source
    let shown := fun depth => { s with interactive := true }.run depth source
    let told := Session.shares (.upTo depth) ss ({ s with interactive := false }.entered source ss)
    ((silent depth).status ≠ .exhausted →
      (shown depth).status = (silent depth).status ∧
      (shown depth).reports = (silent depth).reports ∧
      (silent depth).session.machine.output.written =
        Session.writeAll s.machine.output.written told ∧
      (shown depth).session = { (silent depth).session with
        interactive := true
        machine := { (silent depth).session.machine with
          output := .endless (Session.showAll s.machine.output.written told) } }) ∧
    ((shown depth).status ≠ .exhausted →
      (silent (depth + 1)).status ≠ .exhausted ∧ shown (depth + 1) = shown depth) := by
  dsimp only
  have houtput : s.machine.output = .endless s.machine.output.written := by
    generalize s.machine.output = o at hroom hflush
    obtain ⟨written, room, flushFails⟩ := o
    cases hroom
    cases hflush
    rfl
  have hm : ({ s with interactive := false }.entered source ss).output =
      .endless s.machine.output.written := houtput
  generalize s.machine.output.written = w at hm
  rw [Session.run_silent hss, Session.run_silent hss, Session.run_shown hss, Session.run_shown hss]
  generalize { s with interactive := false }.entered source ss = m at hm ⊢
  have hself : ({ m with output := .endless w } : Machine) = m := by rw [← hm]
  have hflushed : ∀ depth interactive,
      Session.interpret (.upTo depth) interactive ss m =
        Session.runAll (.upTo depth) interactive ss m := fun depth interactive =>
    Session.interpret_flushed (Below.steps_upTo depth) interactive ss (hm ▸ rfl)
  rw [hflushed, hflushed, hflushed, hflushed]
  simp only [ne_eq, Session.exhausted_outcomeOf, Bool.not_eq_false]
  constructor
  · intro hc
    obtain ⟨hwritten, hran⟩ := Session.runAll_echoed (q := w) depth ss hm hc
    rw [hself] at hran
    rw [hran]
    refine ⟨rfl, rfl, ?_, rfl⟩
    exact congrArg Output.written hwritten
  · intro hc
    have hdeep := Session.complete_runAll (q := w) ss hm (by rwa [hself])
    rw [Session.runAll_deeper (Nat.le_succ depth) true ss hm hc]
    exact ⟨hdeep, rfl⟩

/-- A session in which something was written and a function was made. -/
def greeted : Session :=
  ((Session.start false (.start [] .unlimited 0 0)).run 9
    "print(\"a\"); func f() \x7b return true; \x7d").session

/-- Values that are nil, what is printed, and a statement that fails. -/
def mixedSource : String := "f(); nil; print(\"b\"); -nil; \"c\";"

theorem echoes_added_mixed :
    let silent := { greeted with interactive := false }.run 9 mixedSource
    let shown := { greeted with interactive := true }.run 9 mixedSource
    silent.status = .runtimeError ∧ shown.status = .runtimeError ∧ shown.reports = silent.reports ∧
      silent.session.machine.output.written = "a\nb\n".toByteArray ∧
      shown.session.machine.output.written = "a\ntrue\nb\nc\n".toByteArray := by
  intro silent shown
  have hstatus : silent.status = .runtimeError := by decide +kernel
  obtain ⟨ss, hss⟩ := Option.isSome_iff_exists.1 (show
    ({ greeted with interactive := false }.accepted? mixedSource).isSome by decide +kernel)
  have hflush : greeted.machine.output.flushFails = .always false :=
    Session.flushFails_runBy (Below.steps_upTo 9) (s := .start false (.start [] .unlimited 0 0)) rfl _
  obtain ⟨hsame, hreports, -, -⟩ := (echoes_added greeted mixedSource ss 9 (by decide +kernel)
    hflush hss).1 (hstatus ▸ nofun)
  exact ⟨hstatus, hsame.trans hstatus, hreports, by decide +kernel, by decide +kernel⟩

end Scriptling
