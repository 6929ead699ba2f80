import Scriptling.Proofs.Blame
import Scriptling.Proofs.InquirySessions
import Scriptling.Proofs.RealmSessions

namespace Scriptling

open Machine

variable {α β : Type}

namespace Scope

variable {T : Token → Prop} {a b : Resolve Unit}

/-- Outside all functions the step reports something. -/
def Objects (act : Resolve Unit) : Prop :=
  ∀ w : Walk, w.body = .none → (walked act w).faults ≠ []

theorem Objects.after (ha : Blames T a) (hb : Objects b) : Objects (do a; b) :=
  fun w hw => hb _ ((ha w).1.trans hw)

theorem Objects.before (ha : Objects a) (hb : Blames T b) : Objects (do a; b) := by
  intro w hw h
  obtain ⟨-, found, hfaults, -⟩ := hb (walked a w)
  rw [walked_bind, hfaults, List.append_eq_nil_iff] at h
  exact ha w hw h.1

/-- A `return` that stands outside all functions is reported. -/
theorem objects_returning {keyword : Token} {value : Option Expr} (hk : T keyword)
    (hv : ∀ e ∈ value, e.Within T) : Objects (returning keyword value) := by
  have hreport : Objects (report keyword .topLevelReturn) := fun w _ => by simp [walked_report]
  intro w hw
  cases value with
  | none =>
    change (walked (if w.body = .none then report keyword .topLevelReturn else pure ()) w).faults ≠ []
    rw [if_pos hw]
    exact hreport w hw
  | some e =>
    change (walked (do
      if w.body = .none then report keyword .topLevelReturn
      if w.body = .initializer then report keyword .initializerValue
      expr e) w).faults ≠ []
    rw [if_pos hw]
    exact hreport.before (blames_returned hk (hv e rfl) w.body) w hw

mutual

theorem objects_stmt {s : Stmt} (h : s.Within T) (hr : s.returns = true) : Objects (stmt s) := by
  cases s with
  | block body =>
    exact .after (blames_openScope (T := T) _)
      ((objects_stmts h hr).before (blames_closeScope (T := T)))
  | ifThen condition whenTrue => exact .after (blames_expr condition h.1) (objects_stmt h.2 hr)
  | ifElse condition whenTrue whenFalse =>
    refine .after (blames_expr condition h.1) ?_
    rw [Stmt.returns, Bool.or_eq_true] at hr
    rcases hr with hr | hr
    · exact (objects_stmt h.2.1 hr).before (blames_stmt whenFalse h.2.2)
    · exact .after (blames_stmt whenTrue h.2.1) (objects_stmt h.2.2 hr)
  | «while» condition body => exact .after (blames_expr condition h.1) (objects_stmt h.2 hr)
  | «for» condition increment body =>
    exact .after (blames_expr condition h.1)
      ((objects_stmt h.2.2 hr).before (blames_expr? h.2.1))
  | «return» keyword value => exact objects_returning h.1 h.2
  | _ => cases hr

theorem objects_stmts {ss : List Stmt} (h : Stmt.WithinAll T ss)
    (hr : Stmt.returnsAll ss = true) : Objects (stmts ss) := by
  cases ss with
  | nil => cases hr
  | cons s ss =>
    rw [Stmt.returnsAll, Bool.or_eq_true] at hr
    rcases hr with hr | hr
    · exact (objects_stmt h.1 hr).before (blames_stmts ss h.2)
    · exact .after (blames_stmt s h.1) (objects_stmts h.2 hr)

end

end Scope

/-- In a program without a fault every `return` is in a function. -/
theorem Session.returnsAll_of_accepted {s : Session} {source : String} {ss : List Stmt}
    (h : s.accepted? source = some ss) : Stmt.returnsAll ss = false := by
  obtain ⟨hparsed, -, hfaults⟩ := accepted?_eq_some_iff.1 h
  have hwithin := read_within hparsed (T := fun _ => True) fun _ _ => trivial
  by_contra hr
  exact Scope.objects_stmts hwithin (by simpa using hr) (.start s.globalNames) rfl hfaults

/-- A call of the value runs the body of a function, and control leaves the body so. -/
inductive Below.Left (below : Below) (m : Machine) (arguments : List Value) (paren : Token)
    (flow : Flow) : Value → Prop
  | function {id : ClosureId} {c : Closure} {m₁ : Machine} : m.store.closures[id]? = some c →
    c.decl.arity.least ≤ arguments.length → arguments.length ≤ c.decl.arity.most →
    (below.runBody c arguments paren).run m = .ok flow m₁ →
    Left below m arguments paren flow (.closure id)
  | initializer {id : ClassId} {init : Closure} {m₁ : Machine} : m.store.init? id = some init →
    init.decl.arity.least ≤ arguments.length → arguments.length ≤ init.decl.arity.most →
    (below.runBody { init with scope := m.store.frames.size } arguments paren).run
      (m.instantiated id init) = .ok flow m₁ →
    Left below m arguments paren flow (.classRef id)

namespace Below

variable {b : Below} {m m₁ : Machine} {arguments : List Value} {paren : Token} {x : Signal}

/-- A call whose body is left by a signal fails with the signal's report. -/
theorem run_callClosure_left {c : Closure}
    (h : (b.runBody c arguments paren).run m = .ok x.flow m₁) :
    (b.callClosure c arguments paren).run m = .error (.failed x.failure) m₁ := by
  rw [callClosure_eq_runBody, Eval.run_bind_ok h]
  cases x <;> rfl

/-- The signal is reported where it stands, as there is no loop around it in the function. -/
theorem run_call_left {callee : Value} (h : b.Left m arguments paren x.flow callee) :
    ∃ m₁, (b.call callee arguments paren).run m = .error (.failed x.failure) m₁ := by
  cases h with
  | function hc hleast hmost hrun =>
    exact ⟨_, (run_call_closure hc hleast hmost).trans (run_callClosure_left hrun)⟩
  | initializer hinit hleast hmost hrun =>
    exact ⟨_, (run_call_class hinit hleast hmost).trans
      (Eval.run_bind_error (run_callClosure_left hrun))⟩

end Below

/-- Evaluating the expression calls a function whose body is left by the signal. -/
def Expr.Leaks (below : Below) (m : Machine) (x : Signal) : Expr → Prop
  | .call callee paren arguments => ∃ v vs m₁ m₂, (below.evaluate callee).run m = .ok v m₁ ∧
    (below.evaluateAll arguments).run m₁ = .ok vs m₂ ∧ below.Left m₂ vs paren x.flow v
  | _ => False

/-- No function that is called has its body left by the signal. -/
def Signal.contained (x : Signal) : Watch := ⟨fun below e m => ¬ e.Leaks below m x, fun _ _ _ => True⟩

/-- The actions, done in the frame, give the same result, or the second one reports the signal. -/
def Eval.Agree (x : Signal) (g : FrameId) (a a' : Eval α) : Prop :=
  ∀ m : Machine, m.current = g →
    a.run m = a'.run m ∨ ∃ m₁, a'.run m = .error (.failed x.failure) m₁

structure Below.Agrees (x : Signal) (b b' : Below) : Prop where
  evaluate : ∀ g e, Eval.Agree x g (b.evaluate e) (b'.evaluate e)
  execute : ∀ g s, Eval.Agree x g (b.execute s) (b'.execute s)
  rounds : b.rounds = b'.rounds
  governs : Realm.any.Governs b'

/-- What agreeing parts are put together to agrees. -/
theorem Below.Agrees.composed {x : Signal} {b b' : Below} (h : b.Agrees x b') {g : FrameId}
    {a a' : Eval α} {Q : α → Prop} (ha : Eval.Composed .any b b' g a a' Q) :
    Eval.Agree x g a a' := by
  induction ha with
  | single => exact fun _ _ => .inl rfl
  | readInput => exact fun _ _ => .inl rfl
  | look _ _ ih => exact fun m hg => ih m hg (Realm.admits_any _) m hg
  | @bind g α β a a' k k' P Q ha _ iha ihk =>
    intro m hg
    have hends := h.governs.composed (ha.right h.rounds) m hg (Realm.admits_any _)
    rcases iha m hg with hm | ⟨m₁, hm⟩
    · cases hr : a'.run m with
      | ok v m₁ =>
        rw [hr] at hends hm
        rw [Eval.run_bind_ok hm, Eval.run_bind_ok hr]
        exact ihk v hends.2.2 m₁ hends.1
      | error stop m₁ =>
        rw [hr] at hm
        exact .inl ((Eval.run_bind_error hm).trans (Eval.run_bind_error hr).symm)
    · exact .inr ⟨m₁, Eval.run_bind_error hm⟩
  | @inFrame f g α a a' Q _ ih =>
    intro m _
    rw [Eval.run_inFrame, Eval.run_inFrame]
    rcases ih { m with current := f } rfl with hm | ⟨m₁, hm⟩
    · exact .inl (by rw [hm])
    · exact .inr ⟨{ m₁ with current := m.current }, by rw [hm]⟩
  | evaluate => exact h.evaluate _ _
  | execute => exact h.execute _ _
  | spent hlt => exact absurd h.rounds (Nat.ne_of_lt hlt)

/-- A call that the watch would warn of reports the signal. -/
theorem Expr.Leaks.run {b : Below} {m : Machine} {x : Signal} {e : Expr} (h : e.Leaks b m x) :
    ∃ m₁, (b.evaluateStep e).run m = .error (.failed x.failure) m₁ := by
  cases e with
  | call callee paren arguments =>
    obtain ⟨v, vs, m₁, m₂, hcallee, harguments, hleft⟩ := h
    obtain ⟨m₃, hcall⟩ := Below.run_call_left hleft
    exact ⟨m₃, (Eval.run_bind_ok hcallee).trans ((Eval.run_bind_ok harguments).trans hcall)⟩
  | _ => cases h

/-- A guard that fails where the signal is reported does not matter. -/
theorem Eval.Agree.guarded {x : Signal} {g : FrameId} {a a' : Eval α} {alarm : Stop}
    {condition : Machine → Prop} (h : Agree x g a a')
    (hc : ∀ m, ¬ condition m → ∃ m₁, a'.run m = .error (.failed x.failure) m₁) :
    Agree x g (guarded condition alarm a) a' := by
  intro m hg
  by_cases hm : condition m
  · rw [run_guarded hm]
    exact h m hg
  · exact .inr (hc m hm)

/-- Evaluation under the watch is no different, unless the signal is reported. -/
theorem agrees_watched (x : Signal) (alarm : Stop) (depth : Nat) :
    (x.contained.below alarm depth).Agrees x (.upTo depth) := by
  induction depth with
  | zero => exact ⟨fun _ _ _ _ => .inl rfl, fun _ _ _ _ => .inl rfl, rfl, Realm.governs_upTo _ _⟩
  | succ depth ih =>
    refine ⟨fun g e => ?_, fun g s => ?_, rfl, Realm.governs_upTo _ _⟩
    · refine (ih.composed (Below.composed_evaluateStep (Realm.hosts_of_frame trivial _))).guarded
        fun m hm => ?_
      exact (not_not.1 hm).run
    · have hrounds := Nat.le_of_eq ih.rounds
      refine (ih.composed (Below.composed_executeStep hrounds trivial fun _ _ => trivial)).guarded
        fun m hm => ?_
      exact absurd trivial hm

/-- A statement under the watch agrees with the statement itself. -/
theorem agree_runTopLevel (x : Signal) (alarm : Stop) (depth : Nat) (interactive : Bool) (s : Stmt)
    (g : FrameId) : Eval.Agree x g
      (Session.runTopLevel (x.contained.below alarm depth) interactive s)
      (Session.runTopLevel (.upTo depth) interactive s) :=
  (agrees_watched x alarm depth).composed
    (Realm.composed_runTopLevel interactive trivial (fun _ _ => trivial) Realm.strays_any)

/-- The realm of functions in which every signal is in a loop. -/
def Realm.guarded : Realm := .all (fun d => d.guarded = true) fun d hd =>
  Stmt.guarded_declsAll (d.guarded_eq ▸ hd)

/-- Every function in the store has its signals in loops. -/
def Store.Guarded (s : Store) : Prop :=
  ∀ (id : ClosureId) (c : Closure), s.closures[id]? = some c → c.decl.guarded = true

theorem Realm.hears_guarded {ss : List Stmt} (h : Stmt.guardedAll false ss = true) :
    Realm.guarded.Hears ss :=
  ⟨Stmt.guarded_declsAll h, by simp [Stmt.signalsAll_of_guarded h]⟩

/-- No signal is reported where every function is guarded. -/
theorem Realm.Stops.not_stray {failure : Failure} (h : Realm.guarded.Stops (.failed failure))
    (x : Signal) (place : Place) : failure ≠ .runtime ⟨x.fault, place⟩ := by
  rintro rfl
  generalize hstop : Stop.failed (.runtime ⟨x.fault, place⟩) = stop at h
  cases h with
  | exhausted => cases hstop
  | stream fault => cases hstop
  | ordinary _ hordinary =>
    cases hstop
    cases x <;> exact hordinary
  | stray hstray =>
    obtain ⟨d, hd, hx⟩ := hstray
    have hguarded : d.guarded = true := hd
    rw [Stmt.signalsAll_of_guarded (d.guarded_eq ▸ hguarded)] at hx
    cases hx

/-- Guarded programs make guarded functions only, and no signal is reported of them. -/
theorem Store.Guarded.interpret {m : Machine} (hm : m.store.Guarded) {ss : List Stmt}
    (hss : Stmt.guardedAll false ss = true) (interactive : Bool) (depth : Nat) :
    let ran := Session.interpret (.upTo depth) interactive ss m
    ran.machine.store.Guarded ∧
      ∀ x place, Failure.runtime ⟨Signal.fault x, place⟩ ∉ ran.failures := by
  have hadmits : Realm.guarded.Admits m.store := Realm.admits_all.2 hm
  obtain ⟨hstore, hfailures⟩ :=
    hadmits.interpret depth trivial (Realm.hears_guarded hss) interactive
  exact ⟨Realm.admits_all.1 hstore, fun x place h => (hfailures _ h).not_stray x place rfl⟩

def Stmt.isLoop : Stmt → Bool
  | .while _ _ | .for _ _ _ => true
  | _ => false

/-- A statement that ends is left as its own text says. -/
theorem among_of_execute {depth : Nat} {s : Stmt} {m m₁ : Machine} {flow : Flow}
    (h : (execute depth s).run m = .ok flow m₁) : flow.Among s.signals s.returns := by
  have hends := (Realm.governs_upTo .any depth).execute (s := s) trivial (fun _ _ => trivial) m rfl
    (Realm.admits_any _)
  rw [show ((Below.upTo depth).execute s).run m = .ok flow m₁ from h] at hends
  exact hends.2.2

/-- Signals and returns are confined. A statement that is left by a signal is left by one of its own
that is inside none of its loops, functions and classes; so a loop is left by none. Where control
leaves the body of a called function by a signal, the call reports the signal, and so does the
statement outside all others that is being run: it is run as if no called function were left by the
signal, or the signal is reported. If all programs are guarded no signal is ever reported. In a
program that is accepted no statement outside all others is left by a `return`. -/
theorem signals_confined (depth : Nat) :
    (∀ (s : Stmt) (m m₁ : Machine) (x : Signal), (execute depth s).run m = .ok x.flow m₁ →
      x ∈ s.signals) ∧
    (∀ (s : Stmt) (m m₁ : Machine) (x : Signal), s.isLoop = true →
      (execute depth s).run m ≠ .ok x.flow m₁) ∧
    (∀ (callee : Value) (arguments : List Value) (paren : Token) (m : Machine) (x : Signal),
      (Below.upTo depth).Left m arguments paren x.flow callee →
        ∃ m₁, (callValue depth callee arguments paren).run m = .error (.failed x.failure) m₁) ∧
    (∀ (x : Signal) (alarm : Stop) (interactive : Bool) (s : Stmt) (m : Machine),
      (Session.runTopLevel (x.contained.below alarm depth) interactive s).run m =
          (Session.runTopLevel (.upTo depth) interactive s).run m ∨
        ∃ m₁, (Session.runTopLevel (.upTo depth) interactive s).run m =
          .error (.failed x.failure) m₁) ∧
    (∀ (interactive : Bool) (ss : List Stmt) (m : Machine), m.store.Guarded →
      Stmt.guardedAll false ss = true →
        let ran := Session.interpret (.upTo depth) interactive ss m
        ran.machine.store.Guarded ∧
          ∀ x place, Failure.runtime ⟨Signal.fault x, place⟩ ∉ ran.failures) ∧
    (∀ (interactive : Bool) (input : List UInt8) (output : Output) (clock : Supply Int)
      (chances : Supply Nat) (turns : List Turn),
      let s := Session.start interactive (.start input output clock chances)
      (∀ ss ∈ s.programs (.upTo depth) turns, Stmt.guardedAll false ss = true) →
        ∀ o ∈ s.play (.upTo depth) turns, ∀ x place,
          Report.failure (.runtime ⟨Signal.fault x, place⟩) ∉ o.reports) ∧
    (∀ (session : Session) (source : String) (ss : List Stmt),
      session.accepted? source = some ss → ∀ s ∈ ss, ∀ (m m₁ : Machine) (v : Value),
        (execute depth s).run m ≠ .ok (.return v) m₁) := by
  refine ⟨fun s m m₁ x h => (among_of_execute h).signal, ?_,
    fun callee arguments paren m x h => Below.run_call_left h,
    fun x alarm interactive s m => agree_runTopLevel x alarm depth interactive s m.current m rfl,
    fun interactive ss m hm hss => hm.interpret hss interactive depth, ?_, ?_⟩
  · intro s m m₁ x hloop h
    have hx := (among_of_execute h).signal
    cases s with
    | «while» condition body => cases hx
    | «for» condition increment body => cases hx
    | _ => cases hloop
  · intro interactive input output clock chances turns s hss o ho x place h
    have hstart : Realm.guarded.Admits s.machine.store :=
      Realm.admits_all.2 fun id c hc => by cases hc
    have hstops := hstart.play depth rfl (fun ss h => Realm.hears_guarded (hss ss h)) o ho _ h
    exact hstops.not_stray x place rfl
  · intro session source ss hss s hs m m₁ v h
    have hreturns := Stmt.returnsAll_of_mem hs (among_of_execute h)
    rw [Session.returnsAll_of_accepted hss] at hreturns
    cases hreturns

/-- A program of a loop inside a function, and of a loop that calls it. -/
def nestedLoops : Turn :=
  ⟨"func f() { while (true) { if (true) break; } } while (true) { f(); break; }",
    false, [], .unlimited, 0, 0⟩

/-- The signals of the program are in loops, so none is reported. -/
theorem signals_confined_nestedLoops :
    let s := Session.start false (.start [] .unlimited 0 0)
    (∀ ss ∈ s.programs (.upTo 9) [nestedLoops], Stmt.guardedAll false ss = true) ∧
      ∀ o ∈ s.play (.upTo 9) [nestedLoops], ∀ x place,
        Report.failure (.runtime ⟨Signal.fault x, place⟩) ∉ o.reports := by
  intro s
  have hguarded : ∀ ss ∈ s.programs (.upTo 9) [nestedLoops], Stmt.guardedAll false ss = true := by
    decide +kernel
  have hconfined := signals_confined 9
  exact ⟨hguarded, hconfined.2.2.2.2.2.1 false [] .unlimited 0 0 [nestedLoops] hguarded⟩

end Scriptling
