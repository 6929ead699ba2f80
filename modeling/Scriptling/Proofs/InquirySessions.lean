import Mathlib.Data.Set.Finite.Basic
import Scriptling.Proofs.InquiryStatements
import Scriptling.Proofs.Scanning
import Scriptling.Proofs.Sessions
import Scriptling.Proofs.Statuses

namespace Scriptling

open Machine

variable {t : Terms} {r r₁ : Register} {f : FrameId} {m : Machine} {I : Inquiry}
  {V : Watch} {W : Register → Watch}

/-- The second watch asks nothing that cannot be answered from the first one and the register. -/
structure Inquiry.Answers (t : Terms) (V : Watch) (W : Register → Watch) : Prop where
  ties : ∀ {depth : Nat} {e : Expr} {m : Machine}, V.expr (.upTo depth) e m →
    e.Ties t.tie (.upTo depth) m
  expr : ∀ {depth : Nat} {e : Expr} {m : Machine} {r r₁ L : Register} {f : FrameId},
    r.At t f m → r ≤ r₁ →
    r₁.Ends t f Inquiry.rightful ((Below.upTo depth).evaluateStep e |>.run m) → r₁ ≤ L →
    V.expr (.upTo depth) e m → e.Makes L.origin L.caller (.upTo depth) m →
    (W L).expr (.upTo depth) e m
  stmt : ∀ {depth : Nat} {s : Stmt} {m : Machine} {r r₁ L : Register} {f : FrameId},
    r.At t f m → r ≤ r₁ →
    r₁.Ends t f (fun r flow => flow.Rightful t r)
      ((Below.upTo depth).executeStep s |>.run m) → r₁ ≤ L →
    V.stmt (.upTo depth) s m → s.Makes L.origin (.upTo depth) m →
    s.Enters L.declared (.upTo depth) m → (W L).stmt (.upTo depth) s m

noncomputable def Inquiry.upTo (V : Watch) (W : Register → Watch) (alarm : Stop)
    (alarms : Register → Stop) (depth : Nat) : Inquiry where
  known := V.below alarm depth
  plain := .upTo depth
  asked L := (W L).below (alarms L) depth
  alarm

/-- What is guarded on two sides, where the first guard gives the alarm or both are passed. -/
theorem Inquiry.SimAt.guarded {J : Inquiry} {α : Type} {F F' : Below → Eval α}
    {P : Register → Prop} {Q : Register → α → Prop} (known : Machine → Prop)
    (asked : Register → Machine → Prop) {alarms : Register → Stop}
    (hknown : F' J.known = Scriptling.guarded known J.alarm (F I.known))
    (hplain : F' J.plain = F I.plain)
    (hasked : ∀ L, F' (J.asked L) = Scriptling.guarded (asked L) (alarms L) (F (I.asked L)))
    (halarm : J.alarm = I.alarm)
    (h : known m → I.SimAt t r f P F m Q)
    (hp : known m → ∀ r₁ L, r ≤ r₁ → r₁.Ends t f Q ((F I.plain).run m) → r₁ ≤ L → P L →
      asked L m) :
    J.SimAt t r f anyRegister F' m Q := by
  unfold SimAt
  rw [hknown, hplain]
  by_cases hm : known m
  · rw [run_guarded hm, halarm]
    obtain hstop | ⟨heq, r₁, hr, hends, hall⟩ := h hm
    · exact .inl hstop
    · refine .inr ⟨heq, r₁, hr, hends, fun L hL => ⟨trivial, ?_⟩⟩
      rw [hasked, run_guarded (hp hm r₁ L hr hends hL (hall L hL).1)]
      exact (hall L hL).2
  · exact .inl ⟨m, if_neg hm⟩

/-- Evaluation up to a depth is made of parts that are inquired into up to the depth before. -/
theorem Inquiry.Answers.engine (h : Inquiry.Answers t V W) (alarm : Stop)
    (alarms : Register → Stop) (depth : Nat) : (Inquiry.upTo V W alarm alarms depth).Engine t := by
  have hrounds : ∀ depth b, (Inquiry.upTo V W alarm alarms depth).Has b → b.rounds = depth := by
    rintro depth b (rfl | rfl | ⟨L, rfl⟩) <;> rfl
  induction depth with
  | zero =>
    refine ⟨fun b hb => hrounds 0 b hb, fun _ => ?_, fun _ => ?_⟩
    · refine (Inquiry.Sim.throw (e := .exhausted) trivial).congr fun b hb => ?_
      rcases hb with rfl | rfl | ⟨L, rfl⟩ <;> rfl
    · refine (Inquiry.Sim.throw (e := .exhausted) trivial).congr fun b hb => ?_
      rcases hb with rfl | rfl | ⟨L, rfl⟩ <;> rfl
  | succ depth ih =>
    refine ⟨fun b hb => hrounds (depth + 1) b hb, fun {_ _ e} he r m _ hm => ?_,
      fun {_ _ s} hs r m _ hm => ?_⟩
    · refine Inquiry.SimAt.guarded (I := .upTo V W alarm alarms depth)
        (F := fun b => b.evaluateStep e) (P := fun L => e.Makes L.origin L.caller (.upTo depth) m)
        (V.expr (.upTo depth) e) (fun L => (W L).expr (.upTo depth) e) rfl rfl
        (fun _ => rfl) rfl (fun hV => ih.simAt_evaluateStep he hm (h.ties hV)) ?_
      exact fun hV r₁ L hr hends hL hmakes => h.expr hm hr hends hL hV hmakes
    · refine Inquiry.SimAt.guarded (I := .upTo V W alarm alarms depth)
        (F := fun b => b.executeStep s)
        (P := fun L => s.Makes L.origin (.upTo depth) m ∧ s.Enters L.declared (.upTo depth) m)
        (V.stmt (.upTo depth) s) (fun L => (W L).stmt (.upTo depth) s) rfl rfl
        (fun _ => rfl) rfl (fun _ => ih.simAt_executeStep hs hm) ?_
      exact fun hV r₁ L hr hends hL ⟨hmakes, henters⟩ => h.stmt hm hr hends hL hV hmakes henters

namespace Inquiry.Engine

variable (h : I.Engine t)
include h

theorem sim_runStatement {s : Stmt} (hs : s.Within t.token) :
    I.Sim t r f (fun b => Session.runStatement b s) anything := by
  refine (h.execute hs).bind fun r₁ flow _ hflow => ?_
  cases flow with
  | «break» keyword => exact .fail hflow
  | next keyword => exact .fail hflow
  | _ => exact .pure fun _ _ => trivial

/-- A statement outside all others, and what an interactive session shows of it. -/
theorem sim_runTopLevel (interactive : Bool) {s : Stmt} (hs : s.Within t.token) :
    I.Sim t r f (fun b => Session.runTopLevel b interactive s) anything := by
  have hrun := h.sim_runStatement (r := r) (f := f) hs
  cases interactive with
  | false => exact hrun
  | true =>
    cases s with
    | expr e =>
      refine (h.evaluate (e := e) hs).bind fun r₁ v _ _ => ?_
      split
      · exact .pure fun _ _ => trivial
      · exact (sim_text v).bind fun _ _ _ _ => (sim_write _).weaken fun _ _ _ _ => trivial
    | _ => exact hrun

/-- All statements are run. If the alarm is never reported, it was never given. -/
theorem runAll {alarm : Failure} (halarm : I.alarm = .failed alarm) (interactive : Bool)
    {ss : List Stmt} (hss : Stmt.WithinAll t.token ss) (hm : r.At t .globals m)
    (hquiet : alarm ∉ (Session.runAll I.known interactive ss m).failures) :
    Session.runAll I.known interactive ss m = Session.runAll I.plain interactive ss m ∧
      (∀ failure ∈ (Session.runAll I.plain interactive ss m).failures,
        (Stop.failed failure).Placed t) ∧
      ∃ r₁, r ≤ r₁ ∧ r₁.At t .globals (Session.runAll I.plain interactive ss m).machine ∧
        ∀ L, r₁ ≤ L →
          Session.runAll (I.asked L) interactive ss m = Session.runAll I.plain interactive ss m := by
  induction ss generalizing r m with
  | nil => exact ⟨rfl, nofun, r, r.le_refl, hm, fun _ _ => rfl⟩
  | cons s ss ih =>
    simp only [Session.runAll_cons] at hquiet ⊢
    obtain ⟨m₁, hstop⟩ | ⟨heq, r₁, hr₁, hends, hasked⟩ :=
      (h.sim_runTopLevel interactive hss.1).on hm
    · rw [hstop, halarm] at hquiet
      exact absurd List.mem_cons_self hquiet
    · rw [heq] at hquiet ⊢
      replace hasked := fun L hL => (hasked L hL).2
      generalize (Session.runTopLevel I.plain interactive s).run m = res at hends hquiet hasked ⊢
      cases hends with
      | @ok _ m₁ hm₁ _ =>
        obtain ⟨hknown, hplaced, r₂, hr₂, hm₂, hall⟩ := ih hss.2 hm₁ hquiet
        refine ⟨hknown, hplaced, r₂, Register.le_trans hr₁ hr₂, hm₂, fun L hL => ?_⟩
        rw [hasked L (Register.le_trans hr₂ hL)]
        exact hall L hL
      | @error e m₁ hm₁ he =>
        cases e with
        | exhausted =>
          refine ⟨rfl, nofun, r₁, hr₁, hm₁, fun L hL => ?_⟩
          rw [hasked L hL]
        | failed failure =>
          have hglobals : ({ m₁ with current := .globals } : Machine) = m₁ := by
            rw [← hm₁.current]
          dsimp only at hquiet ⊢
          rw [hglobals] at hquiet ⊢
          obtain ⟨hknown, hplaced, r₂, hr₂, hm₂, hall⟩ :=
            ih hss.2 hm₁ fun hmem => hquiet (List.mem_cons_of_mem _ hmem)
          refine ⟨by rw [hknown], List.forall_mem_cons.2 ⟨he, hplaced⟩, r₂,
            Register.le_trans hr₁ hr₂, hm₂, fun L hL => ?_⟩
          rw [hasked L (Register.le_trans hr₂ hL)]
          dsimp only
          rw [hglobals, hall L hL]

/-- Statements that raise no alarm leave a machine that the register is kept of. -/
theorem interpret {alarm : Failure} (halarm : I.alarm = .failed alarm) (interactive : Bool)
    {ss : List Stmt} (hss : Stmt.WithinAll t.token ss) (hm : r.At t .globals m)
    (hquiet : alarm ∉ (Session.interpret I.known interactive ss m).failures) :
    Session.interpret I.known interactive ss m = Session.interpret I.plain interactive ss m ∧
      (∀ failure ∈ (Session.interpret I.plain interactive ss m).failures,
        (Stop.failed failure).Placed t) ∧
      ∃ r₁, r ≤ r₁ ∧ r₁.At t .globals (Session.interpret I.plain interactive ss m).machine ∧
        ∀ L, r₁ ≤ L → Session.interpret (I.asked L) interactive ss m =
          Session.interpret I.plain interactive ss m := by
  have hquiet' : alarm ∉ (Session.runAll I.known interactive ss m).failures := by
    refine fun hmem => hquiet ?_
    exact Session.mem_failures_interpret.2 (.inl hmem)
  obtain ⟨hknown, hplaced, r₁, hr, hm₁, hall⟩ := h.runAll halarm interactive hss hm hquiet'
  refine ⟨by rw [Session.interpret, hknown, Session.interpret], fun failure hfailure => ?_, r₁, hr,
    ?_, fun L hL => by rw [Session.interpret, hall L hL, Session.interpret]⟩
  · rcases Session.mem_failures_interpret.1 hfailure with hfailure | ⟨rfl, -⟩
    · exact hplaced failure hfailure
    · trivial
  · obtain ⟨output, hmachine⟩ := Session.machine_interpret I.plain interactive ss m
    rw [hmachine]
    exact ⟨hm₁.store, hm₁.current, hm₁.sound, hm₁.ground⟩

end Inquiry.Engine

/-- Of a program that is refused nothing is evaluated. -/
theorem Session.runBy_unrun {s : Session} {source : String} (h : s.accepted? source = none)
    (b b' : Below) : s.runBy b source = s.runBy b' source := by
  cases hparsed : (s.read source).parsed with
  | error reports => rw [runBy_unread b hparsed, runBy_unread b' hparsed]
  | ok ss =>
    by_cases hlex : (s.read source).lexReports = []
    · have hfaults := faults_of_refused h hparsed hlex
      rw [runBy_read b hparsed hlex, runBy_read b' hparsed hlex, perform_faulty b hfaults,
        perform_faulty b' hfaults]
    · rw [runBy_unscanned b hparsed hlex, runBy_unscanned b' hparsed hlex]

def Terms.Covers (t : Terms) (source : String) : Prop := ∀ k ∈ tokensOf (scan source), t.token k

def Outcome.Placed (t : Terms) (o : Outcome) : Prop :=
  ∀ failure, .failure failure ∈ o.reports → (Stop.failed failure).Placed t

/-- A program that is read has the tokens of its text. -/
theorem Session.read_within {s : Session} {source : String} {ss : List Stmt}
    (h : (s.read source).parsed = .ok ss) {T : Token → Prop}
    (hT : ∀ k ∈ tokensOf (scan source), T k) : Stmt.WithinAll T ss := by
  have hwithin := parse_within s.interactive s.nextId hT (tokensOf_scan_end source)
  unfold Session.read at h
  dsimp only at h
  cases hresult : (parse s.interactive s.nextId (tokensOf (scan source))).result with
  | ok ss' =>
    rw [hresult] at h hwithin
    cases h
    exact hwithin
  | error faults =>
    rw [hresult] at h
    cases h

namespace Inquiry.Engine

variable (h : I.Engine t)
include h

/-- A program that gives no alarm ends under the second watch as it does without one, and its
failures have their places among the session's tokens. -/
theorem runBy {alarm : Failure} (halarm : I.alarm = .failed alarm) {s : Session} {source : String}
    (ht : t.Covers source) (hs : r.At t .globals s.machine)
    (hquiet : .failure alarm ∉ (s.runBy I.known source).reports) :
    (s.runBy I.plain source).Placed t ∧
      ∃ r₁, r ≤ r₁ ∧ r₁.At t .globals (s.runBy I.plain source).session.machine ∧
        ∀ L, r₁ ≤ L → s.runBy (I.asked L) source = s.runBy I.plain source := by
  cases hss : s.accepted? source with
  | none =>
    obtain ⟨distances, hmachine⟩ := Session.machine_runBy_refused hss I.plain
    refine ⟨fun failure hfailure => ?_, r, r.le_refl, ?_, fun L _ => Session.runBy_unrun hss _ _⟩
    · cases (Session.reports_refused hss I.plain).2.2 _ hfailure
    · rw [hmachine]
      exact ⟨hs.store, hs.current, hs.sound, hs.ground⟩
  | some ss =>
    simp only [Session.runBy_accepted hss] at hquiet ⊢
    obtain ⟨-, hplaced, r₁, hr, hm₁, hall⟩ := h.interpret halarm s.interactive
      (Session.read_within (Session.accepted?_eq_some_iff.1 hss).1 ht) (m := s.entered source ss)
      ⟨hs.store, hs.current, hs.sound, hs.ground⟩ fun hmem => hquiet (List.mem_map_of_mem hmem)
    refine ⟨fun failure hfailure => ?_, r₁, hr, hm₁, fun L hL => by rw [hall L hL]⟩
    obtain ⟨failure', hmem, heq⟩ := List.mem_map.1 hfailure
    cases heq
    exact hplaced failure hmem

/-- A whole session, if the watch that is known to hold does so. -/
theorem play {alarm : Failure} (halarm : I.alarm = .failed alarm) {turns : List Turn} {s : Session}
    (ht : ∀ turn ∈ turns, t.Covers turn.source) (hs : r.At t .globals s.machine)
    (hknown : s.play I.known turns = s.play I.plain turns)
    (hquiet : ∀ o ∈ s.play I.plain turns, .failure alarm ∉ o.reports) :
    ∃ r₁, r ≤ r₁ ∧
      (∀ o ∈ s.play I.plain turns, o.Placed t ∧
        ∃ r', r ≤ r' ∧ r' ≤ r₁ ∧ r'.At t .globals o.session.machine) ∧
      ∀ L, r₁ ≤ L → s.play (I.asked L) turns = s.play I.plain turns := by
  induction turns generalizing r s with
  | nil => exact ⟨r, r.le_refl, nofun, fun _ _ => rfl⟩
  | cons turn turns ih =>
    rw [Session.play, Session.play] at hknown
    obtain ⟨hfirst, hrest⟩ := List.cons.inj hknown
    rw [hfirst] at hrest
    have hfirstQuiet := hquiet _ List.mem_cons_self
    rw [← hfirst] at hfirstQuiet
    obtain ⟨hplaced, r₁, hr₁, hm₁, hall₁⟩ := h.runBy halarm (ht turn List.mem_cons_self)
      (s := s.supply turn) ⟨hs.store, hs.current, hs.sound, hs.ground⟩ hfirstQuiet
    obtain ⟨r₂, hr₂, hout, hall₂⟩ := ih (fun turn hturn => ht turn (List.mem_cons_of_mem _ hturn))
      hm₁ hrest fun o ho => hquiet o (List.mem_cons_of_mem _ ho)
    refine ⟨r₂, Register.le_trans hr₁ hr₂, fun o ho => ?_, fun L hL => ?_⟩
    · rcases List.mem_cons.1 ho with rfl | ho
      · exact ⟨hplaced, r₁, hr₁, hr₂, hm₁⟩
      · obtain ⟨hplaced', r', hr', hle, hm'⟩ := hout o ho
        exact ⟨hplaced', r', Register.le_trans hr₁ hr', hle, hm'⟩
    · rw [Session.play, Session.play, hall₁ L (Register.le_trans hr₂ hL), hall₂ L hL]

end Inquiry.Engine

/-- A failure that is in none of the reports. -/
theorem Outcome.exists_unreported (outcomes : List Outcome) :
    ∃ alarm, ∀ o ∈ outcomes, .failure alarm ∉ o.reports := by
  let alarm : Nat → Report := fun n => .failure (.runtime ⟨.notCallable, ⟨n, 0, ""⟩⟩)
  have hinj : Function.Injective alarm := fun n k h => by
    simpa [alarm] using h
  obtain ⟨r, ⟨n, rfl⟩, hn⟩ := (Set.infinite_range_of_injective hinj).exists_notMem_finset
    (outcomes.flatMap Outcome.reports).toFinset
  refine ⟨.runtime ⟨.notCallable, ⟨n, 0, ""⟩⟩, fun o ho hmem => hn ?_⟩
  exact List.mem_toFinset.2 (List.mem_flatMap.2 ⟨o, ho, hmem⟩)

def Register.blank : Register := ⟨.start, fun _ => none, fun _ => none, fun _ _ => []⟩

/-- Before the first program the register has the built-in functions and nothing else. -/
theorem Register.at_blank (t : Terms) (input : List UInt8) (output : Output)
    (clock : Supply Int) (chances : Supply Nat) :
    Register.blank.At t .globals (.start input output clock chances) := by
  have hframe : ∀ (f : FrameId) (frame : Frame), Store.start.frames[f]? = some frame →
      f = .globals ∧ frame = ⟨Builtin.all.map fun b => (b.name, .builtin b), none⟩ := by
    intro f frame hf
    obtain ⟨hlt, rfl⟩ := Array.getElem?_eq_some_iff.1 hf
    obtain rfl : f = 0 := Nat.lt_one_iff.1 hlt
    exact ⟨rfl, rfl⟩
  have hground : Store.start.Ground .globals := by
    refine ⟨Nat.one_pos, ?_, ?_⟩ <;> decide +kernel
  refine ⟨rfl, rfl, ⟨fun f frame hf => ?_, fun id c hc => ?_, fun c record hrecord => ?_,
    fun o ob hob => ?_, hground, nofun, nofun⟩, hground⟩
  · obtain ⟨rfl, rfl⟩ := hframe f frame hf
    refine ⟨fun _ => rfl, fun h => absurd rfl h, fun name v hv => ?_, fun v hv => ?_, nofun⟩
    · obtain ⟨b, -, heq⟩ := List.mem_map.1 (Table.mem_of_get? hv)
      cases heq
      exact ⟨trivial, nofun⟩
    · exact absurd (hground.receiver.symm.trans hv) nofun
  · simp [Register.blank, Store.start] at hc
  · simp [Register.blank, Store.start] at hrecord
  · simp [Register.blank, Store.start] at hob

/-- What is asked about every step of a session is true if it is answered. -/
theorem Inquiry.Answers.exists_holds (h : Inquiry.Answers t V W) {interactive : Bool}
    {input : List UInt8} {output : Output} {clock : Supply Int} {chances : Supply Nat} {depth : Nat}
    {turns : List Turn} {s : Session}
    (hs : s = .start interactive (.start input output clock chances))
    (ht : ∀ turn ∈ turns, t.Covers turn.source) (hV : V.Holds depth s turns) :
    ∃ L, .blank ≤ L ∧ (W L).Holds depth s turns ∧
      ∀ o ∈ s.play (.upTo depth) turns, o.Placed t ∧
        ∃ r', r' ≤ L ∧ r'.At t .globals o.session.machine := by
  obtain ⟨alarm, hquiet⟩ := Outcome.exists_unreported (s.play (.upTo depth) turns)
  -- the alarm that would tell the difference may be another one for each register
  choose alarms halarms using fun L : Register => (W L).exists_alarm depth s turns
  subst hs
  obtain ⟨L, hblank, hout, hall⟩ := (h.engine (.failed alarm) alarms depth).play rfl ht
    (Register.at_blank t input output clock chances) (hV (.failed alarm)) hquiet
  refine ⟨L, hblank, halarms L (hall L L.le_refl), fun o ho => ?_⟩
  obtain ⟨hplaced, r', -, hr', hm'⟩ := hout o ho
  exact ⟨hplaced, r', hr', hm'⟩

end Scriptling
