import Scriptling.Proofs.Realms
import Scriptling.Proofs.Statuses

namespace Scriptling

open Machine

namespace Realm

variable (depth : Nat) {R : Realm} {g : FrameId} {m : Machine}

/-- The signals that leave a statement outside all others are reported. -/
theorem composed_runTopLevel {b b' : Below} (interactive : Bool) {s : Stmt} (hg : R.frame g)
    (hd : ∀ d ∈ s.decls, R.decl d) (hx : ∀ x ∈ s.signals, R.Strays x) :
    Eval.Composed R b b' g (Session.runTopLevel b interactive s)
      (Session.runTopLevel b' interactive s) fun _ => True := by
  have hrun : Eval.Composed R b b' g (Session.runStatement b s) (Session.runStatement b' s)
      fun _ => True := by
    refine .bind (.execute hg hd) fun flow hflow => ?_
    cases flow with
    | «break» k => exact .single (.stray (x := .break k) (hx _ hflow))
    | next k => exact .single (.stray (x := .next k) (hx _ hflow))
    | _ => exact .pure trivial
  cases interactive with
  | false => exact hrun
  | true =>
    cases s with
    | expr e =>
      refine .bind (.evaluate (hosts_of_frame hg _)) fun v _ => ?_
      split
      · exact .pure trivial
      · exact .bind (composed_text v) fun _ _ => .single (.write _)
    | _ => exact hrun

/-- Programs whose functions may be met, and whose signals stray in one of them if they do. -/
def Hears (R : Realm) (ss : List Stmt) : Prop :=
  (∀ d ∈ Stmt.declsAll ss, R.decl d) ∧ ∀ x ∈ Stmt.signalsAll ss, R.Strays x

/-- Statements one after the other keep to the realm, and so does each that fails. -/
theorem Admits.runAll (hm : R.Admits m.store) (hg : R.frame m.current) {ss : List Stmt}
    (hss : R.Hears ss) (interactive : Bool) :
    let ran := Session.runAll (.upTo depth) interactive ss m
    R.Admits ran.machine.store ∧ ∀ failure ∈ ran.failures, R.Stops (.failed failure) := by
  induction ss generalizing m with
  | nil => exact ⟨hm, by simp [Session.runAll]⟩
  | cons s ss ih =>
    obtain ⟨hd, hx⟩ := hss
    rw [Stmt.declsAll, List.forall_mem_append] at hd
    rw [Stmt.signalsAll, List.forall_mem_append] at hx
    have hends := (governs_upTo R depth).composed
      (composed_runTopLevel interactive hg hd.1 hx.1) m rfl hm
    rw [Session.runAll_cons]
    cases hr : (Session.runTopLevel (.upTo depth) interactive s).run m with
    | ok u m₁ =>
      rw [hr] at hends
      exact ih hends.2.1 (hends.1 ▸ hg) ⟨hd.2, hx.2⟩
    | error stop m₁ =>
      rw [hr] at hends
      cases stop with
      | exhausted => exact ⟨hends.2.1, by simp⟩
      | failed failure =>
        obtain ⟨hstore, hrest⟩ :=
          ih (m := { m₁ with current := .globals }) hends.2.1 hends.2.1.globals ⟨hd.2, hx.2⟩
        exact ⟨hstore, List.forall_mem_cons.2 ⟨hends.2.2, hrest⟩⟩

/-- Statements whose functions may be met leave the store within the realm. -/
theorem Admits.interpret (hm : R.Admits m.store) (hg : R.frame m.current) {ss : List Stmt}
    (hss : R.Hears ss) (interactive : Bool) :
    let ran := Session.interpret (.upTo depth) interactive ss m
    R.Admits ran.machine.store ∧ ∀ failure ∈ ran.failures, R.Stops (.failed failure) := by
  obtain ⟨hstore, hfailures⟩ := hm.runAll depth hg hss interactive
  obtain ⟨output, hmachine⟩ := Session.machine_interpret (.upTo depth) interactive ss m
  refine ⟨by rwa [hmachine], fun failure hf => ?_⟩
  rcases Session.mem_failures_interpret.1 hf with hf | ⟨rfl, -⟩
  · exact hfailures failure hf
  · exact .stream _

/-- And so does a program, be it refused or not. -/
theorem Admits.runBy {s : Session} {source : String} (hs : R.Admits s.machine.store)
    (hg : s.machine.current = .globals)
    (hss : ∀ ss, s.accepted? source = some ss → R.Hears ss) :
    let o := s.runBy (.upTo depth) source
    R.Admits o.session.machine.store ∧
      ∀ failure, .failure failure ∈ o.reports → R.Stops (.failed failure) := by
  cases haccepted : s.accepted? source with
  | none =>
    obtain ⟨-, -, hcompile⟩ := Session.reports_refused haccepted (.upTo depth)
    obtain ⟨distances, hmachine⟩ := Session.machine_runBy_refused haccepted (.upTo depth)
    refine ⟨hmachine ▸ hs, fun failure hf => ?_⟩
    cases hcompile _ hf
  | some ss =>
    have hm : R.Admits (s.entered source ss).store := hs
    have hframe : R.frame (s.entered source ss).current := by
      rw [show (s.entered source ss).current = .globals from hg]
      exact hm.globals
    obtain ⟨hstore, hfailures⟩ := hm.interpret depth hframe (hss ss haccepted) s.interactive
    rw [Session.runBy_accepted haccepted]
    refine ⟨hstore, fun failure hf => ?_⟩
    obtain ⟨failure', hmem, heq⟩ := List.mem_map.1 hf
    cases heq
    exact hfailures failure hmem

/-- In a session of such programs nothing fails otherwise than the realm allows. -/
theorem Admits.play {s : Session} (hs : R.Admits s.machine.store)
    (hg : s.machine.current = .globals) {turns : List Turn}
    (hprograms : ∀ ss ∈ s.programs (.upTo depth) turns, R.Hears ss) :
    ∀ o ∈ s.play (.upTo depth) turns, ∀ failure, .failure failure ∈ o.reports →
      R.Stops (.failed failure) := by
  induction turns generalizing s with
  | nil => nofun
  | cons t ts ih =>
    have hback := Session.current_runBy (Below.steps_upTo depth) (s := s.supply t) hg t.source
    rw [Session.programs, List.forall_mem_append] at hprograms
    have hsupplied : R.Admits (s.supply t).machine.store := hs
    have hheard : ∀ ss, (s.supply t).accepted? t.source = some ss → R.Hears ss :=
      fun ss hss => hprograms.1 ss (by simp [hss])
    obtain ⟨hstore, hreports⟩ := hsupplied.runBy depth hg hheard
    exact List.forall_mem_cons.2 ⟨hreports, ih hstore hback hprograms.2⟩

end Realm

theorem Realm.strays_any {s : Stmt} : ∀ x ∈ s.signals, Realm.any.Strays x :=
  fun x hx => ⟨⟨x.keyword, [], [s]⟩, trivial, by simpa [Stmt.signalsAll] using hx⟩

end Scriptling
