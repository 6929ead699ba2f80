import Scriptling.Proofs.InquirySessions

namespace Scriptling

open Machine

variable {t : Terms} {r r₁ : Register} {f : FrameId} {m m₁ : Machine} {s : Session}

/-- A well-formed store, on which walks end, and a current frame that is there. -/
structure Machine.Formed (m : Machine) : Prop where
  store : m.store.Formed
  walkable : m.store.Walkable
  current : m.current < m.store.frames.size

/-- Evaluation from a well-formed machine to another one, with all that was there before. What it
results in is there. -/
structure Eval.Formed {α : Type} (act : Eval α) (Q : Store → α → Prop) (m : Machine) : Prop where
  before : m.Formed
  after : (Machine.after act m).Formed
  grows : m.store.Grows (Machine.after act m).store
  result : ∀ a m₁, act.run m = .ok a m₁ → Q m₁.store a

def Flow.Allocated (s : Store) : Flow → Prop
  | .return v => v.Allocated s
  | _ => True

/-- When a call begins, what is called and all the arguments are there. -/
def Expr.Pending (below : Below) (m : Machine) : Expr → Prop
  | .call callee _ arguments => ∀ (v : Value) (vs : List Value) (m₁ m₂ : Machine),
    (below.evaluate callee).run m = .ok v m₁ → (below.evaluateAll arguments).run m₁ = .ok vs m₂ →
    ∀ u ∈ v :: vs, u.Allocated m₂.store
  | _ => True

def Watch.formed : Watch where
  expr below e m := (below.evaluateStep e).Formed (fun s v => v.Allocated s) m ∧ e.Pending below m
  stmt below s m := (below.executeStep s).Formed (fun s flow => flow.Allocated s) m

theorem Register.At.formed (h : r.At t f m) : m.Formed := by
  have hstore : m.store.Formed := h.store ▸ h.sound.formed
  exact ⟨hstore, hstore.walkable, by rw [h.store, h.current]; exact h.ground.size⟩

/-- However evaluation ends, a later register is kept of the machine. -/
theorem Register.Ends.after {α : Type} {act : Eval α} {Q : Register → α → Prop}
    (h : r₁.Ends t f Q (act.run m)) : r₁.At t f (Machine.after act m) := by
  cases hrun : act.run m with
  | ok a m₁ =>
    rw [hrun] at h
    rw [after_ok hrun]
    cases h with
    | ok hm₁ _ => exact hm₁
  | error e m₁ =>
    rw [hrun] at h
    rw [after_error hrun]
    cases h with
    | error hm₁ _ => exact hm₁

/-- A result is what was claimed of it. -/
theorem Register.Ends.result {α : Type} {act : Eval α} {Q : Register → α → Prop} {a : α}
    (h : r₁.Ends t f Q (act.run m)) (hrun : act.run m = .ok a m₁) : m₁.store = r₁.store ∧ Q r₁ a := by
  rw [hrun] at h
  cases h with
  | ok hm₁ ha => exact ⟨hm₁.store, ha⟩

/-- An inquiry that ends shows a well-formed store. -/
theorem Register.Ends.formed {α : Type} {act : Eval α} {Q : Register → α → Prop}
    {Q' : Store → α → Prop} (hm : r.At t f m) (hends : r₁.Ends t f Q (act.run m))
    (hact : Eval.Runs act) (hq : ∀ a, Q r₁ a → Q' r₁.store a) : act.Formed Q' m := by
  refine ⟨hm.formed, hends.after.formed, (hact m).grows, fun a m₁ hrun => ?_⟩
  obtain ⟨hstore, ha⟩ := hends.result hrun
  rw [hstore]
  exact hq a ha

def Watch.idle : Watch := ⟨fun _ _ _ => True, fun _ _ _ => True⟩

theorem Watch.below_idle (alarm : Stop) (depth : Nat) :
    Watch.idle.below alarm depth = .upTo depth := by
  induction depth with
  | zero => rfl
  | succ depth ih =>
    have hguard : ∀ {α : Type} (act : Eval α), guarded (fun _ => True) alarm act = act :=
      fun act => funext fun m => if_pos trivial
    have hevaluate : Watch.idle.evaluate alarm (depth + 1) = Scriptling.evaluate (depth + 1) :=
      funext fun e => (hguard _).trans (congrArg (Below.evaluateStep · e) ih)
    have hexecute : Watch.idle.execute alarm (depth + 1) = Scriptling.execute (depth + 1) :=
      funext fun s => (hguard _).trans (congrArg (Below.executeStep · s) ih)
    rw [Watch.below, Below.upTo, hevaluate, hexecute]

theorem Watch.idle_holds (depth : Nat) (s : Session) (turns : List Turn) :
    Watch.idle.Holds depth s turns := fun alarm => by rw [Watch.below_idle]

/-- All that programs can have for tokens; frames may be opened for any function. -/
def Terms.any : Terms := ⟨Token.Spelled, fun _ h => h, fun _ _ => True⟩

theorem Terms.any_covers (source : String) : Terms.any.Covers source := tokensOf_scan_spelled source

theorem Expr.ties_any (e : Expr) (below : Below) (m : Machine) :
    e.Ties (fun _ _ => True) below m := by
  cases e with
  | call callee paren arguments =>
    intro v vs m₁ m₂ _ _
    cases v with
    | closure id => exact fun _ _ _ _ => trivial
    | classRef c => exact fun _ _ _ _ _ _ => trivial
    | _ => trivial
  | _ => trivial

theorem Watch.formed_answers (t : Terms) (htie : ∀ f d, t.tie f d) :
    Inquiry.Answers t Watch.idle fun _ => Watch.formed := by
  have hany : t.tie = fun _ _ => True := funext fun f => funext fun d => eq_true (htie f d)
  refine ⟨fun _ => hany ▸ Expr.ties_any _ _ _, fun {depth e m r r₁ L f} hm hr hends hL _ hmakes => ?_,
    fun {depth s m r r₁ L f} hm hr hends hL _ _ _ => ?_⟩
  · refine ⟨hends.formed hm ((Below.steps_upTo (depth + 1)).evaluate e) fun _ hv => hv.allocated, ?_⟩
    cases e with
    | call callee paren arguments =>
      exact fun v vs m₁ m₂ hcallee harguments u hu =>
        ((hmakes v vs m₁ m₂ hcallee harguments).1 u hu).allocated
    | _ => trivial
  · refine hends.formed hm ((Below.steps_upTo (depth + 1)).execute s) fun flow hflow => ?_
    cases flow with
    | «return» v => exact Value.Rightful.allocated hflow
    | _ => trivial

namespace Session

/-- Statements take nothing out of the store. -/
theorem grows_runAll {b : Below} (h : b.Steps) (interactive : Bool) (ss : List Stmt) (m : Machine) :
    m.store.Grows (runAll b interactive ss m).machine.store :=
  (reaches_runAll h interactive ss m).grows

theorem grows_runBy {b : Below} (h : b.Steps) (s : Session) (source : String) :
    s.machine.store.Grows (s.runBy b source).session.machine.store := by
  cases hss : s.accepted? source with
  | none =>
    obtain ⟨distances, hm⟩ := machine_runBy_refused hss b
    rw [hm]
    exact .refl _
  | some ss =>
    rw [runBy_accepted hss]
    obtain ⟨output, hmachine⟩ := machine_interpret b s.interactive ss (s.entered source ss)
    change s.machine.store.Grows (interpret b s.interactive ss (s.entered source ss)).machine.store
    rw [hmachine]
    exact grows_runAll h s.interactive ss (s.entered source ss)

/-- From each program of a session to every later one the store grows. -/
theorem grows_play {b : Below} (h : b.Steps) (s : Session) (turns : List Turn) :
    (∀ o ∈ s.play b turns, s.machine.store.Grows o.session.machine.store) ∧
      (s.play b turns).Pairwise fun o o' =>
        o.session.machine.store.Grows o'.session.machine.store := by
  induction turns generalizing s with
  | nil => exact ⟨nofun, .nil⟩
  | cons t ts ih =>
    have hfirst := grows_runBy h (s.supply t) t.source
    obtain ⟨hlater, hpairs⟩ := ih ((s.supply t).runBy b t.source).session
    exact ⟨List.forall_mem_cons.2 ⟨hfirst, fun o ho => hfirst.trans (hlater o ho)⟩,
      List.pairwise_cons.2 ⟨hlater, hpairs⟩⟩

end Session

/-- Stores are well-formed throughout every session. At every step whatever is mentioned is there,
the frames' and the classes' links lead to what is older, walks along them end, and nothing that was
there before is gone; so it is between programs, whether or not they were accepted or done. -/
theorem store_formed (interactive : Bool) (input : List UInt8) (output : Output)
    (clock : Supply Int) (chances : Supply Nat) (depth : Nat) (turns : List Turn) :
    let s := Session.start interactive (.start input output clock chances)
    let outcomes := s.play (.upTo depth) turns
    Watch.formed.Holds depth s turns ∧ s.machine.Formed ∧
      (∀ o ∈ outcomes, o.session.machine.Formed ∧
        s.machine.store.Grows o.session.machine.store) ∧
      outcomes.Pairwise fun o o' => o.session.machine.store.Grows o'.session.machine.store := by
  intro s outcomes
  obtain ⟨L, -, hholds, hout⟩ := (Watch.formed_answers .any fun _ _ => trivial).exists_holds
    (s := s) rfl (fun turn _ => Terms.any_covers turn.source) (Watch.idle_holds depth s turns)
  obtain ⟨hgrows, hpairs⟩ := Session.grows_play (Below.steps_upTo depth) s turns
  refine ⟨hholds, (Register.at_blank .any input output clock chances).formed, fun o ho => ?_, hpairs⟩
  obtain ⟨-, r, -, hm⟩ := hout o ho
  exact ⟨hm.formed, hgrows o ho⟩

end Scriptling
