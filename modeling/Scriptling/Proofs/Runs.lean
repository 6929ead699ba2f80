import Scriptling.Proofs.Current
import Scriptling.Proofs.LockstepStatements

namespace Scriptling

open Machine

variable {S : Setting} {w : World} {f : FrameId} {Γ : Context} {marks : List Bool}
  {pick : Opener → Bool} {s s' : Store} {m : Machine} {b : Below} {b' : World → Below}

/-- Evaluation up to a depth goes side by side with itself. -/
theorem engine_upTo (S : Setting) (depth : Nat) :
    S.Engine (.upTo depth) fun _ => .upTo depth := by
  induction depth with
  | zero => exact ⟨fun _ => rfl, fun _ _ => .throw _, fun _ _ => .throw _⟩
  | succ depth ih =>
    refine ⟨fun _ => rfl, fun hs hc w₁ m s' hw hm => ?_, fun hs hc w₁ m s' hw hm => ?_⟩
    · exact (ih.sim_evaluateStep hs (hc.mono hw) hm).pin fun _ _ _ => trivial
    · exact (ih.sim_executeStep hs (hc.mono hw) hm).pin fun _ _ _ => trivial

theorem Stmt.after_outside (s : Stmt) : s.after [] = [] := by
  cases s <;> rfl

namespace Setting.Engine

variable (h : S.Engine b b')
include h

/-- An echo shows values that do not depend on names. -/
theorem sim_echo {e : Expr} (hs : S.Sees [] e.uses) :
    S.Sim w .globals (Session.echo b e) (fun L => Session.echo (b' L) (e.turn (S.use [])))
      anyResult := by
  refine (h.evaluate hs .globals).bind fun w₁ v hw _ => ?_
  split
  · exact .pure fun _ _ => trivial
  · exact (sim_text v).bind fun w₂ text _ _ => sim_write _

/-- A statement outside all others goes side by side with its renamed twin. -/
theorem sim_runStatement {s : Stmt} (hfits : S.Fits [] pick [] s) :
    S.Sim w .globals (Session.runStatement b s)
      (fun L => Session.runStatement (b' L) (s.rename S.toRenaming pick [])) anyResult := by
  refine (h.execute hfits .globals).bind fun w₁ flow hw _ => ?_
  cases flow with
  | «break» keyword => exact .fail keyword .breakOutsideLoop
  | next keyword => exact .fail keyword .nextOutsideLoop
  | _ => exact .pure fun _ _ => trivial

/-- With its echo, too. -/
theorem sim_runTopLevel (interactive : Bool) {s : Stmt} (hfits : S.Fits [] pick [] s) :
    S.Sim w .globals (Session.runTopLevel b interactive s)
      (fun L => Session.runTopLevel (b' L) interactive (s.rename S.toRenaming pick []))
      anyResult := by
  have hrun := h.sim_runStatement (w := w) hfits
  cases interactive with
  | false => exact hrun
  | true =>
    cases s with
    | expr e => exact h.sim_echo fun u hu => hfits.good _ (List.mem_map.2 ⟨u, hu, rfl⟩)
    | _ => exact hrun

/-- All statements are run, and both sides fail at the same ones. -/
theorem runAll_beside (interactive : Bool) {ss : List Stmt} (hfits : S.FitsAll [] pick [] ss)
    (hm : S.Beside w .globals m s') :
    ∃ w₁ t', w ≤ w₁ ∧ S.Beside w₁ .globals (Session.runAll b interactive ss m).machine t' ∧
      ∀ L, w₁ ≤ L →
        Session.runAll (b' L) interactive (Stmt.renameAll S.toRenaming pick [] ss)
            { m with store := s' } =
          { Session.runAll b interactive ss m with
            machine := { (Session.runAll b interactive ss m).machine with store := t' } } := by
  induction ss generalizing w m s' with
  | nil => exact ⟨w, s', w.le_refl, hm, fun _ _ => rfl⟩
  | cons s ss ih =>
    have htail := hfits.tail
    rw [Stmt.after_outside] at htail
    obtain ⟨w₁, hw₁, out, hends, hout⟩ := (h.sim_runTopLevel interactive hfits.head).on hm
    replace hout : ∀ L, w₁ ≤ L → (Session.runTopLevel (b' L) interactive
        (s.rename S.toRenaming pick [])).run { m with store := s' } = out :=
      fun L hL => (hout L hL).2
    rw [Stmt.renameAll, Session.runAll_cons]
    cases hr : (Session.runTopLevel b interactive s).run m with
    | ok u m₁ =>
      rw [hr] at hends
      cases hends with
      | ok hm₁ _ =>
        obtain ⟨w₂, t', hw₂, hm₂, hran⟩ := ih htail hm₁
        refine ⟨w₂, t', World.le_trans hw₁ hw₂, hm₂, fun L hL => ?_⟩
        rw [Session.runAll_cons, hout L (World.le_trans hw₂ hL)]
        exact hran L hL
    | error e m₁ =>
      rw [hr] at hends
      cases hends with
      | @error _ _ t₁ hm₁ =>
        cases e with
        | exhausted =>
          refine ⟨w₁, t₁, hw₁, hm₁, fun L hL => ?_⟩
          rw [Session.runAll_cons, hout L hL]
        | failed failure =>
          have hglobals : ({ m₁ with current := .globals } : Machine) = m₁ := by
            obtain ⟨_, current, _, _, _, _, _⟩ := m₁
            obtain rfl : current = .globals := hm₁.current
            rfl
          obtain ⟨w₂, t', hw₂, hm₂, hran⟩ := ih htail hm₁
          dsimp only
          rw [hglobals]
          refine ⟨w₂, t', World.le_trans hw₁ hw₂, hm₂, fun L hL => ?_⟩
          rw [Session.runAll_cons, hout L (World.le_trans hw₂ hL)]
          have hglobals' : ({ m₁ with store := t₁, current := .globals } : Machine) =
              { m₁ with store := t₁ } := by
            rw [← hm₁.current]
          dsimp only
          rw [hglobals', hran L hL]

/-- Whole programs end side by side. -/
theorem interpret_beside (interactive : Bool) {ss : List Stmt} (hfits : S.FitsAll [] pick [] ss)
    (hm : S.Beside w .globals m s') :
    ∃ w₁ t', w ≤ w₁ ∧ S.Beside w₁ .globals (Session.interpret b interactive ss m).machine t' ∧
      ∀ L, w₁ ≤ L →
        Session.interpret (b' L) interactive (Stmt.renameAll S.toRenaming pick [] ss)
            { m with store := s' } =
          { Session.interpret b interactive ss m with
            machine := { (Session.interpret b interactive ss m).machine with store := t' } } := by
  obtain ⟨w₁, t', hw, hm₁, hran⟩ := h.runAll_beside interactive hfits hm
  refine ⟨w₁, t', hw, ?_, fun L hL => ?_⟩
  · obtain ⟨output, hmachine⟩ := Session.machine_interpret b interactive ss m
    rw [hmachine]
    exact ⟨hm₁.twins, hm₁.current, hm₁.noted⟩
  · unfold Session.interpret
    rw [hran L hL]
    dsimp only
    split <;> rfl

end Setting.Engine

end Scriptling
