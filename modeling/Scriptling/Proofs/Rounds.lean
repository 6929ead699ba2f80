import Scriptling.Eval
import Scriptling.Proofs.Steps

namespace Scriptling

mutual

/-- Is there a `next` for a loop around the statement? One inside a loop of the statement, or inside
a function, is not for a loop around it. -/
def Stmt.skips : Stmt → Bool
  | .next _ => true
  | .block body => Stmt.skipsAll body
  | .ifThen _ whenTrue => whenTrue.skips
  | .ifElse _ whenTrue whenFalse => whenTrue.skips || whenFalse.skips
  | _ => false

def Stmt.skipsAll : List Stmt → Bool
  | [] => false
  | s :: ss => s.skips || Stmt.skipsAll ss

end

/-- Control that leaves a round but not the loop. -/
def Flow.goesOn : Flow → Bool
  | .normal | .next _ => true
  | .return _ | .break _ => false

namespace Below

variable {b : Below} {condition : Expr} {increment : Option Expr} {body : Stmt} {m m₁ m₂ : Machine}
  {r : EStateM.Result Stop Machine Flow}

/-- A whole round: the condition holds, the body ends or is left by `next`, and the increment is
evaluated. -/
inductive Whole (b : Below) (condition : Expr) (increment : Option Expr) (body : Stmt) :
    Machine → Machine → Prop
  | round {m m₁ m₂ m₃ : Machine} {v u : Value} {flow : Flow} :
      (b.evaluate condition).run m = .ok v m₁ → v.truthy = true →
      (b.execute body).run m₁ = .ok flow m₂ → flow.goesOn = true →
      (b.evaluate? increment).run m₂ = .ok u m₃ → Whole b condition increment body m m₃

/-- The round in which a loop is left. Where the body breaks or returns, the increment is not
evaluated. -/
inductive Leaves (b : Below) (condition : Expr) (increment : Option Expr) (body : Stmt) :
    Machine → EStateM.Result Stop Machine Flow → Prop
  | done {m m₁ : Machine} {v : Value} :
      (b.evaluate condition).run m = .ok v m₁ → v.truthy = false →
      Leaves b condition increment body m (.ok .normal m₁)
  | broken {m m₁ m₂ : Machine} {v : Value} {keyword : Token} :
      (b.evaluate condition).run m = .ok v m₁ → v.truthy = true →
      (b.execute body).run m₁ = .ok (.break keyword) m₂ →
      Leaves b condition increment body m (.ok .normal m₂)
  | returned {m m₁ m₂ : Machine} {v u : Value} :
      (b.evaluate condition).run m = .ok v m₁ → v.truthy = true →
      (b.execute body).run m₁ = .ok (.return u) m₂ →
      Leaves b condition increment body m (.ok (.return u) m₂)
  | inCondition {m m₁ : Machine} {e : Stop} :
      (b.evaluate condition).run m = .error e m₁ →
      Leaves b condition increment body m (.error e m₁)
  | inBody {m m₁ m₂ : Machine} {v : Value} {e : Stop} :
      (b.evaluate condition).run m = .ok v m₁ → v.truthy = true →
      (b.execute body).run m₁ = .error e m₂ →
      Leaves b condition increment body m (.error e m₂)
  | inIncrement {m m₁ m₂ m₃ : Machine} {v : Value} {flow : Flow} {e : Stop} :
      (b.evaluate condition).run m = .ok v m₁ → v.truthy = true →
      (b.execute body).run m₁ = .ok flow m₂ → flow.goesOn = true →
      (b.evaluate? increment).run m₂ = .error e m₃ →
      Leaves b condition increment body m (.error e m₃)

/-- Whole rounds of a loop, in each of which its increment is evaluated once. -/
inductive Rounds (b : Below) (condition : Expr) (increment : Option Expr) (body : Stmt) :
    Nat → Machine → Machine → Prop
  | none {m : Machine} : Rounds b condition increment body 0 m m
  | more {n : Nat} {m m₁ m₂ : Machine} : Whole b condition increment body m m₁ →
      Rounds b condition increment body n m₁ m₂ → Rounds b condition increment body (n + 1) m m₂

/-- A round is whole or the last one. -/
theorem whole_or_leaves (b : Below) (condition : Expr) (increment : Option Expr) (body : Stmt)
    (m : Machine) : (∃ m₁, b.Whole condition increment body m m₁) ∨
      ∃ r, b.Leaves condition increment body m r := by
  cases hcondition : (b.evaluate condition).run m with
  | error e m₁ => exact .inr ⟨_, .inCondition hcondition⟩
  | ok v m₁ =>
    cases htruthy : v.truthy with
    | false => exact .inr ⟨_, .done hcondition htruthy⟩
    | true =>
      cases hbody : (b.execute body).run m₁ with
      | error e m₂ => exact .inr ⟨_, .inBody hcondition htruthy hbody⟩
      | ok flow m₂ =>
        cases hflow : flow.goesOn with
        | true =>
          cases hincrement : (b.evaluate? increment).run m₂ with
          | error e m₃ => exact .inr ⟨_, .inIncrement hcondition htruthy hbody hflow hincrement⟩
          | ok u m₃ => exact .inl ⟨m₃, .round hcondition htruthy hbody hflow hincrement⟩
        | false =>
          cases flow with
          | «break» keyword => exact .inr ⟨_, .broken hcondition htruthy hbody⟩
          | «return» u => exact .inr ⟨_, .returned hcondition htruthy hbody⟩
          | _ => cases hflow

/-- What a round does when the condition holds. Control that goes on to the next round has ended
normally. -/
def round (b : Below) (increment : Option Expr) (body : Stmt) : Eval Flow := do
  let flow ← b.execute body
  if flow.goesOn then
    discard (b.evaluate? increment)
    pure .normal
  else pure flow

def proceed (b : Below) (condition : Expr) (increment : Option Expr) (body : Stmt)
    (rounds : Nat) : Flow → Eval Flow
  | .break _ => pure .normal
  | .return v => pure (.return v)
  | .normal | .next _ => b.loop condition increment body rounds

/-- A loop that has a round left checks its condition first. -/
theorem loop_succ (b : Below) (condition : Expr) (increment : Option Expr) (body : Stmt)
    (rounds : Nat) : b.loop condition increment body (rounds + 1) =
      (do
        if (← b.evaluate condition).truthy then
          b.round increment body >>= b.proceed condition increment body rounds
        else pure .normal) := by
  rw [loop]
  congr 1
  funext v
  split
  · rw [round, bind_assoc]
    congr 1
    funext flow
    cases flow <;> simp only [Flow.goesOn, if_true, Bool.false_eq_true, if_false, bind_assoc,
      pure_bind, proceed]
  · rfl

/-- Where the condition holds, the round is run. -/
theorem run_loop (b : Below) (condition : Expr) (increment : Option Expr) (body : Stmt)
    (rounds : Nat) {v : Value} (h : (b.evaluate condition).run m = .ok v m₁)
    (ht : v.truthy = true) : (b.loop condition increment body (rounds + 1)).run m =
      (b.round increment body >>= b.proceed condition increment body rounds).run m₁ := by
  rw [loop_succ, Eval.run_bind_ok h, if_pos ht]

/-- The increment is evaluated unless the body breaks or returns. -/
theorem run_round (b : Below) (increment : Option Expr) (body : Stmt) {flow : Flow}
    (h : (b.execute body).run m = .ok flow m₁) : (b.round increment body).run m =
      if flow.goesOn then
        match (b.evaluate? increment).run m₁ with
        | .ok _ m₂ => .ok .normal m₂
        | .error e m₂ => .error e m₂
      else .ok flow m₁ := by
  rw [round, Eval.run_bind_ok h]
  split
  · cases hincrement : (b.evaluate? increment).run m₁ with
    | ok u m₂ => exact Eval.run_bind_ok (Eval.run_bind_ok hincrement)
    | error e m₂ => exact Eval.run_bind_error (Eval.run_bind_error hincrement)
  · rfl

/-- After a whole round the loop begins anew. -/
theorem Whole.run_loop (h : b.Whole condition increment body m m₁) (rounds : Nat) :
    (b.loop condition increment body (rounds + 1)).run m =
      (b.loop condition increment body rounds).run m₁ := by
  cases h with
  | round hcondition htruthy hbody hflow hincrement =>
    have hround := b.run_round increment body hbody
    rw [if_pos hflow, hincrement] at hround
    rw [Below.run_loop b condition increment body rounds hcondition htruthy,
      Eval.run_bind_ok hround]
    rfl

theorem Leaves.run_loop (h : b.Leaves condition increment body m r) (rounds : Nat) :
    (b.loop condition increment body (rounds + 1)).run m = r := by
  cases h with
  | done hcondition htruthy =>
    rw [loop_succ, Eval.run_bind_ok hcondition, htruthy]
    rfl
  | broken hcondition htruthy hbody =>
    rw [Below.run_loop b condition increment body rounds hcondition htruthy,
      Eval.run_bind_ok (b.run_round increment body hbody)]
    rfl
  | returned hcondition htruthy hbody =>
    rw [Below.run_loop b condition increment body rounds hcondition htruthy,
      Eval.run_bind_ok (b.run_round increment body hbody)]
    rfl
  | inCondition hcondition => exact Eval.run_bind_error hcondition
  | inBody hcondition htruthy hbody =>
    rw [Below.run_loop b condition increment body rounds hcondition htruthy]
    exact Eval.run_bind_error (Eval.run_bind_error hbody)
  | inIncrement hcondition htruthy hbody hflow hincrement =>
    have hround := b.run_round increment body hbody
    rw [if_pos hflow, hincrement] at hround
    rw [Below.run_loop b condition increment body rounds hcondition htruthy,
      Eval.run_bind_error hround]

/-- A loop ends in the first round that is not whole, or when it has had all the rounds it may
take. -/
theorem run_loop_eq_iff (b : Below) (condition : Expr) (increment : Option Expr) (body : Stmt)
    (rounds : Nat) (m : Machine) (r : EStateM.Result Stop Machine Flow) :
    (b.loop condition increment body rounds).run m = r ↔
      ∃ n m₁, b.Rounds condition increment body n m m₁ ∧
        (n < rounds ∧ b.Leaves condition increment body m₁ r ∨
          n = rounds ∧ r = .error .exhausted m₁) := by
  constructor
  · intro h
    induction rounds generalizing m with
    | zero => exact ⟨0, m, .none, .inr ⟨rfl, h.symm⟩⟩
    | succ rounds ih =>
      rcases whole_or_leaves b condition increment body m with ⟨m₁, hwhole⟩ | ⟨r', hleaves⟩
      · rw [hwhole.run_loop] at h
        obtain ⟨n, m₂, hrounds, hend⟩ := ih m₁ h
        refine ⟨n + 1, m₂, .more hwhole hrounds, ?_⟩
        rcases hend with ⟨hn, hleaves⟩ | ⟨hn, hr⟩
        · exact .inl ⟨Nat.succ_lt_succ hn, hleaves⟩
        · exact .inr ⟨congrArg Nat.succ hn, hr⟩
      · rw [hleaves.run_loop] at h
        exact ⟨0, m, .none, .inl ⟨Nat.succ_pos rounds, h ▸ hleaves⟩⟩
  · rintro ⟨n, m₁, hrounds, hend⟩
    induction hrounds generalizing rounds with
    | none =>
      rcases hend with ⟨hn, hleaves⟩ | ⟨rfl, rfl⟩
      · obtain ⟨k, rfl⟩ := Nat.exists_eq_succ_of_ne_zero (Nat.ne_of_gt hn)
        exact hleaves.run_loop k
      · rfl
    | more hwhole _ ih =>
      cases rounds with
      | zero => rcases hend with ⟨hn, -⟩ | ⟨hn, -⟩ <;> cases hn
      | succ k =>
        rw [hwhole.run_loop]
        refine ih k ?_
        rcases hend with ⟨hn, hleaves⟩ | ⟨hn, hr⟩
        · exact .inl ⟨Nat.lt_of_succ_lt_succ hn, hleaves⟩
        · exact .inr ⟨Nat.succ.inj hn, hr⟩

end Below

end Scriptling
