import Scriptling.Proofs.Following

namespace Scriptling

open Machine

variable {α β : Type}

/-- The second evaluation ends like the first one wherever that does not run out of depth. -/
def Eval.Refines (a a' : Eval α) : Prop := ∀ m : Machine, Eval.Done (a.run m) → a'.run m = a.run m

open Eval

theorem Eval.Done.ok (v : α) (m : Machine) : Done (.ok v m) := nofun

theorem Eval.Done.of_bind {a : Eval α} {k : α → Eval β} {m : Machine}
    (h : Done ((a >>= k).run m)) : Done (a.run m) := fun m₁ he =>
  h m₁ (Eval.run_bind_error he)

namespace Eval.Refines

theorem refl (a : Eval α) : Refines a a := fun _ _ => rfl

theorem exhausted {a' : Eval α} : Refines Machine.exhausted a' := fun m h => absurd rfl (h m)

end Eval.Refines

/-- Where the first actions ended well, what comes after them is to end alike. -/
theorem Eval.run_bind_eq {a a' : Eval α} {k k' : α → Eval β} {m : Machine}
    (ha : a'.run m = a.run m) (hk : ∀ v m₁, a.run m = .ok v m₁ → (k' v).run m₁ = (k v).run m₁) :
    (a' >>= k').run m = (a >>= k).run m := by
  cases hr : a.run m with
  | ok v m₁ => rw [Eval.run_bind_ok hr, Eval.run_bind_ok (ha.trans hr), hk v m₁ hr]
  | error stop m₁ => rw [Eval.run_bind_error hr, Eval.run_bind_error (ha.trans hr)]

/-- The parts of the second evaluation refine those of the first. -/
structure Below.Refines (b b' : Below) : Prop where
  evaluate : ∀ e, Eval.Refines (b.evaluate e) (b'.evaluate e)
  execute : ∀ s, Eval.Refines (b.execute s) (b'.execute s)

/-- What is made of such parts refines as well. -/
theorem Below.Refines.composed {b b' : Below} (h : b.Refines b') (hb : Realm.any.Governs b)
    {g : FrameId} {a a' : Eval α} {Q : α → Prop} (ha : Eval.Composed .any b b' g a a' Q) :
    ∀ m : Machine, m.current = g → Done (a.run m) → a'.run m = a.run m := by
  induction ha with
  | single _ => exact fun _ _ _ => rfl
  | readInput _ _ => exact fun _ _ _ => rfl
  | look _ _ ih => exact fun m hg hdone => ih m hg (Realm.admits_any _) m hg hdone
  | bind ha _ iha ihk =>
    intro m hg hdone
    refine Eval.run_bind_eq (iha m hg hdone.of_bind) fun v m₁ hr => ?_
    have hends := hb.composed ha.left m hg (Realm.admits_any _)
    rw [hr] at hends
    rw [Eval.run_bind_ok hr] at hdone
    exact ihk v hends.2.2 m₁ hends.1 hdone
  | @inFrame f g α a a' Q _ ih =>
    intro m _ hdone
    rw [Eval.run_inFrame] at hdone ⊢
    have hinner : Done (a.run { m with current := f }) := fun m₁ hr => by
      rw [hr] at hdone
      exact hdone _ rfl
    rw [Eval.run_inFrame, ih _ rfl hinner]
  | evaluate _ => exact fun m _ => h.evaluate _ m
  | execute _ _ => exact fun m _ => h.execute _ m
  | spent _ => exact fun m _ hdone => absurd rfl (hdone m)

/-- Evaluation up to a depth is refined by evaluation up to any greater one. -/
theorem Below.refines_upTo {depth depth' : Nat} (hle : depth ≤ depth') :
    (Below.upTo depth).Refines (.upTo depth') := by
  induction depth generalizing depth' with
  | zero => exact ⟨fun _ => .exhausted, fun _ => .exhausted⟩
  | succ depth ih =>
    cases depth' with
    | zero => cases hle
    | succ depth' =>
      have hle' := Nat.le_of_succ_le_succ hle
      have hb := Realm.any.governs_upTo depth
      refine ⟨fun e m => ?_, fun s m => ?_⟩
      · exact (ih hle').composed hb
          (composed_evaluateStep (Realm.hosts_of_frame trivial _)) m rfl
      · exact (ih hle').composed hb
          (composed_executeStep hle' trivial fun _ _ => trivial) m rfl

/-- An evaluation that did not run out of depth ends alike at every greater depth. -/
theorem evaluate_refines {depth depth' : Nat} (hle : depth ≤ depth') (e : Expr) :
    Eval.Refines (evaluate depth e) (evaluate depth' e) := (Below.refines_upTo hle).evaluate e

/-- The expression comes to a result on a machine: where the depth suffices, its evaluation ends
so. -/
def Expr.ComesTo (e : Expr) (m : Machine) (r : EStateM.Result Stop Machine Value) : Prop :=
  Done r ∧ ∃ depth, (evaluate depth e).run m = r

namespace Expr.ComesTo

variable {e e' : Expr} {m : Machine} {r r' : EStateM.Result Stop Machine Value}

/-- From some depth on, evaluation always ends so. -/
theorem run_eq (h : e.ComesTo m r) :
    ∃ least, ∀ depth, least ≤ depth → (evaluate depth e).run m = r := by
  obtain ⟨hdone, least, hrun⟩ := h
  exact ⟨least, fun depth hle => (evaluate_refines hle e m (by rwa [hrun])).trans hrun⟩

theorem unique (h : e.ComesTo m r) (h' : e.ComesTo m r') : r' = r := by
  obtain ⟨least, hrun⟩ := h.run_eq
  obtain ⟨least', hrun'⟩ := h'.run_eq
  rw [← hrun (max least least') (Nat.le_max_left _ _), hrun' _ (Nat.le_max_right _ _)]

/-- Evaluations whose results depend on each other at all depths from some on. -/
theorem transfer {k k' : Nat} (h : ∀ depth, (evaluate (depth + k) e).run m = r →
    (evaluate (depth + k') e').run m = r') (hr : e.ComesTo m r) (hdone : Done r') :
    e'.ComesTo m r' := by
  obtain ⟨least, hrun⟩ := hr.run_eq
  exact ⟨hdone, least + k', h least (hrun _ (Nat.le_add_right _ _))⟩

end Expr.ComesTo

/-- Expressions that evaluate alike, one at a fixed number of levels below the other, come to the
same results. -/
theorem Expr.comesTo_congr {e e' : Expr} {m : Machine} {k k' : Nat}
    (h : ∀ depth, (evaluate (depth + k) e).run m = (evaluate (depth + k') e').run m)
    (r : EStateM.Result Stop Machine Value) : e.ComesTo m r ↔ e'.ComesTo m r :=
  ⟨fun hr => hr.transfer (fun depth => (h depth).symm.trans) hr.1,
    fun hr => hr.transfer (fun depth => (h depth).trans) hr.1⟩

end Scriptling
