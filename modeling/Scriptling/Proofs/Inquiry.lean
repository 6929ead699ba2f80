import Scriptling.Proofs.Composition
import Scriptling.Proofs.Lockstep
import Scriptling.Proofs.Upkeep

namespace Scriptling

/-- An inquiry into a session. It is evaluated three times over: as it is, under a watch that is known
to hold, and under one that is asked about. Wherever the first watch does not give the alarm, all
three do the same. -/
structure Inquiry where
  known : Below
  plain : Below
  asked : Register → Below
  alarm : Stop

variable {α β : Type}

/-- A place that is reported is of some token of the programs. -/
def Stop.Placed (t : Terms) : Stop → Prop
  | .failed (.runtime e) => e.place.Of t.token
  | _ => True

/-- A machine of which a register is kept, in a frame that variables are named in. -/
structure Register.At (t : Terms) (r : Register) (f : FrameId) (m : Machine) : Prop where
  store : m.store = r.store
  current : m.current = f
  sound : r.Sound t
  ground : r.store.Ground f

inductive Register.Ends (t : Terms) (r : Register) (f : FrameId) (Q : Register → α → Prop) :
    EStateM.Result Stop Machine α → Prop
  | ok {a : α} {m : Machine} : r.At t f m → Q r a → Ends t r f Q (.ok a m)
  | error {e : Stop} {m : Machine} : r.At t f m → e.Placed t → Ends t r f Q (.error e m)

namespace Inquiry

def Has (I : Inquiry) (b : Below) : Prop := b = I.known ∨ b = I.plain ∨ ∃ L, b = I.asked L

/-- The three evaluations on one machine, if there is no alarm. Whatever else will be noted, `P` holds
in the end. -/
def SimAt (I : Inquiry) (t : Terms) (r : Register) (f : FrameId) (P : Register → Prop)
    (F : Below → Eval α) (m : Machine) (Q : Register → α → Prop) : Prop :=
  (∃ m₁, (F I.known).run m = .error I.alarm m₁) ∨
    (F I.known).run m = (F I.plain).run m ∧
      ∃ r₁, r ≤ r₁ ∧ r₁.Ends t f Q ((F I.plain).run m) ∧
        ∀ L, r₁ ≤ L → P L ∧ (F (I.asked L)).run m = (F I.plain).run m

abbrev anyRegister : Register → Prop := fun _ => True

/-- The three evaluations from any machine on of which a later register is kept. -/
def Sim (I : Inquiry) (t : Terms) (r : Register) (f : FrameId) (F : Below → Eval α)
    (Q : Register → α → Prop) : Prop :=
  ∀ r₁ m, r ≤ r₁ → r₁.At t f m → I.SimAt t r₁ f anyRegister F m Q

abbrev anything : Register → α → Prop := fun _ _ => True

/-- The result is a value that programs may get to see. -/
abbrev rightful : Register → Value → Prop := fun r v => v.Rightful r.origin r.store

end Inquiry

variable {I : Inquiry} {t : Terms} {r r₁ : Register} {f g : FrameId} {P P' : Register → Prop}
  {F F' : Below → Eval α} {G : Below → α → Eval β} {Q Q' : Register → α → Prop}
  {R : Register → β → Prop} {m m₁ : Machine}

theorem Register.At.move (h : r.At t f m) (hg : r.store.Ground g) :
    r.At t g { m with current := g } := ⟨h.store, rfl, h.sound, hg⟩

theorem Register.Ends.weaken {res : EStateM.Result Stop Machine α} (h : r.Ends t f Q res)
    (hq : ∀ a, Q r a → Q' r a) : r.Ends t f Q' res := by
  cases h with
  | ok hm ha => exact .ok hm (hq _ ha)
  | error hm he => exact .error hm he

namespace Inquiry

namespace SimAt

/-- What does not depend on the way to evaluate. -/
theorem alone {a : Eval α} (hr : r ≤ r₁) (h : r₁.Ends t f Q (a.run m)) :
    I.SimAt t r f anyRegister (fun _ => a) m Q :=
  .inr ⟨rfl, r₁, hr, h, fun _ _ => ⟨trivial, rfl⟩⟩

theorem pure {a : α} (hm : r.At t f m) (hq : Q r a) :
    I.SimAt t r f anyRegister (fun _ => pure a) m Q := alone r.le_refl (.ok hm hq)

/-- All three evaluations stop alike, whatever else will be noted. -/
theorem throw {e : Stop} (hm : r.At t f m) (he : e.Placed t) :
    I.SimAt t r f anyRegister (fun _ => (throw e : Eval α)) m Q := alone r.le_refl (.error hm he)

theorem fail {token : Token} {fault : RuntimeFault} (hm : r.At t f m) (ht : t.token token) :
    I.SimAt t r f anyRegister (fun _ => (Machine.fail token fault : Eval α)) m Q :=
  throw hm ⟨token, ht, rfl⟩

theorem weaken (h : I.SimAt t r f P F m Q) (hq : ∀ r₁ a, r ≤ r₁ → Q r₁ a → Q' r₁ a) :
    I.SimAt t r f P F m Q' := by
  obtain halarm | ⟨heq, r₁, hr, hends, hasked⟩ := h
  · exact .inl halarm
  · exact .inr ⟨heq, r₁, hr, hends.weaken fun a => hq r₁ a hr, hasked⟩

theorem from_later (h : I.SimAt t r₁ f P F m Q) (hr : r ≤ r₁) : I.SimAt t r f P F m Q := by
  obtain halarm | ⟨heq, r₂, hr₂, h⟩ := h
  · exact .inl halarm
  · exact .inr ⟨heq, r₂, Register.le_trans hr hr₂, h⟩

theorem pin (h : I.SimAt t r f P F m Q) (hp : ∀ L, r ≤ L → P L → P' L) :
    I.SimAt t r f P' F m Q := by
  obtain halarm | ⟨heq, r₁, hr, hends, hasked⟩ := h
  · exact .inl halarm
  · exact .inr ⟨heq, r₁, hr, hends, fun L hL =>
      ⟨hp L (Register.le_trans hr hL) (hasked L hL).1, (hasked L hL).2⟩⟩

theorem congr {m' : Machine} (h : I.SimAt t r f P F m Q)
    (hF : ∀ b, I.Has b → (F' b).run m' = (F b).run m) : I.SimAt t r f P F' m' Q := by
  unfold SimAt
  rw [hF _ (.inl rfl), hF _ (.inr (.inl rfl))]
  obtain halarm | ⟨heq, r₁, hr, hends, hasked⟩ := h
  · exact .inl halarm
  · refine .inr ⟨heq, r₁, hr, hends, fun L hL => ?_⟩
    rw [hF _ (.inr (.inr ⟨L, rfl⟩))]
    exact hasked L hL

/-- One step after the other. The second one may use what is noted after the first. -/
theorem bind_pinned {P₀ : Register → Prop} (h : I.SimAt t r f P₀ F m Q)
    (hk : ∀ r₁ v m₁, r ≤ r₁ → (∀ L, r₁ ≤ L → P₀ L) → (F I.plain).run m = .ok v m₁ →
      r₁.At t f m₁ → Q r₁ v → I.SimAt t r₁ f P (fun b => G b v) m₁ R)
    (hp : ∀ e m₁, (F I.plain).run m = .error e m₁ → ∀ L, P₀ L → P L) :
    I.SimAt t r f P (fun b => F b >>= G b) m R := by
  obtain ⟨m₁, halarm⟩ | ⟨heq, r₁, hr, hends, hasked⟩ := h
  · exact .inl ⟨m₁, Eval.run_bind_error halarm⟩
  · cases hrun : (F I.plain).run m with
    | ok v m₁ =>
      rw [hrun] at heq hends hasked
      cases hends with
      | ok hm hq =>
        obtain ⟨m₂, halarm⟩ | ⟨heq₂, r₂, hr₂, hends₂, hasked₂⟩ :=
          hk r₁ v m₁ hr (fun L hL => (hasked L hL).1) hrun hm hq
        · exact .inl ⟨m₂, (Eval.run_bind_ok heq).trans halarm⟩
        · refine .inr ⟨(Eval.run_bind_ok heq).trans (heq₂.trans (Eval.run_bind_ok hrun).symm), r₂,
            Register.le_trans hr hr₂, ?_, fun L hL => ⟨(hasked₂ L hL).1, ?_⟩⟩
          · rw [Eval.run_bind_ok hrun]
            exact hends₂
          · rw [Eval.run_bind_ok hrun, Eval.run_bind_ok (hasked L (Register.le_trans hr₂ hL)).2]
            exact (hasked₂ L hL).2
    | error e m₁ =>
      rw [hrun] at heq hends hasked
      cases hends with
      | error hm he =>
        refine .inr ⟨(Eval.run_bind_error heq).trans (Eval.run_bind_error hrun).symm, r₁, hr, ?_,
          fun L hL => ⟨hp e m₁ hrun L (hasked L hL).1, ?_⟩⟩
        · rw [Eval.run_bind_error hrun]
          exact .error hm he
        · rw [Eval.run_bind_error hrun]
          exact Eval.run_bind_error (hasked L hL).2

/-- What holds between the two steps is known of every register after the first. -/
theorem bind {P₀ : Register → Prop} (h : I.SimAt t r f P₀ F m Q)
    (hk : ∀ r₁ v m₁, r ≤ r₁ → (F I.plain).run m = .ok v m₁ → r₁.At t f m₁ → Q r₁ v →
      I.SimAt t r₁ f P (fun b => G b v) m₁ R)
    (hp : ∀ e m₁, (F I.plain).run m = .error e m₁ → ∀ L, P L) :
    I.SimAt t r f P (fun b => F b >>= G b) m R :=
  h.bind_pinned (fun r₁ v m₁ hr _ => hk r₁ v m₁ hr) fun e m₁ he L _ => hp e m₁ he L

/-- Something is made of the result. -/
theorem map {k : α → β} (h : I.SimAt t r f P F m Q)
    (hq : ∀ r₁ v, r ≤ r₁ → Q r₁ v → R r₁ (k v)) :
    I.SimAt t r f P (fun b => F b >>= fun v => Pure.pure (k v)) m R := by
  refine h.bind_pinned (fun r₁ v m₁ hr hpin _ hm hv => ?_) fun _ _ _ _ hpin => hpin
  exact (pure hm (hq r₁ v hr hv)).pin fun L hL _ => hpin L hL

theorem discard (h : I.SimAt t r f P F m Q) :
    I.SimAt t r f P (fun b => Functor.discard (F b)) m anything := by
  change I.SimAt t r f P (fun b => F b >>= fun _ => Pure.pure ()) m anything
  exact h.map fun _ _ _ _ => trivial

/-- What is done in another frame is done from there, and back again. -/
theorem inFrame (h : I.SimAt t r g P F { m with current := g } Q) (hm : r.At t f m) :
    I.SimAt t r f P (fun b => Machine.inFrame g (F b)) m Q := by
  obtain ⟨m₁, halarm⟩ | ⟨heq, r₁, hr, hends, hasked⟩ := h
  · exact .inl ⟨_, Eval.run_inFrame_error halarm⟩
  · have hrun : ∀ b, (F b).run { m with current := g } = (F I.plain).run { m with current := g } →
        (Machine.inFrame g (F b)).run m = (Machine.inFrame g (F I.plain)).run m := by
      intro b hb
      rw [Eval.run_inFrame, hb, ← Eval.run_inFrame]
    refine .inr ⟨hrun _ heq, r₁, hr, ?_, fun L hL => ⟨(hasked L hL).1, hrun _ (hasked L hL).2⟩⟩
    have hback : ∀ m₁, r₁.At t g m₁ → r₁.At t f { m₁ with current := m.current } := fun m₁ h₁ =>
      ⟨h₁.store, hm.current, h₁.sound, hm.ground.mono hr.store⟩
    cases hres : (F I.plain).run { m with current := g } with
    | ok v m₁ =>
      rw [hres] at hends
      rw [Eval.run_inFrame_ok hres]
      cases hends with
      | ok h₁ hq => exact .ok (hback m₁ h₁) hq
    | error e m₁ =>
      rw [hres] at hends
      rw [Eval.run_inFrame_error hres]
      cases hends with
      | error h₁ he => exact .error (hback m₁ h₁) he

end SimAt

namespace Sim

theorem on (h : I.Sim t r f F Q) (hm : r.At t f m) : I.SimAt t r f anyRegister F m Q :=
  h r m r.le_refl hm

theorem weaken (h : I.Sim t r f F Q) (hq : ∀ r₁ a, r ≤ r₁ → Q r₁ a → Q' r₁ a) :
    I.Sim t r f F Q' :=
  fun r₁ m hr hm => (h r₁ m hr hm).weaken fun r₂ a hr₂ => hq r₂ a (Register.le_trans hr hr₂)

theorem pure {a : α} (hq : ∀ r₁, r ≤ r₁ → Q r₁ a) : I.Sim t r f (fun _ => pure a) Q :=
  fun r₁ _ hr hm => .pure hm (hq r₁ hr)

theorem throw {e : Stop} (he : e.Placed t) : I.Sim t r f (fun _ => (throw e : Eval α)) Q :=
  fun _ _ _ hm => .throw hm he

theorem fail {token : Token} {fault : RuntimeFault} (ht : t.token token) :
    I.Sim t r f (fun _ => (Machine.fail token fault : Eval α)) Q := throw ⟨token, ht, rfl⟩

theorem bind (h : I.Sim t r f F Q)
    (hk : ∀ r₁ v, r ≤ r₁ → Q r₁ v → I.Sim t r₁ f (fun b => G b v) R) :
    I.Sim t r f (fun b => F b >>= G b) R := by
  intro r₁ m hr hm
  refine (h r₁ m hr hm).bind (fun r₂ v m₂ hr₂ _ hm₂ hv => ?_) fun _ _ _ _ => trivial
  exact (hk r₂ v (Register.le_trans hr hr₂) hv).on hm₂

theorem discard (h : I.Sim t r f F Q) :
    I.Sim t r f (fun b => Functor.discard (F b)) anything :=
  fun r₁ m hr hm => (h r₁ m hr hm).discard

theorem congr (h : I.Sim t r f F Q) (hF : ∀ b, I.Has b → F' b = F b) : I.Sim t r f F' Q :=
  fun r₁ m hr hm => (h r₁ m hr hm).congr fun b hb => by rw [hF b hb]

theorem inFrame (h : I.Sim t r g F Q) (hg : r.store.Ground g) :
    I.Sim t r f (fun b => Machine.inFrame g (F b)) Q :=
  fun r₁ _ hr hm => (h r₁ _ hr (hm.move (hg.mono hr.store))).inFrame hm

end Sim

end Inquiry

end Scriptling
