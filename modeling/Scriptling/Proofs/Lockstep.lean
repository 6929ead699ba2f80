import Scriptling.Proofs.Steps
import Scriptling.Proofs.Twin

namespace Scriptling

/-- A machine in a frame, and the store of the machine beside it. -/
structure Setting.Beside (S : Setting) (w : World) (f : FrameId) (m : Machine) (s' : Store) :
    Prop where
  twins : S.Twins w m.store s'
  current : m.current = f
  noted : ∀ id : ExprId, m.distances[id]? = S.notes id

variable {α β : Type}

inductive Setting.Ends (S : Setting) (w : World) (f : FrameId) (Q : World → α → Prop) :
    EStateM.Result Stop Machine α → EStateM.Result Stop Machine α → Prop
  | ok {a : α} {m : Machine} {s' : Store} : S.Beside w f m s' → Q w a →
      Ends S w f Q (.ok a m) (.ok a { m with store := s' })
  | error {e : Stop} {m : Machine} {s' : Store} : S.Beside w f m s' →
      Ends S w f Q (.error e m) (.error e { m with store := s' })

/-- The two results of a step from a world on. Whatever else becomes known, `P` holds in the end. -/
def Setting.SimAt (S : Setting) (w : World) (f : FrameId) (P : World → Prop)
    (r : EStateM.Result Stop Machine α) (r' : World → EStateM.Result Stop Machine α)
    (Q : World → α → Prop) : Prop :=
  ∃ w₁, w ≤ w₁ ∧ ∃ out, S.Ends w₁ f Q r out ∧ ∀ L, w₁ ≤ L → P L ∧ r' L = out

abbrev anyWorld : World → Prop := fun _ => True

/-- Two steps in the same frame, from any world on in which the given things are known. -/
def Setting.Sim (S : Setting) (w : World) (f : FrameId) (a : Eval α) (a' : World → Eval α)
    (Q : World → α → Prop) : Prop :=
  ∀ w₁ m s', w ≤ w₁ → S.Beside w₁ f m s' →
    S.SimAt w₁ f anyWorld (a.run m) (fun L => (a' L).run { m with store := s' }) Q

abbrev anyResult : World → α → Prop := fun _ _ => True

abbrev knownResult : World → Value → Prop := fun w v => v.Known w

variable {S : Setting} {w w₁ w₂ : World} {f g : FrameId} {Q : World → α → Prop}
  {R : World → β → Prop} {m : Machine} {s' : Store}

theorem Setting.Beside.withStore (h : S.Beside w f m s') {t t' : Store} (ht : S.Twins w₁ t t') :
    S.Beside w₁ f { m with store := t } t' := ⟨ht, h.current, h.noted⟩

namespace Setting.SimAt

variable {P P' : World → Prop} {r : EStateM.Result Stop Machine α}
  {r' r'' : World → EStateM.Result Stop Machine α}

theorem ok {a : α} (hw : w ≤ w₁) (h : S.Beside w₁ f m s') (hq : Q w₁ a) :
    S.SimAt w f anyWorld (.ok a m) (fun _ => .ok a { m with store := s' }) Q :=
  ⟨w₁, hw, _, .ok h hq, fun _ _ => ⟨trivial, rfl⟩⟩

theorem error {e : Stop} (h : S.Beside w f m s') :
    S.SimAt w f anyWorld (.error e m) (fun _ => .error e { m with store := s' }) Q :=
  ⟨w, w.le_refl, _, .error h, fun _ _ => ⟨trivial, rfl⟩⟩

theorem weaken {Q' : World → α → Prop} (h : S.SimAt w f P r r' Q)
    (hq : ∀ w₁ a, w ≤ w₁ → Q w₁ a → Q' w₁ a) : S.SimAt w f P r r' Q' := by
  obtain ⟨w₁, hw, out, hends, hr⟩ := h
  refine ⟨w₁, hw, out, ?_, hr⟩
  cases hends with
  | ok hm hqa => exact .ok hm (hq _ _ hw hqa)
  | error hm => exact .error hm

theorem from_later (h : S.SimAt w₁ f P r r' Q) (hw : w ≤ w₁) : S.SimAt w f P r r' Q := by
  obtain ⟨w₂, hw₂, h⟩ := h
  exact ⟨w₂, World.le_trans hw hw₂, h⟩

theorem congr (h : S.SimAt w f P r r' Q) (hr : ∀ L, w ≤ L → r'' L = r' L) :
    S.SimAt w f P r r'' Q := by
  obtain ⟨w₁, hw, out, hends, hout⟩ := h
  refine ⟨w₁, hw, out, hends, fun L hL => ?_⟩
  rw [hr L (World.le_trans hw hL)]
  exact hout L hL

theorem pin (h : S.SimAt w f P r r' Q) (hp : ∀ L, w ≤ L → P L → P' L) :
    S.SimAt w f P' r r' Q := by
  obtain ⟨w₁, hw, out, hends, hout⟩ := h
  exact ⟨w₁, hw, out, hends, fun L hL =>
    ⟨hp L (World.le_trans hw hL) (hout L hL).1, (hout L hL).2⟩⟩

end Setting.SimAt

/-- One step after the other, on two given machines. The second step may use what holds after the
first. -/
theorem Setting.SimAt.bind_pinned {a : Eval α} {a' : World → Eval α} {k : α → Eval β}
    {k' : World → α → Eval β} {P₀ P : World → Prop}
    (ha : S.SimAt w f P₀ (a.run m) (fun L => (a' L).run { m with store := s' }) Q)
    (hk : ∀ w₁ v m₁ t', w ≤ w₁ → (∀ L, w₁ ≤ L → P₀ L) → a.run m = .ok v m₁ →
      S.Beside w₁ f m₁ t' → Q w₁ v →
      S.SimAt w₁ f P ((k v).run m₁) (fun L => (k' L v).run { m₁ with store := t' }) R)
    (hp : ∀ e m₁, a.run m = .error e m₁ → ∀ L, P₀ L → P L) :
    S.SimAt w f P ((a >>= k).run m) (fun L => (a' L >>= k' L).run { m with store := s' }) R := by
  obtain ⟨w₁, hw, out, hends, hout⟩ := ha
  cases hr : a.run m with
  | ok v m₁ =>
    rw [hr] at hends
    cases hends with
    | ok hm hq =>
      rw [Eval.run_bind_ok hr]
      exact ((hk w₁ v m₁ _ hw (fun L hL => (hout L hL).1) hr hm hq).congr fun L hL =>
        Eval.run_bind_ok (hout L hL).2).from_later hw
  | error e m₁ =>
    rw [hr] at hends
    cases hends with
    | error hm =>
      rw [Eval.run_bind_error hr]
      exact ⟨w₁, hw, _, .error hm, fun L hL =>
        ⟨hp e m₁ hr L (hout L hL).1, Eval.run_bind_error (hout L hL).2⟩⟩

/-- Steps in order go side by side if each does, in all worlds that the first may lead to. -/
theorem Setting.SimAt.bind {a : Eval α} {a' : World → Eval α} {k : α → Eval β}
    {k' : World → α → Eval β} {P : World → Prop}
    (ha : S.SimAt w f anyWorld (a.run m) (fun L => (a' L).run { m with store := s' }) Q)
    (hk : ∀ w₁ v m₁ t', w ≤ w₁ → a.run m = .ok v m₁ → S.Beside w₁ f m₁ t' → Q w₁ v →
      S.SimAt w₁ f P ((k v).run m₁) (fun L => (k' L v).run { m₁ with store := t' }) R)
    (hp : ∀ e m₁, a.run m = .error e m₁ → ∀ L, P L) :
    S.SimAt w f P ((a >>= k).run m) (fun L => (a' L >>= k' L).run { m with store := s' }) R :=
  ha.bind_pinned (fun w₁ v m₁ t' hw _ => hk w₁ v m₁ t' hw) fun e m₁ he L _ => hp e m₁ he L

/-- Something is made of the result. -/
theorem Setting.SimAt.map {a : Eval α} {a' : World → Eval α} {g : α → β} {P : World → Prop}
    (ha : S.SimAt w f P (a.run m) (fun L => (a' L).run { m with store := s' }) Q)
    (hq : ∀ w₁ v, w ≤ w₁ → Q w₁ v → R w₁ (g v)) :
    S.SimAt w f P ((a >>= fun v => Pure.pure (g v)).run m)
      (fun L => (a' L >>= fun v => Pure.pure (g v)).run { m with store := s' }) R := by
  refine ha.bind_pinned (fun w₁ v m₁ t' hw hpin _ hm₁ hv => ?_) fun _ _ _ _ hpin => hpin
  exact (Setting.SimAt.ok w₁.le_refl hm₁ (hq w₁ v hw hv)).pin fun L hL _ => hpin L hL

theorem Eval.run_inFrame_ok {a : Eval α} {v : α} {m m₁ : Machine}
    (h : a.run { m with current := g } = .ok v m₁) :
    (Machine.inFrame g a).run m = .ok v { m₁ with current := m.current } := by
  rw [run_inFrame, h]

theorem Eval.run_inFrame_error {a : Eval α} {e : Stop} {m m₁ : Machine}
    (h : a.run { m with current := g } = .error e m₁) :
    (Machine.inFrame g a).run m = .error e { m₁ with current := m.current } := by
  rw [run_inFrame, h]

namespace Setting.Sim

variable {a : Eval α} {a' : World → Eval α}

theorem on (h : S.Sim w f a a' Q) (hm : S.Beside w f m s') :
    S.SimAt w f anyWorld (a.run m) (fun L => (a' L).run { m with store := s' }) Q :=
  h w m s' w.le_refl hm

theorem weaken {Q' : World → α → Prop} (h : S.Sim w f a a' Q)
    (hq : ∀ w₁ v, w ≤ w₁ → Q w₁ v → Q' w₁ v) : S.Sim w f a a' Q' :=
  fun w₁ m s' hw hm => (h w₁ m s' hw hm).weaken fun w₂ v hw₂ => hq w₂ v (World.le_trans hw hw₂)

theorem pure {v : α} (hq : ∀ w₁, w ≤ w₁ → Q w₁ v) : S.Sim w f (pure v) (fun _ => pure v) Q :=
  fun w₁ _ _ hw hm => .ok w₁.le_refl hm (hq w₁ hw)

theorem throw (e : Stop) : S.Sim w f (throw e : Eval α) (fun _ => throw e) Q :=
  fun _ _ _ _ hm => .error hm

theorem fail (token : Token) (fault : RuntimeFault) :
    S.Sim w f (Machine.fail token fault : Eval α) (fun _ => Machine.fail token fault) Q := throw _

theorem bind {k : α → Eval β} {k' : World → α → Eval β} (ha : S.Sim w f a a' Q)
    (hk : ∀ w₁ v, w ≤ w₁ → Q w₁ v → S.Sim w₁ f (k v) (fun L => k' L v) R) :
    S.Sim w f (a >>= k) (fun L => a' L >>= k' L) R := by
  intro w₁ m s' hw hm
  refine (ha w₁ m s' hw hm).bind (fun w₂ v m₂ t' hw₂ _ hm₂ hq => ?_) fun _ _ _ _ => trivial
  exact (hk w₂ v (World.le_trans hw hw₂) hq).on hm₂

theorem discard (ha : S.Sim w f a a' Q) :
    S.Sim w f (discard a) (fun L => Functor.discard (a' L)) anyResult := by
  change S.Sim w f (a >>= fun _ => Pure.pure ()) (fun L => a' L >>= fun _ => Pure.pure ()) _
  exact ha.bind fun _ _ _ _ => pure fun _ _ => trivial

theorem congr {a'' : World → Eval α} (h : S.Sim w f a a' Q) (ha : ∀ L, a'' L = a' L) :
    S.Sim w f a a'' Q := by
  have heq : a'' = a' := funext ha
  exact heq ▸ h

/-- What is done in another frame is done from there, and back again. -/
theorem inFrame (h : S.Sim w g a a' Q) :
    S.Sim w f (Machine.inFrame g a) (fun L => Machine.inFrame g (a' L)) Q := by
  intro w₁ m s' hw hm
  obtain ⟨w₂, hw₂, out, hends, hout⟩ :=
    h w₁ { m with current := g } s' hw ⟨hm.twins, rfl, hm.noted⟩
  cases hr : a.run { m with current := g } with
  | ok v m₁ =>
    rw [hr] at hends
    cases hends with
    | @ok _ _ t' h₁ hq =>
      rw [Eval.run_inFrame_ok hr]
      refine ⟨w₂, hw₂, _, .ok ⟨h₁.twins, hm.current, h₁.noted⟩ hq, fun L hL => ⟨trivial, ?_⟩⟩
      exact Eval.run_inFrame_ok (m := { m with store := s' }) (hout L hL).2
  | error e m₁ =>
    rw [hr] at hends
    cases hends with
    | @error _ _ t' h₁ =>
      rw [Eval.run_inFrame_error hr]
      refine ⟨w₂, hw₂, _, .error ⟨h₁.twins, hm.current, h₁.noted⟩, fun L hL => ⟨trivial, ?_⟩⟩
      exact Eval.run_inFrame_error (m := { m with store := s' }) (hout L hL).2

end Setting.Sim

end Scriptling
