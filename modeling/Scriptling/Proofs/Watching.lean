import Scriptling.Proofs.Runs
import Scriptling.Proofs.Watch

namespace Scriptling

open Machine

variable {S S' : Setting} {w : World} {f : FrameId} {Γ : Context} {marks : List Bool}
  {s s' : Store} {m : Machine}

theorem Setting.frame_false (S : Setting) : S.frame false = id := by
  funext frame
  have h : frame.bindings.relabel (S.image false) = frame.bindings := by
    simp [Table.relabel]
  simp only [Setting.frame, h, id]

namespace Setting.FrameTwins

variable (h : S.FrameTwins w s s') (hstill : ¬ S.Moves)
include h hstill

theorem exchanged_false (f : FrameId) : w.exchanged f = false := by
  cases hl : w.label f with
  | none => simp [World.exchanged, hl]
  | some l =>
    have hx : l.exchanged ≠ true := fun hx => hstill (h.still f l hl hx)
    simp [World.exchanged, hl, hx]

theorem unmarked (hc : w.Chain f Γ marks) : Unmarked marks := by
  induction hc with
  | globals => exact fun _ hm => by cases hm
  | @inside f l layer Γ marks hl _ _ _ ih =>
    have hx : l.exchanged = false := by
      simpa [World.exchanged, hl] using h.exchanged_false hstill f
    rw [hx]
    exact ih.cons

end Setting.FrameTwins

theorem Setting.Twins.store_eq (h : S.Twins w s s') (hstill : ¬ S.Moves) : s' = s := by
  have hframes : s'.frames = s.frames := by
    refine Array.ext_getElem? fun f => ?_
    rw [h.frames.paired f, h.frames.exchanged_false hstill, S.frame_false, Option.map_id, id]
  have hclosures : s'.closures = s.closures := by
    refine Array.ext_getElem? fun id => ?_
    cases hc : s.closures[id]? with
    | none =>
      rw [Array.getElem?_eq_none_iff] at hc ⊢
      rwa [h.closures.size]
    | some c =>
      obtain ⟨t, ht, -, hc'⟩ := h.closures.paired id c hc
      obtain ⟨hpick, hmarks⟩ := h.closures.still id t ht hstill
      rw [hc', hpick, FunctionDecl.rename_unmarked c.decl hmarks]
  obtain ⟨frames, closures, classes, objects⟩ := s
  obtain ⟨frames', closures', classes', objects'⟩ := s'
  obtain rfl : classes' = classes := h.classes.classes
  obtain rfl : objects' = objects := h.classes.objects
  obtain rfl : frames' = frames := hframes
  obtain rfl : closures' = closures := hclosures
  rfl

/-- Stores on which nothing moves can be seen under any renaming. -/
theorem Setting.Twins.transport (h : S.Twins w s s) (hstill : ¬ S.Moves)
    (hgood : ∀ σ, S.Good σ → S'.Good σ) : S'.Twins w s s := by
  have hframes := h.frames
  have hx := hframes.exchanged_false hstill
  refine ⟨⟨fun f => ?_, hframes.unborn, hframes.size_pos, hframes.globals, hframes.outermost,
    hframes.parents, hframes.bound, hframes.known, hframes.heritage, hframes.derived,
    fun f l hl hex => ?_⟩, ⟨rfl, h.closures.unborn, fun id c hc => ?_, fun id t ht _ => ?_⟩,
    h.classes⟩
  · rw [hx, S'.frame_false, Option.map_id, id]
  · exact absurd (hframes.still f l hl hex) hstill
  · obtain ⟨t, ht, hty, -⟩ := h.closures.paired id c hc
    obtain ⟨hpick, hmarks⟩ := h.closures.still id t ht hstill
    refine ⟨t, ht, ⟨hty.decl, fun σ hσ => hgood σ (hty.good σ hσ), hty.proper, hty.formed, ?_,
      hty.scope, hty.method⟩, ?_⟩
    · rw [hpick]
      exact FunctionDecl.keeps_unmarked c.decl hmarks
    · rw [hpick, FunctionDecl.rename_unmarked c.decl hmarks]
      exact hc
  · exact h.closures.still id t ht hstill

/-- A watch that may use what is known in the end, and holds at every single step. -/
structure Setting.Watched (S : Setting) (W : World → Watch) : Prop where
  expr : ∀ {w : World} {f : FrameId} {Γ : Context} {marks : List Bool} {e : Expr} {depth : Nat}
    {m : Machine} {L : World}, S.Sees Γ e.uses → w.Chain f Γ marks → S.Beside w f m m.store →
    w ≤ L → e.Opens L.layout (.upTo depth) m → (W L).expr (.upTo depth) e m
  stmt : ∀ {depth : Nat} {s : Stmt} {m : Machine} {L : World},
    s.Opens L.layout L.heritage (.upTo depth) m → (W L).stmt (.upTo depth) s m

/-- Where the condition holds, a guard does nothing. -/
theorem run_guarded {α : Type} {condition : Machine → Prop} {alarm : Stop} {act : Eval α}
    (h : condition m) : (guarded condition alarm act).run m = act.run m := if_pos h

/-- What holds anyway need not be guarded. -/
theorem Setting.SimAt.guard {α : Type} {P : World → Prop} {Q : World → α → Prop}
    {r : EStateM.Result Stop Machine α} {act : World → Eval α} {condition : World → Machine → Prop}
    {alarm : World → Stop} (h : S.SimAt w f P r (fun L => (act L).run m) Q)
    (hp : ∀ L, w ≤ L → P L → condition L m) :
    S.SimAt w f anyWorld r (fun L => (guarded (condition L) (alarm L) (act L)).run m) Q := by
  obtain ⟨w₁, hw, out, hends, hout⟩ := h
  refine ⟨w₁, hw, out, hends, fun L hL => ⟨trivial, ?_⟩⟩
  dsimp only
  rw [run_guarded (hp L (World.le_trans hw hL) (hout L hL).1)]
  exact (hout L hL).2

/-- Under a watch that holds at every step, evaluation up to a depth is as without it. -/
theorem Setting.Watched.engine {W : World → Watch} (hW : S.Watched W) (hstill : ¬ S.Moves)
    (alarm : World → Stop) (depth : Nat) :
    S.Engine (.upTo depth) fun L => (W L).below (alarm L) depth := by
  induction depth with
  | zero => exact ⟨fun _ => rfl, fun _ _ => .throw _, fun _ _ => .throw _⟩
  | succ depth ih =>
    refine ⟨fun _ => rfl, fun {w f Γ marks e} hs hc w₁ m s' hw hm => ?_,
      fun {w f Γ pick marks s} hs hc w₁ m s' hw hm => ?_⟩
    · have hc₁ := hc.mono hw
      have hstep := ih.sim_evaluateStep hs hc₁ hm
      obtain rfl := hm.twins.store_eq hstill
      rw [Renaming.use_unmarked (hm.twins.frames.unmarked hstill hc₁), Expr.turn_id] at hstep ⊢
      exact hstep.guard fun L hL hopens => hW.expr hs hc₁ hm hL hopens
    · have hc₁ := hc.mono hw
      have hstep := ih.sim_executeStep hs hc₁ hm
      obtain rfl := hm.twins.store_eq hstill
      obtain ⟨rfl, hmarks⟩ := hs.still hstill
      rw [Stmt.rename_unmarked s hmarks] at hstep ⊢
      exact hstep.guard fun L hL hopens => hW.stmt hopens

end Scriptling
