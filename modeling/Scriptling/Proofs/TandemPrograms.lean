import Scriptling.Proofs.Sessions
import Scriptling.Proofs.TandemStatements

namespace Scriptling

open Machine

/-- Before two programs run on one store every frame is its own twin. -/
def World.overlay (w : World) (s : Store) : Overlay where
  twin f f' := f' = f ∧ f < s.frames.size
  outer f p := s.parent? f = some p
  outer' f p := s.parent? f = some p
  kind id bound := ∃ t, w.typing id = some t ∧ t.bound = bound

section

variable {S S' : Setting} {w : World} {s : Store} {first : Bool}

theorem Value.Known.bound {a : Value} (h : a.Known w) : a.Bound (w.overlay s) := by
  cases a with
  | closure id => exact h
  | _ => trivial

/-- The scopes around a place are the same in both programs. -/
theorem World.Chain.aligned (h : S.FrameTwins w s s) {f : FrameId} {Γ : Context}
    {marks : List Bool} (hc : w.Chain f Γ marks) :
    (w.overlay s).Aligned (Γ.scopes.map fun _ => false) f f := by
  induction hc with
  | globals => exact .globals ⟨rfl, h.size_pos⟩
  | @inside f l layer Γ marks hl _ _ _ ih =>
    have hparent := h.parents f l hl
    exact .frame ⟨rfl, h.lt_size hl⟩ hparent hparent ih

theorem Padding.level_false (scopes : List (Table Bool)) : Level (scopes.map fun _ => false) := by
  cases scopes with
  | nil => exact level_nil
  | cons => exact level_cons _

namespace Setting.Twins

variable (h : S.Twins w s s) (h' : S'.Twins w s s)
include h h'

/-- A function that was made before is the same in both programs. -/
theorem paired {t : Typing} {id : ClosureId} {c : Closure} (hc : s.closures[id]? = some c)
    (ht : w.typing id = some t) : (S.pair S' first).Twins (w.overlay s) t.bound c c := by
  have htyped : ∀ {S : Setting}, S.Twins w s s → S.Typed w t c := by
    intro S h
    obtain ⟨t', ht', htyped, -⟩ := h.closures.paired id c hc
    rw [ht] at ht'
    cases ht'
    exact htyped
  have hty := htyped h
  have hdecl : (S.pair S' first).Functions (t.context.scopes.map fun _ => false) c.decl c.decl :=
    c.decl.unrolls_refl.pairs hty.proper (Padded.refl _) hty.good (htyped h').good
  refine ⟨rfl, ?_⟩
  cases hb : t.bound with
  | true =>
    exact ⟨_, Padding.level_false _, (hty.scope hb).aligned h.frames, hdecl⟩
  | false =>
    obtain ⟨declaration, Γ, marks, -, hΓ, -, hchain⟩ := hty.method hb
    rw [hΓ] at hdecl
    exact ⟨_, Padding.level_false _, hchain.aligned h.frames, hdecl⟩

/-- The stores at the beginning of two programs. -/
theorem overlaid : (S.pair S' first).Overlaid (w.overlay s) s s := by
  refine ⟨⟨?_, ?_, fun _ _ h => h, fun _ _ h => h, ⟨rfl, h.frames.size_pos⟩, h.frames.outermost,
    h.frames.outermost, fun f name a ha => (h.frames.known f name a ha).bound⟩,
    ⟨rfl, ?_, ?_, fun id c hc => ?_⟩, ⟨rfl, rfl, fun c r hr => ?_, fun o ob hob name a ha =>
      (h.classes.fields o ob hob name a ha).bound⟩⟩
  · rintro f f' ⟨rfl, hf⟩
    have hb : s.bindings? f' = some s.frames[f'].bindings := by
      rw [Store.bindings?, Array.getElem?_eq_getElem hf, Option.map_some]
    exact ⟨_, hb, hb⟩
  · rintro f f' g g' ⟨rfl, -⟩ ⟨rfl, -⟩
    rfl
  · rintro id bound ⟨t, ht, -⟩
    by_contra hge
    rw [h.closures.unborn id (Nat.le_of_not_lt hge)] at ht
    cases ht
  · rintro id bound bound' ⟨t, ht, rfl⟩ ⟨t', ht', rfl⟩
    rw [ht] at ht'
    cases ht'
    rfl
  · obtain ⟨t, ht, -, -⟩ := h.closures.paired id c hc
    exact ⟨c, t.bound, hc, ⟨t, ht, rfl⟩, h.paired h' hc ht⟩
  · have hrecorded := h.classes.recorded c r hr
    exact ⟨hrecorded.methods, hrecorded.statics, fun name a ha =>
      (hrecorded.fields name a ha).bound⟩

end Setting.Twins

end

variable {P : Pairing} {v w : Overlay} {m m' : Machine} {b b' : Below} {ss ss' : List Stmt}

abbrev Pairing.Abreast (P : Pairing) (v : Overlay) (m m' : Machine) : Prop :=
  P.Beside v .globals .globals m m'

theorem Pairing.Abreast.aligned (h : P.Abreast v m m') : v.Aligned [] .globals .globals :=
  .globals h.stores.frames.globals

/-- The second run has come to its end if it may not be cut short, and else the first. -/
def Pairing.Complete (P : Pairing) (ran ran' : Session.Ran) : Prop :=
  if P.first then ran.complete = true else ran'.complete = true

/-- Both runs have come to their end, with the same failures. -/
structure Pairing.Done (P : Pairing) (v : Overlay) (ran ran' : Session.Ran) : Prop where
  complete : ran.complete = true
  complete' : ran'.complete = true
  failures : ran'.failures = ran.failures
  machines : ∃ w, v ≤ w ∧ P.Abreast w ran.machine ran'.machine

namespace Pairing.Engine

variable (h : P.Engine b b')
include h

/-- An echo shows the same value. -/
theorem echo {e : Expr} (hu : P.MeetsAll [] e.uses) (ha : v.Aligned [] .globals .globals) :
    P.Sim v .globals .globals (Session.echo b e) (Session.echo b' e) anyEnd := by
  refine (h.evaluate hu ha).bind fun w x _ _ => ?_
  split
  · exact .pure fun _ _ => trivial
  · exact (tandem_text x).bind fun u text _ _ => tandem_write _

/-- Statements outside all others go in tandem. -/
theorem runStatement {s s' : Stmt} (hs : P.Stmts [] s s') (ha : v.Aligned [] .globals .globals) :
    P.Sim v .globals .globals (Session.runStatement b s) (Session.runStatement b' s') anyEnd := by
  refine (h.execute hs ha).bind fun w flow _ _ => ?_
  cases flow with
  | «break» keyword => exact .fail keyword .breakOutsideLoop
  | next keyword => exact .fail keyword .nextOutsideLoop
  | _ => exact .pure fun _ _ => trivial

/-- A statement that is written out is not an expression, so its value is not shown in either. -/
theorem runTopLevel (interactive : Bool) {s s' : Stmt} (hs : P.Stmts [] s s')
    (ha : v.Aligned [] .globals .globals) :
    P.Sim v .globals .globals (Session.runTopLevel b interactive s)
      (Session.runTopLevel b' interactive s') anyEnd := by
  have hrun := h.runStatement hs ha
  cases interactive with
  | false => exact hrun
  | true =>
    cases hs with
    | expr hu => exact h.echo hu ha
    | _ => exact hrun

/-- Both runs fail at the same statements. -/
theorem runAll (interactive : Bool) (hs : P.Bodies [] ss ss') (hm : P.Abreast v m m')
    (hcomplete : P.Complete (Session.runAll b interactive ss m)
      (Session.runAll b' interactive ss' m')) :
    P.Done v (Session.runAll b interactive ss m) (Session.runAll b' interactive ss' m') := by
  induction ss generalizing v m m' ss' with
  | nil =>
    cases hs
    exact ⟨rfl, rfl, rfl, v, v.le_refl, hm⟩
  | cons s ss ih =>
    cases hs with
    | @cons _ _ s' _ ss' hs hss =>
      have hends := (h.runTopLevel interactive hs hm.aligned).on hm
      rw [Session.runAll_cons, Session.runAll_cons] at hcomplete ⊢
      generalize (Session.runTopLevel b interactive s).run m = r at hends hcomplete ⊢
      generalize (Session.runTopLevel b' interactive s').run m' = r' at hends hcomplete ⊢
      cases hends with
      | @ok u a m₁ m₁' hu hm₁ _ =>
        obtain ⟨hc, hc', hf, w, hw, hend⟩ := ih hss hm₁ hcomplete
        exact ⟨hc, hc', hf, w, Overlay.le_trans hu hw, hend⟩
      | @failed u failure m₁ m₁' hu hm₁ =>
        have hback : P.Abreast u { m₁ with current := .globals } { m₁' with current := .globals } :=
          (hm₁.placed .globals).placed' .globals
        obtain ⟨hc, hc', hf, w, hw, hend⟩ := ih hss hback hcomplete
        exact ⟨hc, hc', congrArg (failure :: ·) hf, w, Overlay.le_trans hu hw, hend⟩
      | first hf =>
        rw [Complete, if_pos hf] at hcomplete
        cases hcomplete
      | second hf =>
        rw [Complete, if_neg (by simp [hf])] at hcomplete
        cases hcomplete

/-- At the end both runs flush the same output. -/
theorem interpret (interactive : Bool) (hs : P.Bodies [] ss ss') (hm : P.Abreast v m m')
    (hcomplete : P.Complete (Session.interpret b interactive ss m)
      (Session.interpret b' interactive ss' m')) :
    P.Done v (Session.interpret b interactive ss m) (Session.interpret b' interactive ss' m') := by
  rw [Complete, Session.complete_interpret, Session.complete_interpret] at hcomplete
  obtain ⟨hc, hc', hf, w, hw, hend⟩ := h.runAll interactive hs hm hcomplete
  have hran : Session.interpret b interactive ss m = _ := if_pos hc
  have hran' : Session.interpret b' interactive ss' m' = _ := if_pos hc'
  rw [hran, hran']
  unfold Session.Ran.flush
  rw [hend.alike.output, hf]
  exact ⟨hc, hc', rfl, w, hw, hend.withOutput _⟩

end Pairing.Engine

end Scriptling
