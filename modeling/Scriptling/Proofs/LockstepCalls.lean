import Scriptling.Proofs.Calls
import Scriptling.Proofs.LockstepForms

namespace Scriptling

open Machine

variable {S : Setting} {w : World} {f g : FrameId} {Γ : Context} {marks : List Bool}
  {pick : Opener → Bool} {s' : Store} {m : Machine} {b : Below} {b' : World → Below}

/-- Statements of an accepted program that stand one after the other. -/
structure Setting.FitsAll (S : Setting) (Γ : Context) (pick : Opener → Bool) (marks : List Bool)
    (ss : List Stmt) : Prop where
  good : ∀ σ ∈ Stmt.sitesAll Γ ss, S.Good σ
  proper : Stmt.ProperAll ss
  keeps : Stmt.KeepsAll S.toRenaming pick marks ss
  floor : Γ.Floor
  still : ¬ S.Moves → pick = pickNone ∧ Unmarked marks

theorem Setting.FitsAll.head {s : Stmt} {ss : List Stmt} (h : S.FitsAll Γ pick marks (s :: ss)) :
    S.Fits Γ pick marks s :=
  ⟨fun σ hσ => h.good σ (List.mem_append_left _ hσ), h.proper.1, h.keeps.1, h.floor, h.still⟩

theorem Setting.FitsAll.tail {s : Stmt} {ss : List Stmt} (h : S.FitsAll Γ pick marks (s :: ss)) :
    S.FitsAll (s.after Γ) pick marks ss :=
  ⟨fun σ hσ => h.good σ (List.mem_append_right _ hσ), h.proper.2, h.keeps.2,
    Stmt.floor_after h.floor h.proper.1, h.still⟩

/-- Where nothing moves no scope is picked. -/
theorem still_cons {S : Setting} (h : ¬ S.Moves → pick = pickNone ∧ Unmarked marks)
    (opener : Opener) : ¬ S.Moves → pick = pickNone ∧ Unmarked (pick opener :: marks) := by
  intro hmoves
  obtain ⟨rfl, hm⟩ := h hmoves
  exact ⟨rfl, hm.cons⟩

theorem moves_of_picked {S : Setting} (h : ¬ S.Moves → pick = pickNone ∧ Unmarked marks)
    {opener : Opener} (hp : pick opener = true) : S.Moves := by
  by_contra hmoves
  obtain ⟨rfl, -⟩ := h hmoves
  cases hp

abbrev knownReturn : World → Flow → Prop := fun w flow => ∀ v, flow = .return v → v.Known w

theorem sim_receiver (c c' : Closure) (hc : c'.scope = c.scope) :
    S.Sim w f (Below.receiver c) (fun _ => Below.receiver c') knownResult := by
  intro w₁ m s' _ hm
  have hlocal := hm.twins.local?_keyword (fun mark => S.image_this mark) c.scope
  refine Setting.SimAt.congr (.ok w₁.le_refl hm ?_) fun L _ => ?_
  · cases hv : m.store.local? c.scope "this" with
    | none => trivial
    | some v => exact hm.twins.frames.known _ _ _ hv
  · change EStateM.Result.ok ((s'.local? c'.scope "this").getD .nil) _ = _
    rw [hc, hlocal]

namespace Setting.Engine

variable (h : S.Engine b b')
include h

theorem sim_executeAll {ss : List Stmt} (hs : S.FitsAll Γ pick marks ss)
    (hc : w.Chain f Γ marks) :
    S.Sim w f (b.executeAll ss)
      (fun L => (b' L).executeAll (Stmt.renameAll S.toRenaming pick marks ss)) knownReturn := by
  induction ss generalizing w Γ with
  | nil =>
    refine .pure fun _ _ v hv => ?_
    cases hv
  | cons s ss ih =>
    refine (h.execute hs.head hc).bind fun w₁ flow hw hflow => ?_
    cases flow with
    | normal => exact ih hs.tail hflow
    | «return» v =>
      refine .pure fun w₂ hw₂ u hu => ?_
      cases hu
      exact hflow.mono hw₂
    | _ =>
      refine .pure fun w₂ hw₂ u hu => ?_
      cases hu

/-- Parameters get their values one after the other, each where the ones before it are known. -/
theorem sim_bindParams (paren : Token) {ps : List Param} {arguments : List Value}
    (hgood : ∀ σ ∈ Param.sites Γ ps, S.Good σ) (hplain : ∀ p ∈ ps, p.name.Plain)
    (hknown : ∀ v ∈ arguments, v.Known w) (hleast : Param.least ps ≤ arguments.length)
    (hc : w.Chain g Γ marks) :
    S.Sim w f (b.bindParams g paren ps arguments)
      (fun L => (b' L).bindParams g paren (ps.map (S.param marks)) arguments)
      fun w _ => w.Chain g (Param.after Γ ps) marks := by
  induction ps generalizing w Γ arguments with
  | nil => exact .pure fun _ hw => hc.mono hw
  | cons p ps ih =>
    have hgood' : ∀ σ ∈ Param.sites (Γ.enter p.name.lexeme) ps, S.Good σ :=
      fun σ hσ => hgood σ (List.mem_append_right _ hσ)
    have hplain' : ∀ q ∈ ps, q.name.Plain := fun q hq => hplain q (by simp [hq])
    have hp : p.name.Plain := hplain p (by simp)
    cases arguments with
    | cons v vs =>
      refine (sim_define hc hp (hknown v (by simp))).bind fun w₁ _ hw hb => ?_
      refine ih hgood' hplain' (fun u hu => ?_) (Param.least_of_cons hleast)
        ((hc.mono hw).enter hb)
      exact (hknown u (by simp [hu])).mono hw
    | nil =>
      obtain ⟨hsome, hrest⟩ := Param.fallback_of_least hleast
      obtain ⟨name, fallback⟩ := p
      obtain ⟨e, rfl⟩ := Option.isSome_iff_exists.1 hsome
      have hsees : S.Sees Γ e.uses := fun u hu =>
        hgood _ (List.mem_append_left _ (List.mem_map.2 ⟨u, hu, rfl⟩))
      refine (h.evaluate hsees hc).inFrame.bind fun w₁ v hw hv => ?_
      refine (sim_define (hc.mono hw) hp hv).bind fun w₂ _ hw₂ hb => ?_
      refine ih hgood' hplain' (by simp) hrest ?_
      exact (hc.mono (World.le_trans hw hw₂)).enter hb

/-- What a call does in the frame that was opened for it. -/
theorem sim_callIn {c : Closure} {t : Typing} (ht : S.Typed w t c)
    (hstill : ¬ S.Moves → t.pick = pickNone ∧ Unmarked t.marks) {arguments : List Value}
    (hknown : ∀ v ∈ arguments, v.Known w) (hleast : c.decl.arity.least ≤ arguments.length)
    (paren : Token)
    (hc : w.Chain g (⟨.function c.decl, []⟩ :: t.context) (t.pick (.function c.decl) :: t.marks)) :
    S.Sim w f (b.callIn c arguments paren g)
      (fun L => (b' L).callIn { c with decl := c.decl.rename S.toRenaming t.pick t.marks }
        arguments paren g) knownResult := by
  obtain ⟨⟨name, params, body⟩, scope, initializer⟩ := c
  have hgood := ht.good
  have hproper := ht.proper
  have hfits : S.FitsAll (Param.after (⟨.function ⟨name, params, body⟩, []⟩ :: t.context) params)
      t.pick (t.pick (.function ⟨name, params, body⟩) :: t.marks) body :=
    ⟨fun σ hσ => hgood σ (List.mem_append_right _ hσ), hproper.2, ht.keeps,
      Param.floor_after (.inside ht.formed rfl) hproper.1, still_cons hstill _⟩
  refine (h.sim_bindParams paren (fun σ hσ => hgood σ (List.mem_append_left _ hσ)) hproper.1
    hknown hleast hc).bind fun w₁ _ hw hchain => ?_
  refine (h.sim_executeAll hfits hchain).inFrame.bind fun w₂ flow _ hflow => ?_
  cases flow with
  | normal =>
    dsimp only
    split
    · exact sim_receiver _ _ rfl
    · exact .pure fun _ _ => trivial
  | «return» v =>
    dsimp only
    split
    · exact sim_receiver _ _ rfl
    · exact .pure fun _ hw₂ => (hflow v rfl).mono hw₂
  | «break» keyword => exact .fail keyword .breakOutsideLoop
  | next keyword => exact .fail keyword .nextOutsideLoop

/-- A call opens a frame for the function that is called. -/
theorem sim_callClosureId {id : ClosureId} {t : Typing} (ht : w.typing id = some t)
    (hb : t.bound = true) {arguments : List Value} (hknown : ∀ v ∈ arguments, v.Known w)
    (hleast : t.decl.arity.least ≤ arguments.length) (paren : Token) (hm : S.Beside w f m s') :
    S.SimAt w f (fun L => L.layout m.store.frames.size = some (.function t.decl))
      ((b.callClosureId id arguments paren).run m)
      (fun L => ((b' L).callClosureId id arguments paren).run { m with store := s' })
      knownResult := by
  obtain ⟨c, hc, hty, hc'⟩ := hm.twins.closure ht
  have hstill := hm.twins.closures.still id t ht
  rw [← hty.decl] at hleast ⊢
  let l : Label := ⟨.function c.decl, c.scope, none, t.pick (.function c.decl)⟩
  let w₁ := w.openFrame m.store.frames.size l
  have hw₁ : w ≤ w₁ := World.le_openFrame hm.twins.unborn_label l
  have hl : w₁.label m.store.frames.size = some l := World.label_openFrame _ _ _
  have hm₁ := hm.openScope l rfl rfl (moves_of_picked hstill)
  have hchain := World.Chain.fresh hl ((hty.scope hb).mono hw₁)
  have hrest := (h.sim_callIn (hty.mono hw₁) hstill (fun v hv => (hknown v hv).mono hw₁) hleast
    paren hchain).on hm₁
  have hleft : (b.callClosureId id arguments paren).run m =
      (b.callIn c arguments paren m.store.frames.size).run
        { m with store := (m.store.openFrame (some c.scope) []).2 } := by
    rw [Below.run_callClosureId hc]
    exact Eval.run_bind_ok (Machine.run_openFrame m c.scope [])
  have hright : ∀ L, ((b' L).callClosureId id arguments paren).run { m with store := s' } =
      ((b' L).callIn { c with decl := c.decl.rename S.toRenaming t.pick t.marks } arguments paren
        m.store.frames.size).run { m with store := (s'.openFrame (some c.scope) []).2 } := by
    intro L
    rw [Below.run_callClosureId hc', ← hm.twins.frames.size_eq]
    exact Eval.run_bind_ok (Machine.run_openFrame { m with store := s' } c.scope [])
  rw [hleft]
  refine ((hrest.congr fun L _ => hright L).pin fun L hL _ => ?_).from_later hw₁
  exact World.layout_of_label (hL.label _ l hl)

end Setting.Engine

/-- Binding a method opens one frame. -/
theorem Machine.size_bindMethod {method : ClosureId} {receiver v : Value} {c : Closure}
    {m₁ : Machine} (hc : m.store.closures[method]? = some c)
    (h : (bindMethod method receiver).run m = .ok v m₁) :
    m₁.store.frames.size = m.store.frames.size + 1 := by
  change EStateM.Result.ok (m.store.bindMethod method receiver).1
    { m with store := (m.store.bindMethod method receiver).2 } = _ at h
  cases h
  simp [Store.bindMethod, hc, Store.openFrame, Store.newClosure]

/-- A call with too few or too many arguments opens no frame. -/
theorem Value.opensCall_of_miscounted {layout : FrameId → Option Opener} {callee : Value}
    {arguments : List Value} (h : ∀ arity, m.store.arity? callee = some arity →
      arguments.length < arity.least ∨ arity.most < arguments.length) :
    callee.OpensCall layout m arguments := by
  cases callee with
  | closure id =>
    intro c hc hleast hmost
    have hcount := h c.decl.arity (by simp [Store.arity?, hc])
    omega
  | classRef c =>
    intro method init hmethod hinit hleast hmost
    have hcount := h init.decl.arity (by simp [Store.arity?, Store.classArity, hmethod, hinit])
    omega
  | _ => trivial

namespace Setting.Engine

variable (h : S.Engine b b')
include h

/-- An instance is made and initialised. Its initializer is bound to it and called. -/
theorem sim_instantiate {c : ClassId} {arguments : List Value} (hknown : ∀ v ∈ arguments, v.Known w)
    (hm : S.Beside w f m s') (hcounted : ¬ (arguments.length < (m.store.classArity c).least ∨
      (m.store.classArity c).most < arguments.length)) (paren : Token) :
    S.SimAt w f (fun L => (Value.classRef c).OpensCall L.layout m arguments)
      ((b.instantiate c arguments paren).run m)
      (fun L => ((b' L).instantiate c arguments paren).run { m with store := s' })
      knownResult := by
  have hm₁ := hm.withStore (hm.twins.newObject c)
  have harity : s'.classArity c = m.store.classArity c :=
    Option.some_inj.1 (hm.twins.arity?_eq (.classRef c))
  refine Setting.SimAt.congr ?_ fun L _ =>
    Below.run_instantiate (b' L) (m := { m with store := s' }) (harity ▸ hcounted) paren
  rw [Below.run_instantiate b hcounted]
  dsimp only
  rw [hm.twins.findMethod?_eq, hm.twins.classes.objects]
  cases hinit : m.store.findMethod? c "init" with
  | none =>
    refine (Setting.SimAt.ok w.le_refl hm₁ trivial).pin fun _ _ _ method init hmethod => ?_
    rw [hinit] at hmethod
    cases hmethod
  | some method =>
    obtain ⟨t, ht, hb⟩ := hm.twins.method_known hinit
    obtain ⟨init, hclosure, hty, -⟩ := hm.twins.closure ht
    have harity : t.decl.arity.least ≤ arguments.length := by
      rw [not_or, Nat.not_lt] at hcounted
      simpa [Store.classArity, hinit, hclosure, hty.decl] using hcounted.1
    have hbind := sim_bindMethod ht hb (v := .object m.store.objects.size) trivial hm₁
    refine hbind.bind_pinned (fun w₁ v m₁ t' hw hreceives hr hm₂ hv => ?_) ?_
    · obtain ⟨copy, rfl, hcopy⟩ := hv
      have hsize : m₁.store.frames.size = m.store.frames.size + 1 :=
        Machine.size_bindMethod (m := { m with store := (m.store.newObject c).2 }) hclosure hr
      have hcall := h.sim_callClosureId hcopy rfl (fun v hv => (hknown v hv).mono hw) harity paren
        hm₂
      have hdone := (hcall.map (g := fun _ => ()) (R := anyResult) fun _ _ _ _ => trivial).map
        (g := fun _ => Value.object m.store.objects.size) (R := knownResult)
        fun _ _ _ _ => trivial
      refine hdone.pin fun L hL hfunction k init' hk hinit' _ _ => ?_
      rw [hinit] at hk
      cases hk
      rw [hclosure] at hinit'
      cases hinit'
      rw [hsize] at hfunction
      exact ⟨hreceives L hL, hty.decl ▸ hfunction⟩
    · intro e m₁ he
      cases he

/-- The function that a call runs has the frame that is opened for the call. -/
theorem sim_call {callee : Value} (hc : callee.Known w) {arguments : List Value}
    (hknown : ∀ v ∈ arguments, v.Known w) (paren : Token) (hm : S.Beside w f m s') :
    S.SimAt w f (fun L => callee.OpensCall L.layout m arguments)
      ((b.call callee arguments paren).run m)
      (fun L => ((b' L).call callee arguments paren).run { m with store := s' }) knownResult := by
  refine Setting.SimAt.congr ?_ fun L _ => Below.run_call _ _ _ _ _
  rw [Below.run_call]
  dsimp only
  rw [hm.twins.arity?_eq]
  cases harity : m.store.arity? callee with
  | none =>
    refine (Setting.SimAt.error hm).pin fun L _ _ => Value.opensCall_of_miscounted fun arity h => ?_
    rw [harity] at h
    cases h
  | some arity =>
    dsimp only
    by_cases hcount : arguments.length < arity.least ∨ arity.most < arguments.length
    · rw [if_pos hcount]
      refine (Setting.SimAt.congr (.error hm) fun L _ => if_pos hcount).pin fun L _ _ =>
        Value.opensCall_of_miscounted fun arity' h => ?_
      rw [harity] at h
      cases h
      exact hcount
    · rw [if_neg hcount]
      refine Setting.SimAt.congr ?_ fun L _ => if_neg hcount
      cases callee with
      | closure id =>
        obtain ⟨t, ht, hb⟩ := hc
        obtain ⟨c, hid, hty, -⟩ := hm.twins.closure ht
        simp only [Store.arity?, hid, Option.map_some, Option.some.injEq] at harity
        subst arity
        have hleast : t.decl.arity.least ≤ arguments.length := by
          rw [← hty.decl]
          omega
        refine (h.sim_callClosureId ht hb hknown hleast paren hm).pin fun L _ ho c' hc' _ _ => ?_
        rw [hid] at hc'
        cases hc'
        exact hty.decl ▸ ho
      | builtin b => exact ((Builtin.sim_run b paren arguments).on hm).pin fun _ _ _ => trivial
      | classRef c =>
        cases harity
        exact h.sim_instantiate hknown hm hcount paren
      | _ => exact (Setting.SimAt.error hm).pin fun _ _ _ => trivial

end Setting.Engine

end Scriptling
