import Scriptling.Proofs.Sessions

namespace Scriptling

open Machine

/-- The variable that an expression itself reads or writes. -/
def Expr.reference? : Expr → Option Use
  | .var id name => some ⟨.variable, id, name⟩
  | .assign id name _ => some ⟨.variable, id, name⟩
  | .compoundAssign id name _ _ => some ⟨.variable, id, name⟩
  | .update _ (.var id name) _ => some ⟨.variable, id, name⟩
  | .this id keyword => some ⟨.this, id, keyword⟩
  | _ => none

def Expr.assigned? : Expr → Option Expr
  | .assign _ _ value => some value
  | .compoundAssign _ _ _ value => some value
  | _ => none

/-- A machine at a reference: its frames are those of the scopes around it, and the frame at the
distance is that of the scope with the name. There the variable can be read and written. -/
structure Machine.Finds (layout : FrameId → Option Opener) (m : Machine) (σ : Site) (d : Nat)
    (g : FrameId) : Prop where
  lies : m.store.Lies layout m.current σ.context
  frame : m.store.ancestor? m.current d = some g
  scope : ∃ layer, σ.context[d]? = some layer ∧ layout g = some layer.opener ∧
    layer.names.get? σ.use.name.lexeme = some true
  read : ∃ v, m.store.getAt? m.current d σ.use.name.lexeme = some v ∧
    (lookUp σ.use.id σ.use.name).run m = .ok v m
  written : ∀ v create, m.store.assignAt? m.current d σ.use.name.lexeme v =
      some (m.store.define g σ.use.name.lexeme v) ∧
    (assign σ.use.id σ.use.name v create).run m =
      .ok () { m with store := m.store.define g σ.use.name.lexeme v }

/-- What is said of an expression with a noted reference at the moment it is evaluated, and again
when the value is there that it assigns. -/
def Expr.Resolves (layout : FrameId → Option Opener) (programs : List (List Stmt)) (below : Below)
    (m : Machine) (e : Expr) : Prop :=
  ∀ u d, e.reference? = some u → m.distances[u.id]? = some d →
    ∃ ss ∈ programs, ∃ σ ∈ Stmt.sitesAll [] ss, ∃ g, σ.use = u ∧ σ.distance? = some d ∧
      m.Finds layout σ d g ∧
      ∀ value v m₁, e.assigned? = some value → (below.evaluate value).run m = .ok v m₁ →
        m₁.current = m.current ∧ m₁.Finds layout σ d g

variable {S : Setting} {w w₁ L : World} {f : FrameId} {Γ : Context} {marks : List Bool}
  {s s' : Store} {m : Machine}

theorem Expr.reference_mem {e : Expr} {u : Use} (h : e.reference? = some u) : u ∈ e.uses := by
  unfold Expr.reference? at h
  split at h <;> cases h <;> simp [Expr.uses]

theorem Expr.uses_assigned {e value : Expr} (h : e.assigned? = some value) :
    ∀ u ∈ value.uses, u ∈ e.uses := by
  unfold Expr.assigned? at h
  split at h <;> cases h
  all_goals
    intro u hu
    simp [Expr.uses, hu]

theorem World.Chain.lies (hc : w.Chain f Γ marks) (hL : w ≤ L) (hw : w ≤ w₁)
    (h : S.FrameTwins w₁ s s') : s.Lies L.layout f Γ := by
  induction hc with
  | globals => exact .globals
  | @inside f l layer Γ marks hl ho _ _ ih =>
    refine .inside ?_ (h.parents f l (hw.label f l hl)) ih
    rw [World.layout_of_label (hL.label f l hl), ho]

/-- The frame at a distance stays the same. -/
theorem World.Chain.ancestor (hc : w.Chain f Γ marks) {d : Nat} {layer : Layer}
    (hd : Γ[d]? = some layer) :
    ∃ g l, w.label g = some l ∧ l.opener = layer.opener ∧
      (∀ name, layer.names.get? name = some true → w.bound g name) ∧
      ∀ {S : Setting} {w₁ : World} {s s' : Store}, w ≤ w₁ → S.FrameTwins w₁ s s' →
        s.ancestor? f d = some g := by
  induction hc generalizing d with
  | globals => simp at hd
  | @inside f l layer' Γ marks hl ho hn _ ih =>
    cases d with
    | zero =>
      cases hd
      refine ⟨f, l, hl, ho, hn, fun hw h => ?_⟩
      simp [Store.ancestor?, h.lt_size (hw.label f l hl)]
    | succ d =>
      obtain ⟨g, k, hk, hko, hkn, hg⟩ := ih (by simpa using hd)
      refine ⟨g, k, hk, hko, hkn, fun hw h => ?_⟩
      simp [Store.ancestor?, h.parents f l (hw.label f l hl), hg hw h]

/-- At the noted distance stands the frame of the scope that declares the name. -/
theorem World.Chain.finds {σ : Site} (hc : w.Chain f σ.context marks) {d : Nat}
    (hd : σ.distance? = some d) :
    ∃ g, ∀ {S : Setting} {w₁ L : World} {m : Machine} {s' : Store}, w ≤ L → w ≤ w₁ →
      S.Beside w₁ f m s' → S.notes σ.use.id = some d → m.Finds L.layout σ d g := by
  obtain ⟨layer, hlayer, hname⟩ := Scope.distance?_eq_some hd
  obtain ⟨g, l, hl, ho, hn, hg⟩ := hc.ancestor hlayer
  refine ⟨g, fun {S w₁ L m s'} hL hw hm hnoted => ?_⟩
  obtain rfl := hm.current
  have hframes := hm.twins.frames
  have hancestor := hg hw hframes
  have hid : m.distances[σ.use.id]? = some d := (hm.noted _).trans hnoted
  have hbound := hframes.bound g _ (hw.bound g _ (hn _ hname))
  obtain ⟨v, hv⟩ := Option.isSome_iff_exists.1 hbound
  have hget : m.store.getAt? m.current d σ.use.name.lexeme = some v := by
    rw [Store.getAt?, hancestor, Option.bind_some, hv]
  have hholder : m.store.holderAt? m.current d σ.use.name.lexeme = some g := by
    rw [Store.holderAt?, hancestor, Option.filter_some, if_pos hbound]
  refine ⟨hc.lies hL hw hframes, hancestor, ⟨layer, hlayer, ?_, hname⟩, ⟨v, hget, ?_⟩,
    fun u create => ⟨?_, ?_⟩⟩
  · rw [World.layout_of_label (hL.label g l hl), ho]
  · rw [Machine.run_lookUp, hid]
    dsimp only
    rw [hget]
  · rw [Store.assignAt?, hholder, Option.map_some]
  · have htarget : m.target? σ.use.id σ.use.name.lexeme create = some g := by
      rw [Machine.target?, hid]
      exact hholder
    rw [Machine.run_assign, htarget]

/-- Evaluation ends in the frame it started in, and what was known there still is. -/
theorem beside_of_evaluated {e : Expr} {depth : Nat} {v : Value} {m₁ : Machine}
    (hs : S.Sees Γ e.uses) (hc : w.Chain f Γ marks) (hm : S.Beside w f m s')
    (hr : (Below.evaluate (.upTo depth) e).run m = .ok v m₁) :
    ∃ w₁ t', w ≤ w₁ ∧ S.Beside w₁ f m₁ t' := by
  obtain ⟨w₁, hw, out, hends, -⟩ := ((engine_upTo S depth).evaluate hs hc).on hm
  rw [hr] at hends
  cases hends with
  | ok hm₁ _ => exact ⟨w₁, _, hw, hm₁⟩

/-- Every reference of a program that runs finds its variable. -/
theorem Setting.resolves {programs : List (List Stmt)} {e : Expr} {depth : Nat}
    (hsites : ∀ σ, S.sites σ → ∃ ss ∈ programs, σ ∈ Stmt.sitesAll [] ss)
    (hs : S.Sees Γ e.uses) (hc : w.Chain f Γ marks) (hm : S.Beside w f m s') (hL : w ≤ L) :
    e.Resolves L.layout programs (.upTo depth) m := by
  intro u d hu hd
  have hgood : S.Good ⟨Γ, u⟩ := hs u (Expr.reference_mem hu)
  have hnoted : S.notes u.id = some d := (hm.noted _).symm.trans hd
  have hdistance : Site.distance? ⟨Γ, u⟩ = some d := hgood.noted.symm.trans hnoted
  obtain ⟨ss, hss, hσ⟩ := hsites _ hgood.member
  obtain ⟨g, hfinds⟩ := World.Chain.finds (σ := ⟨Γ, u⟩) hc hdistance
  refine ⟨ss, hss, _, hσ, g, rfl, hdistance, hfinds hL w.le_refl hm hnoted,
    fun value v m₁ hvalue hr => ?_⟩
  have hsees : S.Sees Γ value.uses := fun u hu => hs u (Expr.uses_assigned hvalue u hu)
  obtain ⟨w₁, t', hw, hm₁⟩ := beside_of_evaluated hsees hc hm hr
  exact ⟨hm₁.current.trans hm.current.symm, hfinds hL hw hm₁ hnoted⟩

/-- Resolution is sound. Frames can be assigned to scopes so that, throughout any session, each
frame is opened for the scope it is assigned to, and each reference for which a distance was noted
finds its variable in the frame at that distance, which is assigned to the scope where the name was
found. The notes of a program that runs are the distances of its references in their scopes. -/
theorem resolution_sound (interactive : Bool) (input : List UInt8) (output : Output)
    (clock : Supply Int) (chances : Supply Nat) (depth : Nat) (turns : List Turn) :
    let s := Session.start interactive (.start input output clock chances)
    let programs := s.programs (.upTo depth) turns
    (∀ ss ∈ programs, ∃ names, (resolve names ss).faults = [] ∧
      (resolve names ss).distances = notesOf (Stmt.sitesAll [] ss)) ∧
    ∃ layout heritage, Watch.Holds
      ⟨fun below e m => e.Opens layout below m ∧ e.Resolves layout programs below m,
        fun below st m => st.Opens layout heritage below m⟩ depth s turns := by
  intro s programs
  refine ⟨fun ss hss => ?_, ?_⟩
  · obtain ⟨names, lo, hi, hdelivered, hclean⟩ := s.programs_delivered _ turns ss hss
    exact ⟨names, hclean, (resolve_notes hdelivered.proper hclean).1⟩
  obtain ⟨L, hL⟩ := Watch.exists_holds (W := fun L =>
    ⟨fun below e m => e.Opens L.layout below m ∧ e.Resolves L.layout programs below m,
      fun below st m => st.Opens L.layout L.heritage below m⟩)
    interactive input output clock chances depth turns rfl fun S _ hsites =>
      ⟨fun hs hc hm hL hopens => ⟨hopens, S.resolves hsites hs hc hm hL⟩, fun hopens => hopens⟩
  exact ⟨L.layout, L.heritage, hL⟩

end Scriptling
