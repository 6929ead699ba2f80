import Scriptling.Proofs.References

namespace Scriptling

open Machine

inductive Store.Nearest (s : Store) (table : ClassRecord → Table ClosureId) (name : String) :
    ClassId → ClosureId → Prop
  | here {c : ClassId} {r : ClassRecord} {method : ClosureId} : s.classes[c]? = some r →
      (table r).get? name = some method → Nearest s table name c method
  | above {c p : ClassId} {r : ClassRecord} {method : ClosureId} : s.classes[c]? = some r →
      (table r).get? name = none → r.superclass = some p → Nearest s table name p method →
      Nearest s table name c method

/-- The methods that a receiver has: those of instances, or those of classes. -/
def Value.methodsFrom : Value → ClassRecord → Table ClosureId
  | .object _ => ClassRecord.methods
  | _ => ClassRecord.statics

/-- Superclasses are older than their subclasses. -/
def Store.Descends (s : Store) : Prop :=
  ∀ (c : ClassId) (r : ClassRecord) (p : ClassId), s.classes[c]? = some r →
    r.superclass = some p → p < c

/-- There is one nearest method at most. -/
theorem Store.Nearest.unique {s : Store} {table : ClassRecord → Table ClosureId} {name : String}
    {c : ClassId} {k k' : ClosureId} (h : s.Nearest table name c k)
    (h' : s.Nearest table name c k') : k = k' := by
  induction h with
  | here hr hk =>
    cases h' with
    | here hr' hk' =>
      rw [hr] at hr'
      cases hr'
      rw [hk] at hk'
      exact Option.some.inj hk'
    | above hr' hk' =>
      rw [hr] at hr'
      cases hr'
      rw [hk] at hk'
      cases hk'
  | above hr hk hp _ ih =>
    cases h' with
    | here hr' hk' =>
      rw [hr] at hr'
      cases hr'
      rw [hk] at hk'
      cases hk'
    | above hr' _ hp' h' =>
      rw [hr] at hr'
      cases hr'
      rw [hp] at hp'
      cases hp'
      exact ih h'

/-- The way up is no longer than the bound, so the nearest method is found if there is one. -/
theorem Store.Descends.findWithin?_eq_some_iff {s : Store} (hs : s.Descends)
    {table : ClassRecord → Table ClosureId} {name : String} {bound : Nat} {c : ClassId}
    (hc : c < bound) {k : ClosureId} :
    s.findWithin? table name bound c = some k ↔ s.Nearest table name c k := by
  induction bound generalizing c with
  | zero => cases hc
  | succ bound ih =>
    rw [Store.findWithin?]
    cases hr : s.classes[c]? with
    | none =>
      refine ⟨fun h => (by cases h), fun h => ?_⟩
      cases h with
      | here hr' =>
        rw [hr] at hr'
        cases hr'
      | above hr' =>
        rw [hr] at hr'
        cases hr'
    | some r =>
      dsimp only
      cases hk : (table r).get? name with
      | some k' =>
        refine ⟨fun h => ?_, fun h => congrArg some ((Nearest.here hr hk).unique h)⟩
        cases h
        exact .here hr hk
      | none =>
        dsimp only
        rw [Option.bind_eq_some_iff]
        constructor
        · rintro ⟨p, hp, h⟩
          have hlt : p < bound := Nat.lt_of_lt_of_le (hs c r p hr hp) (Nat.le_of_lt_succ hc)
          exact .above hr hk hp ((ih hlt).1 h)
        · intro h
          cases h with
          | here hr' hk' =>
            rw [hr] at hr'
            cases hr'
            rw [hk] at hk'
            cases hk'
          | @above _ p _ _ hr' _ hp h =>
            rw [hr] at hr'
            cases hr'
            have hlt : p < bound := Nat.lt_of_lt_of_le (hs c _ p hr hp) (Nat.le_of_lt_succ hc)
            exact ⟨p, hp, (ih hlt).2 h⟩

/-- The search up the superclasses finds the nearest method. -/
theorem Store.Descends.findFor?_eq_some_iff {s : Store} (hs : s.Descends) (this : Value)
    {name : String} {c : ClassId} {k : ClosureId} :
    s.findFor? this c name = some k ↔ s.Nearest this.methodsFrom name c k := by
  cases this <;> exact hs.findWithin?_eq_some_iff (Nat.lt_succ_self c)

/-- A method bound to a receiver: the same function, in a frame that has the receiver and stands
where the method was made. -/
def Machine.Binds (m : Machine) (method : ClosureId) (receiver v : Value) (m₁ : Machine) : Prop :=
  ∃ c copy f, m.store.closures[method]? = some c ∧ v = .closure copy ∧
    m₁.store.closures[copy]? = some { c with scope := f } ∧
    m₁.store.local? f "this" = some receiver ∧ m₁.store.parent? f = some c.scope

/-- Binding a method that is there gives it its receiver. -/
theorem Machine.run_bindMethod {m : Machine} {method : ClosureId} {c : Closure}
    (hc : m.store.closures[method]? = some c) (receiver : Value) :
    ∃ v m₁, (bindMethod method receiver).run m = .ok v m₁ ∧ m.Binds method receiver v m₁ := by
  refine ⟨(m.store.bindMethod method receiver).1,
    { m with store := (m.store.bindMethod method receiver).2 }, rfl, c, m.store.closures.size,
    m.store.frames.size, hc, ?_, ?_, ?_, ?_⟩
  · rw [Store.bindMethod, hc]
    rfl
  · rw [Store.bindMethod, hc]
    simp [Store.newClosure, Store.openFrame]
  · rw [Store.bindMethod, hc]
    exact (Store.local?_openFrame _ _ _ _ _).trans (if_pos rfl)
  · rw [Store.bindMethod, hc]
    exact (Store.parent?_openFrame _ _ _ _).trans (if_pos rfl)

/-- What evaluating a reference to the superclass's method does. -/
def Machine.Dispatches (m : Machine) (id : ExprId) (keyword method : Token) (c : ClassId)
    (this : Value) : Prop :=
  (∃ found v m₁, m.store.Nearest this.methodsFrom method.lexeme c found ∧
    (Below.evaluateSuper id keyword method).run m = .ok v m₁ ∧ m.Binds found this v m₁) ∨
  ((∀ found, ¬ m.store.Nearest this.methodsFrom method.lexeme c found) ∧
    (Below.evaluateSuper id keyword method).run m =
      .error (.failed (.runtime ⟨.undefinedMethod method.lexeme, method.place⟩)) m)

/-- A machine at a reference to the superclass, in the innermost class around it. The receiver's
frame and the superclass's are next to each other, at the noted distance. -/
structure Machine.SuperAt (layout : FrameId → Option Opener) (heritage : FrameId → Option ClassId)
    (m : Machine) (σ : Site) (d : Nat) (declaration : Stmt) (c : ClassId) (this : Value) :
    Prop where
  noted : m.distances[σ.use.id]? = some (d + 1)
  lies : m.store.Lies layout m.current σ.context
  innermost : ∀ i layer, i < d → σ.context[i]? = some layer → layer.opener.holdsStatements = true
  receiver : ∃ layer g, σ.context[d]? = some layer ∧ layer.opener = .this declaration ∧
    m.store.ancestor? m.current d = some g ∧ layout g = some (.this declaration) ∧
    m.store.local? g "this" = some this
  superclass : ∃ layer g, σ.context[d + 1]? = some layer ∧ layer.opener = .super declaration ∧
    m.store.ancestor? m.current (d + 1) = some g ∧ layout g = some (.super declaration) ∧
    heritage g = some c ∧ m.store.local? g "super" = some (.classRef c)

/-- What is said of a reference to the superclass's method at the moment it is evaluated. -/
def Expr.Inherits (layout : FrameId → Option Opener) (heritage : FrameId → Option ClassId)
    (programs : List (List Stmt)) (m : Machine) : Expr → Prop
  | .super id keyword method => ∃ ss ∈ programs, ∃ σ ∈ Stmt.sitesAll [] ss,
    ∃ d declaration c this, σ.use = ⟨.super, id, keyword⟩ ∧
      m.SuperAt layout heritage σ d declaration c this ∧ m.Dispatches id keyword method c this
  | _ => True

variable {S : Setting} {w L : World} {f : FrameId} {Γ : Context} {marks : List Bool}
  {s' : Store} {m : Machine}

theorem Setting.Twins.descends {s : Store} (h : S.Twins w s s') : s.Descends :=
  fun c r p hr hp => (h.classes.recorded c r hr).superclass p hp

/-- The method that is found is bound to the receiver. -/
theorem Setting.Beside.dispatches (hm : S.Beside w f m s') {id : ExprId} {c : ClassId}
    {this : Value} (hst : Below.superAndThis? m id = some (c, this)) (keyword method : Token) :
    m.Dispatches id keyword method c this := by
  have hiff : ∀ k, m.store.findFor? this c method.lexeme = some k ↔
      m.store.Nearest this.methodsFrom method.lexeme c k :=
    fun _ => hm.twins.descends.findFor?_eq_some_iff this
  have hrun := Machine.run_evaluateSuper m id keyword method
  rw [hst] at hrun
  dsimp only at hrun
  cases hfound : m.store.findFor? this c method.lexeme with
  | none =>
    rw [hfound] at hrun
    refine .inr ⟨fun found hnearest => ?_, hrun⟩
    rw [(hiff found).2 hnearest] at hfound
    cases hfound
  | some found =>
    rw [hfound] at hrun
    obtain ⟨t, ht, -⟩ := hm.twins.findFor_known hfound
    obtain ⟨closure, hclosure, -⟩ := hm.twins.closure ht
    obtain ⟨v, m₁, hv, hbinds⟩ := Machine.run_bindMethod hclosure this
    exact .inl ⟨found, v, m₁, (hiff found).1 hfound, hrun.trans hv, hbinds⟩

/-- The frames of the receiver and of the superclass are there. -/
theorem Setting.superAt {id : ExprId} {keyword : Token}
    (hgood : S.Good ⟨Γ, ⟨.super, id, keyword⟩⟩) (hc : w.Chain f Γ marks) (hm : S.Beside w f m s')
    (hL : w ≤ L) : ∃ d declaration c this,
      m.SuperAt L.layout L.heritage ⟨Γ, ⟨.super, id, keyword⟩⟩ d declaration c this := by
  have hkeyword : keyword.lexeme = "super" := hgood.spelled
  obtain ⟨d, declaration, names, names', hthis, hsuper, hlayer, hlayer', hin⟩ :=
    hgood.formed.derived hgood.allowed
  have hnoted : S.notes id = some (d + 1) := by
    rw [show S.notes id = _ from hgood.noted, Site.distance?, hkeyword]
    exact hsuper
  have hframes := hm.twins.frames
  obtain rfl := hm.current
  obtain ⟨layer, hlayer₁, hname⟩ := Scope.distance?_eq_some hthis
  rw [hlayer] at hlayer₁
  cases hlayer₁
  obtain ⟨g, l, hl, ho, hn, hg⟩ := hc.ancestor hlayer
  obtain ⟨k, l', hl', ho', -, hk⟩ := hc.ancestor hlayer'
  obtain ⟨this, hv⟩ := Option.isSome_iff_exists.1 (hframes.bound g _ (hn _ hname))
  obtain ⟨c, hheritage⟩ := Option.isSome_iff_exists.1 (hframes.derived k l' declaration hl' ho')
  refine ⟨d, declaration, c, this, (hm.noted id).trans hnoted, hc.lies hL w.le_refl hframes, hin,
    ⟨_, g, hlayer, rfl, hg w.le_refl hframes, ?_, hv⟩,
    ⟨_, k, hlayer', rfl, hk w.le_refl hframes, ?_, ?_, hframes.heritage k l' c hl' hheritage⟩⟩
  · rw [World.layout_of_label (hL.label g l hl), ho]
  · rw [World.layout_of_label (hL.label k l' hl'), ho']
  · rw [World.heritage, hL.label k l' hl']
    exact hheritage

/-- At such a reference the superclass and the receiver are found. -/
theorem Machine.SuperAt.superAndThis? {layout : FrameId → Option Opener}
    {heritage : FrameId → Option ClassId} {σ : Site} {d : Nat} {declaration : Stmt} {c : ClassId}
    {this : Value} (h : m.SuperAt layout heritage σ d declaration c this) :
    Below.superAndThis? m σ.use.id = some (c, this) := by
  obtain ⟨_, g, -, -, hg, -, hthis⟩ := h.receiver
  obtain ⟨_, k, -, -, hk, -, -, hsuper⟩ := h.superclass
  have hgetThis : m.store.getAt? m.current d "this" = some this := by
    rw [Store.getAt?, hg, Option.bind_some, hthis]
  have hgetSuper : m.store.getAt? m.current (d + 1) "super" = some (.classRef c) := by
    rw [Store.getAt?, hk, Option.bind_some, hsuper]
  rw [Below.superAndThis?, h.noted]
  dsimp only
  rw [hgetSuper, hgetThis]

/-- What is said of references to the superclass holds at every evaluated one. -/
theorem Setting.inherits {programs : List (List Stmt)} {e : Expr}
    (hsites : ∀ σ, S.sites σ → ∃ ss ∈ programs, σ ∈ Stmt.sitesAll [] ss)
    (hs : S.Sees Γ e.uses) (hc : w.Chain f Γ marks) (hm : S.Beside w f m s') (hL : w ≤ L) :
    e.Inherits L.layout L.heritage programs m := by
  cases e with
  | super id keyword method =>
    have hgood := hs.good
    obtain ⟨ss, hss, hσ⟩ := hsites _ hgood.member
    obtain ⟨d, declaration, c, this, hat⟩ := Setting.superAt hgood hc hm hL
    exact ⟨ss, hss, _, hσ, d, declaration, c, this, rfl, hat,
      hm.dispatches hat.superAndThis? keyword method⟩
  | _ => trivial

/-- References to the superclass are lexical. The resolver notes each at the distance next to that
of the receiver. Throughout any session, with frames assigned to scopes as they are opened, the
superclass's frame has the class that the clause of the innermost class around yielded when that
was declared, and the method is the nearest one from there upwards, bound to the receiver. -/
theorem super_lexical (interactive : Bool) (input : List UInt8) (output : Output)
    (clock : Supply Int) (chances : Supply Nat) (depth : Nat) (turns : List Turn) :
    let s := Session.start interactive (.start input output clock chances)
    let programs := s.programs (.upTo depth) turns
    (∀ ss ∈ programs, ∃ names, (resolve names ss).faults = [] ∧
      ∀ σ ∈ Stmt.sitesAll [] ss, σ.use.role = .super →
        ∃ d, (resolve names ss).distances.lookup σ.use.id = some (d + 1) ∧
          ∀ u : Use, u.name.lexeme = "this" → Site.distance? ⟨σ.context, u⟩ = some d) ∧
    ∃ layout heritage, Watch.Holds
      ⟨fun below e m => e.Opens layout below m ∧ e.Inherits layout heritage programs m,
        fun below st m => st.Opens layout heritage below m⟩ depth s turns := by
  intro s programs
  refine ⟨fun ss hss => ?_, ?_⟩
  · obtain ⟨names, lo, hi, hdelivered, hclean⟩ := s.programs_delivered _ turns ss hss
    refine ⟨names, hclean, fun σ hσ hrole => ?_⟩
    have hallowed := (resolve_notes hdelivered.proper hclean).2 σ hσ
    have hspelled := hdelivered.fair _ (Stmt.uses_sitesAll ss [] ▸ List.mem_map_of_mem hσ)
    have hformed := Stmt.formed_sitesAll ss [] .outside hdelivered.proper σ hσ
    simp only [Site.Allowed, hrole] at hallowed
    simp only [Use.Spelled, hrole] at hspelled
    obtain ⟨d, -, -, -, hthis, hsuper, -⟩ := hformed.derived hallowed
    refine ⟨d, ?_, fun u hu => ?_⟩
    · rw [hdelivered.lookup_site hclean hσ, Site.distance?, hspelled]
      exact hsuper
    · rw [Site.distance?, hu]
      exact hthis
  · obtain ⟨L, hL⟩ := Watch.exists_holds (W := fun L =>
      ⟨fun below e m => e.Opens L.layout below m ∧ e.Inherits L.layout L.heritage programs m,
        fun below st m => st.Opens L.layout L.heritage below m⟩)
      interactive input output clock chances depth turns rfl fun S _ hsites =>
        ⟨fun hs hc hm hL hopens => ⟨hopens, S.inherits hsites hs hc hm hL⟩, fun hopens => hopens⟩
    exact ⟨L.layout, L.heritage, hL⟩

end Scriptling
