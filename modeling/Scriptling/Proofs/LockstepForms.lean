import Scriptling.Eval
import Scriptling.Proofs.LockstepSteps

namespace Scriptling

open Machine

/-- What holds when control leaves a statement: after the normal end the scopes are as given. -/
def Flow.Settles (w : World) (f : FrameId) (Γ : Context) (marks : List Bool) : Flow → Prop
  | .normal => w.Chain f Γ marks
  | .return v => v.Known w
  | .break _ => True
  | .next _ => True

/-- A statement of an accepted program, and how its scopes are picked. -/
structure Setting.Fits (S : Setting) (Γ : Context) (pick : Opener → Bool) (marks : List Bool)
    (s : Stmt) : Prop where
  good : ∀ σ ∈ s.sites Γ, S.Good σ
  proper : s.Proper
  keeps : s.Keeps S.toRenaming pick marks
  floor : Γ.Floor
  still : ¬ S.Moves → pick = pickNone ∧ Unmarked marks

/-- Two ways to evaluate the parts of a form, which go side by side. -/
structure Setting.Engine (S : Setting) (b : Below) (b' : World → Below) : Prop where
  rounds : ∀ L, (b' L).rounds = b.rounds
  evaluate : ∀ {w : World} {f : FrameId} {Γ : Context} {marks : List Bool} {e : Expr},
    S.Sees Γ e.uses → w.Chain f Γ marks →
    S.Sim w f (b.evaluate e) (fun L => (b' L).evaluate (e.turn (S.use marks))) knownResult
  execute : ∀ {w : World} {f : FrameId} {Γ : Context} {pick : Opener → Bool} {marks : List Bool}
    {s : Stmt}, S.Fits Γ pick marks s → w.Chain f Γ marks →
    S.Sim w f (b.execute s) (fun L => (b' L).execute (s.rename S.toRenaming pick marks))
      fun w flow => flow.Settles w f (s.after Γ) marks

variable {S : Setting} {w : World} {f g : FrameId} {Γ : Context} {marks : List Bool}
  {s' : Store} {m : Machine} {b : Below} {b' : World → Below}

theorem Setting.Sees.left {us vs : List Use} (h : S.Sees Γ (us ++ vs)) : S.Sees Γ us :=
  fun u hu => h u (List.mem_append_left _ hu)

theorem Setting.Sees.right {us vs : List Use} (h : S.Sees Γ (us ++ vs)) : S.Sees Γ vs :=
  fun u hu => h u (List.mem_append_right _ hu)

theorem Setting.Sees.good {u : Use} (h : S.Sees Γ [u]) : S.Good ⟨Γ, u⟩ := h u (by simp)

namespace Setting.Engine

variable (h : S.Engine b b')
include h

theorem sim_evaluateAll (es : List Expr) (hs : S.Sees Γ (Expr.usesAll es))
    (hc : w.Chain f Γ marks) :
    S.Sim w f (b.evaluateAll es) (fun L => (b' L).evaluateAll (es.map (Expr.turn (S.use marks))))
      fun w vs => ∀ v ∈ vs, v.Known w := by
  induction es generalizing w with
  | nil => exact .pure fun _ _ => by simp
  | cons e es ih =>
    refine (h.evaluate hs.left hc).bind fun w₁ v hw hv => ?_
    refine (ih hs.right (hc.mono hw)).bind fun w₂ vs hw₂ hvs => .pure fun w₃ hw₃ => ?_
    intro u hu
    rcases List.mem_cons.1 hu with rfl | hu
    · exact hv.mono (World.le_trans hw₂ hw₃)
    · exact (hvs u hu).mono hw₃

theorem sim_evaluateLast (last : Value) (es : List Expr) (hl : last.Known w)
    (hs : S.Sees Γ (Expr.usesAll es)) (hc : w.Chain f Γ marks) :
    S.Sim w f (b.evaluateLast last es)
      (fun L => (b' L).evaluateLast last (es.map (Expr.turn (S.use marks)))) knownResult := by
  induction es generalizing w last with
  | nil => exact .pure fun _ hw => hl.mono hw
  | cons e es ih =>
    exact (h.evaluate hs.left hc).bind fun w₁ v hw hv => ih v hv hs.right (hc.mono hw)

theorem sim_evaluate? (o : Option Expr) (hs : S.Sees Γ (Expr.uses? o)) (hc : w.Chain f Γ marks) :
    S.Sim w f (b.evaluate? o) (fun L => (b' L).evaluate? (o.map (Expr.turn (S.use marks))))
      knownResult := by
  cases o with
  | none => exact .pure fun _ _ => trivial
  | some e => exact h.evaluate hs hc

end Setting.Engine

theorem sim_numberOperand (operator : Token) (v : Value) :
    S.Sim w f (Below.numberOperand operator v) (fun _ => Below.numberOperand operator v)
      anyResult := by
  unfold Below.numberOperand
  split
  · exact .pure fun _ _ => trivial
  · exact .fail _ _

theorem sim_applyUnary (operator : Token) (v : Value) :
    S.Sim w f (Below.applyUnary operator v) (fun _ => Below.applyUnary operator v)
      knownResult := by
  unfold Below.applyUnary
  split
  · exact (sim_numberOperand operator v).bind fun _ _ _ _ => .pure fun _ _ => trivial
  · exact .pure fun _ _ => trivial

theorem sim_applyBinary (operator : Token) (l r : Value) :
    S.Sim w f (Below.applyBinary operator l r) (fun _ => Below.applyBinary operator l r)
      knownResult :=
  sim_checked operator fun _ hv _ _ => Operator.known_apply hv

theorem sim_applyCompound (operator : Token) (old operand : Value) :
    S.Sim w f (Below.applyCompound operator old operand)
      (fun _ => Below.applyCompound operator old operand) knownResult :=
  sim_checked operator fun _ hv _ _ => Operator.known_apply hv

namespace Setting.Engine

variable (h : S.Engine b b')
include h

theorem sim_evaluateLogical {left right : Expr} (operator : Token)
    (hs : S.Sees Γ (left.uses ++ right.uses)) (hc : w.Chain f Γ marks) :
    S.Sim w f (b.evaluateLogical left operator right)
      (fun L => (b' L).evaluateLogical (left.turn (S.use marks)) operator
        (right.turn (S.use marks))) knownResult := by
  refine (h.evaluate hs.left hc).bind fun w₁ v hw hv => ?_
  dsimp only
  generalize (if operator.kind = .or then v.truthy else !v.truthy) = decided
  cases decided with
  | true => exact .pure fun _ hw₁ => hv.mono hw₁
  | false => exact h.evaluate hs.right (hc.mono hw)

theorem sim_evaluateTernary {condition whenTrue whenFalse : Expr}
    (hs : S.Sees Γ (condition.uses ++ (whenTrue.uses ++ whenFalse.uses)))
    (hc : w.Chain f Γ marks) :
    S.Sim w f (b.evaluateTernary condition whenTrue whenFalse)
      (fun L => (b' L).evaluateTernary (condition.turn (S.use marks))
        (whenTrue.turn (S.use marks)) (whenFalse.turn (S.use marks))) knownResult := by
  refine (h.evaluate hs.right.right hc).bind fun w₁ no hw₁ hno => ?_
  refine (h.evaluate hs.right.left (hc.mono hw₁)).bind fun w₂ yes hw₂ hyes => ?_
  have hw := World.le_trans hw₁ hw₂
  refine (h.evaluate hs.left (hc.mono hw)).bind fun w₃ c hw₃ _ => .pure fun w₄ hw₄ => ?_
  split
  · exact hyes.mono (World.le_trans hw₃ hw₄)
  · exact hno.mono (World.le_trans hw₂ (World.le_trans hw₃ hw₄))

theorem sim_assignment {id : ExprId} {name : Token} {value : Expr}
    (hs : S.Sees Γ (value.uses ++ [⟨.variable, id, name⟩])) (hc : w.Chain f Γ marks) :
    S.Sim w f (do let v ← b.evaluate value; assign id name v true; pure v)
      (fun L => do
        let v ← (b' L).evaluate (value.turn (S.use marks))
        assign (S.use marks ⟨.variable, id, name⟩).id (S.use marks ⟨.variable, id, name⟩).name v true
        pure v) knownResult := by
  refine (h.evaluate hs.left hc).bind fun w₁ v hw hv => ?_
  refine (sim_assign hs.right.good rfl (hc.mono hw) hv true).bind fun w₂ _ hw₂ _ => ?_
  exact .pure fun w₃ hw₃ => hv.mono (World.le_trans hw₂ hw₃)

theorem sim_evaluateCompoundAssign {id : ExprId} {name : Token} {value : Expr} (operator : Token)
    (hs : S.Sees Γ (value.uses ++ [⟨.variable, id, name⟩])) (hc : w.Chain f Γ marks) :
    S.Sim w f (b.evaluateCompoundAssign id name operator value)
      (fun L => (b' L).evaluateCompoundAssign (S.use marks ⟨.variable, id, name⟩).id
        (S.use marks ⟨.variable, id, name⟩).name operator (value.turn (S.use marks)))
      knownResult := by
  refine (sim_lookUp hs.right.good hc).bind fun w₁ old hw₁ _ => ?_
  refine (h.evaluate hs.left (hc.mono hw₁)).bind fun w₂ operand hw₂ _ => ?_
  refine (sim_applyCompound operator old operand).bind fun w₃ new hw₃ hnew => ?_
  have hw := World.le_trans hw₁ (World.le_trans hw₂ hw₃)
  refine (sim_assign hs.right.good rfl (hc.mono hw) hnew false).bind fun w₄ _ hw₄ _ => ?_
  exact .pure fun w₅ hw₅ => hnew.mono (World.le_trans hw₄ hw₅)

theorem sim_evaluateSet {object value : Expr} (name : Token)
    (hs : S.Sees Γ (value.uses ++ object.uses)) (hc : w.Chain f Γ marks) :
    S.Sim w f (b.evaluateSet object name value)
      (fun L => (b' L).evaluateSet (object.turn (S.use marks)) name (value.turn (S.use marks)))
      knownResult := by
  refine (h.evaluate hs.right hc).bind fun w₁ o hw₁ _ => ?_
  refine (h.evaluate hs.left (hc.mono hw₁)).bind fun w₂ v hw₂ hv => ?_
  refine (sim_writeProperty hv name).bind fun w₃ _ hw₃ _ => ?_
  exact .pure fun w₄ hw₄ => hv.mono (World.le_trans hw₃ hw₄)

end Setting.Engine

namespace Setting.Engine

variable (h : S.Engine b b')
include h

/-- A property is read, and something is done with it. -/
theorem sim_ofProperty {β : Type} {object : Expr} {R : World → β → Prop}
    {k : Value → Value → Eval β} {k' : World → Value → Value → Eval β} (name : Token)
    (hs : S.Sees Γ object.uses) (hc : w.Chain f Γ marks) (hm : S.Beside w f m s')
    (hk : ∀ w₁ o v, w ≤ w₁ → o.Known w₁ → S.Sim w₁ f (k o v) (fun L => k' L o v) R) :
    S.SimAt w f (fun L => object.OpensReceiver L.layout b m name)
      ((do let o ← b.evaluate object; k o (← readProperty o name)).run m)
      (fun L => (do
        let o ← (b' L).evaluate (object.turn (S.use marks))
        k' L o (← readProperty o name)).run { m with store := s' }) R := by
  refine ((h.evaluate hs hc).on hm).bind (fun w₁ o m₁ t₁ hw₁ hr₁ hm₁ ho => ?_)
    fun e m₁ he L o m₂ method hobject => ?_
  · refine ((sim_readProperty ho name hm₁).bind_pinned (fun w₂ v m₂ t₂ hw₂ hpin _ hm₂ _ => ?_)
      fun _ _ _ _ hpin => hpin).pin fun L _ hL o' m₂ method hobject hproperty => ?_
    · exact ((hk w₂ o v (World.le_trans hw₁ hw₂) (ho.mono hw₂)).on hm₂).pin
        fun L hL _ => hpin L hL
    · rw [hr₁] at hobject
      cases hobject
      exact hL method hproperty
  · rw [he] at hobject
    cases hobject

theorem sim_evaluateCompoundSet {object value : Expr} (name operator : Token)
    (hs : S.Sees Γ (value.uses ++ object.uses)) (hc : w.Chain f Γ marks)
    (hm : S.Beside w f m s') :
    S.SimAt w f (fun L => object.OpensReceiver L.layout b m name)
      ((b.evaluateCompoundSet object name operator value).run m)
      (fun L => ((b' L).evaluateCompoundSet (object.turn (S.use marks)) name operator
        (value.turn (S.use marks))).run { m with store := s' }) knownResult := by
  refine h.sim_ofProperty name hs.right hc hm fun w₂ o old hw₂ ho => ?_
  refine (h.evaluate hs.left (hc.mono hw₂)).bind fun w₃ operand hw₃ _ => ?_
  refine (sim_applyCompound operator old operand).bind fun w₄ new hw₄ hnew => ?_
  refine (sim_writeProperty hnew name).bind fun w₅ _ hw₅ _ => ?_
  exact .pure fun w₆ hw₆ => hnew.mono (World.le_trans hw₅ hw₆)

theorem sim_evaluateUpdate (operator : Token) (target : Expr) (before : Bool)
    (hs : S.Sees Γ target.uses) (hc : w.Chain f Γ marks) (hm : S.Beside w f m s') :
    S.SimAt w f (fun L => (Expr.update operator target before).Opens L.layout b m)
      ((b.evaluateUpdate operator target before).run m)
      (fun L => ((b' L).evaluateUpdate operator (target.turn (S.use marks)) before).run
        { m with store := s' }) knownResult := by
  cases target with
  | var id name =>
    have hsim : S.Sim w f (b.evaluateUpdate operator (.var id name) before)
        (fun L => (b' L).evaluateUpdate operator ((Expr.var id name).turn (S.use marks)) before)
        knownResult := by
      refine (sim_lookUp hs.good hc).bind fun w₁ v hw₁ _ => ?_
      refine (sim_numberOperand operator v).bind fun w₂ old hw₂ _ => ?_
      have hw := World.le_trans hw₁ hw₂
      refine (sim_assign hs.good rfl (hc.mono hw) (v := .number _) trivial false).bind
        fun w₃ _ _ _ => ?_
      exact .pure fun _ _ => trivial
    exact (hsim.on hm).pin fun _ _ _ => trivial
  | get object name =>
    refine h.sim_ofProperty name hs hc hm fun w₁ o v hw₁ ho => ?_
    refine (sim_numberOperand operator v).bind fun w₂ old _ _ => ?_
    refine (sim_writeProperty (v := .number _) trivial name).bind fun w₃ _ _ _ => ?_
    exact .pure fun _ _ => trivial
  | _ => exact (Setting.SimAt.error hm).pin fun _ _ _ => trivial

end Setting.Engine

theorem superAndThis?_eq (hm : S.Beside w f m s') (id : ExprId) :
    Below.superAndThis? { m with store := s' } id = Below.superAndThis? m id := by
  unfold Below.superAndThis?
  simp only [hm.twins.getAt?_keyword fun mark => S.image_super mark,
    hm.twins.getAt?_keyword fun mark => S.image_this mark]

theorem Store.getAt?_eq_some {s : Store} {d : Nat} {name : String} {v : Value}
    (h : s.getAt? f d name = some v) : ∃ g, s.local? g name = some v := by
  obtain ⟨g, -, hv⟩ := Option.bind_eq_some_iff.1 h
  exact ⟨g, hv⟩

/-- The receiver of a running method is a variable of some frame. -/
theorem superAndThis?_local {id : ExprId} {c : ClassId} {this : Value}
    (h : Below.superAndThis? m id = some (c, this)) : ∃ g, m.store.local? g "this" = some this := by
  unfold Below.superAndThis? at h
  split at h
  · split at h
    · rename_i hthis
      cases h
      exact Store.getAt?_eq_some hthis
    · cases h
  · cases h

/-- This receiver is known. -/
theorem superAndThis?_known (hm : S.Beside w f m s') {id : ExprId} {c : ClassId} {this : Value}
    (h : Below.superAndThis? m id = some (c, this)) : this.Known w := by
  obtain ⟨g, hg⟩ := superAndThis?_local h
  exact hm.twins.frames.known _ _ _ hg

/-- What a reference to the superclass's method does on a machine. -/
theorem Machine.run_evaluateSuper (m : Machine) (id : ExprId) (keyword method : Token) :
    (Below.evaluateSuper id keyword method).run m =
      match Below.superAndThis? m id with
      | none => .error (.failed (.runtime ⟨.superOutsideClass, keyword.place⟩)) m
      | some (c, this) =>
        match m.store.findFor? this c method.lexeme with
        | some found => (bindMethod found this).run m
        | none => .error (.failed (.runtime ⟨.undefinedMethod method.lexeme, method.place⟩)) m := by
  change EStateM.run (match Below.superAndThis? m id with
    | none => fail keyword .superOutsideClass
    | some (c, this) => _) m = _
  cases Below.superAndThis? m id with
  | none => rfl
  | some p =>
    obtain ⟨c, this⟩ := p
    change EStateM.run (match m.store.findFor? this c method.lexeme with
      | some found => bindMethod found this
      | none => fail method (.undefinedMethod method.lexeme)) m = _
    dsimp only
    cases m.store.findFor? this c method.lexeme <;> rfl

/-- Methods that are found for a receiver are not bound yet. -/
theorem Setting.Twins.findFor_known {s : Store} (h : S.Twins w s s') {this : Value} {c : ClassId}
    {name : String} {k : ClosureId} (hk : s.findFor? this c name = some k) :
    ∃ t, w.typing k = some t ∧ t.bound = false := by
  cases this with
  | object o => exact h.method_known hk
  | _ => exact h.static_known hk

theorem sim_evaluateSuper (id : ExprId) (keyword keyword' method : Token)
    (hk : keyword'.place = keyword.place) (hm : S.Beside w f m s') :
    S.SimAt w f
      (fun L => ∀ (c : ClassId) (this : Value) (found : ClosureId),
        Below.superAndThis? m id = some (c, this) →
        m.store.findFor? this c method.lexeme = some found → m.store.Receives L.layout found)
      ((Below.evaluateSuper id keyword method).run m)
      (fun _ => (Below.evaluateSuper id keyword' method).run { m with store := s' })
      knownResult := by
  refine Setting.SimAt.congr ?_ fun L _ => Machine.run_evaluateSuper _ _ _ _
  rw [Machine.run_evaluateSuper, superAndThis?_eq hm, hk]
  cases hst : Below.superAndThis? m id with
  | none => exact (Setting.SimAt.error hm).pin fun _ _ _ _ _ _ h => by cases h
  | some p =>
    obtain ⟨c, this⟩ := p
    have hfind : s'.findFor? this c method.lexeme = m.store.findFor? this c method.lexeme := by
      cases this <;> simp only [Store.findFor?, hm.twins.findMethod?_eq, hm.twins.findStatic?_eq]
    dsimp only
    rw [hfind]
    cases hfound : m.store.findFor? this c method.lexeme with
    | none =>
      refine (Setting.SimAt.error hm).pin fun _ _ _ c' this' found h hf => ?_
      cases h
      rw [hfound] at hf
      cases hf
    | some found =>
      obtain ⟨t, ht, hb⟩ := hm.twins.findFor_known hfound
      refine ((sim_bindMethod ht hb (superAndThis?_known hm hst) hm).weaken fun w₁ v _ hv => ?_).pin
        fun L _ hreceives c' this' found' h hf => ?_
      · obtain ⟨copy, rfl, hcopy⟩ := hv
        exact ⟨_, hcopy, rfl⟩
      · cases h
        rw [hfound] at hf
        cases hf
        exact hreceives

end Scriptling
