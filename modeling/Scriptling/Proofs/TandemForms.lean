import Scriptling.Proofs.Tandem

namespace Scriptling

open Machine

/-- What holds when control leaves a statement: a function that is returned is bound, and only a
statement that skips is left by `next`. -/
def Flow.Leaves (v : Overlay) (skips : Bool) : Flow → Prop
  | .return x => x.Bound v
  | .next _ => skips = true
  | .normal | .break _ => True

theorem Flow.Leaves.mono {v w : Overlay} {skips : Bool} {flow : Flow} (h : flow.Leaves v skips)
    (hv : v ≤ w) : flow.Leaves w skips := by
  cases flow with
  | «return» x => exact Value.Bound.mono h hv
  | _ => exact h

/-- Where nothing is left by `next`, less is known when it may be. -/
theorem Flow.Leaves.imp {v : Overlay} {skips skips' : Bool} {flow : Flow} (h : flow.Leaves v skips)
    (hs : skips = true → skips' = true) : flow.Leaves v skips' := by
  cases flow with
  | next => exact hs h
  | _ => exact h

abbrev leavesAs (skips : Bool) : Overlay → Flow → Prop := fun v flow => flow.Leaves v skips

/-- Two ways to evaluate the parts of a form, which go in tandem. The one that may run out of depth
before the other has no more rounds for a loop than that one. -/
structure Pairing.Engine (P : Pairing) (b b' : Below) : Prop where
  rounds : P.first = true → b.rounds ≤ b'.rounds
  rounds' : P.first = false → b'.rounds ≤ b.rounds
  evaluate : ∀ {v : Overlay} {f f' : FrameId} {ξ : Padding} {e : Expr}, P.MeetsAll ξ e.uses →
    v.Aligned ξ f f' → P.Sim v f f' (b.evaluate e) (b'.evaluate e) boundResult
  execute : ∀ {v : Overlay} {f f' : FrameId} {ξ : Padding} {s s' : Stmt}, P.Stmts ξ s s' →
    v.Aligned ξ f f' → P.Sim v f f' (b.execute s) (b'.execute s') (leavesAs s.skips)

variable {P : Pairing} {v w : Overlay} {f f' g g' : FrameId} {ξ : Padding} {m m' : Machine}
  {b b' : Below}

namespace Builtin

theorem tandem_printValue (site : Token) (x : Value) (ending : Option Value) :
    P.Sim v f f' (printValue site x ending) (printValue site x ending) boundResult := by
  have hprint : ∀ ending : String, P.Sim v f f' (do write ((← text x) ++ ending); pure .nil)
      (do write ((← text x) ++ ending); pure .nil) boundResult := fun ending =>
    (tandem_text x).bind fun _ _ _ _ => (tandem_write _).bind fun _ _ _ _ =>
      .pure fun _ _ => trivial
  unfold printValue
  split
  · exact hprint _
  · exact hprint _
  · exact .fail _ _

theorem tandem_readInput (site : Token) (prompt : Option Value) :
    P.Sim v f f' (readInput site prompt) (readInput site prompt) boundResult := by
  unfold readInput
  split
  · exact tandem_readLine.bind fun u line _ _ => by cases line <;> exact .pure fun _ _ => trivial
  · exact (tandem_write _).bind fun w _ _ _ => tandem_readLine.bind fun u line _ _ => by
      cases line <;> exact .pure fun _ _ => trivial
  · exact .fail _ _

theorem tandem_run (c : Builtin) (site : Token) (arguments : List Value) :
    P.Sim v f f' (c.run site arguments) (c.run site arguments) boundResult := by
  unfold Builtin.run
  split
  · exact tandem_readClock.bind fun w millis _ _ => .pure fun _ _ => trivial
  · exact tandem_printValue _ _ _
  · unfold numberText
    split
    · exact .pure fun _ _ => trivial
    · exact .fail _ _
  · exact tandem_readInput _ _
  · unfold parseNumber
    split
    · split
      · exact .pure fun _ _ => trivial
      · exact .fail _ _
    · exact .fail _ _
  · exact .pure fun _ _ => trivial
  · unfold squareRoot
    split
    · split
      · exact .pure fun _ _ => trivial
      · exact .fail _ _
    · exact .fail _ _
  · unfold randomWhole
    split
    · split
      · exact (tandem_chance _).bind fun w n _ _ => .pure fun _ _ => trivial
      · exact .fail _ _
    · exact .fail _ _
  · rename_i x _
    refine .get fun w m m' _ hm => ?_
    rw [hm.stores.typeName_eq]
    exact .ok w.le_refl hm trivial
  · exact .pure fun _ _ => trivial
  · exact .pure fun _ _ => trivial

end Builtin

theorem Value.Constant.bound {x : Value} (h : x.Constant) : x.Bound v := by
  cases x <;> trivial

theorem tandem_numberOperand (operator : Token) (x : Value) :
    P.Sim v f f' (Below.numberOperand operator x) (Below.numberOperand operator x) anyEnd := by
  unfold Below.numberOperand
  split
  · exact .pure fun _ _ => trivial
  · exact .fail _ _

theorem tandem_applyUnary (operator : Token) (x : Value) :
    P.Sim v f f' (Below.applyUnary operator x) (Below.applyUnary operator x) boundResult := by
  unfold Below.applyUnary
  split
  · exact (tandem_numberOperand operator x).bind fun _ _ _ _ => .pure fun _ _ => trivial
  · exact .pure fun _ _ => trivial

theorem tandem_applyBinary (operator : Token) (l r : Value) :
    P.Sim v f f' (Below.applyBinary operator l r) (Below.applyBinary operator l r) boundResult :=
  tandem_checked operator fun _ hx _ _ => (Operator.constant_apply hx).bound

theorem tandem_applyCompound (operator : Token) (old operand : Value) :
    P.Sim v f f' (Below.applyCompound operator old operand)
      (Below.applyCompound operator old operand) boundResult :=
  tandem_checked operator fun _ hx _ _ => (Operator.constant_apply hx).bound

namespace Pairing.Engine

variable (h : P.Engine b b')
include h

/-- Expressions in order give bound values on both sides. -/
theorem evaluateAll (es : List Expr) (hu : P.MeetsAll ξ (Expr.usesAll es))
    (ha : v.Aligned ξ f f') : P.Sim v f f' (b.evaluateAll es) (b'.evaluateAll es)
      fun w xs => ∀ x ∈ xs, x.Bound w := by
  induction es generalizing v with
  | nil => exact .pure fun _ _ => by simp
  | cons e es ih =>
    refine (h.evaluate hu.left ha).bind fun w x hw hx => ?_
    refine (ih hu.right (ha.mono hw)).bind fun u xs hu hxs => .pure fun t ht => ?_
    intro y hy
    rcases List.mem_cons.1 hy with rfl | hy
    · exact hx.mono (Overlay.le_trans hu ht)
    · exact (hxs y hy).mono ht

theorem evaluateLast (last : Value) (es : List Expr) (hl : last.Bound v)
    (hu : P.MeetsAll ξ (Expr.usesAll es)) (ha : v.Aligned ξ f f') :
    P.Sim v f f' (b.evaluateLast last es) (b'.evaluateLast last es) boundResult := by
  induction es generalizing v last with
  | nil => exact .pure fun _ hw => hl.mono hw
  | cons e es ih =>
    exact (h.evaluate hu.left ha).bind fun w x hw hx => ih x hx hu.right (ha.mono hw)

theorem evaluate? (o : Option Expr) (hu : P.MeetsAll ξ (Expr.uses? o)) (ha : v.Aligned ξ f f') :
    P.Sim v f f' (b.evaluate? o) (b'.evaluate? o) boundResult := by
  cases o with
  | none => exact .pure fun _ _ => trivial
  | some e => exact h.evaluate hu ha

theorem evaluateLogical {left right : Expr} (operator : Token)
    (hu : P.MeetsAll ξ (left.uses ++ right.uses)) (ha : v.Aligned ξ f f') :
    P.Sim v f f' (b.evaluateLogical left operator right) (b'.evaluateLogical left operator right)
      boundResult := by
  refine (h.evaluate hu.left ha).bind fun w x hw hx => ?_
  dsimp only
  generalize (if operator.kind = .or then x.truthy else !x.truthy) = decided
  cases decided with
  | true => exact .pure fun _ hw => hx.mono hw
  | false => exact h.evaluate hu.right (ha.mono hw)

theorem evaluateTernary {condition whenTrue whenFalse : Expr}
    (hu : P.MeetsAll ξ (condition.uses ++ (whenTrue.uses ++ whenFalse.uses)))
    (ha : v.Aligned ξ f f') :
    P.Sim v f f' (b.evaluateTernary condition whenTrue whenFalse)
      (b'.evaluateTernary condition whenTrue whenFalse) boundResult := by
  refine (h.evaluate hu.right.right ha).bind fun w no hw hno => ?_
  refine (h.evaluate hu.right.left (ha.mono hw)).bind fun u yes hu₁ hyes => ?_
  refine (h.evaluate hu.left (ha.mono (Overlay.le_trans hw hu₁))).bind fun t c ht _ =>
    .pure fun z hz => ?_
  split
  · exact hyes.mono (Overlay.le_trans ht hz)
  · exact hno.mono (Overlay.le_trans hu₁ (Overlay.le_trans ht hz))

/-- An assignment is written in twin frames. -/
theorem assignment {id : ExprId} {name : Token} {value : Expr}
    (hu : P.MeetsAll ξ (value.uses ++ [⟨.variable, id, name⟩])) (ha : v.Aligned ξ f f') :
    P.Sim v f f' (do let x ← b.evaluate value; assign id name x true; pure x)
      (do let x ← b'.evaluate value; assign id name x true; pure x) boundResult := by
  refine (h.evaluate hu.left ha).bind fun w x hw hx => ?_
  refine (tandem_assign hu.right.single (ha.mono hw) hx true).bind fun u _ hu₁ _ => ?_
  exact .pure fun t ht => hx.mono (Overlay.le_trans hu₁ ht)

theorem evaluateCompoundAssign {id : ExprId} {name : Token} {value : Expr} (operator : Token)
    (hu : P.MeetsAll ξ (value.uses ++ [⟨.variable, id, name⟩])) (ha : v.Aligned ξ f f') :
    P.Sim v f f' (b.evaluateCompoundAssign id name operator value)
      (b'.evaluateCompoundAssign id name operator value) boundResult := by
  refine (tandem_lookUp hu.right.single ha).bind fun w old hw _ => ?_
  refine (h.evaluate hu.left (ha.mono hw)).bind fun u operand hu₁ _ => ?_
  refine (tandem_applyCompound operator old operand).bind fun t new ht hnew => ?_
  have hv := Overlay.le_trans hw (Overlay.le_trans hu₁ ht)
  refine (tandem_assign hu.right.single (ha.mono hv) hnew false).bind fun z _ hz _ => ?_
  exact .pure fun y hy => hnew.mono (Overlay.le_trans hz hy)

theorem evaluateSet {object value : Expr} (name : Token)
    (hu : P.MeetsAll ξ (value.uses ++ object.uses)) (ha : v.Aligned ξ f f') :
    P.Sim v f f' (b.evaluateSet object name value) (b'.evaluateSet object name value)
      boundResult := by
  refine (h.evaluate hu.right ha).bind fun w o hw _ => ?_
  refine (h.evaluate hu.left (ha.mono hw)).bind fun u x _ hx => ?_
  refine (tandem_writeProperty hx name).bind fun t _ ht _ => ?_
  exact .pure fun z hz => hx.mono (Overlay.le_trans ht hz)

theorem evaluateCompoundSet {object value : Expr} (name operator : Token)
    (hu : P.MeetsAll ξ (value.uses ++ object.uses)) (ha : v.Aligned ξ f f') :
    P.Sim v f f' (b.evaluateCompoundSet object name operator value)
      (b'.evaluateCompoundSet object name operator value) boundResult := by
  refine (h.evaluate hu.right ha).bind fun w o hw ho => ?_
  refine (tandem_readProperty ho name).bind fun u old hu₁ _ => ?_
  refine (h.evaluate hu.left (ha.mono (Overlay.le_trans hw hu₁))).bind fun t operand _ _ => ?_
  refine (tandem_applyCompound operator old operand).bind fun z new _ hnew => ?_
  refine (tandem_writeProperty hnew name).bind fun y _ hy _ => ?_
  exact .pure fun x hx => hnew.mono (Overlay.le_trans hy hx)

theorem evaluateUpdate (operator : Token) (target : Expr) (before : Bool)
    (hu : P.MeetsAll ξ target.uses) (ha : v.Aligned ξ f f') :
    P.Sim v f f' (b.evaluateUpdate operator target before)
      (b'.evaluateUpdate operator target before) boundResult := by
  cases target with
  | var id name =>
    refine (tandem_lookUp hu.single ha).bind fun w x hw _ => ?_
    refine (tandem_numberOperand operator x).bind fun u old hu₁ _ => ?_
    refine (tandem_assign hu.single (ha.mono (Overlay.le_trans hw hu₁)) (x := .number _) trivial
      false).bind fun t _ _ _ => ?_
    exact .pure fun _ _ => trivial
  | get object name =>
    refine (h.evaluate (e := object) hu ha).bind fun w o _ ho => ?_
    refine (tandem_readProperty ho name).bind fun u x _ _ => ?_
    refine (tandem_numberOperand operator x).bind fun t old _ _ => ?_
    refine (tandem_writeProperty (x := .number _) trivial name).bind fun z _ _ _ => ?_
    exact .pure fun _ _ => trivial
  | _ => exact .fail _ _

end Pairing.Engine

/-- The superclass and the receiver are found in twins. -/
theorem superAndThis?_tandem {u : Use} (hu : P.Meets ξ u) (hr : u.role = .super)
    (ha : v.Aligned ξ f f') (hm : P.Beside v f f' m m') :
    Below.superAndThis? m' u.id = Below.superAndThis? m u.id := by
  unfold Below.superAndThis?
  rw [hm.noted, hm.noted', hu.noted, hm.current, hm.current']
  cases hd : P.notes u.id with
  | none => rfl
  | some d =>
    obtain ⟨k, rfl, hk⟩ := hu.super hr d hd
    have hsuper := hm.stores.frames.getAt?_eq ha (k + 1) "super"
    have hthis := hm.stores.frames.getAt?_eq ha k "this"
    rw [hk] at hsuper
    rw [Option.map_some, hk]
    dsimp only
    rw [hsuper, hthis]

/-- The receiver of a running method is bound. -/
theorem superAndThis?_bound (hm : P.Beside v f f' m m') {id : ExprId} {c : ClassId} {this : Value}
    (h : Below.superAndThis? m id = some (c, this)) : this.Bound v := by
  obtain ⟨g, hg⟩ := superAndThis?_local h
  exact hm.stores.frames.bound _ _ _ hg

theorem tandem_evaluateSuper {id : ExprId} {keyword : Token} (method : Token)
    (hu : P.Meets ξ ⟨.super, id, keyword⟩) (ha : v.Aligned ξ f f') :
    P.Sim v f f' (Below.evaluateSuper id keyword method) (Below.evaluateSuper id keyword method)
      boundResult := by
  intro w m m' hw hm
  rw [Machine.run_evaluateSuper, Machine.run_evaluateSuper,
    superAndThis?_tandem hu rfl (ha.mono hw) hm]
  cases hst : Below.superAndThis? m id with
  | none => exact .failed w.le_refl hm
  | some p =>
    obtain ⟨c, this⟩ := p
    have hfind : m'.store.findFor? this c method.lexeme =
        m.store.findFor? this c method.lexeme := by
      cases this <;>
        simp only [Store.findFor?, hm.stores.findMethod?_eq, hm.stores.findStatic?_eq]
    dsimp only
    rw [hfind]
    cases hfound : m.store.findFor? this c method.lexeme with
    | none => exact .failed w.le_refl hm
    | some k =>
      have hk : w.kind k false := by
        cases this with
        | object o => exact hm.stores.method_unbound hfound
        | _ => exact hm.stores.static_unbound hfound
      refine ((tandem_bindMethod hk (superAndThis?_bound hm hst)).on hm).weaken fun u y _ hy => ?_
      obtain ⟨copy, rfl, hcopy⟩ := hy
      exact hcopy

/-- The receiver is in twins as well. -/
theorem tandem_receiver {bound : Bool} {c c' : Closure} (hc : P.Twins v bound c c') :
    P.Sim v f f' (Below.receiver c) (Below.receiver c') boundResult := by
  intro w m m' hw hm
  obtain ⟨-, ξ, hξ, ha, -⟩ := hc
  have hlocal := hm.stores.frames.local?_eq (hw.twin _ _ (ha.twin hξ)) "this"
  change P.Ends w f f' _ (.ok ((m.store.local? c.scope "this").getD .nil) m)
    (.ok ((m'.store.local? c'.scope "this").getD .nil) m')
  rw [hlocal]
  refine .ok w.le_refl hm ?_
  cases hx : m.store.local? c.scope "this" with
  | none => trivial
  | some x => exact hm.stores.frames.bound _ _ _ hx

namespace Pairing.Engine

variable (h : P.Engine b b')
include h

/-- Statements in order leave alike, unless one side runs out of depth. -/
theorem executeAll {ss ss' : List Stmt} (hs : P.Bodies ξ ss ss') (ha : v.Aligned ξ f f') :
    P.Sim v f f' (b.executeAll ss) (b'.executeAll ss') (leavesAs (Stmt.skipsAll ss)) := by
  induction ss generalizing v ss' with
  | nil =>
    cases hs
    exact .pure fun _ _ => trivial
  | cons s ss ih =>
    cases hs with
    | cons hs hss =>
      refine (h.execute hs ha).bind fun w flow hw hflow => ?_
      have hskips : s.skips = true → Stmt.skipsAll (s :: ss) = true := fun h => by
        rw [Stmt.skipsAll, h, Bool.true_or]
      cases flow with
      | normal =>
        refine (ih hss (ha.mono hw)).weaken fun u flow _ hflow => hflow.imp fun h => ?_
        rw [Stmt.skipsAll, h, Bool.or_true]
      | _ => exact .pure fun u hu => (hflow.mono hu).imp hskips

/-- Parameters get their values one after the other. -/
theorem bindParams (paren : Token) {ps : List Param} {arguments : List Value}
    (hu : P.MeetsAll ξ (Param.usesAll ps)) (hx : ∀ x ∈ arguments, x.Bound v) (hξ : ξ.Level)
    (ha : v.Aligned ξ g g') :
    P.Sim v f f' (b.bindParams g paren ps arguments) (b'.bindParams g' paren ps arguments)
      anyEnd := by
  have ht := ha.twin hξ
  induction ps generalizing v arguments with
  | nil => exact .pure fun _ _ => trivial
  | cons p ps ih =>
    cases arguments with
    | cons x xs =>
      refine (tandem_define ht p.name.lexeme (hx x (by simp))).bind fun w _ hw _ => ?_
      exact ih hu.right (fun y hy => (hx y (by simp [hy])).mono hw) (ha.mono hw) (hw.twin g g' ht)
    | nil =>
      obtain ⟨name, fallback⟩ := p
      cases fallback with
      | none => exact .fail _ _
      | some e =>
        refine (h.evaluate (e := e) hu.left ha).inFrame.bind fun w x hw hx => ?_
        refine (tandem_define (hw.twin g g' ht) name.lexeme hx).bind fun u _ hu₁ _ => ?_
        have hv := Overlay.le_trans hw hu₁
        exact ih hu.right (by simp) (ha.mono hv) (hv.twin g g' ht)

/-- What a call does in the frame that was opened for it. -/
theorem callIn {c c' : Closure} (hc : P.Twins v true c c') {arguments : List Value}
    (hx : ∀ x ∈ arguments, x.Bound v) (paren : Token) (hd : P.Functions ξ c.decl c'.decl)
    (ha : v.Aligned (false :: ξ) g g') :
    P.Sim v f f' (b.callIn c arguments paren g) (b'.callIn c' arguments paren g') boundResult := by
  obtain ⟨decl, scope, initializer⟩ := c
  obtain ⟨decl', scope', initializer'⟩ := c'
  obtain rfl : initializer' = initializer := hc.initializer
  cases hd with
  | @body _ name params body body' hparams hbody =>
    refine (h.bindParams paren hparams hx (Padding.level_cons ξ) ha).bind fun w _ hw _ => ?_
    refine (h.executeAll hbody (ha.mono hw)).inFrame.bind fun u flow hu hflow => ?_
    have hreceiver := hc.mono (Overlay.le_trans hw hu)
    cases flow with
    | normal =>
      dsimp only
      split
      · exact tandem_receiver hreceiver
      · exact .pure fun _ _ => trivial
    | «return» x =>
      dsimp only
      split
      · exact tandem_receiver hreceiver
      · exact .pure fun _ ht => Value.Bound.mono hflow ht
    | «break» keyword => exact .fail keyword .breakOutsideLoop
    | next keyword => exact .fail keyword .nextOutsideLoop

theorem callClosureId {id : ClosureId} (hk : v.kind id true) {arguments : List Value}
    (hx : ∀ x ∈ arguments, x.Bound v) (paren : Token) :
    P.Sim v f f' (b.callClosureId id arguments paren) (b'.callClosureId id arguments paren)
      boundResult := by
  intro w m m' hw hm
  obtain ⟨c, c', hc, hc', htwins⟩ := hm.stores.closure (hw.kind id true hk)
  rw [Below.run_callClosureId hc, Below.run_callClosureId hc', Below.callClosure_eq,
    Below.callClosure_eq]
  have htwins' := htwins
  obtain ⟨-, ξ, -, ha, hd⟩ := htwins'
  refine (tandem_openFrame (fun _ _ hb => by cases hb) fun u g g' hu => ?_).on hm
  have hv := Overlay.le_trans hu (u.le_openFrames g g' c.scope c'.scope)
  exact h.callIn (htwins.mono hv) (fun x hmem => (hx x hmem).mono (Overlay.le_trans hw hv)) paren hd
    ((ha.mono hu).opened g g')

theorem instantiate (hm : P.Beside v f f' m m') {c : ClassId} {arguments : List Value}
    (hcounted : ¬ (arguments.length < (m.store.classArity c).least ∨
      (m.store.classArity c).most < arguments.length)) (hx : ∀ x ∈ arguments, x.Bound v)
    (paren : Token) :
    P.Ends v f f' boundResult ((b.instantiate c arguments paren).run m)
      ((b'.instantiate c arguments paren).run m') := by
  have hm₁ := hm.withStores (hm.stores.newObject c)
  have hobjects : m'.store.objects.size = m.store.objects.size := by rw [hm.stores.classes.objects]
  have harity : m'.store.classArity c = m.store.classArity c :=
    Option.some_inj.1 (hm.stores.arity?_eq (.classRef c))
  rw [Below.run_instantiate b hcounted, Below.run_instantiate b' (harity ▸ hcounted),
    hm.stores.findMethod?_eq, hobjects]
  cases hinit : m.store.findMethod? c "init" with
  | none => exact .ok v.le_refl hm₁ trivial
  | some method =>
    have hinitialise : P.Sim v f f'
        (b.initialise (.object m.store.objects.size) arguments paren method)
        (b'.initialise (.object m.store.objects.size) arguments paren method) boundResult := by
      refine (tandem_bindMethod (hm.stores.method_unbound hinit) (x := .object _) trivial).bind
        fun u y hu hy => ?_
      obtain ⟨copy, rfl, hcopy⟩ := hy
      refine (h.callClosureId hcopy (fun x hmem =>
        (hx x hmem).mono hu) paren).discard.bind fun t _ _ _ => ?_
      exact .pure fun _ _ => trivial
    exact hinitialise.on hm₁

/-- Whatever is called goes in tandem. -/
theorem call {callee : Value} (hc : callee.Bound v) {arguments : List Value}
    (hx : ∀ x ∈ arguments, x.Bound v) (paren : Token) :
    P.Sim v f f' (b.call callee arguments paren) (b'.call callee arguments paren)
      boundResult := by
  intro w m m' hw hm
  rw [Below.run_call, Below.run_call, hm.stores.arity?_eq]
  cases harity : m.store.arity? callee with
  | none => exact .failed w.le_refl hm
  | some arity =>
    dsimp only
    split
    · exact .failed w.le_refl hm
    · rename_i hcounted
      cases callee with
      | closure id => exact h.callClosureId hc hx paren w m m' hw hm
      | builtin c => exact Builtin.tandem_run c paren arguments w m m' hw hm
      | classRef c =>
        cases harity
        exact h.instantiate hm hcounted (fun x hmem => (hx x hmem).mono hw) paren
      | _ => exact Pairing.Sim.fail _ _ w m m' hw hm

/-- And so does every form of expression. -/
theorem evaluateStep {e : Expr} (hu : P.MeetsAll ξ e.uses) (ha : v.Aligned ξ f f') :
    P.Sim v f f' (b.evaluateStep e) (b'.evaluateStep e) boundResult := by
  cases e with
  | literal value => exact .pure fun w _ => Value.bound_ofLiteral w value
  | group inner => exact h.evaluate (e := inner) hu ha
  | unary operator operand =>
    exact (h.evaluate (e := operand) hu ha).bind fun _ x _ _ => tandem_applyUnary operator x
  | binary left operator right =>
    exact (h.evaluate hu.left ha).bind fun _ l hw _ =>
      (h.evaluate hu.right (ha.mono hw)).bind fun _ r _ _ => tandem_applyBinary operator l r
  | logical left operator right => exact h.evaluateLogical operator hu ha
  | ternary condition whenTrue whenFalse => exact h.evaluateTernary hu ha
  | comma items => exact h.evaluateLast .nil items trivial hu ha
  | var id name => exact tandem_lookUp hu.single ha
  | assign id name value => exact h.assignment hu ha
  | compoundAssign id name operator value => exact h.evaluateCompoundAssign operator hu ha
  | update operator target before => exact h.evaluateUpdate operator target before hu ha
  | call callee paren arguments =>
    refine (h.evaluate hu.left ha).bind fun w x hw hx => ?_
    refine (h.evaluateAll arguments hu.right (ha.mono hw)).bind fun u xs hu₁ hxs => ?_
    exact h.call (hx.mono hu₁) hxs paren
  | get object name =>
    exact (h.evaluate (e := object) hu ha).bind fun _ o _ ho => tandem_readProperty ho name
  | set object name value => exact h.evaluateSet name hu ha
  | compoundSet object name operator value => exact h.evaluateCompoundSet name operator hu ha
  | this id keyword => exact tandem_lookUp hu.single ha
  | super id keyword method => exact tandem_evaluateSuper method hu.single ha

end Pairing.Engine

end Scriptling
