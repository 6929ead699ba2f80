import Scriptling.Proofs.InquirySteps

namespace Scriptling

open Machine

/-- The functions that a call runs are those that its frames can be opened for. -/
def Value.TiesCall (tie : FrameId → FunctionDecl → Prop) (s : Store) (arguments : List Value)
    (callee : Value) : Prop :=
  match callee with
  | .closure id => ∀ c, s.closures[id]? = some c →
    c.decl.arity.least ≤ arguments.length → arguments.length ≤ c.decl.arity.most →
    tie s.frames.size c.decl
  | .classRef c => ∀ method init, s.findMethod? c "init" = some method →
    s.closures[method]? = some init →
    init.decl.arity.least ≤ arguments.length → arguments.length ≤ init.decl.arity.most →
    tie (s.frames.size + 1) init.decl
  | _ => True

def Expr.Ties (tie : FrameId → FunctionDecl → Prop) (below : Below) (m : Machine) : Expr → Prop
  | .call callee _ arguments => ∀ (v : Value) (vs : List Value) (m₁ m₂ : Machine),
    (below.evaluate callee).run m = .ok v m₁ → (below.evaluateAll arguments).run m₁ = .ok vs m₂ →
    v.TiesCall tie m₂.store vs
  | _ => True

/-- A call's frame has the function that is called. Before an instance is initialised, the
initializer is copied for it. -/
def Value.MakesCall (origin : ClosureId → Option Origin) (caller : FrameId → Option ClosureId)
    (s : Store) (arguments : List Value) (callee : Value) : Prop :=
  match callee with
  | .closure id => ∀ c, s.closures[id]? = some c →
    c.decl.arity.least ≤ arguments.length → arguments.length ≤ c.decl.arity.most →
    caller s.frames.size = some id
  | .classRef c => ∀ method init, s.findMethod? c "init" = some method →
    s.closures[method]? = some init →
    init.decl.arity.least ≤ arguments.length → arguments.length ≤ init.decl.arity.most →
    s.Copies origin method ∧ caller (s.frames.size + 1) = some s.closures.size
  | _ => True

def Expr.CopiesRead (origin : ClosureId → Option Origin) (below : Below) (m : Machine)
    (object : Expr) (name : Token) : Prop :=
  ∀ (o : Value) (m₁ : Machine) (method : ClosureId), (below.evaluate object).run m = .ok o m₁ →
    m₁.store.property o name.lexeme = .ok (.method method) → m₁.store.Copies origin method

def Expr.Makes (origin : ClosureId → Option Origin) (caller : FrameId → Option ClosureId)
    (below : Below) (m : Machine) : Expr → Prop
  | .call callee _ arguments => ∀ (v : Value) (vs : List Value) (m₁ m₂ : Machine),
    (below.evaluate callee).run m = .ok v m₁ → (below.evaluateAll arguments).run m₁ = .ok vs m₂ →
    (∀ u ∈ v :: vs, u.Rightful origin m₂.store) ∧ v.MakesCall origin caller m₂.store vs
  | .get object name => object.CopiesRead origin below m name
  | .compoundSet object name _ _ => object.CopiesRead origin below m name
  | .update _ (.get object name) _ => object.CopiesRead origin below m name
  | .super id _ method => ∀ (c : ClassId) (this : Value) (found : ClosureId),
    Below.superAndThis? m id = some (c, this) →
    m.store.findFor? this c method.lexeme = some found → m.store.Copies origin found
  | _ => True

def Flow.Rightful (t : Terms) (r : Register) : Flow → Prop
  | .normal => True
  | .return v => v.Rightful r.origin r.store
  | .break keyword => t.token keyword
  | .next keyword => t.token keyword

structure Inquiry.Engine (I : Inquiry) (t : Terms) : Prop where
  rounds : ∀ b, I.Has b → b.rounds = I.plain.rounds
  evaluate : ∀ {r : Register} {f : FrameId} {e : Expr}, e.Within t.token →
    I.Sim t r f (fun b => b.evaluate e) Inquiry.rightful
  execute : ∀ {r : Register} {f : FrameId} {s : Stmt}, s.Within t.token →
    I.Sim t r f (fun b => b.execute s) fun r flow => flow.Rightful t r

variable {I : Inquiry} {t : Terms} {r r₁ : Register} {f g : FrameId} {m : Machine}

theorem Value.Rightful.later {s : Store} {v : Value} (h : v.Rightful r.origin s) (hr : r ≤ r₁) :
    v.Rightful r₁.origin s :=
  ⟨h.allocated, fun id hid =>
    let ⟨o, ho, hcallable⟩ := h.callable id hid
    ⟨o, hr.origin id o ho, hcallable⟩⟩

/-- A call with too few or too many arguments opens no frame. -/
theorem Value.makesCall_of_miscounted {s : Store} {origin : ClosureId → Option Origin}
    {caller : FrameId → Option ClosureId} {callee : Value} {arguments : List Value}
    (h : ∀ arity, s.arity? callee = some arity →
      arguments.length < arity.least ∨ arity.most < arguments.length) :
    callee.MakesCall origin caller s arguments := by
  cases callee with
  | closure id =>
    intro c hc hleast hmost
    have hcount := h c.decl.arity (by simp [Store.arity?, hc])
    omega
  | classRef c =>
    intro method init hmethod hinit hleast hmost
    have hcount := h init.decl.arity (by simp [Store.arity?, Store.classArity, hmethod, hinit])
    omega
  | _ => trivial

namespace Inquiry

theorem sim_receiver (c : Closure) : I.Sim t r f (fun _ => Below.receiver c) rightful := by
  intro r₁ m _ hm
  refine .alone r₁.le_refl (.ok hm ?_)
  rw [hm.store]
  cases hv : r₁.store.local? c.scope "this" with
  | none => exact Value.Constant.rightful (v := .nil) trivial _ _
  | some v => exact hm.sound.local? hv

namespace Engine

variable (h : I.Engine t)
include h

theorem sim_evaluateAll {es : List Expr} (hes : Expr.WithinAll t.token es) :
    I.Sim t r f (fun b => b.evaluateAll es) fun r vs => ∀ v ∈ vs, rightful r v := by
  induction es generalizing r with
  | nil => exact .pure fun _ _ => by simp
  | cons e es ih =>
    refine (h.evaluate hes.1).bind fun r₁ v hr hv => ?_
    refine (ih hes.2).bind fun r₂ vs hr₂ hvs => .pure fun r₃ hr₃ => ?_
    intro u hu
    rcases List.mem_cons.1 hu with rfl | hu
    · exact hv.mono (Register.le_trans hr₂ hr₃)
    · exact (hvs u hu).mono hr₃

theorem sim_evaluateLast {last : Value} (hlast : rightful r last) {es : List Expr}
    (hes : Expr.WithinAll t.token es) :
    I.Sim t r f (fun b => b.evaluateLast last es) rightful := by
  induction es generalizing r last with
  | nil => exact .pure fun _ hr => hlast.mono hr
  | cons e es ih => exact (h.evaluate hes.1).bind fun r₁ v _ hv => ih hv hes.2

theorem sim_evaluate? {o : Option Expr} (ho : ∀ e ∈ o, e.Within t.token) :
    I.Sim t r f (fun b => b.evaluate? o) rightful := by
  cases o with
  | none => exact .pure fun _ _ => Value.Constant.rightful (v := .nil) trivial _ _
  | some e => exact h.evaluate (ho e rfl)

theorem sim_executeAll {ss : List Stmt} (hss : Stmt.WithinAll t.token ss) :
    I.Sim t r f (fun b => b.executeAll ss) fun r flow => flow.Rightful t r := by
  induction ss generalizing r with
  | nil => exact .pure fun _ _ => trivial
  | cons s ss ih =>
    refine (h.execute hss.1).bind fun r₁ flow hr hflow => ?_
    cases flow with
    | normal => exact ih hss.2
    | «return» v => exact .pure fun _ hr₁ => Value.Rightful.mono hflow hr₁
    | «break» keyword => exact .pure fun _ _ => hflow
    | next keyword => exact .pure fun _ _ => hflow

/-- Parameters are named in the frame of the call. -/
theorem sim_bindParams (hg : r.store.Ground g) {paren : Token} (hparen : t.token paren)
    {ps : List Param} (hps : ∀ p ∈ ps, p.Within t.token) {arguments : List Value}
    (harguments : ∀ v ∈ arguments, rightful r v) :
    I.Sim t r f (fun b => b.bindParams g paren ps arguments) anything := by
  induction ps generalizing r arguments with
  | nil => exact .pure fun _ _ => trivial
  | cons p ps ih =>
    have hp := hps p (by simp)
    have hrest : ∀ q ∈ ps, q.Within t.token := fun q hq => hps q (by simp [hq])
    cases arguments with
    | cons v vs =>
      refine (sim_define hg hp.1.plain (harguments v (by simp))).bind fun r₁ _ hr _ => ?_
      exact ih (hg.mono hr.store) hrest fun u hu => (harguments u (by simp [hu])).mono hr
    | nil =>
      unfold Below.bindParams
      split
      · exact .fail hparen
      · rename_i e he
        refine (Sim.inFrame (h.evaluate (hp.2 e he)) hg).bind fun r₁ v hr hv => ?_
        have hg₁ := hg.mono hr.store
        refine (sim_define hg₁ hp.1.plain hv).bind fun r₂ _ hr₂ _ => ?_
        exact ih (hg₁.mono hr₂.store) hrest (by simp)

theorem sim_callIn (hg : r.store.Ground g) {c : Closure} (hc : c.decl.Within t.token)
    {paren : Token} (hparen : t.token paren) {arguments : List Value}
    (harguments : ∀ v ∈ arguments, rightful r v) :
    I.Sim t r f (fun b => b.callIn c arguments paren g) rightful := by
  obtain ⟨-, hparams, hbody⟩ := hc.parts
  refine (h.sim_bindParams hg hparen hparams harguments).bind fun r₁ _ hr _ => ?_
  refine (Sim.inFrame (h.sim_executeAll hbody) (hg.mono hr.store)).bind fun r₂ flow _ hflow => ?_
  cases flow with
  | normal =>
    dsimp only
    split
    · exact sim_receiver c
    · exact .pure fun _ _ => Value.Constant.rightful (v := .nil) trivial _ _
  | «return» v =>
    dsimp only
    split
    · exact sim_receiver c
    · exact .pure fun _ hr₂ => Value.Rightful.mono hflow hr₂
  | «break» keyword => exact .fail hflow
  | next keyword => exact .fail hflow

/-- A call opens a frame for the function that is called. -/
theorem simAt_callClosureId (hm : r.At t f m) {id : ClosureId} {c : Closure}
    (hc : r.store.closures[id]? = some c) (htie : t.tie r.store.frames.size c.decl)
    {paren : Token} (hparen : t.token paren) {arguments : List Value}
    (harguments : ∀ v ∈ arguments, rightful r v) :
    I.SimAt t r f (fun L => L.caller r.store.frames.size = some id)
      (fun b => b.callClosureId id arguments paren) m rightful := by
  have hk := hm.sound.closures id c hc
  have hr := hm.sound.le_openFrame c.scope [] (some id)
  have hopen : (r.openFrame c.scope [] (some id)).Sound t :=
    hm.sound.openFrame [] (some id) hk.scope (fun _ _ hv => by cases hv) (fun _ hv => by cases hv)
      (fun _ => rfl) fun k hk => by
        cases hk
        exact ⟨c, hc, rfl, htie⟩
  have hground := r.ground_openFrame c.scope (some id)
  have hcalled : (r.openFrame c.scope [] (some id)).caller r.store.frames.size = some id :=
    if_pos rfl
  refine ((h.sim_callIn hground hk.decl hparen fun v hv => (harguments v hv).mono hr).on
    (hm.enter hr hopen)).congr (fun b _ => ?_) |>.pin (fun L hL _ => hL.caller _ _ hcalled)
      |>.from_later hr
  rw [← hm.store] at hc ⊢
  rw [Below.run_callClosureId hc, Below.callClosure_eq]
  refine (Eval.run_bind_ok (Machine.run_openFrame m c.scope [])).trans ?_
  rw [Register.openFrame, ← hm.store]

/-- The initializer is copied for the new instance, and the copy is called. -/
theorem simAt_instantiate (hm : r.At t f m) {c : ClassId} (hc : c < r.store.classes.size)
    {paren : Token} (hparen : t.token paren) {arguments : List Value}
    (harguments : ∀ v ∈ arguments, rightful r v)
    (hcounted : ¬ (arguments.length < (r.store.classArity c).least ∨
      (r.store.classArity c).most < arguments.length))
    (hties : (Value.classRef c).TiesCall t.tie r.store arguments) :
    I.SimAt t r f
      (fun L => (Value.classRef c).MakesCall L.origin L.caller r.store arguments)
      (fun b => b.instantiate c arguments paren) m rightful := by
  have hr := r.le_newObject c
  have hm₁ := hm.enter hr (hm.sound.newObject hc)
  have hrun := fun b : Below => Below.run_instantiate b (m := m) (hm.store ▸ hcounted) paren
  rw [hm.store] at hrun
  have hmade : rightful { r with store := (r.store.newObject c).2 }
      (.object r.store.objects.size) := by
    refine ⟨?_, fun _ h => by cases h⟩
    change r.store.objects.size < (r.store.objects.push _).size
    rw [Array.size_push]
    exact Nat.lt_succ_self _
  cases hfound : r.store.findMethod? c "init" with
  | none =>
    refine ((SimAt.pure hm₁ hmade).congr fun b _ => ?_).pin (fun L _ _ method init hmethod => ?_)
      |>.from_later hr
    · rw [hrun, hfound]
      rfl
    · rw [hfound] at hmethod
      cases hmethod
  | some method =>
    obtain ⟨d, hinherits, ho⟩ := hm.sound.findMethod? hfound
    obtain ⟨k, hk, -, -⟩ := hm.sound.method ho
    have harity : r.store.classArity c = k.decl.arity := by
      simp [Store.classArity, hfound, hk]
    rw [harity, not_or, Nat.not_lt, Nat.not_lt] at hcounted
    have hserves : (r.store.newObject c).2.Serves (.object r.store.objects.size) d false :=
      ⟨_, ⟨c, []⟩, rfl, Array.getElem?_push_size, hinherits.mono hr.store.grows⟩
    have hpins : I.SimAt t { r with store := (r.store.newObject c).2 } f
        (fun L => r.store.Copies L.origin method ∧
          L.caller (r.store.frames.size + 1) = some r.store.closures.size)
        (fun b => b.initialise (.object r.store.objects.size) arguments paren method)
        { m with store := (r.store.newObject c).2 } rightful := by
      refine SimAt.bind_pinned (simAt_copyMethod hm₁ ho hserves hmade)
        (fun r₂ v m₂ hr₂ hpin _ hm₂ hcopy => ?_) fun _ _ hrun => by cases hrun
      obtain ⟨-, rfl, hframe, hclosure⟩ := hcopy
      replace hframe : r₂.store.frames.size = r.store.frames.size + 1 := hframe
      have htie := hties method k hfound hk hcounted.1 hcounted.2
      rw [← hframe] at htie ⊢
      have hcalled := h.simAt_callClosureId hm₂ (hclosure k hk) htie hparen
        fun v hv => ((harguments v hv).mono hr).mono hr₂
      exact (hcalled.discard.map fun r₃ _ hr₃ _ => (hmade.mono hr₂).mono hr₃).pin
        fun L hL hcaller => ⟨hpin L hL, hcaller⟩
    refine (hpins.congr fun b _ => ?_).pin (fun L _ hL method' init hmethod _ _ _ => ?_)
      |>.from_later hr
    · rw [hrun, hfound]
    · rw [hfound] at hmethod
      cases hmethod
      exact hL

theorem simAt_callCounted (hm : r.At t f m) {callee : Value} (hcallee : rightful r callee)
    {paren : Token} (hparen : t.token paren) {arguments : List Value}
    (harguments : ∀ v ∈ arguments, rightful r v)
    (hties : callee.TiesCall t.tie r.store arguments) {arity : Arity}
    (harity : r.store.arity? callee = some arity)
    (hcount : ¬ (arguments.length < arity.least ∨ arity.most < arguments.length)) :
    I.SimAt t r f (fun L => callee.MakesCall L.origin L.caller r.store arguments)
      (fun b => b.callCounted callee arguments paren) m rightful := by
  cases callee with
  | closure id =>
    rw [Store.arity?] at harity
    obtain ⟨c, hc, rfl⟩ := Option.map_eq_some_iff.1 harity
    rw [not_or, Nat.not_lt, Nat.not_lt] at hcount
    exact (h.simAt_callClosureId hm hc (hties c hc hcount.1 hcount.2) hparen harguments).pin
      fun _ _ hcaller _ _ _ _ => hcaller
  | builtin b => exact ((sim_builtin b hparen arguments).on hm).pin fun _ _ _ => trivial
  | classRef c =>
    cases harity
    exact h.simAt_instantiate hm hcallee.allocated hparen harguments hcount hties
  | _ => exact SimAt.pin (.fail hm hparen) fun _ _ _ => trivial

/-- Arguments are counted before anything is called. -/
theorem simAt_call (hm : r.At t f m) {callee : Value} (hcallee : rightful r callee) {paren : Token}
    (hparen : t.token paren) {arguments : List Value} (harguments : ∀ v ∈ arguments, rightful r v)
    (hties : callee.TiesCall t.tie r.store arguments) :
    I.SimAt t r f (fun L => callee.MakesCall L.origin L.caller r.store arguments)
      (fun b => b.call callee arguments paren) m rightful := by
  have hrun := fun b : Below => Below.run_call b m callee arguments paren
  have hfail : ∀ fault, I.SimAt t r f anyRegister (fun _ => Machine.fail paren fault) m rightful :=
    fun _ => .fail hm hparen
  rw [hm.store] at hrun
  cases harity : r.store.arity? callee with
  | none =>
    simp only [harity] at hrun
    refine ((hfail .notCallable).congr fun b _ => hrun b).pin fun _ _ _ => ?_
    apply Value.makesCall_of_miscounted
    intro _ h
    rw [harity] at h
    cases h
  | some arity =>
    simp only [harity] at hrun
    by_cases hcount : arguments.length < arity.least ∨ arity.most < arguments.length
    · simp only [if_pos hcount] at hrun
      refine ((hfail (.argumentCount arity.least arity.most arguments.length)).congr
        fun b _ => hrun b).pin fun _ _ _ => ?_
      apply Value.makesCall_of_miscounted
      intro _ h
      rw [harity] at h
      cases h
      exact hcount
    · simp only [if_neg hcount] at hrun
      exact (h.simAt_callCounted hm hcallee hparen harguments hties harity hcount).congr
        fun b _ => hrun b

theorem sim_evaluateLogical {left right : Expr} (operator : Token) (hleft : left.Within t.token)
    (hright : right.Within t.token) :
    I.Sim t r f (fun b => b.evaluateLogical left operator right) rightful := by
  refine (h.evaluate hleft).bind fun r₁ v _ hv => ?_
  dsimp only
  generalize (if operator.kind = .or then v.truthy else !v.truthy) = decided
  cases decided with
  | true => exact .pure fun _ hr => hv.mono hr
  | false => exact h.evaluate hright

theorem sim_evaluateTernary {condition whenTrue whenFalse : Expr}
    (hcondition : condition.Within t.token) (htrue : whenTrue.Within t.token)
    (hfalse : whenFalse.Within t.token) :
    I.Sim t r f (fun b => b.evaluateTernary condition whenTrue whenFalse) rightful := by
  refine (h.evaluate hfalse).bind fun r₁ no _ hno => ?_
  refine (h.evaluate htrue).bind fun r₂ yes hr₂ hyes => ?_
  refine (h.evaluate hcondition).bind fun r₃ c hr₃ _ => .pure fun r₄ hr₄ => ?_
  have hr := Register.le_trans hr₃ hr₄
  split
  · exact hyes.mono hr
  · exact hno.mono (Register.le_trans hr₂ hr)

theorem sim_evaluateCompoundAssign (id : ExprId) {name operator : Token} {value : Expr}
    (hname : name.NameIn t.token) (hoperator : t.token operator) (hvalue : value.Within t.token) :
    I.Sim t r f (fun b => b.evaluateCompoundAssign id name operator value) rightful := by
  refine (sim_lookUp id hname.token).bind fun r₁ old _ _ => ?_
  refine (h.evaluate hvalue).bind fun r₂ operand _ _ => ?_
  refine (sim_operator hoperator _ old operand).bind fun r₃ new _ hnew => ?_
  refine (sim_assign id hname hnew false).bind fun r₄ _ hr₄ _ => ?_
  exact .pure fun r₅ hr₅ => hnew.mono (Register.le_trans hr₄ hr₅)

theorem sim_evaluateSet {object value : Expr} {name : Token} (hobject : object.Within t.token)
    (hname : t.token name) (hvalue : value.Within t.token) :
    I.Sim t r f (fun b => b.evaluateSet object name value) rightful := by
  refine (h.evaluate hobject).bind fun r₁ o _ _ => ?_
  refine (h.evaluate hvalue).bind fun r₂ v _ hv => ?_
  refine (sim_writeProperty o hname hv).bind fun r₃ _ hr₃ _ => ?_
  exact .pure fun r₄ hr₄ => hv.mono (Register.le_trans hr₃ hr₄)

/-- A property is read, and something is done with it. -/
theorem simAt_ofProperty {β : Type} {object : Expr} {Q : Register → β → Prop}
    {k : Below → Value → Value → Eval β} {name : Token} (hobject : object.Within t.token)
    (hname : t.token name) (hm : r.At t f m)
    (hk : ∀ r₁ o v, I.Sim t r₁ f (fun b => k b o v) Q) :
    I.SimAt t r f (fun L => object.CopiesRead L.origin I.plain m name)
      (fun b => do let o ← b.evaluate object; k b o (← readProperty o name)) m Q := by
  refine ((h.evaluate hobject).on hm).bind (fun r₁ o m₁ _ hrun hm₁ ho => ?_)
    fun e m₁ he L o m₂ method hobject => ?_
  · have hread := simAt_readProperty (I := I) hm₁ ho hname
    refine (hread.bind_pinned (fun r₂ v m₂ _ hpin _ hm₂ _ => ?_) fun _ _ _ _ hpin => hpin).pin
      fun L _ hL o' m₂ method hobject hproperty => ?_
    · exact ((hk r₂ o v).on hm₂).pin fun L hL _ => hpin L hL
    · rw [hrun] at hobject
      cases hobject
      rw [hm₁.store] at hproperty ⊢
      exact hL method hproperty
  · rw [he] at hobject
    cases hobject

theorem simAt_evaluateCompoundSet {object value : Expr} {name operator : Token}
    (hobject : object.Within t.token) (hname : t.token name) (hoperator : t.token operator)
    (hvalue : value.Within t.token) (hm : r.At t f m) :
    I.SimAt t r f (fun L => object.CopiesRead L.origin I.plain m name)
      (fun b => b.evaluateCompoundSet object name operator value) m rightful := by
  refine h.simAt_ofProperty hobject hname hm fun r₁ o old => ?_
  refine (h.evaluate hvalue).bind fun r₂ operand _ _ => ?_
  refine (sim_operator hoperator _ old operand).bind fun r₃ new _ hnew => ?_
  refine (sim_writeProperty o hname hnew).bind fun r₄ _ hr₄ _ => ?_
  exact .pure fun r₅ hr₅ => hnew.mono (Register.le_trans hr₄ hr₅)

theorem simAt_evaluateUpdate {operator : Token} {target : Expr} (before : Bool)
    (hoperator : t.token operator) (htarget : target.Within t.token) (hm : r.At t f m) :
    I.SimAt t r f
      (fun L => (Expr.update operator target before).Makes L.origin L.caller I.plain m)
      (fun b => b.evaluateUpdate operator target before) m rightful := by
  cases target with
  | var id name =>
    have hsim : I.Sim t r f (fun b => b.evaluateUpdate operator (.var id name) before)
        rightful := by
      refine (sim_lookUp id htarget.token).bind fun r₁ v _ _ => ?_
      refine (sim_numberOperand hoperator v).bind fun r₂ old _ _ => ?_
      refine (sim_assign id htarget (rightful_number _ _) false).bind fun r₃ _ _ _ => ?_
      exact .pure fun _ _ => rightful_number _ _
    exact (hsim.on hm).pin fun _ _ _ => trivial
  | get object name =>
    refine h.simAt_ofProperty htarget.1 htarget.2 hm fun r₁ o v => ?_
    refine (sim_numberOperand hoperator v).bind fun r₂ old _ _ => ?_
    refine (sim_writeProperty o htarget.2 (rightful_number _ _)).bind fun r₃ _ _ _ => ?_
    exact .pure fun _ _ => rightful_number _ _
  | _ => exact SimAt.pin (.fail hm hoperator) fun _ _ _ => trivial

/-- One step of evaluating an expression. -/
theorem simAt_evaluateStep {e : Expr} (he : e.Within t.token) (hm : r.At t f m)
    (hties : e.Ties t.tie I.plain m) :
    I.SimAt t r f (fun L => e.Makes L.origin L.caller I.plain m) (fun b => b.evaluateStep e) m
      rightful := by
  cases e with
  | literal value =>
    refine SimAt.pin (.pure hm (Value.Constant.rightful ?_ _ _)) fun _ _ _ => trivial
    cases value <;> trivial
  | group inner => exact ((h.evaluate (e := inner) he).on hm).pin fun _ _ _ => trivial
  | unary operator operand =>
    have hsim := (h.evaluate (r := r) (f := f) he.2).bind
      (G := fun _ v => Below.applyUnary operator v) fun _ v _ _ => sim_applyUnary he.1 v
    exact (hsim.on hm).pin fun _ _ _ => trivial
  | binary left operator right =>
    have hsim : I.Sim t r f (fun b => b.evaluateStep (.binary left operator right)) rightful :=
      (h.evaluate he.1).bind fun _ l _ _ => (h.evaluate he.2.2).bind fun _ u _ _ =>
        sim_operator he.2.1 _ l u
    exact (hsim.on hm).pin fun _ _ _ => trivial
  | logical left operator right =>
    exact ((h.sim_evaluateLogical operator he.1 he.2.2).on hm).pin fun _ _ _ => trivial
  | ternary condition whenTrue whenFalse =>
    exact ((h.sim_evaluateTernary he.1 he.2.1 he.2.2).on hm).pin fun _ _ _ => trivial
  | comma items =>
    have hnil := Value.Constant.rightful (v := .nil) trivial r.origin r.store
    exact ((h.sim_evaluateLast hnil he).on hm).pin fun _ _ _ => trivial
  | var id name => exact ((sim_lookUp id he.token).on hm).pin fun _ _ _ => trivial
  | assign id name value =>
    have hsim : I.Sim t r f (fun b => b.evaluateStep (.assign id name value)) rightful :=
      (h.evaluate he.2).bind fun _ v _ hv => (sim_assign id he.1 hv true).bind fun _ _ hr _ =>
        .pure fun _ hr₁ => hv.mono (Register.le_trans hr hr₁)
    exact (hsim.on hm).pin fun _ _ _ => trivial
  | compoundAssign id name operator value =>
    exact ((h.sim_evaluateCompoundAssign id he.1 he.2.1 he.2.2).on hm).pin fun _ _ _ => trivial
  | update operator target before => exact h.simAt_evaluateUpdate before he.1 he.2 hm
  | call callee paren arguments =>
    refine ((h.evaluate he.1).on hm).bind (fun r₁ v m₁ _ hrun₁ hm₁ hv => ?_) ?_
    · refine ((h.sim_evaluateAll he.2.2).on hm₁).bind (fun r₂ vs m₂ hr₂ hrun₂ hm₂ hvs => ?_) ?_
      · have hv₂ := hv.mono hr₂
        have htie := hties v vs m₁ m₂ hrun₁ hrun₂
        rw [hm₂.store] at htie
        refine (h.simAt_call hm₂ hv₂ he.2.1 hvs htie).pin
          fun L hL hcall u us m₃ m₄ hcallee harguments => ?_
        rw [hrun₁] at hcallee
        cases hcallee
        rw [hrun₂] at harguments
        cases harguments
        rw [hm₂.store]
        refine ⟨fun u hu => ?_, hcall⟩
        rcases List.mem_cons.1 hu with rfl | hu
        · exact hv₂.later hL
        · exact (hvs u hu).later hL
      · intro e m₂ he L u us m₃ m₄ hcallee harguments
        rw [hrun₁] at hcallee
        cases hcallee
        rw [he] at harguments
        cases harguments
    · intro e m₁ he L u us m₃ m₄ hcallee
      rw [he] at hcallee
      cases hcallee
  | get object name =>
    refine ((h.evaluate he.1).on hm).bind (fun r₁ o m₁ _ hrun hm₁ ho => ?_) ?_
    · refine (simAt_readProperty hm₁ ho he.2).pin fun L _ hL o' m₂ id hobject hproperty => ?_
      rw [hrun] at hobject
      cases hobject
      rw [hm₁.store] at hproperty ⊢
      exact hL id hproperty
    · intro e m₁ he L o m₂ id hobject
      rw [he] at hobject
      cases hobject
  | set object name value =>
    exact ((h.sim_evaluateSet he.1 he.2.1 he.2.2).on hm).pin fun _ _ _ => trivial
  | compoundSet object name operator value =>
    exact h.simAt_evaluateCompoundSet he.1 he.2.1 he.2.2.1 he.2.2.2 hm
  | this id keyword => exact ((sim_lookUp id he).on hm).pin fun _ _ _ => trivial
  | super id keyword method =>
    refine (simAt_evaluateSuper hm id he.1 he.2).pin fun L _ hL c this found hsuper hfound => ?_
    rw [hm.store] at hfound ⊢
    exact hL c this found hsuper hfound

end Engine

end Inquiry

end Scriptling
