import Scriptling.Proofs.Expansion

namespace Scriptling

open Machine

variable {α β : Type} {m m₁ : Machine}

/-- What an expression that writes evaluates and reads before, in order. -/
def Expr.writeParts? : Expr → Option (List Expr)
  | .assign _ _ value => some [value]
  | .compoundAssign id name _ value => some [.var id name, value]
  | .update _ (.var id name) _ => some [.var id name]
  | .update _ (.get object name) _ => some [.get object name]
  | .update _ _ _ => some []
  | .set object _ value => some [object, value]
  | .compoundSet object name _ value => some [.get object name, value]
  | _ => none

/-- What a declaration evaluates before it declares a variable or a class. -/
def Stmt.writeParts? : Stmt → Option (List Expr)
  | .var _ initial => some initial.toList
  | .class _ superclass _ _ => some (superclass.toList.map Superclass.expr)
  | _ => none

/-- The variable that an expression writes, by node number and name, and whether it may be made. -/
def Expr.written? : Expr → Option (ExprId × Token × Bool)
  | .assign id name _ => some (id, name, true)
  | .compoundAssign id name _ _ => some (id, name, false)
  | .update _ (.var id name) _ => some (id, name, false)
  | _ => none

def Expr.compound? : Expr → Option Token
  | .compoundAssign _ _ operator _ => some operator
  | .compoundSet _ _ operator _ => some operator
  | _ => none

/-- The action fails before it has changed anything. -/
def Eval.Clean (a : Eval α) : Prop :=
  ∀ (m : Machine) (stop : Stop) (m₁ : Machine), a.run m = .error stop m₁ → m₁ = m

open Eval

/-- Two actions fail if the first one does, or the second one after it. -/
theorem Eval.error_of_run_bind {a : Eval α} {k : α → Eval β} {stop : Stop}
    (h : (a >>= k).run m = .error stop m₁) : a.run m = .error stop m₁ ∨
      ∃ v m₂, a.run m = .ok v m₂ ∧ (k v).run m₂ = .error stop m₁ := by
  cases hr : a.run m with
  | ok v m₂ => exact .inr ⟨v, m₂, rfl, (Eval.run_bind_ok hr).symm.trans h⟩
  | error stop' m₂ =>
    rw [Eval.run_bind_error hr] at h
    cases h
    exact .inl rfl

namespace Eval.Clean

/-- A result after the action. -/
theorem and_pure {a : Eval α} (ha : Clean a) (v : β) : Clean (a >>= fun _ => pure v) := by
  intro m stop m₁ h
  rcases Eval.error_of_run_bind h with h | ⟨_, _, _, h⟩
  · exact ha m stop m₁ h
  · cases h

/-- A check before the action. -/
theorem checked_bind (token : Token) {r : Except RuntimeFault α} {k : α → Eval β}
    (hk : ∀ v, Clean (k v)) : Clean (checked token r >>= k) := by
  intro m stop m₁ h
  cases r with
  | ok v => exact hk v m stop m₁ h
  | error fault =>
    cases h
    rfl

theorem assign (id : ExprId) (name : Token) (v : Value) (create : Bool) :
    Clean (Machine.assign id name v create) := by
  intro m stop m₁ h
  rw [run_assign] at h
  split at h
  · cases h
  · cases h
    rfl

theorem lookUp (id : ExprId) (name : Token) : Clean (Machine.lookUp id name) := by
  intro m stop m₁ h
  rw [run_lookUp] at h
  split at h
  · cases h
  · cases h
    rfl

theorem writeProperty (o : Value) (name : Token) (v : Value) :
    Clean (Machine.writeProperty o name v) := by
  intro m stop m₁ h
  rw [run_writeProperty] at h
  split at h
  · cases h
  · cases h
    rfl

end Eval.Clean

/-- An operand is checked to be a number, and nothing else happens. -/
theorem Below.numberOperand_eq (operator : Token) (v : Value) : numberOperand operator v =
    checked operator (match v with | .number x => .ok x | _ => .error .operandNotNumber) := by
  cases v <;> rfl

namespace Below

variable {b : Below} {e : Expr} {es : List Expr} {v : Value} {stop : Stop}

/-- Where a part fails, the parts behind it are not evaluated. -/
theorem after_evaluateAll_of_error (h : (b.evaluate e).run m = .error stop m₁) :
    after (b.evaluateAll (e :: es)) m = m₁ := after_error (Eval.run_bind_error h)

theorem after_evaluateAll_of_ok (h : (b.evaluate e).run m = .ok v m₁) :
    after (b.evaluateAll (e :: es)) m = after (b.evaluateAll es) m₁ := by
  have hrun : (b.evaluateAll (e :: es)).run m =
      (b.evaluateAll es >>= fun vs => pure (v :: vs)).run m₁ := Eval.run_bind_ok h
  rw [after, hrun]
  cases hr : (b.evaluateAll es).run m₁ with
  | ok vs m₂ => rw [Eval.run_bind_ok hr, after_ok hr]; rfl
  | error stop m₂ => rw [Eval.run_bind_error hr, after_error hr]

/-- A part that is evaluated first, though maybe not as deep as it could. -/
theorem eq_after_of_bind {a : Eval Value} {k : Value → Eval α} {failure : Failure}
    (ha : Eval.Refines a (b.evaluate e)) (h : (a >>= k).run m = .error (.failed failure) m₁)
    (hk : ∀ v m₂, (k v).run m₂ = .error (.failed failure) m₁ → m₁ = after (b.evaluateAll es) m₂) :
    m₁ = after (b.evaluateAll (e :: es)) m := by
  rcases Eval.error_of_run_bind h with h | ⟨v, m₂, hv, h⟩
  · rw [after_evaluateAll_of_error ((ha m (by rw [h]; exact nofun)).trans h)]
  · rw [after_evaluateAll_of_ok ((ha m (by rw [hv]; exact .ok _ _)).trans hv)]
    exact hk v m₂ h

/-- An object is evaluated and its property read. -/
theorem eq_after_of_get {depth : Nat} {object : Expr} {name : Token} {k : Value → Value → Eval α}
    {failure : Failure}
    (h : (Scriptling.evaluate depth object >>= fun o => readProperty o name >>= fun old =>
      k o old).run m = .error (.failed failure) m₁)
    (hk : ∀ o old m₂, (k o old).run m₂ = .error (.failed failure) m₁ →
      m₁ = after ((upTo (depth + 1)).evaluateAll es) m₂) :
    m₁ = after ((upTo (depth + 1)).evaluateAll (.get object name :: es)) m := by
  have hget : (upTo (depth + 1)).evaluate (.get object name) =
      (Scriptling.evaluate depth object >>= fun o => readProperty o name) := rfl
  rcases Eval.error_of_run_bind h with h | ⟨o, m₂, ho, h⟩
  · rw [after_evaluateAll_of_error (hget ▸ Eval.run_bind_error h)]
  · rcases Eval.error_of_run_bind h with h | ⟨old, m₃, hold, h⟩
    · rw [after_evaluateAll_of_error (hget ▸ (Eval.run_bind_ok ho).trans h)]
    · rw [after_evaluateAll_of_ok (hget ▸ (Eval.run_bind_ok ho).trans hold)]
      exact hk o old m₃ h

end Below

/-- What follows the parts fails before it writes. -/
theorem Expr.eq_after_of_failed {e : Expr} {parts : List Expr} (hp : e.writeParts? = some parts)
    {depth : Nat} {failure : Failure} (h : (evaluate depth e).run m = .error (.failed failure) m₁) :
    m₁ = after ((Below.upTo depth).evaluateAll parts) m := by
  cases depth with
  | zero => cases h
  | succ depth =>
    have hdeeper := fun e => evaluate_refines (Nat.le_succ depth) e
    cases e with
    | assign id name value =>
      cases hp
      exact Below.eq_after_of_bind (hdeeper value) h fun v m₂ h =>
        (Clean.assign id name v true).and_pure v m₂ _ _ h
    | compoundAssign id name operator value =>
      cases hp
      refine Below.eq_after_of_bind (.refl _) h fun old m₂ h => ?_
      exact Below.eq_after_of_bind (hdeeper value) h fun operand m₃ h =>
        Clean.checked_bind operator (fun new => (Clean.assign id name new false).and_pure new)
          m₃ _ _ h
    | update operator target before =>
      cases target with
      | var id name =>
        cases hp
        refine Below.eq_after_of_bind (.refl _) h fun old m₂ h => ?_
        rw [Below.numberOperand_eq] at h
        exact Clean.checked_bind operator (fun x => (Clean.assign id name _ false).and_pure _)
          m₂ _ _ h
      | get object name =>
        cases hp
        refine Below.eq_after_of_get h fun o old m₂ h => ?_
        rw [Below.numberOperand_eq] at h
        exact Clean.checked_bind operator (fun x => (Clean.writeProperty o name _).and_pure _)
          m₂ _ _ h
      | _ =>
        cases hp
        cases h
        rfl
    | set object name value =>
      cases hp
      refine Below.eq_after_of_bind (hdeeper object) h fun o m₂ h => ?_
      exact Below.eq_after_of_bind (hdeeper value) h fun v m₃ h =>
        (Clean.writeProperty o name v).and_pure v m₃ _ _ h
    | compoundSet object name operator value =>
      cases hp
      refine Below.eq_after_of_get h fun o old m₂ h => ?_
      exact Below.eq_after_of_bind (hdeeper value) h fun operand m₃ h =>
        Clean.checked_bind operator (fun new => (Clean.writeProperty o name new).and_pure new)
          m₃ _ _ h
    | _ => cases hp

/-- The action always gives a result. -/
def Eval.Total (a : Eval α) : Prop :=
  ∀ (m : Machine) (stop : Stop) (m₁ : Machine), a.run m ≠ .error stop m₁

namespace Eval.Total

theorem bind {a : Eval α} {k : α → Eval β} (ha : Total a) (hk : ∀ v, Total (k v)) :
    Total (a >>= k) := by
  intro m stop m₁ h
  rcases Eval.error_of_run_bind h with h | ⟨v, m₂, -, h⟩
  · exact ha m stop m₁ h
  · exact hk v m₂ stop m₁ h

theorem pure (v : α) : Total (pure v) := fun _ _ _ => nofun

theorem define (f : FrameId) (name : String) (v : Value) : Total (define f name v) :=
  fun _ _ _ => nofun

theorem currentFrame : Total currentFrame := fun _ _ _ => nofun

/-- Making methods never fails. -/
theorem methodTable (scope : FrameId) (initializer : Token → Bool) (table : Table ClosureId)
    (ds : List FunctionDecl) : Total (Below.methodTable scope initializer table ds) := by
  induction ds generalizing table with
  | nil => exact .pure _
  | cons d ds ih => exact .bind (fun _ _ _ => nofun) fun id => ih _

end Eval.Total

/-- The class a class inherits from is the last thing that can be missing. -/
theorem Below.total_declareClass (name : Token) (parent : Option ClassId)
    (methods statics : List FunctionDecl) : Total (do
      let f ← currentFrame
      define f name.lexeme .nil
      let scope ←
        match parent with
        | none => pure f
        | some c => openFrame f [("super", .classRef c)]
      let ms ← methodTable scope (·.lexeme == "init") [] methods
      let ss ← methodTable scope (fun _ => false) [] statics
      let c ← newClass ⟨name.lexeme, parent, ms, ss, []⟩
      define f name.lexeme (.classRef c)) := by
  have hmake : ∀ (f scope : FrameId), Total (do
      let ms ← methodTable scope (·.lexeme == "init") [] methods
      let ss ← methodTable scope (fun _ => false) [] statics
      let c ← newClass ⟨name.lexeme, parent, ms, ss, []⟩
      Machine.define f name.lexeme (.classRef c)) := fun f scope =>
    .bind (.methodTable _ _ _ _) fun ms => .bind (.methodTable _ _ _ _) fun ss =>
      .bind (fun _ _ _ => nofun) fun c => .define _ _ _
  refine .bind .currentFrame fun f => .bind (.define _ _ _) fun _ => ?_
  cases parent with
  | none => exact .bind (.pure f) (hmake f)
  | some c => exact .bind (fun _ _ _ => nofun) (hmake f)

/-- A class that is inherited from is a variable that has a class. -/
theorem Below.run_superclass (depth : Nat) (s : Superclass) (m : Machine) :
    ((upTo (depth + 1)).evaluateSuperclass (some s)).run m =
      match (lookUp s.id s.name).run m with
      | .ok (.classRef c) _ => .ok (some c) m
      | .ok _ _ => .error (.failed (.runtime ⟨.superclassNotClass, s.name.place⟩)) m
      | .error stop _ => .error stop m := by
  have hread : ((upTo (depth + 1)).evaluate s.expr).run m = (lookUp s.id s.name).run m := rfl
  cases hr : (lookUp s.id s.name).run m with
  | ok v m₁ =>
    obtain rfl := eq_of_run_lookUp hr
    refine (Eval.run_bind_ok (hread.trans hr)).trans ?_
    cases v <;> rfl
  | error stop m₁ =>
    obtain rfl := Eval.Clean.lookUp _ _ _ _ _ hr
    exact Eval.run_bind_error (hread.trans hr)

/-- A statement that fails has only evaluated its parts. -/
theorem Stmt.eq_after_of_failed {s : Stmt} {parts : List Expr} (hp : s.writeParts? = some parts)
    {depth : Nat} {failure : Failure} (h : (execute depth s).run m = .error (.failed failure) m₁) :
    m₁ = Machine.after ((Below.upTo depth).evaluateAll parts) m := by
  cases depth with
  | zero => cases h
  | succ depth =>
    have hdeeper := fun e => evaluate_refines (Nat.le_succ depth) e
    cases s with
    | var name initial =>
      cases hp
      cases initial with
      | none => cases h
      | some e =>
        change EStateM.run (evaluate depth e >>= _) m = _ at h
        exact Below.eq_after_of_bind (hdeeper e) h fun v m₂ h => nomatch h
    | «class» name superclass methods statics =>
      cases hp
      rcases Eval.error_of_run_bind h with h | ⟨_, m₂, -, h⟩
      · rcases Eval.error_of_run_bind h with h | ⟨parent, m₂, -, h⟩
        · cases superclass with
          | none => cases h
          | some s =>
            exact Below.eq_after_of_bind (hdeeper s.expr) h fun v m₂ h => by
              cases v <;> cases h <;> rfl
        · exact absurd h (Below.total_declareClass name parent methods statics m₂ _ _)
      · exact nomatch h
    | _ => cases hp

/-- The reading of the class that is inherited from changes nothing either. -/
theorem Below.after_evaluateAll_superclass (depth : Nat) (superclass : Option Superclass) :
    after ((upTo depth).evaluateAll (superclass.toList.map Superclass.expr)) m = m := by
  cases superclass with
  | none => rfl
  | some s =>
    have hread : (upTo (depth + 1)).evaluate s.expr = lookUp s.id s.name := rfl
    cases depth with
    | zero => rfl
    | succ depth =>
      cases hr : (lookUp s.id s.name).run m with
      | ok v m₁ =>
        obtain rfl := eq_of_run_lookUp hr
        exact after_evaluateAll_of_ok hr
      | error stop m₁ =>
        obtain rfl := Clean.lookUp _ _ _ _ _ hr
        exact after_evaluateAll_of_error hr

/-- Without a class to inherit from no class is declared. -/
theorem Stmt.run_class_of_not_class {s : Superclass}
    (h : ∀ c, (lookUp s.id s.name).run m ≠ .ok (.classRef c) m) (depth : Nat) (name : Token)
    (methods statics : List FunctionDecl) :
    ∃ fault, (execute (depth + 2) (.class name (some s) methods statics)).run m =
      .error (.failed (.runtime ⟨fault, s.name.place⟩)) m := by
  have hsuper := Below.run_superclass depth s m
  have hclass : ∀ {stop : Stop},
      ((Below.upTo (depth + 1)).evaluateSuperclass (some s)).run m = .error stop m →
      (execute (depth + 2) (.class name (some s) methods statics)).run m = .error stop m :=
    fun h => Eval.run_bind_error (Eval.run_bind_error h)
  cases hr : (lookUp s.id s.name).run m with
  | ok v m₁ =>
    obtain rfl := eq_of_run_lookUp hr
    rw [hr] at hsuper
    cases v with
    | classRef c => exact absurd hr (h c)
    | _ => exact ⟨_, hclass hsuper⟩
  | error stop m₁ =>
    rw [hr] at hsuper
    rw [run_lookUp] at hr
    split at hr
    · cases hr
    · cases hr
      exact ⟨_, hclass hsuper⟩

theorem run_evaluate_deeper {depth : Nat} {e : Expr} {v : Value}
    (h : (evaluate depth e).run m = .ok v m₁) : (evaluate (depth + 1) e).run m = .ok v m₁ :=
  (evaluate_refines (Nat.le_succ depth) e m (by rw [h]; exact .ok _ _)).trans h

namespace Below

variable {b : Below} {e : Expr} {es : List Expr} {vs : List Value}

theorem run_evaluateAll_cons {v : Value} {m₂ : Machine} (h : (b.evaluate e).run m = .ok v m₁)
    (hs : (b.evaluateAll es).run m₁ = .ok vs m₂) :
    (b.evaluateAll (e :: es)).run m = .ok (v :: vs) m₂ :=
  (Eval.run_bind_ok h).trans (Eval.run_bind_ok hs)

theorem of_run_evaluateAll_cons (h : (b.evaluateAll (e :: es)).run m = .ok vs m₁) :
    ∃ v m₂ vs', (b.evaluate e).run m = .ok v m₂ ∧ (b.evaluateAll es).run m₂ = .ok vs' m₁ ∧
      vs = v :: vs' := by
  obtain ⟨v, m₂, hv, h⟩ := Eval.of_run_bind h
  obtain ⟨vs', m₃, hvs, h⟩ := Eval.of_run_bind h
  cases h
  exact ⟨v, m₂, vs', hv, hvs, rfl⟩

theorem of_run_evaluateAll_pair {e' : Expr} {v v' : Value}
    (h : (b.evaluateAll [e, e']).run m = .ok [v, v'] m₁) :
    ∃ m₂, (b.evaluate e).run m = .ok v m₂ ∧ (b.evaluate e').run m₂ = .ok v' m₁ := by
  obtain ⟨_, m₂, _, hv, hrest, hvs⟩ := of_run_evaluateAll_cons h
  obtain ⟨_, m₃, _, hv', hnil, rfl⟩ := of_run_evaluateAll_cons hrest
  cases hvs
  cases hnil
  exact ⟨m₂, hv, hv'⟩

end Below

/-- An update of what is no number. -/
theorem Expr.run_update_of_not_number {operator : Token} {target : Expr} {before : Bool}
    (hp : (Expr.update operator target before).writeParts? = some [target]) {depth : Nat} {v : Value}
    (h : (evaluate depth target).run m = .ok v m₁) (hv : ∀ x, v ≠ .number x) :
    (evaluate depth (.update operator target before)).run m =
      .error (.failed (.runtime ⟨.operandNotNumber, operator.place⟩)) m₁ := by
  have hcheck : ∀ k : Float → Eval Value, (Below.numberOperand operator v >>= k).run m₁ =
      .error (.failed (.runtime ⟨.operandNotNumber, operator.place⟩)) m₁ := by
    intro k
    cases v with
    | number x => exact absurd rfl (hv x)
    | _ => rfl
  cases depth with
  | zero => cases h
  | succ depth =>
    cases target with
    | var id name => exact (Eval.run_bind_ok h).trans (hcheck _)
    | get object name =>
      obtain ⟨o, m₂, ho, h⟩ := Eval.of_run_bind h
      exact (Eval.run_bind_ok ho).trans ((Eval.run_bind_ok h).trans (hcheck _))
    | _ => cases hp

/-- A compound assignment whose operation fails. -/
theorem Expr.run_compound_of_fault {e : Expr} {operator : Token} (ho : e.compound? = some operator)
    {parts : List Expr} (hp : e.writeParts? = some parts) {depth : Nat} {old operand : Value}
    (h : ((Below.upTo depth).evaluateAll parts).run m = .ok [old, operand] m₁)
    {fault : RuntimeFault} (hfault : Operator.apply (Operator.base operator.kind) operator.lexeme
      old operand = .error fault) :
    (evaluate (depth + 1) e).run m = .error (.failed (.runtime ⟨fault, operator.place⟩)) m₁ := by
  have hcheck : ∀ k : Value → Eval Value, (Below.applyCompound operator old operand >>= k).run m₁ =
      .error (.failed (.runtime ⟨fault, operator.place⟩)) m₁ := by
    intro k
    rw [Below.applyCompound, hfault]
    rfl
  cases depth with
  | zero =>
    cases parts with
    | nil => cases h
    | cons => cases h
  | succ depth =>
    cases e with
    | compoundAssign id name operator value =>
      cases ho
      cases hp
      obtain ⟨m₂, hread, hvalue⟩ := Below.of_run_evaluateAll_pair h
      exact (Eval.run_bind_ok hread).trans ((Eval.run_bind_ok hvalue).trans (hcheck _))
    | compoundSet object name operator value =>
      cases ho
      cases hp
      obtain ⟨m₂, hread, hvalue⟩ := Below.of_run_evaluateAll_pair h
      obtain ⟨o, m₃, hobject, hread⟩ := Eval.of_run_bind hread
      exact (Eval.run_bind_ok (run_evaluate_deeper hobject)).trans
        ((Eval.run_bind_ok hread).trans ((Eval.run_bind_ok hvalue).trans (hcheck _)))
    | _ => cases ho

/-- A variable that is written was there, or a global is made by its first plain assignment. -/
theorem Machine.target?_bound {id : ExprId} {name : String} {create : Bool} {f : FrameId}
    (h : m.target? id name create = some f) : (m.store.local? f name).isSome ∨
      create = true ∧ m.distances[id]? = none ∧ m.store.local? .globals name = none ∧
        f = .globals := by
  unfold target? at h
  cases hd : m.distances[id]? with
  | some d =>
    rw [hd] at h
    exact .inl (Option.filter_eq_some_iff.1 h).2
  | none =>
    rw [hd] at h
    dsimp only at h
    cases create with
    | true =>
      cases h
      cases hl : m.store.local? .globals name with
      | none => exact .inr ⟨rfl, rfl, rfl, rfl⟩
      | some v => exact .inl rfl
    | false =>
      rw [if_neg Bool.false_ne_true, Store.holder?_globals] at h
      split at h
      · rename_i hsome
        cases h
        exact .inl hsome
      · cases h

theorem Machine.of_run_assign {id : ExprId} {name : Token} {v : Value} {create : Bool} {u w : Value}
    (h : (assign id name v create >>= fun _ => pure u).run m = .ok w m₁) :
    ∃ f, m.target? id name.lexeme create = some f ∧
      m₁ = { m with store := m.store.define f name.lexeme v } := by
  obtain ⟨_, m₂, hassign, hpure⟩ := Eval.of_run_bind h
  cases hpure
  rw [run_assign] at hassign
  split at hassign
  · rename_i f hf
    cases hassign
    exact ⟨f, hf, rfl⟩
  · cases hassign

/-- After its parts an expression that writes a variable defines it once. -/
theorem Expr.of_run_written {e : Expr} {id : ExprId} {name : Token} {plain : Bool}
    (hw : e.written? = some (id, name, plain)) {parts : List Expr}
    (hp : e.writeParts? = some parts) {depth : Nat} {v : Value}
    (h : (evaluate depth e).run m = .ok v m₁) :
    ∃ vs m₂ f w, ((Below.upTo depth).evaluateAll parts).run m = .ok vs m₂ ∧
      m₂.target? id name.lexeme plain = some f ∧
      m₁ = { m₂ with store := m₂.store.define f name.lexeme w } := by
  cases depth with
  | zero => cases h
  | succ depth =>
    cases e with
    | assign id name value =>
      cases hw
      cases hp
      obtain ⟨u, m₂, hu, h⟩ := Eval.of_run_bind h
      obtain ⟨f, hf, hm₁⟩ := of_run_assign h
      exact ⟨_, m₂, f, u, Below.run_evaluateAll_cons (run_evaluate_deeper hu) rfl, hf, hm₁⟩
    | compoundAssign id name operator value =>
      cases hw
      cases hp
      obtain ⟨old, m₂, hold, hrest⟩ := Eval.of_run_bind h
      obtain ⟨operand, m₃, hoperand, hcheck⟩ := Eval.of_run_bind hrest
      obtain ⟨new, m₄, hnew, hassign⟩ := Eval.of_run_bind hcheck
      obtain rfl := Below.eq_of_run_applyCompound hnew
      obtain ⟨f, hf, hm₁⟩ := of_run_assign hassign
      exact ⟨_, m₄, f, new, Below.run_evaluateAll_cons hold
        (Below.run_evaluateAll_cons (run_evaluate_deeper hoperand) rfl), hf, hm₁⟩
    | update operator target before =>
      cases target with
      | var id name =>
        cases hw
        cases hp
        obtain ⟨old, m₂, hold, h⟩ := Eval.of_run_bind h
        cases old with
        | number x =>
          obtain ⟨f, hf, hm₁⟩ := of_run_assign h
          exact ⟨_, m₂, f, _, Below.run_evaluateAll_cons hold rfl, hf, hm₁⟩
        | _ => cases h
      | _ => cases hw
    | _ => cases hw

theorem Machine.of_run_writeProperty {o v u w : Value} {name : Token}
    (h : (writeProperty o name v >>= fun _ => pure u).run m = .ok w m₁) :
    m₁ = { m with store := m.store.setField o name.lexeme v } := by
  obtain ⟨_, m₂, hwrite, hpure⟩ := Eval.of_run_bind h
  cases hpure
  rw [run_writeProperty] at hwrite
  split at hwrite <;> cases hwrite
  rfl

/-- The other ones set a field once. -/
theorem Expr.of_run_unwritten {e : Expr} (hw : e.written? = none) {parts : List Expr}
    (hp : e.writeParts? = some parts) {depth : Nat} {v : Value}
    (h : (evaluate depth e).run m = .ok v m₁) :
    ∃ vs m₂ o name w, ((Below.upTo depth).evaluateAll parts).run m = .ok vs m₂ ∧
      m₁ = { m₂ with store := m₂.store.setField o name w } := by
  cases depth with
  | zero => cases h
  | succ depth =>
    cases e with
    | set object name value =>
      cases hp
      obtain ⟨o, m₂, ho, hrest⟩ := Eval.of_run_bind h
      obtain ⟨u, m₃, hu, hwrite⟩ := Eval.of_run_bind hrest
      exact ⟨_, m₃, o, _, u, Below.run_evaluateAll_cons (run_evaluate_deeper ho)
        (Below.run_evaluateAll_cons (run_evaluate_deeper hu) rfl), of_run_writeProperty hwrite⟩
    | compoundSet object name operator value =>
      cases hp
      obtain ⟨o, m₂, ho, hrest⟩ := Eval.of_run_bind h
      obtain ⟨old, m₃, hold, hrest⟩ := Eval.of_run_bind hrest
      obtain ⟨operand, m₄, hoperand, hcheck⟩ := Eval.of_run_bind hrest
      obtain ⟨new, m₅, hnew, hwrite⟩ := Eval.of_run_bind hcheck
      obtain rfl := Below.eq_of_run_applyCompound hnew
      have hget : ((Below.upTo (depth + 1)).evaluate (.get object name)).run m = .ok old m₃ :=
        (Eval.run_bind_ok ho).trans hold
      exact ⟨_, m₅, o, _, new, Below.run_evaluateAll_cons hget
        (Below.run_evaluateAll_cons (run_evaluate_deeper hoperand) rfl), of_run_writeProperty hwrite⟩
    | update operator target before =>
      cases target with
      | var id name => cases hw
      | get object name =>
        cases hp
        obtain ⟨o, m₂, ho, hrest⟩ := Eval.of_run_bind h
        obtain ⟨old, m₃, hold, hrest⟩ := Eval.of_run_bind hrest
        have hget : ((Below.upTo (depth + 1)).evaluate (.get object name)).run m = .ok old m₃ :=
          (Eval.run_bind_ok ho).trans hold
        cases old with
        | number x =>
          exact ⟨_, m₃, o, _, _, Below.run_evaluateAll_cons hget rfl, of_run_writeProperty hrest⟩
        | _ => cases hrest
      | _ => cases h
    | assign => cases hw
    | compoundAssign => cases hw
    | _ => cases hp

/-- A definition binds its own name and no other. -/
theorem Store.bound_of_define {s : Store} {f g : FrameId} {name key : String} {v : Value}
    (h : ((s.define f name v).local? g key).isSome) :
    (s.local? g key).isSome ∨ f = g ∧ name = key := by
  by_cases hf : f < s.frames.size
  · rw [local?_define s f g name key v hf] at h
    split at h
    · rename_i hsame
      exact .inr hsame
    · exact .inl h
  · have hsize := lt_of_local? (Option.isSome_iff_exists.1 h).choose_spec
    rw [size_define] at hsize
    rw [define, local?, Array.getElem?_modify,
      if_neg fun he => hf (Nat.lt_of_le_of_lt (Nat.le_of_eq he) hsize)] at h
    exact .inl h

/-- Where a name is bound after a write and was not after the parts, a plain assignment made it
among the globals. -/
theorem Expr.bound_of_run {e : Expr} {parts : List Expr} (hp : e.writeParts? = some parts)
    {depth : Nat} {v : Value} (h : (evaluate depth e).run m = .ok v m₁) {m₂ : Machine}
    (hm₂ : m₂ = after ((Below.upTo depth).evaluateAll parts) m) {g : FrameId} {key : String}
    (hb : (m₁.store.local? g key).isSome) : (m₂.store.local? g key).isSome ∨
      ∃ id name value, e = .assign id name value ∧ m₂.distances[id]? = none ∧
        m₂.store.local? .globals name.lexeme = none ∧ g = .globals ∧ key = name.lexeme := by
  cases hw : e.written? with
  | none =>
    obtain ⟨vs, m₃, o, name, w, hparts, rfl⟩ := Expr.of_run_unwritten hw hp h
    obtain rfl : m₂ = m₃ := hm₂.trans (after_ok hparts)
    refine .inl ?_
    cases o <;> exact hb
  | some written =>
    obtain ⟨id, name, plain⟩ := written
    obtain ⟨vs, m₃, f, w, hparts, htarget, rfl⟩ := Expr.of_run_written hw hp h
    obtain rfl : m₂ = m₃ := hm₂.trans (after_ok hparts)
    rcases Store.bound_of_define hb with hb | ⟨rfl, rfl⟩
    · exact .inl hb
    · rcases target?_bound htarget with hbound | ⟨rfl, hd, hl, rfl⟩
      · exact .inl hbound
      · cases e with
        | assign id' name' value =>
          cases hw
          exact .inr ⟨id, name, value, rfl, hd, hl, rfl, rfl⟩
        | update operator target before => cases target <;> cases hw
        | _ => cases hw

/-- **A write that fails writes nothing.** Where an expression that writes or a declaration fails,
the machine is as the parts left it that were evaluated before. A class declaration that fails
changes nothing at all, and it does fail without a class to inherit from. An update of what is no
number fails, as does a compound assignment whose operation has no result. A write that succeeds
binds no name that was not bound, except that a plain assignment makes a global where there is
neither a note nor a global of that name. -/
theorem failed_write_writes_nothing (depth : Nat) (m : Machine) :
    (∀ (e : Expr) (parts : List Expr) (failure : Failure) (m₁ : Machine),
      e.writeParts? = some parts → (evaluate depth e).run m = .error (.failed failure) m₁ →
      m₁ = after ((Below.upTo depth).evaluateAll parts) m) ∧
    (∀ (s : Stmt) (parts : List Expr) (failure : Failure) (m₁ : Machine),
      s.writeParts? = some parts → (execute depth s).run m = .error (.failed failure) m₁ →
      m₁ = after ((Below.upTo depth).evaluateAll parts) m) ∧
    (∀ (name : Token) (superclass : Option Superclass) (methods statics : List FunctionDecl)
      (failure : Failure) (m₁ : Machine),
      (execute depth (.class name superclass methods statics)).run m =
        .error (.failed failure) m₁ → m₁ = m) ∧
    (∀ (name : Token) (s : Superclass) (methods statics : List FunctionDecl),
      (∀ c, (lookUp s.id s.name).run m ≠ .ok (.classRef c) m) →
      ∃ fault, (execute (depth + 2) (.class name (some s) methods statics)).run m =
        .error (.failed (.runtime ⟨fault, s.name.place⟩)) m) ∧
    (∀ (operator : Token) (target : Expr) (before : Bool) (v : Value) (m₁ : Machine),
      (Expr.update operator target before).writeParts? = some [target] →
      (evaluate depth target).run m = .ok v m₁ → (∀ x, v ≠ .number x) →
      (evaluate depth (.update operator target before)).run m =
        .error (.failed (.runtime ⟨.operandNotNumber, operator.place⟩)) m₁) ∧
    (∀ (e : Expr) (operator : Token) (parts : List Expr) (old operand : Value) (m₁ : Machine)
      (fault : RuntimeFault), e.compound? = some operator → e.writeParts? = some parts →
      ((Below.upTo depth).evaluateAll parts).run m = .ok [old, operand] m₁ →
      Operator.apply (Operator.base operator.kind) operator.lexeme old operand = .error fault →
      (evaluate (depth + 1) e).run m = .error (.failed (.runtime ⟨fault, operator.place⟩)) m₁) ∧
    (∀ (e : Expr) (parts : List Expr) (v : Value) (m₁ m₂ : Machine) (g : FrameId) (key : String),
      e.writeParts? = some parts → (evaluate depth e).run m = .ok v m₁ →
      m₂ = after ((Below.upTo depth).evaluateAll parts) m → (m₁.store.local? g key).isSome →
      (m₂.store.local? g key).isSome ∨
        ∃ id name value, e = .assign id name value ∧ m₂.distances[id]? = none ∧
          m₂.store.local? .globals name.lexeme = none ∧ g = .globals ∧ key = name.lexeme) ∧
    ∀ (id : ExprId) (name : Token) (value : Expr) (v : Value) (m₁ : Machine),
      (evaluate depth value).run m = .ok v m₁ → m₁.distances[id]? = none →
      (evaluate (depth + 1) (.assign id name value)).run m =
        .ok v { m₁ with store := m₁.store.define .globals name.lexeme v } := by
  refine ⟨fun _ _ _ _ hp h => Expr.eq_after_of_failed hp h,
    fun _ _ _ _ hp h => Stmt.eq_after_of_failed hp h,
    fun name superclass methods statics failure m₁ h => ?_,
    fun name s methods statics h => Stmt.run_class_of_not_class h depth name methods statics,
    fun _ _ _ _ _ hp h hv => Expr.run_update_of_not_number hp h hv,
    fun _ _ _ _ _ _ _ ho hp h hfault => Expr.run_compound_of_fault ho hp h hfault,
    fun _ _ _ _ _ _ _ hp h hm₂ hb => Expr.bound_of_run hp h hm₂ hb,
    fun id name value v m₁ h hd => ?_⟩
  · rw [Stmt.eq_after_of_failed rfl h, Below.after_evaluateAll_superclass]
  · have htarget : m₁.target? id name.lexeme true = some .globals := by
      rw [target?, hd]
      rfl
    have hassign : (assign id name v true).run m₁ =
        .ok () { m₁ with store := m₁.store.define .globals name.lexeme v } := by
      rw [run_assign, htarget]
    exact (Eval.run_bind_ok h).trans (Eval.run_bind_ok hassign)

/-- A sum with nil fails, and what its operand did before stays. -/
theorem oneAndInstance_failed :
    ∃ failure m₁, (evaluate 3 (.compoundAssign 0 (.synthetic .identifier "n")
        (.synthetic .plusEqual "+=") (.assign 1 (.synthetic .identifier "o") (.literal .nil)))).run
          oneAndInstance = .error (.failed failure) m₁ ∧
      m₁ = after ((Below.upTo 3).evaluateAll [namedVar 0 "n",
        .assign 1 (.synthetic .identifier "o") (.literal .nil)]) oneAndInstance ∧
      m₁ = { oneAndInstance with store := oneAndInstance.store.define .globals "o" .nil } := by
  have hrun : (evaluate 3 (.compoundAssign 0 (.synthetic .identifier "n")
      (.synthetic .plusEqual "+=") (.assign 1 (.synthetic .identifier "o") (.literal .nil)))).run
        oneAndInstance = .error (.failed (.runtime ⟨.operandsUnlike, .nowhere⟩))
          { oneAndInstance with store := oneAndInstance.store.define .globals "o" .nil } := rfl
  exact ⟨_, _, hrun, (failed_write_writes_nothing 3 oneAndInstance).1 _ _ _ _ rfl hrun, rfl⟩

end Scriptling
