import Scriptling.Proofs.Answers
import Scriptling.Proofs.Steps

namespace Scriptling

open Machine

def Param.least (ps : List Param) : Nat := (ps.reverse.dropWhile (·.fallback.isSome)).length

/-- A parameter in front of one that needs an argument needs one itself. -/
theorem Param.least_cons (p : Param) (ps : List Param) : Param.least (p :: ps) =
    if Param.least ps = 0 then (if p.fallback.isSome then 0 else 1) else Param.least ps + 1 := by
  simp only [least, List.reverse_cons, List.dropWhile_append, List.isEmpty_iff,
    List.length_eq_zero_iff]
  split
  · cases hp : p.fallback.isSome <;> simp [hp]
  · simp

theorem Param.least_of_cons {p : Param} {ps : List Param} {n : Nat}
    (h : Param.least (p :: ps) ≤ n + 1) : Param.least ps ≤ n := by
  rw [least_cons] at h
  split at h <;> omega

theorem Param.fallback_of_least {p : Param} {ps : List Param} (h : Param.least (p :: ps) ≤ 0) :
    p.fallback.isSome ∧ Param.least ps ≤ 0 := by
  rw [least_cons] at h
  split at h
  · rename_i hps
    split at h
    · rename_i hp
      exact ⟨hp, Nat.le_of_eq hps⟩
    · omega
  · omega

/-- A result of two actions is one of the second, where the first had one. -/
theorem Eval.of_run_bind {α β : Type} {a : Eval α} {k : α → Eval β} {w : β} {m m₁ : Machine}
    (h : (a >>= k).run m = .ok w m₁) :
    ∃ v m₂, a.run m = .ok v m₂ ∧ (k v).run m₂ = .ok w m₁ := by
  cases hr : a.run m with
  | ok v m₂ => exact ⟨v, m₂, rfl, (Eval.run_bind_ok hr).symm.trans h⟩
  | error e m₂ =>
    rw [Eval.run_bind_error hr] at h
    cases h

def Below.callIn (below : Below) (c : Closure) (arguments : List Value) (paren : Token)
    (f : FrameId) : Eval Value := do
  below.bindParams f paren c.decl.params arguments
  match ← inFrame f (below.executeAll c.decl.body) with
  | .break keyword => fail keyword .breakOutsideLoop
  | .next keyword => fail keyword .nextOutsideLoop
  | .return v => if c.initializer then receiver c else pure v
  | .normal => if c.initializer then receiver c else pure .nil

/-- A call opens a frame, and the rest runs in that. -/
theorem Below.callClosure_eq (below : Below) (c : Closure) (arguments : List Value)
    (paren : Token) : below.callClosure c arguments paren =
      openFrame c.scope [] >>= below.callIn c arguments paren := rfl

/-- A call up to where control leaves the body of the function. -/
def Below.runBody (below : Below) (c : Closure) (arguments : List Value) (paren : Token) :
    Eval Flow := do
  let f ← openFrame c.scope []
  below.bindParams f paren c.decl.params arguments
  inFrame f (below.executeAll c.decl.body)

/-- What a function gives when control leaves its body. -/
def Closure.leave (c : Closure) : Flow → Eval Value
  | .break keyword => fail keyword .breakOutsideLoop
  | .next keyword => fail keyword .nextOutsideLoop
  | .return v => if c.initializer then Below.receiver c else pure v
  | .normal => if c.initializer then Below.receiver c else pure .nil

/-- What a call answers depends on how control left the body. -/
theorem Below.callClosure_eq_runBody (below : Below) (c : Closure) (arguments : List Value)
    (paren : Token) :
    below.callClosure c arguments paren = below.runBody c arguments paren >>= c.leave := by
  simp only [callClosure, runBody, bind_assoc]
  rfl

theorem Below.run_callClosureId {below : Below} {m : Machine} {id : ClosureId} {c : Closure}
    (h : m.store.closures[id]? = some c) (arguments : List Value) (paren : Token) :
    (below.callClosureId id arguments paren).run m =
      (below.callClosure c arguments paren).run m := by
  rw [Below.callClosureId, Eval.run_bind_ok (show EStateM.run get m = .ok m m from rfl), h]

def Below.initialise (below : Below) (made : Value) (arguments : List Value) (paren : Token)
    (method : ClosureId) : Eval Value := do
  match ← bindMethod method made with
  | .closure id =>
    discard (below.callClosureId id arguments paren)
    pure made
  | _ => pure made

theorem Eval.run_bindMethod (m : Machine) (method : ClosureId) (made : Value) :
    (bindMethod method made).run m = .ok (m.store.bindMethod method made).1
      { m with store := (m.store.bindMethod method made).2 } := rfl

/-- The store with a copy of a method, made for a receiver. -/
def Store.withCopy (s : Store) (c : Closure) (made : Value) : Store :=
  ((s.openFrame (some c.scope) [("this", made)]).2.newClosure { c with scope := s.frames.size }).2

/-- The copy is the newest function, and stands in the newest frame. -/
theorem Store.closures_withCopy (s : Store) (c : Closure) (made : Value) :
    (s.withCopy c made).closures[s.closures.size]? = some { c with scope := s.frames.size } :=
  Array.getElem?_push_size

/-- Binding a method that is there makes a copy of it. -/
theorem Store.bindMethod_eq {s : Store} {method : ClosureId} {c : Closure}
    (hc : s.closures[method]? = some c) (made : Value) :
    s.bindMethod method made = (.closure s.closures.size, s.withCopy c made) := by
  rw [Store.bindMethod, hc]
  rfl

/-- Binding what is not there makes nothing. -/
theorem Store.bindMethod_missing {s : Store} {method : ClosureId}
    (hc : s.closures[method]? = none) (made : Value) : s.bindMethod method made = (.nil, s) := by
  rw [Store.bindMethod, hc]

theorem Below.run_counted {m : Machine} {callee : Value} {arity : Arity}
    (harity : m.store.arity? callee = some arity) {arguments : List Value}
    (hcounted : ¬ (arguments.length < arity.least ∨ arity.most < arguments.length))
    (paren : Token) (act : Eval Value) :
    (counted callee arguments paren act).run m = act.run m := by
  rw [counted, Eval.run_bind_ok (show EStateM.run get m = .ok m m from rfl), harity]
  exact congrFun (if_neg hcounted) m

theorem Eval.run_discard {α β : Type} {a a' : Eval α} {m : Machine} (h : a.run m = a'.run m)
    (k : Eval β) : (discard a >>= fun _ => k).run m = (a' >>= fun _ => k).run m := by
  cases hr : a'.run m with
  | ok v m₁ =>
    rw [Eval.run_bind_ok hr,
      Eval.run_bind_ok (show (discard a).run m = .ok () m₁ from Eval.run_bind_ok (h.trans hr))]
  | error e m₁ =>
    rw [Eval.run_bind_error hr, Eval.run_bind_error
      (show (discard a).run m = .error e m₁ from Eval.run_bind_error (h.trans hr))]

/-- A method's copy takes as many arguments as the method: where these have been counted for the
class, counting them again for the copy never fails. -/
theorem Below.run_initialise_counted (below : Below) {m : Machine} {method : ClosureId}
    {arguments : List Value} (hcounted : ∀ c, m.store.closures[method]? = some c →
      ¬ (arguments.length < c.decl.arity.least ∨ c.decl.arity.most < arguments.length))
    (made : Value) (paren : Token) :
    (bindMethod method made >>= fun
      | .closure id => do
        discard (counted (.closure id) arguments paren (below.callClosureId id arguments paren))
        pure made
      | _ => pure made).run m = (below.initialise made arguments paren method).run m := by
  rw [initialise, Eval.run_bind_ok (Eval.run_bindMethod m method made),
    Eval.run_bind_ok (Eval.run_bindMethod m method made)]
  cases hc : m.store.closures[method]? with
  | none => rw [Store.bindMethod_missing hc]
  | some c =>
    rw [Store.bindMethod_eq hc]
    refine (Eval.run_discard (run_counted ?_ (hcounted c hc) paren _) _).trans
      (Eval.run_discard rfl _).symm
    rw [Store.arity?, Store.closures_withCopy, Option.map_some]

/-- Counting the arguments a second time, for the initializer, changes nothing. -/
theorem Below.run_instantiate (below : Below) {m : Machine} {c : ClassId} {arguments : List Value}
    (hcounted : ¬ (arguments.length < (m.store.classArity c).least ∨
      (m.store.classArity c).most < arguments.length)) (paren : Token) :
    (below.instantiate c arguments paren).run m =
      match m.store.findMethod? c "init" with
      | none => .ok (.object m.store.objects.size) { m with store := (m.store.newObject c).2 }
      | some method =>
        (below.initialise (.object m.store.objects.size) arguments paren method).run
          { m with store := (m.store.newObject c).2 } := by
  have hfind : (m.store.newObject c).2.findMethod? c "init" = m.store.findMethod? c "init" :=
    Store.findWithin?_congr (show (m.store.newObject c).2.classes = m.store.classes from rfl) _ _ _ _
  change EStateM.run (match (m.store.newObject c).2.findMethod? c "init" with
    | none => pure (Value.object m.store.objects.size)
    | some method => bindMethod method (Value.object m.store.objects.size) >>= fun
      | .closure id => do
        discard (counted (.closure id) arguments paren (below.callClosureId id arguments paren))
        pure (Value.object m.store.objects.size)
      | _ => pure (Value.object m.store.objects.size))
    { m with store := (m.store.newObject c).2 } = _
  rw [hfind]
  cases hmethod : m.store.findMethod? c "init" with
  | none => rfl
  | some method =>
    refine below.run_initialise_counted (m := { m with store := (m.store.newObject c).2 })
      (fun i hi => ?_) _ paren
    have harity : m.store.classArity c = i.decl.arity := by
      rw [Store.classArity, hmethod, Option.bind_some,
        show m.store.closures[method]? = some i from hi]
    exact harity ▸ hcounted

/-- The part of a call that follows when the arguments have been counted. -/
def Below.callCounted (below : Below) (callee : Value) (arguments : List Value) (paren : Token) :
    Eval Value :=
  match callee with
  | .closure id => below.callClosureId id arguments paren
  | .builtin b => b.run paren arguments
  | .classRef id => below.instantiate id arguments paren
  | _ => fail paren .notCallable

theorem Below.run_call (below : Below) (m : Machine) (callee : Value) (arguments : List Value)
    (paren : Token) : (below.call callee arguments paren).run m =
      match m.store.arity? callee with
      | none => .error (.failed (.runtime ⟨.notCallable, paren.place⟩)) m
      | some arity =>
        if arguments.length < arity.least ∨ arity.most < arguments.length then
          .error (.failed (.runtime
            ⟨.argumentCount arity.least arity.most arguments.length, paren.place⟩)) m
        else (below.callCounted callee arguments paren).run m := by
  change EStateM.run (match m.store.arity? callee with
    | none => fail paren .notCallable
    | some arity =>
      if arguments.length < arity.least ∨ arity.most < arguments.length then
        fail paren (.argumentCount arity.least arity.most arguments.length)
      else below.callCounted callee arguments paren) m = _
  cases m.store.arity? callee with
  | none => rfl
  | some arity =>
    dsimp only
    split <;> rfl

def Store.init? (s : Store) (c : ClassId) : Option Closure :=
  (s.findMethod? c "init").bind fun method => s.closures[method]?

theorem Store.classArity_eq (s : Store) (c : ClassId) : s.classArity c =
    match s.init? c with
    | some init => init.decl.arity
    | none => ⟨0, 0⟩ := rfl

/-- Makes an instance, and for it a copy of an initializer, which is run. -/
def Below.construct (below : Below) (c : ClassId) (init : Option Closure) (arguments : List Value)
    (paren : Token) : Eval Value := do
  let o ← newObject c
  match init with
  | none => pure (.object o)
  | some i => do
    let f ← openFrame i.scope [("this", .object o)]
    let _ ← newClosure { i with scope := f }
    let _ ← below.callClosure { i with scope := f } arguments paren
    pure (.object o)

/-- The machine with a new instance of a class, and a copy of an initializer for it. -/
def Machine.instantiated (m : Machine) (id : ClassId) (init : Closure) : Machine :=
  let s := (m.store.newObject id).2
  let s := (s.openFrame (some init.scope) [("this", .object m.store.objects.size)]).2
  { m with store := (s.newClosure { init with scope := m.store.frames.size }).2 }

theorem Below.run_construct (below : Below) (m : Machine) (c : ClassId) (init : Closure)
    (arguments : List Value) (paren : Token) :
    (below.construct c (some init) arguments paren).run m =
      (below.callClosure { init with scope := m.store.frames.size } arguments paren >>=
        fun _ => pure (.object m.store.objects.size)).run (m.instantiated c init) := rfl

/-- The copy is the last function in the store when it is called. -/
theorem Below.run_initialise (below : Below) {m : Machine} {method : ClosureId} {i : Closure}
    (hi : m.store.closures[method]? = some i) (made : Value) (arguments : List Value)
    (paren : Token) : (below.initialise made arguments paren method).run m =
      (do
        let f ← openFrame i.scope [("this", made)]
        let _ ← newClosure { i with scope := f }
        let _ ← below.callClosure { i with scope := f } arguments paren
        pure made : Eval Value).run m := by
  let copy : Closure := { i with scope := m.store.frames.size }
  have hcall : (below.callClosureId m.store.closures.size arguments paren).run
        { m with store := m.store.withCopy i made } =
      (below.callClosure copy arguments paren).run { m with store := m.store.withCopy i made } :=
    run_callClosureId (m.store.closures_withCopy i made) arguments paren
  rw [initialise, Eval.run_bind_ok (Eval.run_bindMethod m method made), Store.bindMethod_eq hi]
  exact Eval.run_discard hcall _

theorem Below.run_instantiate_eq (below : Below) {m : Machine} {c : ClassId}
    {arguments : List Value} (hcounted : ¬ (arguments.length < (m.store.classArity c).least ∨
      (m.store.classArity c).most < arguments.length)) (paren : Token) :
    (below.instantiate c arguments paren).run m =
      (below.construct c (m.store.init? c) arguments paren).run m := by
  rw [run_instantiate below hcounted, Store.init?]
  cases m.store.findMethod? c "init" with
  | none => rfl
  | some method =>
    let m₁ : Machine := { m with store := (m.store.newObject c).2 }
    rw [Option.bind_some]
    cases hi : m.store.closures[method]? with
    | none =>
      change (below.initialise (.object m.store.objects.size) arguments paren method).run m₁ = _
      rw [initialise, Eval.run_bind_ok (Eval.run_bindMethod m₁ method _),
        Store.bindMethod_missing (s := m₁.store) hi]
      rfl
    | some i => exact below.run_initialise (m := m₁) hi _ arguments paren

def Below.callOn (below : Below) (m : Machine) (callee : Value) (arguments : List Value)
    (paren : Token) : Eval Value :=
  match m.store.arity? callee with
  | none => fail paren .notCallable
  | some arity =>
    if arguments.length < arity.least ∨ arity.most < arguments.length then
      fail paren (.argumentCount arity.least arity.most arguments.length)
    else
      match callee with
      | .closure id =>
        match m.store.closures[id]? with
        | some c => below.callClosure c arguments paren
        | none => fail paren .notCallable
      | .builtin b => b.run paren arguments
      | .classRef c => below.construct c (m.store.init? c) arguments paren
      | _ => fail paren .notCallable

/-- A call looks at the machine once, and goes by what the callee is there. -/
theorem Below.call_eq (below : Below) (callee : Value) (arguments : List Value) (paren : Token) :
    below.call callee arguments paren =
      get >>= fun m => below.callOn m callee arguments paren := by
  funext m
  change (below.call callee arguments paren).run m =
    (below.callOn m callee arguments paren).run m
  rw [run_call]
  unfold callOn
  cases harity : m.store.arity? callee with
  | none => rfl
  | some arity =>
    dsimp only
    split
    · rfl
    · rename_i hcounted
      cases callee with
      | closure id =>
        dsimp only [callCounted]
        cases hc : m.store.closures[id]? with
        | none =>
          rw [callClosureId, Eval.run_bind_ok (show EStateM.run get m = .ok m m from rfl), hc]
        | some c => exact run_callClosureId hc arguments paren
      | classRef c =>
        cases harity
        exact run_instantiate_eq below hcounted paren
      | _ => rfl

namespace Below

variable {b : Below} {m : Machine} {arguments : List Value} {paren : Token}

/-- With a wrong number of arguments nothing is evaluated. -/
theorem run_call_miscounted {callee : Value} {arity : Arity}
    (harity : m.store.arity? callee = some arity)
    (hcount : arguments.length < arity.least ∨ arity.most < arguments.length) :
    (b.call callee arguments paren).run m = .error (.failed (.runtime
      ⟨.argumentCount arity.least arity.most arguments.length, paren.place⟩)) m := by
  rw [run_call, harity]
  exact if_pos hcount

/-- A call that succeeds has enough arguments, and not too many. -/
theorem counted_of_run_call {callee : Value} {v : Value} {m₁ : Machine}
    (h : (b.call callee arguments paren).run m = .ok v m₁) :
    ∃ arity, m.store.arity? callee = some arity ∧ arity.least ≤ arguments.length ∧
      arguments.length ≤ arity.most := by
  rw [run_call] at h
  split at h
  · cases h
  · rename_i arity harity
    split at h
    · cases h
    · exact ⟨arity, harity, by omega, by omega⟩

theorem run_call_closure {id : ClosureId} {c : Closure} (hc : m.store.closures[id]? = some c)
    (hleast : c.decl.arity.least ≤ arguments.length)
    (hmost : arguments.length ≤ c.decl.arity.most) :
    (b.call (.closure id) arguments paren).run m = (b.callClosure c arguments paren).run m := by
  have harity : m.store.arity? (.closure id) = some c.decl.arity := by
    rw [Store.arity?, hc, Option.map_some]
  have hcount : ¬ (arguments.length < c.decl.arity.least ∨
    c.decl.arity.most < arguments.length) := by omega
  rw [run_call, harity]
  exact (if_neg hcount).trans (run_callClosureId hc arguments paren)

theorem run_call_class {id : ClassId} {init : Closure} (hinit : m.store.init? id = some init)
    (hleast : init.decl.arity.least ≤ arguments.length)
    (hmost : arguments.length ≤ init.decl.arity.most) :
    (b.call (.classRef id) arguments paren).run m =
      (b.callClosure { init with scope := m.store.frames.size } arguments paren >>=
        fun _ => pure (.object m.store.objects.size)).run (m.instantiated id init) := by
  have harity : m.store.arity? (.classRef id) = some init.decl.arity := by
    rw [Store.arity?, Store.classArity_eq, hinit]
  have hcount : ¬ (arguments.length < init.decl.arity.least ∨
    init.decl.arity.most < arguments.length) := by omega
  rw [run_call, harity]
  refine (if_neg hcount).trans ((run_instantiate_eq b ?_ paren).trans ?_)
  · rwa [Store.classArity_eq, hinit]
  · rw [hinit, run_construct]

/-- A class without an initializer takes no arguments. -/
theorem run_call_plain {id : ClassId} (hinit : m.store.init? id = none)
    (hmost : arguments.length ≤ 0) : (b.call (.classRef id) arguments paren).run m =
      .ok (.object m.store.objects.size) { m with store := (m.store.newObject id).2 } := by
  have harity : m.store.arity? (.classRef id) = some ⟨0, 0⟩ := by
    rw [Store.arity?, Store.classArity_eq, hinit]
  have hcount : ¬ (arguments.length < (⟨0, 0⟩ : Arity).least ∨
      (⟨0, 0⟩ : Arity).most < arguments.length) := by
    simp only
    omega
  rw [run_call, harity]
  refine (if_neg hcount).trans ((run_instantiate_eq b ?_ paren).trans ?_)
  · rwa [Store.classArity_eq, hinit]
  · rw [hinit]
    rfl

end Below

end Scriptling
