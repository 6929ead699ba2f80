import Scriptling.Proofs.Calls
import Scriptling.Proofs.Exits

namespace Scriptling

open Machine

variable {α β : Type}

def Expr.counted : Expr → List String
  | .var _ name => [name.lexeme]
  | _ => []

mutual

/-- The variables that an expression assigns, those of the functions it calls apart. -/
def Expr.targets : Expr → List String
  | .literal _ | .var _ _ | .this _ _ | .super _ _ _ => []
  | .group inner => inner.targets
  | .unary _ operand => operand.targets
  | .binary left _ right => left.targets ++ right.targets
  | .logical left _ right => left.targets ++ right.targets
  | .ternary condition whenTrue whenFalse =>
    condition.targets ++ (whenTrue.targets ++ whenFalse.targets)
  | .comma items => Expr.targetsAll items
  | .assign _ name value => name.lexeme :: value.targets
  | .compoundAssign _ name _ value => name.lexeme :: value.targets
  | .update _ target _ => target.counted ++ target.targets
  | .call callee _ arguments => callee.targets ++ Expr.targetsAll arguments
  | .get object _ => object.targets
  | .set object _ value => object.targets ++ value.targets
  | .compoundSet object _ _ value => object.targets ++ value.targets

def Expr.targetsAll : List Expr → List String
  | [] => []
  | e :: es => e.targets ++ Expr.targetsAll es

end

/-- The frames that statements may run in, and of the others those that expressions may be evaluated
in, with the names that may be written there and what is known of them all the while; and the
functions that may be met. -/
structure Realm where
  frame : FrameId → Prop
  inner : FrameId → Prop
  writes : FrameId → String → Prop
  keeps : FrameId → Frame → Prop
  decl : FunctionDecl → Prop
  inner_of_frame : ∀ f, frame f → inner f
  writes_of_frame : ∀ f name, frame f → writes f name
  decls : ∀ d, decl d → ∀ d' ∈ Stmt.declsAll d.body, decl d'
  put : ∀ f x name v, writes f name → x.bindings.has name → keeps f x →
    keeps f { x with bindings := x.bindings.put name v }

namespace Realm

structure Admits (R : Realm) (s : Store) : Prop where
  globals : R.frame .globals
  fresh : ∀ f, s.frames.size ≤ f → R.frame f
  parent : ∀ f p, R.inner f → s.parent? f = some p → R.frame p
  scope : ∀ (id : ClosureId) (c : Closure), s.closures[id]? = some c → R.frame c.scope
  decl : ∀ (id : ClosureId) (c : Closure), s.closures[id]? = some c → R.decl c.decl
  keeps : ∀ (f : FrameId) (x : Frame), s.frames[f]? = some x → ¬ R.frame f → R.keeps f x

/-- The signal stands in a function that may be met, where no loop is around it. -/
def Strays (R : Realm) (x : Signal) : Prop := ∃ d, R.decl d ∧ x ∈ Stmt.signalsAll d.body

/-- Expressions that write these names may be evaluated in the frame. -/
structure Hosts (R : Realm) (g : FrameId) (names : List String) : Prop where
  inner : R.inner g
  writes : ∀ name ∈ names, R.writes g name

variable {R : Realm} {g : FrameId} {names names' : List String}

theorem hosts_of_frame (h : R.frame g) (names : List String) : R.Hosts g names :=
  ⟨R.inner_of_frame g h, fun name _ => R.writes_of_frame g name h⟩

theorem Hosts.left (h : R.Hosts g (names ++ names')) : R.Hosts g names :=
  ⟨h.inner, fun name hn => h.writes name (List.mem_append_left _ hn)⟩

theorem Hosts.right (h : R.Hosts g (names ++ names')) : R.Hosts g names' :=
  ⟨h.inner, fun name hn => h.writes name (List.mem_append_right _ hn)⟩

theorem Hosts.tail {name : String} (h : R.Hosts g (name :: names)) : R.Hosts g names :=
  ⟨h.inner, fun name hn => h.writes name (List.mem_cons_of_mem _ hn)⟩

end Realm

/-- Single actions in a frame, and what holds of the values they give. -/
inductive Eval.Single (R : Realm) (g : FrameId) : {α : Type} → Eval α → (α → Prop) → Prop
  | pure {α : Type} {Q : α → Prop} {v : α} : Q v → Single R g (pure v) Q
  | exhausted {α : Type} {Q : α → Prop} : Single R g exhausted Q
  | fail {α : Type} {Q : α → Prop} (token : Token) {fault : RuntimeFault} :
    fault.Ordinary → Single R g (fail token fault) Q
  | stray {α : Type} {Q : α → Prop} {x : Signal} : R.Strays x →
    Single R g (Machine.fail x.keyword x.fault : Eval α) Q
  | openFrame {p : FrameId} (bindings : Table Value) : R.frame p →
    Single R g (openFrame p bindings) R.frame
  | define {f : FrameId} (name : String) (v : Value) : R.frame f →
    Single R g (define f name v) fun _ => True
  | assign (id : ExprId) {name : Token} (v : Value) (create : Bool) : R.Hosts g [name.lexeme] →
    Single R g (assign id name v create) fun _ => True
  | newClosure {c : Closure} : R.frame c.scope → R.decl c.decl →
    Single R g (newClosure c) fun _ => True
  | newClass (c : ClassRecord) : Single R g (newClass c) fun _ => True
  | newObject (c : ClassId) : Single R g (newObject c) fun _ => True
  | bindMethod (method : ClosureId) (receiver : Value) :
    Single R g (bindMethod method receiver) fun _ => True
  | writeProperty (object : Value) (name : Token) (v : Value) :
    Single R g (writeProperty object name v) fun _ => True
  | write (text : String) : Single R g (write text) fun _ => True
  | readClock : Single R g readClock fun _ => True
  | chance (count : Nat) : Single R g (chance count) fun _ => True

/-- Two actions in a frame that are made of the same single actions, readings of input and looks at
the machine, and of evaluations of the same parts, and what holds of the values they give. No look
sees the output or the input. Where the first one has taken all its rounds the second one may go on. -/
inductive Eval.Composed (R : Realm) (b b' : Below) :
    FrameId → {α : Type} → Eval α → Eval α → (α → Prop) → Prop
  | single {g : FrameId} {α : Type} {a : Eval α} {Q : α → Prop} : Eval.Single R g a Q →
    Composed R b b' g a a Q
  | readInput {g : FrameId} (site : Token) (prompt : Option Value) :
    Composed R b b' g (Builtin.readInput site prompt) (Builtin.readInput site prompt) fun _ => True
  | look {g : FrameId} {α : Type} {k k' : Machine → Eval α} {Q : α → Prop} :
    (∀ (m : Machine) (o : Output) (i : List UInt8),
      k { m with output := o, input := i } = k m ∧
        k' { m with output := o, input := i } = k' m) →
    (∀ m : Machine, m.current = g → R.Admits m.store → Composed R b b' g (k m) (k' m) Q) →
    Composed R b b' g (get >>= k) (get >>= k') Q
  | bind {g : FrameId} {α β : Type} {a a' : Eval α} {k k' : α → Eval β} {P : α → Prop}
    {Q : β → Prop} : Composed R b b' g a a' P →
    (∀ v, P v → Composed R b b' g (k v) (k' v) Q) → Composed R b b' g (a >>= k) (a' >>= k') Q
  | inFrame {f g : FrameId} {α : Type} {a a' : Eval α} {Q : α → Prop} :
    Composed R b b' f a a' Q → Composed R b b' g (inFrame f a) (inFrame f a') Q
  | evaluate {g : FrameId} {e : Expr} : R.Hosts g e.targets →
    Composed R b b' g (b.evaluate e) (b'.evaluate e) fun _ => True
  | execute {g : FrameId} {s : Stmt} : R.frame g → (∀ d ∈ s.decls, R.decl d) →
    Composed R b b' g (b.execute s) (b'.execute s) (·.Among s.signals s.returns)
  | spent {g : FrameId} {α : Type} {a' : Eval α} {Q : α → Prop} : b.rounds < b'.rounds →
    Composed R b b' g exhausted a' Q

theorem Eval.Single.runs {R : Realm} {g : FrameId} {a : Eval α} {Q : α → Prop}
    (h : Eval.Single R g a Q) : a.Runs := by
  cases h with
  | pure => exact .pure _
  | exhausted => exact .throw _
  | fail token => exact .fail _ _
  | stray => exact .fail _ _
  | openFrame bindings => exact runs_openFrame _ bindings
  | define name v => exact runs_define _ name v
  | assign id v create => exact runs_assign id _ v create
  | newClosure => exact runs_newClosure _
  | newClass c => exact runs_newClass c
  | newObject c => exact runs_newObject c
  | bindMethod method receiver => exact runs_bindMethod method receiver
  | writeProperty object name v => exact runs_writeProperty object name v
  | write text => exact runs_write text
  | readClock => exact runs_readClock
  | chance count => exact runs_chance count

namespace Eval.Composed

variable {R : Realm} {b b' : Below} {g : FrameId}

theorem pure {Q : α → Prop} {v : α} (h : Q v) : Composed R b b' g (pure v) (pure v) Q :=
  .single (.pure h)

/-- Both fail alike, with a fault that pieces of a program can have. -/
theorem fail {Q : α → Prop} (token : Token) {fault : RuntimeFault} (h : fault.Ordinary) :
    Composed R b b' g (Machine.fail token fault : Eval α) (Machine.fail token fault) Q :=
  .single (.fail token h)

theorem mono {a a' : Eval α} {P Q : α → Prop} (h : Composed R b b' g a a' P)
    (hQ : ∀ v, P v → Q v) : Composed R b b' g a a' Q := by
  have hpure : Composed R b b' g (a >>= Pure.pure) (a' >>= Pure.pure) Q :=
    .bind h fun v hv => .pure (hQ v hv)
  rwa [bind_pure, bind_pure] at hpure

/-- The first action on its own. -/
theorem left {a a' : Eval α} {Q : α → Prop} (h : Composed R b b' g a a' Q) :
    Composed R b b g a a Q := by
  induction h with
  | single h => exact .single h
  | readInput site prompt => exact .readInput site prompt
  | look hk _ ih => exact .look (fun m o i => ⟨(hk m o i).1, (hk m o i).1⟩) ih
  | bind _ _ iha ihk => exact .bind iha ihk
  | inFrame _ ih => exact .inFrame ih
  | evaluate hh => exact .evaluate hh
  | execute hg hd => exact .execute hg hd
  | spent _ => exact .single .exhausted

/-- The second action on its own. -/
theorem right {a a' : Eval α} {Q : α → Prop} (h : Composed R b b' g a a' Q)
    (hrounds : b.rounds = b'.rounds) : Composed R b' b' g a' a' Q := by
  induction h with
  | single h => exact .single h
  | readInput site prompt => exact .readInput site prompt
  | look hk _ ih => exact .look (fun m o i => ⟨(hk m o i).2, (hk m o i).2⟩) ih
  | bind _ _ iha ihk => exact .bind iha ihk
  | inFrame _ ih => exact .inFrame ih
  | evaluate hh => exact .evaluate hh
  | execute hg hd => exact .execute hg hd
  | spent hlt => exact absurd hrounds (Nat.ne_of_lt hlt)

/-- What is thrown away needs no promise. -/
theorem discard {a a' : Eval α} {P : α → Prop} (h : Composed R b b' g a a' P) :
    Composed R b b' g (Functor.discard a) (Functor.discard a') fun _ => True :=
  .bind h fun _ _ => .pure trivial

/-- A check fails with ordinary faults only. -/
theorem checked (token : Token) {r : Except RuntimeFault α}
    (h : ∀ fault, r = .error fault → fault.Ordinary) :
    Composed R b b' g (Machine.checked token r) (Machine.checked token r) fun _ => True := by
  cases r with
  | ok v => exact .pure trivial
  | error fault => exact .fail token (h fault rfl)

end Eval.Composed

open Eval

/-- No operator has the faults of calls. -/
theorem Operator.ordinary_apply {kind : Kind} {lexeme : String} {left right : Value}
    {fault : RuntimeFault} (h : apply kind lexeme left right = .error fault) : fault.Ordinary := by
  have hnumbers : ∀ (f : Float → Float → Except RuntimeFault Value),
      (∀ x y, f x y = .error fault → fault.Ordinary) → numbers f left right = .error fault →
        fault.Ordinary := by
    intro f hf h
    unfold numbers at h
    split at h
    · exact hf _ _ h
    · cases h
      trivial
  have hrelate : ∀ holds, relate holds left right = .error fault → fault.Ordinary := by
    intro holds h
    unfold relate at h
    split at h <;> cases h
    trivial
  unfold apply at h
  split at h
  · unfold add at h
    split at h <;> cases h
    trivial
  · exact hnumbers _ (fun _ _ hv => by cases hv) h
  · exact hnumbers _ (fun _ _ hv => by cases hv) h
  · refine hnumbers _ (fun x y hd => ?_) h
    unfold divide at hd
    split at hd <;> cases hd
    trivial
  · refine hnumbers _ (fun x y hd => ?_) h
    unfold quotient at hd
    split at hd <;> cases hd
    trivial
  · exact hnumbers _ (fun _ _ hv => by cases hv) h
  · exact hrelate _ h
  · exact hrelate _ h
  · exact hrelate _ h
  · exact hrelate _ h
  · cases h
  · cases h
  · cases h
    trivial

/-- Reading a property has none of the faults of calls either. -/
theorem Store.ordinary_property {s : Store} {v : Value} {name : String} {fault : RuntimeFault}
    (h : s.property v name = .error fault) : fault.Ordinary := by
  unfold property at h
  split at h
  · split at h
    · unfold objectProperty at h
      split at h
      · cases h
      · split at h
        · cases h
        · split at h <;> cases h <;> trivial
    · cases h
      trivial
  · split at h
    · unfold classProperty at h
      split at h
      · cases h
      · split at h
        · cases h
        · split at h <;> cases h <;> trivial
    · cases h
      trivial
  · cases h
    trivial

variable {R : Realm} {b b' : Below} {g : FrameId}

theorem composed_text (v : Value) :
    Composed R b b' g (Machine.text v) (Machine.text v) fun _ => True :=
  .look (fun _ _ _ => ⟨rfl, rfl⟩) fun _ _ _ => .pure trivial

theorem composed_currentFrame : Composed R b b' g currentFrame currentFrame (· = g) :=
  .look (fun _ _ _ => ⟨rfl, rfl⟩) fun _ hg _ => .pure hg

theorem composed_lookUp (id : ExprId) (name : Token) :
    Composed R b b' g (lookUp id name) (lookUp id name) fun _ => True := by
  refine .look (fun _ _ _ => ⟨rfl, rfl⟩) fun m _ _ => ?_
  dsimp only
  split
  · exact .pure trivial
  · exact .fail _ trivial

theorem composed_readProperty (object : Value) (name : Token) :
    Composed R b b' g (readProperty object name) (readProperty object name) fun _ => True := by
  refine .look (fun _ _ _ => ⟨rfl, rfl⟩) fun m _ _ => ?_
  refine .bind (.checked _ fun _ => Store.ordinary_property) fun property _ => ?_
  cases property with
  | field v => exact .pure trivial
  | method id => exact .single (.bindMethod id object)

namespace Builtin

theorem composed_printValue (site : Token) (v : Value) (ending : Option Value) :
    Composed R b b' g (printValue site v ending) (printValue site v ending) fun _ => True := by
  have hprint : ∀ ending : String, Composed R b b' g
      (do write ((← text v) ++ ending); pure Value.nil)
      (do write ((← text v) ++ ending); pure Value.nil) fun _ => True :=
    fun ending => .bind (composed_text v) fun _ _ => .bind (.single (.write _)) fun _ _ =>
      .pure trivial
  unfold printValue
  split
  · exact hprint _
  · exact hprint _
  · exact .fail _ trivial

theorem composed_run (f : Builtin) (site : Token) (arguments : List Value) :
    Composed R b b' g (f.run site arguments) (f.run site arguments) fun _ => True := by
  unfold Builtin.run
  split
  · exact .bind (.single .readClock) fun _ _ => .pure trivial
  · exact composed_printValue _ _ _
  · unfold numberText
    split
    · exact .pure trivial
    · exact .fail _ trivial
  · exact .readInput _ _
  · unfold parseNumber
    split
    · split
      · exact .pure trivial
      · exact .fail _ trivial
    · exact .fail _ trivial
  · exact .pure trivial
  · unfold squareRoot
    split
    · split
      · exact .pure trivial
      · exact .fail _ trivial
    · exact .fail _ trivial
  · unfold randomWhole
    split
    · split
      · exact .bind (.single (.chance _)) fun _ _ => .pure trivial
      · exact .fail _ trivial
    · exact .fail _ trivial
  · exact .look (fun _ _ _ => ⟨rfl, rfl⟩) fun _ _ _ => .pure trivial
  · exact .pure trivial
  · exact .pure trivial

end Builtin

namespace Below

theorem composed_numberOperand (operator : Token) (v : Value) :
    Composed R b b' g (numberOperand operator v) (numberOperand operator v) fun _ => True := by
  cases v with
  | number x => exact .pure trivial
  | _ => exact .fail _ trivial

theorem composed_applyUnary (operator : Token) (v : Value) :
    Composed R b b' g (applyUnary operator v) (applyUnary operator v) fun _ => True := by
  unfold applyUnary
  split
  · exact .bind (composed_numberOperand operator v) fun _ _ => .pure trivial
  · exact .pure trivial

theorem composed_evaluateAll {es : List Expr} (h : R.Hosts g (Expr.targetsAll es)) :
    Composed R b b' g (b.evaluateAll es) (b'.evaluateAll es) fun _ => True := by
  induction es with
  | nil => exact .pure trivial
  | cons e es ih =>
    exact .bind (.evaluate h.left) fun _ _ => .bind (ih h.right) fun _ _ => .pure trivial

theorem composed_evaluateLast {es : List Expr} (h : R.Hosts g (Expr.targetsAll es))
    (last : Value) :
    Composed R b b' g (b.evaluateLast last es) (b'.evaluateLast last es) fun _ => True := by
  induction es generalizing last with
  | nil => exact .pure trivial
  | cons e es ih => exact .bind (.evaluate h.left) fun v _ => ih h.right v

theorem composed_evaluate? {e : Option Expr} (h : ∀ names, R.Hosts g names) :
    Composed R b b' g (b.evaluate? e) (b'.evaluate? e) fun _ => True := by
  cases e with
  | none => exact .pure trivial
  | some e => exact .evaluate (h _)

/-- Signals and values of the statement that control leaves, which is one of them. -/
theorem composed_executeAll {ss : List Stmt} (hg : R.frame g)
    (hd : ∀ d ∈ Stmt.declsAll ss, R.decl d) :
    Composed R b b' g (b.executeAll ss) (b'.executeAll ss)
      (·.Among (Stmt.signalsAll ss) (Stmt.returnsAll ss)) := by
  induction ss with
  | nil => exact .pure trivial
  | cons s ss ih =>
    rw [Stmt.declsAll, List.forall_mem_append] at hd
    refine .bind (.execute hg hd.1) fun flow hflow => ?_
    have hhead : flow.Among (Stmt.signalsAll (s :: ss)) (Stmt.returnsAll (s :: ss)) :=
      hflow.mono (fun _ => List.mem_append_left _) fun hr => by simp [Stmt.returnsAll, hr]
    cases flow with
    | normal =>
      refine (ih hd.2).mono fun flow hflow => ?_
      exact hflow.mono (fun _ => List.mem_append_right _) fun hr => by simp [Stmt.returnsAll, hr]
    | _ => exact .pure hhead

/-- Arguments have been counted, so no parameter is left without a value. -/
theorem composed_bindParams {f : FrameId} (paren : Token) {ps : List Param} {vs : List Value}
    (hf : R.frame f) (hleast : Param.least ps ≤ vs.length) :
    Composed R b b' g (b.bindParams f paren ps vs) (b'.bindParams f paren ps vs)
      fun _ => True := by
  induction ps generalizing vs with
  | nil => exact .pure trivial
  | cons p ps ih =>
    cases vs with
    | cons v vs =>
      exact .bind (.single (.define _ v hf)) fun _ _ => ih (Param.least_of_cons hleast)
    | nil =>
      obtain ⟨hsome, hrest⟩ := Param.fallback_of_least hleast
      obtain ⟨name, fallback⟩ := p
      obtain ⟨e, rfl⟩ := Option.isSome_iff_exists.1 hsome
      exact .bind (.inFrame (.evaluate (Realm.hosts_of_frame hf _))) fun v _ =>
        .bind (.single (.define _ v hf)) fun _ _ => ih hrest

theorem composed_callClosure {c : Closure} {arguments : List Value} (paren : Token)
    (hscope : R.frame c.scope) (hd : R.decl c.decl)
    (hleast : c.decl.arity.least ≤ arguments.length) :
    Composed R b b' g (b.callClosure c arguments paren) (b'.callClosure c arguments paren)
      fun _ => True := by
  have hreceiver : Composed R b b' g (receiver c) (receiver c) fun _ => True :=
    .look (fun _ _ _ => ⟨rfl, rfl⟩) fun _ _ _ => .pure trivial
  refine .bind (.single (.openFrame [] hscope)) fun f hf => ?_
  refine .bind (composed_bindParams paren hf hleast) fun _ _ => ?_
  refine .bind (.inFrame (composed_executeAll hf (R.decls _ hd))) fun flow hflow => ?_
  cases flow with
  | «break» k => exact .single (.stray (x := .break k) ⟨_, hd, hflow⟩)
  | next k => exact .single (.stray (x := .next k) ⟨_, hd, hflow⟩)
  | «return» v =>
    dsimp only
    split
    · exact hreceiver
    · exact .pure trivial
  | normal =>
    dsimp only
    split
    · exact hreceiver
    · exact .pure trivial

/-- The frame that a call is made from does not matter. -/
theorem composed_call (callee : Value) (arguments : List Value) (paren : Token) :
    Composed R b b' g (b.call callee arguments paren) (b'.call callee arguments paren)
      fun _ => True := by
  rw [b.call_eq, b'.call_eq]
  refine .look (fun _ _ _ => ⟨rfl, rfl⟩) fun m _ hm => ?_
  unfold callOn
  split
  · exact .fail _ trivial
  · rename_i arity harity
    split
    · exact .fail _ trivial
    · rename_i hcount
      have hleast : arity.least ≤ arguments.length := by omega
      split
      · rename_i id
        cases hc : m.store.closures[id]? with
        | none => exact .fail _ trivial
        | some c =>
          rw [Store.arity?, hc, Option.map_some, Option.some_inj] at harity
          rw [← harity] at hleast
          exact composed_callClosure paren (hm.scope id c hc) (hm.decl id c hc) hleast
      · exact Builtin.composed_run _ paren arguments
      · rename_i id
        unfold construct
        refine .bind (.single (.newObject id)) fun o _ => ?_
        cases hi : m.store.init? id with
        | none => exact .pure trivial
        | some c =>
          obtain ⟨method, -, hc⟩ := Option.bind_eq_some_iff.1 hi
          rw [Store.arity?, Store.classArity_eq, hi, Option.some_inj] at harity
          rw [← harity] at hleast
          refine .bind (.single (.openFrame _ (hm.scope method c hc))) fun f hf => ?_
          refine .bind (.single (.newClosure hf (hm.decl method c hc))) fun _ _ => ?_
          exact .bind (composed_callClosure paren hf (hm.decl method c hc) hleast) fun _ _ =>
            .pure trivial
      · exact .fail _ trivial

theorem composed_evaluateLogical {left right : Expr} (operator : Token)
    (h : R.Hosts g (left.targets ++ right.targets)) :
    Composed R b b' g (b.evaluateLogical left operator right)
      (b'.evaluateLogical left operator right) fun _ => True := by
  refine .bind (.evaluate h.left) fun v _ => ?_
  dsimp only
  generalize (if operator.kind = .or then v.truthy else !v.truthy) = decided
  cases decided with
  | true => exact .pure trivial
  | false => exact .evaluate h.right

theorem composed_evaluateUpdate (operator : Token) {target : Expr} (before : Bool)
    (h : R.Hosts g (target.counted ++ target.targets)) :
    Composed R b b' g (b.evaluateUpdate operator target before)
      (b'.evaluateUpdate operator target before) fun _ => True := by
  cases target with
  | var id name =>
    exact .bind (composed_lookUp id name) fun _ _ =>
      .bind (composed_numberOperand operator _) fun _ _ =>
        .bind (.single (.assign id _ false h.left)) fun _ _ => .pure trivial
  | get object name =>
    exact .bind (.evaluate h.right) fun o _ => .bind (composed_readProperty o name) fun _ _ =>
      .bind (composed_numberOperand operator _) fun _ _ =>
        .bind (.single (.writeProperty o name _)) fun _ _ => .pure trivial
  | _ => exact .fail _ trivial

theorem composed_evaluateSuper (id : ExprId) (keyword method : Token) :
    Composed R b b' g (evaluateSuper id keyword method) (evaluateSuper id keyword method)
      fun _ => True := by
  refine .look (fun _ _ _ => ⟨rfl, rfl⟩) fun m _ _ => ?_
  split
  · exact .fail _ trivial
  · dsimp only
    split
    · exact .single (.bindMethod _ _)
    · exact .fail _ trivial

/-- An expression is evaluated where it may write what it assigns. -/
theorem composed_evaluateStep {e : Expr} (h : R.Hosts g e.targets) :
    Composed R b b' g (b.evaluateStep e) (b'.evaluateStep e) fun _ => True := by
  have hchecked : ∀ (operator : Token) {kind : Kind} {lexeme : String} {l r : Value},
      Composed R b b' g (Machine.checked operator (Operator.apply kind lexeme l r))
        (Machine.checked operator (Operator.apply kind lexeme l r)) fun _ => True :=
    fun operator {_ _ _ _} => .checked operator fun _ => Operator.ordinary_apply
  cases e with
  | literal value => exact .pure trivial
  | group inner => exact .evaluate h
  | unary operator operand =>
    exact .bind (.evaluate h) fun v _ => composed_applyUnary operator v
  | binary left operator right =>
    exact .bind (.evaluate h.left) fun _ _ => .bind (.evaluate h.right) fun _ _ =>
      hchecked operator
  | logical left operator right => exact composed_evaluateLogical operator h
  | ternary condition whenTrue whenFalse =>
    exact .bind (.evaluate h.right.right) fun _ _ => .bind (.evaluate h.right.left) fun _ _ =>
      .bind (.evaluate h.left) fun _ _ => .pure trivial
  | comma items => exact composed_evaluateLast h .nil
  | var id name => exact composed_lookUp id name
  | assign id name value =>
    exact .bind (.evaluate h.tail) fun v _ =>
      .bind (.single (.assign id v true (h.left : R.Hosts g [name.lexeme]))) fun _ _ => .pure trivial
  | compoundAssign id name operator value =>
    exact .bind (composed_lookUp id name) fun _ _ => .bind (.evaluate h.tail) fun _ _ =>
      .bind (hchecked operator) fun new _ =>
        .bind (.single (.assign id new false (h.left : R.Hosts g [name.lexeme]))) fun _ _ =>
          .pure trivial
  | update operator target before => exact composed_evaluateUpdate operator before h
  | call callee paren arguments =>
    exact .bind (.evaluate h.left) fun f _ => .bind (composed_evaluateAll h.right) fun vs _ =>
      composed_call f vs paren
  | get object name => exact .bind (.evaluate h) fun o _ => composed_readProperty o name
  | set object name value =>
    exact .bind (.evaluate h.left) fun o _ => .bind (.evaluate h.right) fun v _ =>
      .bind (.single (.writeProperty o name v)) fun _ _ => .pure trivial
  | compoundSet object name operator value =>
    exact .bind (.evaluate h.left) fun o _ => .bind (composed_readProperty o name) fun _ _ =>
      .bind (.evaluate h.right) fun _ _ => .bind (hchecked operator) fun new _ =>
        .bind (.single (.writeProperty o name new)) fun _ _ => .pure trivial
  | this id keyword => exact composed_lookUp id keyword
  | super id keyword method => exact composed_evaluateSuper id keyword method

/-- A loop takes up the signals of its body. -/
theorem composed_loop (hg : R.frame g) (condition : Expr) (increment : Option Expr) (body : Stmt)
    (hd : ∀ d ∈ body.decls, R.decl d) {rounds rounds' : Nat} (hle : rounds ≤ rounds')
    (hlt : rounds < rounds' → b.rounds < b'.rounds) :
    Composed R b b' g (b.loop condition increment body rounds)
      (b'.loop condition increment body rounds') (·.Among [] body.returns) := by
  have hhosts := Realm.hosts_of_frame hg
  induction rounds generalizing rounds' with
  | zero =>
    cases rounds' with
    | zero => exact .single .exhausted
    | succ rounds' => exact .spent (hlt (Nat.succ_pos _))
  | succ rounds ih =>
    obtain ⟨rounds', rfl⟩ := Nat.exists_eq_succ_of_ne_zero (Nat.ne_zero_of_lt hle)
    refine .bind (.evaluate (hhosts _)) fun v _ => ?_
    split
    · refine .bind (.execute hg hd) fun flow hflow => ?_
      have hnext : Composed R b b' g (discard (b.evaluate? increment))
          (discard (b'.evaluate? increment)) fun _ => True := (composed_evaluate? hhosts).discard
      have hagain := hnext.bind fun _ _ =>
        ih (Nat.le_of_succ_le_succ hle) fun h => hlt (Nat.succ_lt_succ h)
      cases flow with
      | «break» keyword => exact .pure trivial
      | «return» v => exact .pure hflow
      | normal => exact hagain
      | next keyword => exact hagain
    · exact .pure trivial

theorem composed_methodTable {scope : FrameId} (hscope : R.frame scope)
    (initializer : Token → Bool) {ds : List FunctionDecl} (hd : ∀ d ∈ ds, R.decl d)
    (table : Table ClosureId) : Composed R b b' g (Below.methodTable scope initializer table ds)
      (Below.methodTable scope initializer table ds) fun _ => True := by
  induction ds generalizing table with
  | nil => exact .pure trivial
  | cons d ds ih =>
    rw [List.forall_mem_cons] at hd
    exact .bind (.single (.newClosure hscope hd.1)) fun _ _ => ih hd.2 _

theorem composed_evaluateSuperclass (hg : R.frame g) (superclass : Option Superclass) :
    Composed R b b' g (b.evaluateSuperclass superclass) (b'.evaluateSuperclass superclass)
      fun _ => True := by
  cases superclass with
  | none => exact .pure trivial
  | some parent =>
    refine .bind (.evaluate (Realm.hosts_of_frame hg _)) fun v _ => ?_
    cases v with
    | classRef c => exact .pure trivial
    | _ => exact .fail _ trivial

theorem composed_executeClass (hg : R.frame g) (name : Token) (superclass : Option Superclass)
    {methods statics : List FunctionDecl} (hd : ∀ d ∈ methods ++ statics, R.decl d) :
    Composed R b b' g (b.executeClass name superclass methods statics)
      (b'.executeClass name superclass methods statics) fun _ => True := by
  rw [List.forall_mem_append] at hd
  have hfill : ∀ (scope : FrameId) (parent : Option ClassId), R.frame scope →
      Composed R b b' g (do
        let ms ← Below.methodTable scope (·.lexeme == "init") [] methods
        let ss ← Below.methodTable scope (fun _ => false) [] statics
        let c ← newClass ⟨name.lexeme, parent, ms, ss, []⟩
        Machine.define g name.lexeme (.classRef c)) (do
        let ms ← Below.methodTable scope (·.lexeme == "init") [] methods
        let ss ← Below.methodTable scope (fun _ => false) [] statics
        let c ← newClass ⟨name.lexeme, parent, ms, ss, []⟩
        Machine.define g name.lexeme (.classRef c)) fun _ => True := fun scope parent hscope =>
    .bind (composed_methodTable hscope _ hd.1 []) fun _ _ =>
      .bind (composed_methodTable hscope _ hd.2 []) fun _ _ =>
        .bind (.single (.newClass _)) fun _ _ => .single (.define _ _ hg)
  refine .bind (composed_evaluateSuperclass hg superclass) fun parent _ => ?_
  refine .bind composed_currentFrame fun f hf => ?_
  subst hf
  refine .bind (.single (.define _ _ hg)) fun _ _ => ?_
  cases parent with
  | none => exact hfill _ _ hg
  | some c => exact .bind (.single (.openFrame _ hg)) fun scope hscope => hfill scope _ hscope

/-- A statement is left by its own signals and returns. -/
theorem composed_executeStep (hrounds : b.rounds ≤ b'.rounds) {s : Stmt} (hg : R.frame g)
    (hd : ∀ d ∈ s.decls, R.decl d) :
    Composed R b b' g (b.executeStep s) (b'.executeStep s)
      (·.Among s.signals s.returns) := by
  have hhosts := Realm.hosts_of_frame hg
  cases s with
  | expr e => exact .bind (Composed.evaluate (hhosts _)).discard fun _ _ => .pure trivial
  | var name initial =>
    refine .bind (composed_evaluate? hhosts) fun v _ => .bind composed_currentFrame fun f hf => ?_
    subst hf
    exact .bind (.single (.define _ v hg)) fun _ _ => .pure trivial
  | block body =>
    refine .bind composed_currentFrame fun f hf => ?_
    subst hf
    exact .bind (.single (.openFrame [] hg)) fun f hf => .inFrame (composed_executeAll hf hd)
  | ifThen condition whenTrue =>
    refine .bind (.evaluate (hhosts _)) fun v _ => ?_
    split
    · exact .execute hg hd
    · exact .pure trivial
  | ifElse condition whenTrue whenFalse =>
    rw [Stmt.decls, List.forall_mem_append] at hd
    refine .bind (.evaluate (hhosts _)) fun v _ => ?_
    split
    · refine (Composed.execute hg hd.1).mono fun flow hflow => ?_
      exact hflow.mono (fun _ => List.mem_append_left _) fun hr => by simp [Stmt.returns, hr]
    · refine (Composed.execute hg hd.2).mono fun flow hflow => ?_
      exact hflow.mono (fun _ => List.mem_append_right _) fun hr => by simp [Stmt.returns, hr]
  | «while» condition body =>
    exact composed_loop hg condition none body hd hrounds id
  | «for» condition increment body =>
    exact composed_loop hg condition increment body hd hrounds id
  | function decl =>
    refine .bind composed_currentFrame fun f hf => ?_
    subst hf
    exact .bind (.single (.newClosure hg (hd decl (by simp [Stmt.decls])))) fun _ _ =>
      .bind (.single (.define _ _ hg)) fun _ _ => .pure trivial
  | «return» keyword value => exact .bind (composed_evaluate? hhosts) fun _ _ => .pure rfl
  | «break» keyword => exact .pure (List.mem_singleton_self _)
  | next keyword => exact .pure (List.mem_singleton_self _)
  | «class» name superclass methods statics =>
    exact .bind (composed_executeClass hg name superclass hd) fun _ _ => .pure trivial

end Below

end Scriptling
