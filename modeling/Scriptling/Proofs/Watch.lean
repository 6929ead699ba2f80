import Scriptling.Session
import Scriptling.Proofs.Sites

namespace Scriptling

/-- What is said of expressions and statements when they are evaluated on a machine. It may refer to
the evaluation of their parts. -/
structure Watch where
  expr : Below → Expr → Machine → Prop
  stmt : Below → Stmt → Machine → Prop

open Classical in
/-- Does something only if a condition holds, and gives up otherwise. -/
noncomputable def guarded {α : Type} (condition : Machine → Prop) (alarm : Stop) (act : Eval α) :
    Eval α := fun m => if condition m then act.run m else .error alarm m

mutual

/-- Evaluation that gives up where the watch fails. -/
noncomputable def Watch.evaluate (W : Watch) (alarm : Stop) : Nat → Expr → Eval Value
  | 0, _ => Machine.exhausted
  | depth + 1, e => guarded (W.expr (.upTo depth) e) alarm
    (Below.evaluateStep ⟨W.evaluate alarm depth, W.execute alarm depth, depth⟩ e)

noncomputable def Watch.execute (W : Watch) (alarm : Stop) : Nat → Stmt → Eval Flow
  | 0, _ => Machine.exhausted
  | depth + 1, s => guarded (W.stmt (.upTo depth) s) alarm
    (Below.executeStep ⟨W.evaluate alarm depth, W.execute alarm depth, depth⟩ s)

end

noncomputable def Watch.below (W : Watch) (alarm : Stop) (depth : Nat) : Below :=
  ⟨W.evaluate alarm depth, W.execute alarm depth, depth⟩

/-- A program given to a session, and the machine's surroundings at that time. -/
structure Turn where
  source : String
  interactive : Bool
  input : List UInt8
  output : Output
  clock : Supply Int
  chances : Supply Nat

namespace Session

/-- Everything outside the programs may change between two of them. -/
def supply (s : Session) (t : Turn) : Session :=
  { s with
    interactive := t.interactive
    machine := { s.machine with
      input := t.input, output := t.output, clock := t.clock, chances := t.chances } }

def play (below : Below) : Session → List Turn → List Outcome
  | _, [] => []
  | s, t :: ts =>
    let outcome := (s.supply t).runBy below t.source
    outcome :: play below outcome.session ts

def after (below : Below) : Session → List Turn → Session
  | s, [] => s
  | s, t :: ts => after below ((s.supply t).runBy below t.source).session ts

/-- The statements of a source text, if they come to run. -/
def accepted? (s : Session) (source : String) : Option (List Stmt) :=
  match (s.read source).parsed with
  | .error _ => none
  | .ok statements =>
    if (s.read source).lexReports.isEmpty && (resolve s.globalNames statements).faults.isEmpty then
      some statements
    else none

def programs (below : Below) : Session → List Turn → List (List Stmt)
  | _, [] => []
  | s, t :: ts =>
    ((s.supply t).accepted? t.source).toList ++
      programs below ((s.supply t).runBy below t.source).session ts

end Session

def Watch.Holds (W : Watch) (depth : Nat) (s : Session) (turns : List Turn) : Prop :=
  ∀ alarm, s.play (W.below alarm depth) turns = s.play (.upTo depth) turns

/-- One alarm is enough: if that one is not heard, the watch holds. -/
theorem Watch.exists_alarm (W : Watch) (depth : Nat) (s : Session) (turns : List Turn) :
    ∃ alarm, s.play (W.below alarm depth) turns = s.play (.upTo depth) turns →
      W.Holds depth s turns := by
  by_cases hholds : W.Holds depth s turns
  · exact ⟨.exhausted, fun _ => hholds⟩
  · obtain ⟨alarm, halarm⟩ := Classical.not_forall.1 hholds
    exact ⟨alarm, fun heq => absurd heq halarm⟩

inductive Store.Lies (layout : FrameId → Option Opener) (s : Store) : FrameId → Context → Prop
  | globals : Lies layout s .globals []
  | inside {f p : FrameId} {layer : Layer} {Γ : Context} : layout f = some layer.opener →
      s.parent? f = some p → Lies layout s p Γ → Lies layout s f (layer :: Γ)

/-- The next frame is the receiver's in the class that a method belongs to. -/
def Store.Receives (layout : FrameId → Option Opener) (s : Store) (method : ClosureId) : Prop :=
  ∃ c declaration, s.closures[method]? = some c ∧ declaration.Owns c.decl ∧
    layout s.frames.size = some (.this declaration)

def Store.findFor? (s : Store) (this : Value) (c : ClassId) (name : String) : Option ClosureId :=
  match this with
  | .object _ => s.findMethod? c name
  | _ => s.findStatic? c name

/-- The frame that reading a property opens if it is a method. -/
def Expr.OpensReceiver (layout : FrameId → Option Opener) (below : Below) (m : Machine)
    (object : Expr) (name : Token) : Prop :=
  ∀ (o : Value) (m₁ : Machine) (method : ClosureId), (below.evaluate object).run m = .ok o m₁ →
    m₁.store.property o name.lexeme = .ok (.method method) → m₁.store.Receives layout method

/-- The frames that a call opens: one for the function, and before it one for the receiver if that
is a new instance. -/
def Value.OpensCall (layout : FrameId → Option Opener) (m : Machine) (arguments : List Value)
    (callee : Value) : Prop :=
  match callee with
  | .closure id => ∀ c, m.store.closures[id]? = some c →
    c.decl.arity.least ≤ arguments.length → arguments.length ≤ c.decl.arity.most →
    layout m.store.frames.size = some (.function c.decl)
  | .classRef c => ∀ method init, m.store.findMethod? c "init" = some method →
    m.store.closures[method]? = some init →
    init.decl.arity.least ≤ arguments.length → arguments.length ≤ init.decl.arity.most →
    m.store.Receives layout method ∧
      layout (m.store.frames.size + 1) = some (.function init.decl)
  | _ => True

/-- The frames that evaluating an expression opens. -/
def Expr.Opens (layout : FrameId → Option Opener) (below : Below) (m : Machine) : Expr → Prop
  | .call callee _ arguments => ∀ (v : Value) (vs : List Value) (m₁ m₂ : Machine),
    (below.evaluate callee).run m = .ok v m₁ → (below.evaluateAll arguments).run m₁ = .ok vs m₂ →
    v.OpensCall layout m₂ vs
  | .get object name => object.OpensReceiver layout below m name
  | .compoundSet object name _ _ => object.OpensReceiver layout below m name
  | .update _ (.get object name) _ => object.OpensReceiver layout below m name
  | .super id _ method => ∀ (c : ClassId) (this : Value) (found : ClosureId),
    Below.superAndThis? m id = some (c, this) →
    m.store.findFor? this c method.lexeme = some found → m.store.Receives layout found
  | _ => True

/-- The frames that a statement opens: one for a block, one for the superclass of a class, which is
the class that the clause yields. -/
def Stmt.Opens (layout : FrameId → Option Opener) (heritage : FrameId → Option ClassId)
    (below : Below) (m : Machine) : Stmt → Prop
  | .block body => layout m.store.frames.size = some (.block body)
  | .class name (some parent) methods statics => ∀ (c : ClassId) (m₁ : Machine),
    (below.evaluate parent.expr).run m = .ok (.classRef c) m₁ →
    layout m₁.store.frames.size = some (.super (.class name (some parent) methods statics)) ∧
      heritage m₁.store.frames.size = some c
  | _ => True

end Scriptling
