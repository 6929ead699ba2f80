import Std.Data.TreeMap
import Scriptling.Report
import Scriptling.Store.Property
import Scriptling.Stream

namespace Scriptling

/-- Everything a running program can change. `current` is the frame of the innermost scope,
`distances` has the notes of the scope walk. `clock` gives the readings of the clock in milliseconds
and `chances` the numbers that chance draws. -/
structure Machine where
  store : Store
  current : FrameId
  distances : Std.TreeMap ExprId Nat
  output : Output
  input : List UInt8
  clock : Supply Int
  chances : Supply Nat

/-- A step may fail with a report or run out of the depth it was given, and the machine keeps what was
done before that. -/
inductive Stop where
  | failed (failure : Failure)
  | exhausted
deriving DecidableEq, Repr

abbrev Eval := EStateM Stop Machine

namespace Machine

def fail {α : Type} (token : Token) (fault : RuntimeFault) : Eval α :=
  throw (.failed (.runtime ⟨fault, token.place⟩))

def failStream {α : Type} (fault : StreamFault) : Eval α := throw (.failed (.stream fault))

def exhausted {α : Type} : Eval α := throw .exhausted

/-- A result that may be a fault, which is then reported at the token. -/
def checked {α : Type} (token : Token) : Except RuntimeFault α → Eval α
  | .ok a => pure a
  | .error fault => fail token fault

/-- Does something in another frame and comes back, whatever happens. -/
def inFrame {α : Type} (f : FrameId) (act : Eval α) : Eval α := fun m =>
  let previous := m.current
  match act { m with current := f } with
  | .ok a m => .ok a { m with current := previous }
  | .error e m => .error e { m with current := previous }

def currentFrame : Eval FrameId := return (← get).current

def openFrame (parent : FrameId) (bindings : Table Value) : Eval FrameId := fun m =>
  let (f, store) := m.store.openFrame (some parent) bindings
  .ok f { m with store }

def define (f : FrameId) (name : String) (value : Value) : Eval Unit :=
  modify fun m => { m with store := m.store.define f name value }

def newClosure (c : Closure) : Eval ClosureId := fun m =>
  let (id, store) := m.store.newClosure c
  .ok id { m with store }

def newClass (c : ClassRecord) : Eval ClassId := fun m =>
  let (id, store) := m.store.newClass c
  .ok id { m with store }

def newObject (c : ClassId) : Eval ObjectId := fun m =>
  let (id, store) := m.store.newObject c
  .ok id { m with store }

def bindMethod (method : ClosureId) (receiver : Value) : Eval Value := fun m =>
  let (v, store) := m.store.bindMethod method receiver
  .ok v { m with store }

def distance? (id : ExprId) : Eval (Option Nat) := return (← get).distances[id]?

/-- Reads a variable at its noted distance, or else a global. -/
def lookUp (id : ExprId) (name : Token) : Eval Value := do
  let m ← get
  let found :=
    match m.distances[id]? with
    | some d => m.store.getAt? m.current d name.lexeme
    | none => m.store.get? .globals name.lexeme
  match found with
  | some v => pure v
  | none => fail name (.undefinedVariable name.lexeme)

/-- The frame in which a variable is written: the one at its noted distance, or else the global
frame. An unknown global is made there if that is allowed. -/
def target? (m : Machine) (id : ExprId) (name : String) (create : Bool) : Option FrameId :=
  match m.distances[id]? with
  | some d => m.store.holderAt? m.current d name
  | none => if create then some .globals else m.store.holder? .globals name

def assign (id : ExprId) (name : Token) (value : Value) (create : Bool) : Eval Unit := do
  match (← get).target? id name.lexeme create with
  | some f => define f name.lexeme value
  | none => fail name (.undefinedVariable name.lexeme)

/-- Reads a property. A method is bound to the object it is read from. -/
def readProperty (object : Value) (name : Token) : Eval Value := do
  match ← checked name ((← get).store.property object name.lexeme) with
  | .field v => pure v
  | .method id => bindMethod id object

def writeProperty (object : Value) (name : Token) (value : Value) : Eval Unit :=
  if Store.hasFields object then
    modify fun m => { m with store := m.store.setField object name.lexeme value }
  else fail name .noFields

def text (v : Value) : Eval String := return (← get).store.text v

/-- Writes a text; what does not fit is a failure. -/
def write (text : String) : Eval Unit := fun m =>
  let (fits, output) := m.output.write text
  if fits then .ok () { m with output } else failStream .outputFull { m with output }

def flush : Eval Unit := fun m =>
  let (done, output) := m.output.flush
  if done then .ok () { m with output } else failStream .flushFailed { m with output }

/-- The next line of input, none at its end. A line that is not text is passed over all the same. -/
def takeLine : Eval (Option String) := fun m =>
  if m.input.isEmpty then .ok none m
  else
    let (line, rest) := Input.cutLine m.input
    match Input.lineText line with
    | .ok text => .ok (some text) { m with input := rest }
    | .error fault => failStream fault { m with input := rest }

/-- Reads a line. What was written is flushed first. -/
def readLine : Eval (Option String) := do
  flush
  takeLine

def readClock : Eval Int := fun m => .ok m.clock.next { m with clock := m.clock.rest }

def chance (count : Nat) : Eval Nat := fun m =>
  .ok (m.chances.next % count) { m with chances := m.chances.rest }

end Machine

end Scriptling
