import Scriptling.Eval
import Scriptling.Scope
import Scriptling.Token.Scan
import Scriptling.Tree.Grammar

namespace Scriptling

inductive Status where
  | ok
  | compileError
  | runtimeError
  | exhausted
deriving DecidableEq, Repr

/-- A machine and the next unused node number. An interactive session lets the last statement of a
program go unterminated and shows the values of expressions. -/
structure Session where
  machine : Machine
  nextId : ExprId
  interactive : Bool

structure Outcome where
  status : Status
  reports : List Report
  session : Session

def Machine.start (input : List UInt8) (output : Output) (clock : Supply Int)
    (chances : Supply Nat) : Machine where
  store := .start
  current := .globals
  distances := {}
  output
  input
  clock
  chances

namespace Session

def start (interactive : Bool) (machine : Machine) : Session := ⟨machine, 0, interactive⟩

/-- Shows the value of an expression unless it is nil. -/
def echo (below : Below) (e : Expr) : Eval Unit := do
  let v ← below.evaluate e
  if v.isNil then pure () else Machine.write ((← Machine.text v) ++ "\n")

/-- A statement outside all others, which no loop is around. -/
def runStatement (below : Below) (s : Stmt) : Eval Unit := do
  match ← below.execute s with
  | .break keyword => Machine.fail keyword .breakOutsideLoop
  | .next keyword => Machine.fail keyword .nextOutsideLoop
  | .normal | .return _ => pure ()

def runTopLevel (below : Below) (interactive : Bool) (s : Stmt) : Eval Unit :=
  match interactive, s with
  | true, .expr e => echo below e
  | _, s => runStatement below s

/-- The failures of statements run one after the other, and whether all of them were run. -/
structure Ran where
  failures : List Failure
  complete : Bool
  machine : Machine

/-- Every statement is tried. After a failure the next one starts among the globals again. -/
def runAll (below : Below) (interactive : Bool) : List Stmt → Machine → Ran
  | [], m => ⟨[], true, m⟩
  | s :: ss, m =>
    match runTopLevel below interactive s m with
    | .ok () m => runAll below interactive ss m
    | .error (.failed failure) m =>
      let ran := runAll below interactive ss { m with current := .globals }
      { ran with failures := failure :: ran.failures }
    | .error .exhausted m => ⟨[], false, m⟩

/-- Flushes the output, and adds a failure to those of the statements if that fails. -/
def Ran.flush (ran : Ran) : Ran :=
  let (done, output) := ran.machine.output.flush
  { ran with
    failures := if done then ran.failures else ran.failures ++ [.stream .flushFailed]
    machine := { ran.machine with output } }

def interpret (below : Below) (interactive : Bool) (statements : List Stmt) (m : Machine) : Ran :=
  let ran := runAll below interactive statements m
  if ran.complete then ran.flush else ran

def outcomeOf (s : Session) (ran : Ran) : Outcome where
  status := if !ran.complete then .exhausted else if ran.failures.isEmpty then .ok else .runtimeError
  reports := ran.failures.map .failure
  session := { s with machine := ran.machine }

def globalNames (s : Session) : List String := s.machine.store.names .globals

def noteDistances (s : Session) (notes : List (ExprId × Nat)) : Session :=
  { s with machine := { s.machine with
      distances := notes.foldr (fun (id, d) table => table.insert id d) s.machine.distances } }

/-- A source text read into statements, with the reports of both stages in order. -/
structure Read where
  lexReports : List Report
  parsed : Except (List Report) (List Stmt)
  session : Session

def read (s : Session) (source : String) : Read :=
  let items := scan source
  let parsed := parse s.interactive s.nextId (tokensOf items)
  { lexReports := (faultsOf items).map .lex
    parsed :=
      match parsed.result with
      | .ok statements => .ok statements
      | .error faults => .error (faults.map .parse)
    session := { s with nextId := parsed.nextId } }

/-- Resolves the names of statements and runs them. Nothing runs if a name or a statement stands
where it may not. -/
def perform (below : Below) (s : Session) (statements : List Stmt) : Outcome :=
  let walk := resolve s.globalNames statements
  let s := s.noteDistances walk.distances
  if !walk.faults.isEmpty then ⟨.compileError, walk.faults.map .scope, s⟩
  else s.outcomeOf (interpret below s.interactive statements s.machine)

/-- Runs a source text by the given evaluation. Nothing of it runs if any stage before has something
to report. -/
def runBy (below : Below) (s : Session) (source : String) : Outcome :=
  let read := s.read source
  match read.parsed with
  | .error reports => ⟨.compileError, read.lexReports ++ reports, read.session⟩
  | .ok statements =>
    if !read.lexReports.isEmpty then ⟨.compileError, read.lexReports, read.session⟩
    else read.session.perform below statements

def run (depth : Nat) (s : Session) (source : String) : Outcome := s.runBy (.upTo depth) source

/-- Runs a source text without resolving its names, so that all of them are taken as globals. -/
def runUnresolved (depth : Nat) (s : Session) (source : String) : Outcome :=
  let read := s.read source
  match read.parsed with
  | .error reports => ⟨.compileError, read.lexReports ++ reports, read.session⟩
  | .ok statements =>
    if !read.lexReports.isEmpty then ⟨.compileError, read.lexReports, read.session⟩
    else
      read.session.outcomeOf
        (interpret (.upTo depth) s.interactive statements read.session.machine)

structure LineRead where
  line : Option String
  reports : List Report
  session : Session

def readLine (s : Session) : LineRead :=
  match Machine.readLine s.machine with
  | .ok line m => ⟨line, [], { s with machine := m }⟩
  | .error (.failed failure) m => ⟨none, [.failure failure], { s with machine := m }⟩
  | .error .exhausted m => ⟨none, [], { s with machine := m }⟩

end Session

end Scriptling
