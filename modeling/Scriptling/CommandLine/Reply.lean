import Scriptling.CommandLine.Directory
import Scriptling.CommandLine.Request
import Scriptling.Session
import Scriptling.Text.Blank
import Scriptling.Token.Text
import Scriptling.Tree.Printer

namespace Scriptling.CommandLine

structure Reply where
  code : Nat
  out : ByteArray
  err : String

/-- Exit codes: bad arguments, a program that does not compile, one that failed, and a file that
could not be read. -/
def usageCode : Nat := 64

def compileCode : Nat := 65

def runtimeCode : Nat := 70

def fileCode : Nat := 1

def codeOf : Status → Nat
  | .ok => 0
  | .compileError => compileCode
  | .runtimeError | .exhausted => runtimeCode

def reportText (reports : List Report) : String := String.join (reports.map Report.lines)

def linesText (lines : List String) : String := String.join (lines.map (· ++ "\n"))

def tokenize (source : String) (json : Bool) : Reply :=
  let items := scan source
  let tokens := tokensOf items
  let faults := faultsOf items
  { code := if faults.isEmpty then 0 else compileCode
    out := (if json then Token.jsonList tokens ++ "\n"
      else linesText (tokens.map Token.display)).toByteArray
    err := reportText (faults.map .lex) }

def printTrees (source : String) : Reply :=
  let items := scan source
  let lexReports := (faultsOf items).map Report.lex
  match (parse false 0 (tokensOf items)).result with
  | .ok statements =>
    { code := if lexReports.isEmpty then 0 else compileCode
      out := (linesText (statements.map Stmt.print)).toByteArray
      err := reportText lexReports }
  | .error faults =>
    { code := compileCode, out := .empty, err := reportText (lexReports ++ faults.map .parse) }

def runProgram (depth : Nat) (machine : Machine) (source : String) : Reply :=
  let outcome := (Session.start false machine).run depth source
  { code := codeOf outcome.status
    out := outcome.session.machine.output.written
    err := reportText outcome.reports }

def prompt (s : Session) (text : String) : Session :=
  { s with machine := { s.machine with output := (s.machine.output.write text).2 } }

/-- A dialogue of at most `bound` lines. Lines that are blank are passed over. -/
def converse (depth : Nat) : Nat → Session → String → Reply
  | 0, s, err => ⟨0, s.machine.output.written, err⟩
  | bound + 1, s, err =>
    let read := (prompt s "> ").readLine
    match read.line, read.reports with
    | some line, _ =>
      if (Text.trim line.toList).isEmpty then converse depth bound read.session err
      else
        let outcome := read.session.run depth line
        converse depth bound outcome.session (err ++ reportText outcome.reports)
    | none, [] => ⟨0, (prompt read.session "\n").machine.output.written, err⟩
    | none, reports =>
      let causes := String.join (reports.map Report.message)
      ⟨fileCode, read.session.machine.output.written,
        err ++ "Error: Failed to read input: " ++ causes ++ "\n"⟩

/-- A dialogue up to the end of the input. Every line takes at least one byte of it. -/
def dialogue (depth : Nat) (machine : Machine) : Reply :=
  converse depth (machine.input.length + 1) (.start true machine) ""

def versionText : String := "dymond 0.1.0\n"

def helpText : String :=
  linesText
    ["Dymond language interpreter", "", "Usage: dymond [OPTIONS] <COMMAND>", "", "Commands:",
     "  tokenize  Tokenizes a file, printing each token",
     "  parse     Parses a file and prints the AST of every statement",
     "  run       Runs a file as a Dymond program",
     "  repl      Starts an interactive session",
     "  help      Print this message or the help of the given subcommand(s)", "", "Options:",
     "      --log      Enable logging to app.log",
     "  -h, --help     Print help",
     "  -V, --version  Print version"]

def performOn (depth : Nat) (machine : Machine) (source : String) : Command → Reply
  | .tokenize _ json => tokenize source json
  | .parse _ => printTrees source
  | .run _ => runProgram depth machine source
  | .repl => dialogue depth machine

/-- Answers a request. `readFile` gives the bytes of a file by its path, and `machine` has the
input of a program that is run. -/
def answer (depth : Nat) (machine : Machine) (readFile : String → Except SourceFault (List UInt8)) :
    Option Request → Reply
  | none => ⟨usageCode, .empty, helpText⟩
  | some .version => ⟨0, versionText.toByteArray, ""⟩
  | some .help => ⟨0, helpText.toByteArray, ""⟩
  | some (.perform command) =>
    match (Request.perform command).file? with
    | none => performOn depth machine "" command
    | some path =>
      match sourceText (readFile path) with
      | .ok source => performOn depth machine source command
      | .error fault => ⟨fileCode, .empty, fault.report path⟩

end Scriptling.CommandLine
