namespace Scriptling.CommandLine

inductive Command where
  | tokenize (file : String) (json : Bool)
  | parse (file : String)
  | run (file : String)
  | repl
deriving DecidableEq, Repr

inductive Request where
  | perform (command : Command)
  | version
  | help
deriving DecidableEq, Repr

def Request.file? : Request → Option String
  | .perform (.tokenize file _) | .perform (.parse file) | .perform (.run file) => some file
  | _ => none

inductive Verb where
  | tokenize
  | parse
  | run
  | repl
deriving DecidableEq, Repr

def Verb.ofName? : String → Option Verb
  | "tokenize" => some .tokenize
  | "parse" => some .parse
  | "run" => some .run
  | "repl" => some .repl
  | _ => none

def Verb.takesFile : Verb → Bool
  | .repl => false
  | _ => true

/-- Options and file of a command as far as they were read. No option may be given twice. -/
structure Given where
  file : Option String
  json : Bool
  log : Bool

def Verb.command? (verb : Verb) (given : Given) : Option Command :=
  match verb, given.file with
  | .tokenize, some file => some (.tokenize file given.json)
  | .parse, some file => some (.parse file)
  | .run, some file => some (.run file)
  | .repl, none => some .repl
  | _, _ => none

/-- Takes an argument as the command's file. It has at most one, and its name is not empty. -/
def Verb.take? (verb : Verb) (given : Given) (name : String) : Option Given :=
  if verb.takesFile && given.file.isNone && !name.isEmpty then
    some { given with file := some name }
  else none

def readNames (verb : Verb) (given : Given) : List String → Option Request
  | [] => (verb.command? given).map .perform
  | name :: rest => (verb.take? given name).bind fun given => readNames verb given rest

/-- A dash with more characters behind it; the dash alone is a file name. -/
def isOption (argument : String) : Bool :=
  match argument.toList with
  | '-' :: _ :: _ => true
  | _ => false

def startsShort (letter : Char) (argument : String) : Bool :=
  match argument.toList with
  | '-' :: c :: _ => c == letter
  | _ => false

def readArguments (verb : Verb) (given : Given) : List String → Option Request
  | [] => (verb.command? given).map .perform
  | "--" :: rest => readNames verb given rest
  | "--log" :: rest => if given.log then none else readArguments verb { given with log := true } rest
  | argument :: rest =>
    if argument = "--help" ∨ startsShort 'h' argument then some .help
    else if argument = "--json" ∧ verb = .tokenize then
      if given.json then none else readArguments verb { given with json := true } rest
    else if isOption argument then none
    else (verb.take? given argument).bind fun given => readArguments verb given rest

def readHelp : List String → Option Request
  | [] => some .help
  | [name] => if (Verb.ofName? name).isSome ∨ name = "help" then some .help else none
  | _ => none

/-- What the arguments ask for; none if they are not understood. -/
def readRequest (log : Bool) : List String → Option Request
  | [] => none
  | "--log" :: rest => if log then none else readRequest true rest
  | "help" :: rest => readHelp rest
  | argument :: rest =>
    if argument = "--version" ∨ startsShort 'V' argument then some .version
    else if argument = "--help" ∨ startsShort 'h' argument then some .help
    else (Verb.ofName? argument).bind fun verb => readArguments verb ⟨none, false, false⟩ rest

def Request.ofArguments (arguments : List String) : Option Request := readRequest false arguments

end Scriptling.CommandLine
