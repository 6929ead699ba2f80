import Scriptling.Fault

namespace Scriptling

inductive Failure where
  | runtime (error : Located RuntimeFault)
  | stream (fault : StreamFault)
deriving DecidableEq, Repr

inductive Report where
  | lex (error : Located LexFault)
  | parse (error : Located ParseFault)
  | scope (error : Located ScopeFault)
  | failure (failure : Failure)
deriving DecidableEq, Repr

namespace Report

def message : Report → String
  | .lex e => e.fault.message
  | .parse e => e.fault.message
  | .scope e => e.fault.message
  | .failure (.runtime e) => e.fault.message
  | .failure (.stream fault) => fault.message

/-- Where the cause lies, unless it lies outside the program. -/
def place? : Report → Option Place
  | .lex e => some e.place
  | .parse e => some e.place
  | .scope e => some e.place
  | .failure (.runtime e) => some e.place
  | .failure (.stream _) => none

def compileTime : Report → Bool
  | .failure _ => false
  | _ => true

/-- The line a report is headed by. -/
def text (r : Report) : String :=
  match r.place? with
  | none => r.message
  | some p =>
    "[line " ++ p.line.repr ++ "] " ++ (if r.compileTime then "Error: " else "Runtime error: ") ++
      r.message

/-- A number at the end of a column of five characters. -/
def padded (n : Nat) : String :=
  let digits := n.repr
  String.ofList (List.replicate (5 - digits.length) ' ') ++ digits

/-- The report as it is written out: its line, then the program's line with a mark under the
column. -/
def lines (r : Report) : String :=
  r.text ++ "\n" ++
    match r.place? with
    | none => ""
    | some p =>
      if p.text.isEmpty then ""
      else
        padded p.line ++ " | " ++ p.text ++ "\n" ++
          "      | " ++ String.ofList (List.replicate (p.column - 1) ' ') ++ "^\n"

end Report

end Scriptling
