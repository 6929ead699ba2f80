import Scriptling.Machine
import Scriptling.Number.Arithmetic
import Scriptling.Number.Numeral

namespace Scriptling.Builtin

open Machine

def ofBits (bits : UInt64) : Value := .number (Float.ofBits bits)

def readSeconds : Eval Value := do
  let millis ← readClock
  pure (.number (Float.ofBits (Number.ofInt millis) / 1000))

/-- Writes a value and then a line break, or what is given in its place. -/
def printValue (site : Token) (v : Value) (ending : Option Value) : Eval Value := do
  let ending ←
    match ending with
    | none => pure "\n"
    | some (.string s) => pure s
    | some _ => fail site .lineEndingNotString
  write ((← text v) ++ ending)
  pure .nil

/-- A line as a value; nil at the end of the input. -/
def lineValue : Option String → Value
  | some line => .string line
  | none => .nil

def readInput (site : Token) (prompt : Option Value) : Eval Value := do
  match prompt with
  | none => pure ()
  | some (.string s) => write s
  | some _ => fail site .promptNotString
  return lineValue (← readLine)

def numberText (site : Token) : Value → Eval Value
  | .number x => pure (.string (Number.valueText x.toBits))
  | _ => fail site .textOfNonNumber

def parseNumber (site : Token) : Value → Eval Value
  | .string text =>
    match Number.parseText text with
    | some bits => pure (ofBits bits)
    | none => fail site (.notNumeral text)
  | _ => fail site .numberOfNonString

def readsAsNumber : Value → Bool
  | .string text => (Number.parseText text).isSome
  | _ => false

def squareRoot (site : Token) : Value → Eval Value
  | .number x => if 0 ≤ x then pure (.number x.sqrt) else fail site .rootOfNegative
  | _ => fail site .rootOfNonNumber

/-- Whole numbers between two bounds, both included, as 64-bit integers. -/
def range? (low high : Float) : Option (Int × Nat) :=
  match Number.ceil? low.toBits, Number.floor? high.toBits with
  | some l, some h =>
    if l ≤ h then
      some (Number.clamp64 l, (Number.clamp64 h - Number.clamp64 l).toNat + 1)
    else none
  | _, _ => none

def randomWhole (site : Token) : Value → Value → Eval Value
  | .number low, .number high =>
    match range? low high with
    | some (first, count) => return ofBits (Number.ofInt (first + (← chance count)))
    | none => fail site .emptyRange
  | _, _ => fail site .rangeNotNumbers

/-- The number of characters of a string, and zero for everything else. -/
def lengthOf : Value → Nat
  | .string s => s.length
  | _ => 0

def run (b : Builtin) (site : Token) (arguments : List Value) : Eval Value :=
  match b, arguments with
  | .clock, _ => readSeconds
  | .print, v :: rest => printValue site v rest.head?
  | .toString, v :: _ => numberText site v
  | .input, rest => readInput site rest.head?
  | .toNumber, v :: _ => parseNumber site v
  | .isNumber, v :: _ => pure (.bool (readsAsNumber v))
  | .sqrt, v :: _ => squareRoot site v
  | .randomInt, low :: high :: _ => randomWhole site low high
  | .typeof, v :: _ => return .string ((← get).store.typeName v)
  | .len, v :: _ => pure (ofBits (Number.ofInt (lengthOf v)))
  | _, _ => pure .nil

end Scriptling.Builtin
