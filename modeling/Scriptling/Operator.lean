import Scriptling.Fault
import Scriptling.Number.Arithmetic
import Scriptling.Number.Text
import Scriptling.Store.Value
import Scriptling.Text.Casing

namespace Scriptling.Operator

def base : Kind → Kind
  | .plusEqual => .plus
  | .minusEqual => .minus
  | .starEqual => .star
  | .slashEqual => .slash
  | _ => .percent

def numeral (x : Float) : String := Number.valueText x.toBits

def numbers (f : Float → Float → Except RuntimeFault Value) : Value → Value → Except RuntimeFault Value
  | .number a, .number b => f a b
  | _, _ => .error .operandsNotNumbers

/-- Sums numbers and joins strings; beside a string a number is written out. -/
def add : Value → Value → Except RuntimeFault Value
  | .number a, .number b => .ok (.number (a + b))
  | .string a, .string b => .ok (.string (a ++ b))
  | .string a, .number b => .ok (.string (a ++ numeral b))
  | .number a, .string b => .ok (.string (numeral a ++ b))
  | _, _ => .error .operandsUnlike

def divide (a b : Float) : Except RuntimeFault Value :=
  if b == 0 then .error .divisionByZero else .ok (.number (a / b))

def quotient (a b : Float) : Except RuntimeFault Value :=
  match Number.quotient? a.toBits b.toBits with
  | some q => .ok (.number (Float.ofBits q))
  | none => .error .divisionByZero

def compareNumbers (a b : Float) : Option Ordering :=
  if a < b then some .lt else if b < a then some .gt else if a == b then some .eq else none

/-- Dictionary order by code point. -/
def compareChars : List Char → List Char → Ordering
  | [], [] => .eq
  | [], _ :: _ => .lt
  | _ :: _, [] => .gt
  | a :: as, b :: bs =>
    if a.toNat < b.toNat then .lt
    else if b.toNat < a.toNat then .gt
    else compareChars as bs

/-- How strings compare without regard to case. -/
def compareTexts (a b : String) : Ordering :=
  compareChars (Text.Casing.lower a).toList (Text.Casing.lower b).toList

/-- Compares two numbers or two strings. What does not compare is in no relation. -/
def relate (holds : Ordering → Bool) : Value → Value → Except RuntimeFault Value
  | .number a, .number b => .ok (.bool ((compareNumbers a b).any holds))
  | .string a, .string b => .ok (.bool (holds (compareTexts a b)))
  | _, _ => .error .operandsUnlike

/-- Applies an operator. `lexeme` is how it is written where it has no meaning. -/
def apply (kind : Kind) (lexeme : String) (left right : Value) : Except RuntimeFault Value :=
  match kind with
  | .plus => add left right
  | .minus => numbers (fun a b => .ok (.number (a - b))) left right
  | .star => numbers (fun a b => .ok (.number (a * b))) left right
  | .slash => numbers divide left right
  | .slashSlash => numbers quotient left right
  | .percent =>
    numbers (fun a b => .ok (.number (Float.ofBits (Number.remainder a.toBits b.toBits)))) left right
  | .greater => relate (·.isGT) left right
  | .greaterEqual => relate (·.isGE) left right
  | .less => relate (·.isLT) left right
  | .lessEqual => relate (·.isLE) left right
  | .equalEqual => .ok (.bool (left.same right))
  | .bangEqual => .ok (.bool (!left.same right))
  | _ => .error (.unknownOperator lexeme)

end Scriptling.Operator
