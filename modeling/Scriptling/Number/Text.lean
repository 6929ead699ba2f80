import Scriptling.Number.Shortest

namespace Scriptling.Number

def whole? (m : Nat) (e : Int) : Option Nat :=
  let unit := pow2 (-e).toNat
  if m % unit = 0 then some (m / unit * pow2 e.toNat) else none

def zeros (n : Nat) : String := String.ofList (List.replicate n '0')

def minus (negative : Bool) : String := if negative then "-" else ""

/-- Digits before the point, and after it if there are any. -/
def Decimal.positional (d : Decimal) : String :=
  let text := d.digits.repr
  if 0 ≤ d.exponent then text ++ zeros d.exponent.toNat
  else
    let places := (-d.exponent).toNat
    let cs := text.toList
    if places < cs.length then
      String.ofList (cs.take (cs.length - places)) ++ "." ++ String.ofList (cs.drop (cs.length - places))
    else "0." ++ zeros (places - cs.length) ++ text

/-- One digit before the point, then the power of ten with its sign. -/
def Decimal.scientific (d : Decimal) : String :=
  let cs := d.digits.repr.toList
  let power := d.exponent + cs.length - 1
  let fraction := if cs.length ≤ 1 then "" else "." ++ String.ofList (cs.drop 1)
  let sign := if power < 0 then "-" else "+"
  String.ofList (cs.take 1) ++ fraction ++ "e" ++ sign ++ power.natAbs.repr

/-- Whole numbers below `2 ^ 63` are written out exactly and without a point. -/
def valueText (bits : UInt64) : String :=
  match Exact.ofBits bits with
  | .nan => "NaN"
  | .infinite negative => minus negative ++ "Infinity"
  | .finite negative m e =>
    minus negative ++
      match whole? m e with
      | some n => if n < pow2 63 then n.repr else (shortest .up m e).positional
      | none => (shortest .up m e).positional

/-- Whole numbers below `2 ^ 63` end in `.0`, and zero loses its sign. -/
def tokenText (bits : UInt64) : String :=
  match Exact.ofBits bits with
  | .nan => "NaN"
  | .infinite negative => minus negative ++ "inf"
  | .finite negative m e =>
    match whole? m e with
    | some n =>
      if n < pow2 63 then minus (negative && decide (n ≠ 0)) ++ n.repr ++ ".0"
      else minus negative ++ (shortest .up m e).positional
    | none => minus negative ++ (shortest .up m e).positional

/-- Whole numbers of any size are written out exactly and end in `.0`. -/
def treeText (bits : UInt64) : String :=
  match Exact.ofBits bits with
  | .nan => "NaN"
  | .infinite negative => minus negative ++ "inf"
  | .finite negative m e =>
    minus negative ++
      match whole? m e with
      | some n => n.repr ++ ".0"
      | none => (shortest .up m e).positional

/-- Positional with at least one place from `1e-5` up to `1e16`, scientific outside, and `null`
for what JSON has no number for. -/
def jsonText (bits : UInt64) : String :=
  match Exact.ofBits bits with
  | .nan | .infinite _ => "null"
  | .finite negative m e =>
    if m = 0 then minus negative ++ "0.0"
    else
      let d := shortest .even m e
      let power := d.exponent + digitCount d.digits - 1
      minus negative ++
        if -5 ≤ power ∧ power < 16 then
          if 0 ≤ d.exponent then d.positional ++ ".0" else d.positional
        else d.scientific

end Scriptling.Number
