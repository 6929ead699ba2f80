import Scriptling.Number.Binary

namespace Scriptling.Number

/-- The least and the greatest 64-bit integer. -/
def least64 : Int := -(pow2 63 : Int)

def greatest64 : Int := (pow2 63 : Int) - 1

def clamp64 (n : Int) : Int := max least64 (min n greatest64)

def withSign (negative : Bool) (n : Nat) : Int := if negative then -(n : Int) else n

/-- `m * 2 ^ e` without its fraction. -/
def floorAbs (m : Nat) (e : Int) : Nat := m * pow2 e.toNat / pow2 (-e).toNat

/-- The number without its fraction, held to the 64-bit range; zero for what is not a number. -/
def truncate64 (bits : UInt64) : Int :=
  match Exact.ofBits bits with
  | .nan => 0
  | .infinite negative => if negative then least64 else greatest64
  | .finite negative m e => clamp64 (withSign negative (floorAbs m e))

/-- Quotient of 64-bit integers toward zero. The one quotient out of range wraps round. -/
def quotient64 (a b : Int) : Int :=
  let q := Int.tdiv a b
  if greatest64 < q then least64 else q

/-- The quotient of both numbers without their fractions; none when the divisor is then zero. -/
def quotient? (a b : UInt64) : Option UInt64 :=
  let divisor := truncate64 b
  if divisor = 0 then none else some (ofInt (quotient64 (truncate64 a) divisor))

/-- What remains of `a` after taking away `b` as often as fits, with the sign of `a`. -/
def remainder (a b : UInt64) : UInt64 :=
  match Exact.ofBits a, Exact.ofBits b with
  | .finite negative m e, .finite _ n f =>
    if n = 0 then nanBits
    else
      let unit := min e f
      let left := m * pow2 (e - unit).toNat % (n * pow2 (f - unit).toNat)
      nearest negative (left * pow2 unit.toNat) (pow2 (-unit).toNat)
  | .finite _ _ _, .infinite _ => a
  | _, _ => nanBits

/-- An integer beyond every finite double. -/
def beyond : Int := pow2 1025

/-- Has `m * 2 ^ e` no fraction? -/
def isWhole (m : Nat) (e : Int) : Bool := decide (m % pow2 (-e).toNat = 0)

def ceilAbs (m : Nat) (e : Int) : Nat := if isWhole m e then floorAbs m e else floorAbs m e + 1

def floor? (bits : UInt64) : Option Int :=
  match Exact.ofBits bits with
  | .nan => none
  | .infinite negative => some (if negative then -beyond else beyond)
  | .finite negative m e => some (if negative then -(ceilAbs m e : Int) else floorAbs m e)

def ceil? (bits : UInt64) : Option Int :=
  match Exact.ofBits bits with
  | .nan => none
  | .infinite negative => some (if negative then -beyond else beyond)
  | .finite negative m e => some (if negative then -(floorAbs m e : Int) else ceilAbs m e)

end Scriptling.Number
