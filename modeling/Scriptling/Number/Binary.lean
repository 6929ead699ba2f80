namespace Scriptling.Number

def pow2 (n : Nat) : Nat := Nat.pow 2 n

def pow10 (n : Nat) : Nat := Nat.pow 10 n

/-- What a double stands for: `± mantissa * 2 ^ exponent` when it is finite. -/
inductive Exact where
  | nan
  | infinite (negative : Bool)
  | finite (negative : Bool) (mantissa : Nat) (exponent : Int)
deriving DecidableEq, Repr

/-- The first bit set: the number is negative. -/
def negativeBit (bits : UInt64) : Bool := decide (pow2 63 ≤ bits.toNat)

/-- The pattern without its sign bit. -/
def size (bits : UInt64) : Nat := bits.toNat % pow2 63

/-- The size of the infinities; larger sizes are not numbers. -/
def infiniteSize : Nat := 2047 * pow2 52

def ofSize (negative : Bool) (size : Nat) : UInt64 :=
  UInt64.ofNat (if negative then pow2 63 + size else size)

/-- The pattern used for every result that is not a number. -/
def nanBits : UInt64 := ofSize false (2047 * pow2 52 + pow2 51)

namespace Exact

/-- Below `2 ^ 52` the size is the mantissa itself; above, each further `2 ^ 52` doubles the unit. -/
def ofSize (negative : Bool) (size : Nat) : Exact :=
  if infiniteSize < size then .nan
  else if size = infiniteSize then .infinite negative
  else if size < pow2 52 then .finite negative size (-1074)
  else .finite negative (size % pow2 52 + pow2 52) (((size / pow2 52 : Nat) : Int) - 1075)

def ofBits (bits : UInt64) : Exact := ofSize (negativeBit bits) (size bits)

end Exact

/-- The quotient rounded to the nearest whole number, a half to the even one. -/
def roundDiv (num den : Nat) : Nat :=
  let q := num / den
  let r := num % den
  if 2 * r < den then q
  else if den < 2 * r then q + 1
  else if q % 2 = 0 then q else q + 1

/-- `num / den` counted in units of `2 ^ exponent`, as a fraction again. -/
def inUnits (num den : Nat) (exponent : Int) : Nat × Nat :=
  (num * pow2 (-exponent).toNat, den * pow2 exponent.toNat)

/-- The largest unit, down to the least one there is, in which the fraction needs 53 binary digits. -/
def unitOf (num den : Nat) : Int :=
  let guess : Int := max ((num.log2 : Int) - den.log2 - 52) (-1074)
  let (n, d) := inUnits num den guess
  if n / d < pow2 52 then max (guess - 1) (-1074) else guess

/-- Size of the double nearest to `num / den`, a half to the even mantissa. -/
def nearestSize (num den : Nat) : Nat :=
  if num = 0 then 0
  else
    let unit := unitOf num den
    let (n, d) := inUnits num den unit
    min ((unit + 1074).toNat * pow2 52 + roundDiv n d) infiniteSize

/-- The double nearest to a fraction of the given sign. -/
def nearest (negative : Bool) (num den : Nat) : UInt64 := ofSize negative (nearestSize num den)

def ofInt (n : Int) : UInt64 := nearest (decide (n < 0)) n.natAbs 1

end Scriptling.Number
