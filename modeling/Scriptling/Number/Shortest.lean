import Scriptling.Number.Binary

namespace Scriptling.Number

/-- The decimal `digits * 10 ^ exponent`. -/
structure Decimal where
  digits : Nat
  exponent : Int
deriving DecidableEq, Repr

/-- How many digits a number is written with; zero has none. -/
def digitCount (n : Nat) : Nat := if n = 0 then 0 else (Nat.toDigits 10 n).length

namespace Decimal

/-- The same decimal without zeros at its end; at most `fuel` of them are removed. -/
def trimZeros : Nat → Decimal → Decimal
  | 0, d => d
  | fuel + 1, d =>
    if d.digits ≠ 0 ∧ d.digits % 10 = 0 then trimZeros fuel ⟨d.digits / 10, d.exponent + 1⟩ else d

/-- The decimal point's place: the number lies below `10 ^ place`, and not below a tenth of that. -/
def place (num den : Nat) : Int :=
  if den ≤ num then digitCount (num / den) else 1 - (digitCount ((den - 1) / num) : Int)

end Decimal

/-- Decimals with one exponent measured against a double: `decimal` units of the first kind equal
`binary` quarter units of the mantissa. -/
structure Scale where
  decimal : Nat
  binary : Nat

/-- Both units as whole numbers: `10 ^ k` against a quarter of `2 ^ e`. -/
def Scale.of (k e : Int) : Scale where
  decimal := pow10 k.toNat * pow2 (2 - e).toNat
  binary := pow10 (-k).toNat * pow2 (e - 2).toNat

/-- The decimals that read back as `m * 2 ^ e` reach half way to its neighbours, the ends included
when the mantissa is even. Below a power of two the neighbour is nearer. -/
def readsBack (m : Nat) (e : Int) (s : Scale) (c : Nat) : Bool :=
  let below := if m = pow2 52 ∧ -1074 < e then 1 else 2
  let low := (4 * m - below) * s.binary
  let high := (4 * m + 2) * s.binary
  let point := c * s.decimal
  if m % 2 = 0 then decide (low ≤ point ∧ point ≤ high) else decide (low < point ∧ point < high)

/-- Which of two equally near decimals is taken: the greater one, or the one with an even last
digit. -/
inductive Tie where
  | up
  | even
deriving DecidableEq, Repr

/-- Is the neighbour above `below` taken, `gap` being the distance to `below` out of `whole`? -/
def Tie.takesAbove (tie : Tie) (below gap whole : Nat) : Bool :=
  match tie with
  | .up => decide (whole ≤ 2 * gap)
  | .even => decide (whole < 2 * gap ∨ (whole = 2 * gap ∧ below % 2 = 1))

/-- The best decimal with exponent `k` for `m * 2 ^ e`, if one reads back: one of the two
neighbours on that grid. -/
def onGrid? (tie : Tie) (m : Nat) (e k : Int) : Option Decimal :=
  let s := Scale.of k e
  let below := 4 * m * s.binary / s.decimal
  let gap := 4 * m * s.binary % s.decimal
  match readsBack m e s below, readsBack m e s (below + 1) with
  | true, true => some ⟨if tie.takesAbove below gap s.decimal then below + 1 else below, k⟩
  | true, false => some ⟨below, k⟩
  | false, true => some ⟨below + 1, k⟩
  | false, false => none

/-- The shortest decimal for the positive double `m * 2 ^ e`. Seventeen digits always suffice. -/
def shortest (tie : Tie) (m : Nat) (e : Int) : Decimal :=
  let place := Decimal.place (m * pow2 e.toNat) (pow2 (-e).toNat)
  let found := (List.range 17).findSome? fun (i : Nat) => onGrid? tie m e (place - 1 - (i : Int))
  Decimal.trimZeros 17 (found.getD ⟨m, e⟩)

end Scriptling.Number
