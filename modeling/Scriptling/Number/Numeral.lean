import Scriptling.Number.Shortest
import Scriptling.Text.Blank

namespace Scriptling.Number

def isDigit (c : Char) : Bool := decide ('0' ≤ c ∧ c ≤ '9')

def digitValue (c : Char) : Nat := c.toNat - '0'.toNat

/-- The number that digits of a base stand for, lowest first. -/
def valueIn (base : Nat) : List Nat → Nat
  | [] => 0
  | d :: ds => d + base * valueIn base ds

/-- Two digits of a base at a time as one digit of its square, after those already done. -/
def pairUp (base : Nat) (done : List Nat) : List Nat → List Nat
  | low :: high :: rest => pairUp base ((low + base * high) :: done) rest
  | rest => done.reverseAux rest

/-- The number that digits of a base stand for, with digits paired up first for some rounds: then
long rows of digits need few multiplications of long numbers. -/
def valuePaired : Nat → Nat → List Nat → Nat
  | rounds + 1, base, ds => valuePaired rounds (base * base) (pairUp base [] ds)
  | 0, base, ds => valueIn base ds

def ofDigits (cs : List Char) : Nat :=
  valuePaired (cs.length.log2 + 1) 10 (cs.reverse.map digitValue)

theorem pairUp_done (base : Nat) :
    ∀ done ds, pairUp base done ds = done.reverseAux (pairUp base [] ds)
  | _, [] => rfl
  | _, [_] => rfl
  | done, low :: high :: rest => by
    rw [pairUp, pairUp_done base (_ :: done) rest, pairUp, pairUp_done base [_] rest]
    rfl

theorem valueIn_pairUp (base : Nat) :
    ∀ ds, valueIn (base * base) (pairUp base [] ds) = valueIn base ds
  | [] => rfl
  | [_] => by simp [pairUp, valueIn]
  | low :: high :: rest => by
    rw [pairUp, pairUp_done]
    simp only [List.reverseAux, valueIn]
    rw [valueIn_pairUp base rest, Nat.mul_add, Nat.mul_assoc, Nat.add_assoc]

/-- Pairing up changes nothing. -/
theorem valuePaired_eq (rounds base : Nat) (ds : List Nat) :
    valuePaired rounds base ds = valueIn base ds := by
  induction rounds generalizing base ds with
  | zero => rfl
  | succ rounds ih => rw [valuePaired, ih, valueIn_pairUp]

theorem valueIn_reverse (base : Nat) (ds : List Nat) :
    valueIn base ds.reverse = ds.foldl (fun n d => base * n + d) 0 := by
  have h : ∀ ds, valueIn base ds = ds.foldr (fun d n => base * n + d) 0 := by
    intro ds
    induction ds with
    | nil => rfl
    | cons d ds ih => rw [valueIn, ih, List.foldr_cons, Nat.add_comm]
  rw [h, List.foldr_reverse]

/-- A row of digits is read from its first digit on. -/
theorem ofDigits_eq (cs : List Char) :
    ofDigits cs = cs.foldl (fun n c => 10 * n + digitValue c) 0 := by
  rw [ofDigits, valuePaired_eq, List.map_reverse, valueIn_reverse, List.foldl_map]

/-- An optional sign in front: whether it was a minus, and what follows. -/
def takeSign : List Char → Bool × List Char
  | '-' :: cs => (true, cs)
  | '+' :: cs => (false, cs)
  | cs => (false, cs)

/-- From here on a power of ten is read no further. -/
def powerLimit : Nat := 0x10000

/-- The power of ten that a row of digits writes. Digits that follow once the limit is reached do
not count. -/
def powerOfDigits (cs : List Char) : Nat :=
  cs.foldl (fun n c => if n < powerLimit then 10 * n + digitValue c else n) 0

/-- The power of ten at the end of a numeral, zero where none is written. -/
def readPower : List Char → Option Int
  | [] => some 0
  | c :: cs =>
    if c = 'e' ∨ c = 'E' then
      let (negative, ds) := takeSign cs
      if ds ≠ [] ∧ ds.all isDigit then
        some (if negative then -(powerOfDigits ds : Int) else powerOfDigits ds)
      else none
    else none

/-- A numeral without its sign. A digit is needed before or after the point. -/
def readDecimal (cs : List Char) : Option Decimal :=
  let whole := cs.takeWhile isDigit
  let rest := cs.dropWhile isDigit
  let (fraction, rest) :=
    match rest with
    | '.' :: more => (more.takeWhile isDigit, more.dropWhile isDigit)
    | _ => ([], rest)
  if whole = [] ∧ fraction = [] then none
  else (readPower rest).map fun power => ⟨ofDigits (whole ++ fraction), power - fraction.length⟩

def Decimal.nearestSize (d : Decimal) : Nat :=
  Number.nearestSize (d.digits * pow10 d.exponent.toNat) (pow10 (-d.exponent).toNat)

def readNumeral (cs : List Char) : Option UInt64 :=
  let (negative, rest) := takeSign cs
  (readDecimal rest).map fun d => ofSize negative d.nearestSize

def isNumeralChar (c : Char) : Bool :=
  isDigit c || c == '.' || c == '-' || c == '+' || c == 'e' || c == 'E'

/-- The double that a text stands for, blanks around it ignored. -/
def parseText (text : String) : Option UInt64 :=
  let cs := Text.trim text.toList
  if cs ≠ [] ∧ cs.all isNumeralChar then readNumeral cs else none

end Scriptling.Number
