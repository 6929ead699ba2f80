import Scriptling.Text.CasingTable
import Scriptling.Text.Ranges

namespace Scriptling.Text.Casing

def isCased (c : Char) : Bool := within casedRanges c

def isIgnorable (c : Char) : Bool := within ignorableRanges c

/-- The lower-case partner of a letter; every other character is its own. -/
def lowerChar (c : Char) : Char :=
  if c.toNat < 128 then c.toLower
  else
    let n := c.toNat
    match lowerRuns.find? fun r => decide (r.1 ≤ n ∧ n ≤ r.2.1 ∧ (n - r.1) % r.2.2.1 = 0) with
    | some r => Char.ofNat ((n : Int) + r.2.2.2).toNat
    | none => c

/-- Is the first character that counts a letter with case? -/
def meetsCased (cs : List Char) : Bool :=
  match cs.dropWhile isIgnorable with
  | [] => false
  | c :: _ => isCased c

/-- Lower case of one character between the text before it, nearest first, and the text after. -/
def lowerAt (before : List Char) (c : Char) (after : List Char) : List Char :=
  if c.toNat = 0x3A3 then
    [Char.ofNat (if meetsCased before && !meetsCased after then 0x3C2 else 0x3C3)]
  else if c.toNat = 0x130 then [Char.ofNat 0x69, Char.ofNat 0x307]
  else [lowerChar c]

def lowerFrom (before : List Char) : List Char → List Char
  | [] => []
  | c :: cs => lowerAt before c cs ++ lowerFrom (c :: before) cs

def lower (text : String) : String := String.ofList (lowerFrom [] text.toList)

end Scriptling.Text.Casing
