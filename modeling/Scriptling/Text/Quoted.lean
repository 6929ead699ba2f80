import Scriptling.Text.Ranges
import Scriptling.Text.ShapeTable

namespace Scriptling.Text

def hexDigits (n : Nat) : List Char := Nat.toDigits 16 n

/-- Characters that a report shows by number, because nothing of them would be seen or they would
change how the character before them looks. -/
def isHidden (c : Char) : Bool :=
  within Shape.emptyRanges c || within Shape.joiningRanges c

def quoteNameChar (c : Char) : List Char :=
  if c = '"' then ['\\', '"']
  else if c = '\\' then ['\\', '\\']
  else if c = '\n' then ['\\', 'n']
  else if c = '\r' then ['\\', 'r']
  else if c = '\t' then ['\\', 't']
  else if c.toNat = 0 then ['\\', '0']
  else if isHidden c then ['\\', 'u', '\x7b'] ++ hexDigits c.toNat ++ ['\x7d']
  else [c]

/-- A file name as reports show it. -/
def quoteName (text : String) : String :=
  "\"" ++ String.ofList (text.toList.flatMap quoteNameChar) ++ "\""

def quoteJsonChar (c : Char) : List Char :=
  if c = '"' then ['\\', '"']
  else if c = '\\' then ['\\', '\\']
  else if c = '\n' then ['\\', 'n']
  else if c = '\r' then ['\\', 'r']
  else if c = '\t' then ['\\', 't']
  else if c.toNat = 8 then ['\\', 'b']
  else if c.toNat = 12 then ['\\', 'f']
  else if c.toNat < 0x20 then
    let ds := hexDigits c.toNat
    ['\\', 'u'] ++ List.replicate (4 - ds.length) '0' ++ ds
  else [c]

def quoteJson (text : String) : String :=
  "\"" ++ String.ofList (text.toList.flatMap quoteJsonChar) ++ "\""

end Scriptling.Text
