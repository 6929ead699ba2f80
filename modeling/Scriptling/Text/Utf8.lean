namespace Scriptling.Text.Utf8

/-- What a stretch of bytes holds: a character, a piece that no character begins with, or the
beginning of a character at the end of the text. -/
inductive Piece where
  | char (c : Char)
  | broken (length : Nat)
  | unfinished (length : Nat)
deriving DecidableEq, Repr

/-- How many bytes a character with this first byte has; none begins with the others. -/
def width (lead : UInt8) : Nat :=
  if lead < 0x80 then 1
  else if lead < 0xC2 then 0
  else if lead < 0xE0 then 2
  else if lead < 0xF0 then 3
  else if lead < 0xF5 then 4
  else 0

/-- The bytes allowed after the first one: narrower where a shorter form exists, for surrogates
and above the last code point. -/
def secondByte (lead b : UInt8) : Bool :=
  let low : UInt8 := if lead == 0xE0 then 0xA0 else if lead == 0xF0 then 0x90 else 0x80
  let high : UInt8 := if lead == 0xED then 0x9F else if lead == 0xF4 then 0x8F else 0xBF
  decide (low ≤ b ∧ b ≤ high)

def laterByte (b : UInt8) : Bool := decide (0x80 ≤ b ∧ b ≤ 0xBF)

/-- How many of the bytes continue a character that begins with `lead`. -/
def goodLength (lead : UInt8) : List UInt8 → Nat
  | [] => 0
  | b :: bs => if secondByte lead b then 1 + (bs.takeWhile laterByte).length else 0

def leadBits (lead : UInt8) : Nat :=
  if lead < 0x80 then lead.toNat
  else if lead < 0xE0 then lead.toNat % 32
  else if lead < 0xF0 then lead.toNat % 16
  else lead.toNat % 8

def assemble (lead : UInt8) (rest : List UInt8) : Char :=
  Char.ofNat (rest.foldl (fun n b => 64 * n + b.toNat % 64) (leadBits lead))

def head (lead : UInt8) (rest : List UInt8) : Piece :=
  match width lead with
  | 0 => .broken 1
  | n + 1 =>
    let tail := rest.take n
    let good := goodLength lead tail
    if good = n then .char (assemble lead tail)
    else if good = tail.length then .unfinished (1 + good)
    else .broken (1 + good)

def Piece.length : Piece → Nat
  | .char c => c.utf8Size
  | .broken n => n
  | .unfinished n => n

def pieces : List UInt8 → List Piece
  | [] => []
  | lead :: rest =>
    let piece := head lead rest
    piece :: pieces (rest.drop (piece.length - 1))
termination_by bytes => bytes.length
decreasing_by simp only [List.length_drop, List.length_cons]; omega

def replacement : Char := Char.ofNat 0xFFFD

def Piece.shown : Piece → Char
  | .char c => c
  | _ => replacement

/-- The text of the bytes, each broken piece shown as one replacement character. -/
def decodeLossy (bytes : List UInt8) : String := String.ofList ((pieces bytes).map Piece.shown)

/-- Where the bytes stop being text, and the length of the broken piece there unless the text
merely ends too early. -/
structure Damage where
  index : Nat
  length : Option Nat
deriving DecidableEq, Repr

def Damage.message (d : Damage) : String :=
  match d.length with
  | some n => "invalid utf-8 sequence of " ++ n.repr ++ " bytes from index " ++ d.index.repr
  | none => "incomplete utf-8 byte sequence from index " ++ d.index.repr

/-- The first damage among pieces of which the first starts at `index`. -/
def firstDamage? (index : Nat) : List Piece → Option Damage
  | [] => none
  | .char c :: ps => firstDamage? (index + c.utf8Size) ps
  | .broken n :: _ => some ⟨index, some n⟩
  | .unfinished _ :: _ => some ⟨index, none⟩

/-- The text of the bytes, or the first damage in them. -/
def decode (bytes : List UInt8) : Except Damage String :=
  match firstDamage? 0 (pieces bytes) with
  | none => .ok (decodeLossy bytes)
  | some d => .error d

def encode (text : String) : List UInt8 := text.toByteArray.data.toList

end Scriptling.Text.Utf8
