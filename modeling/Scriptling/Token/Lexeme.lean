import Scriptling.Number.Numeral
import Scriptling.Text.Utf8
import Scriptling.Token.Basic

namespace Scriptling

namespace Lexeme

def ascii (b : UInt8) : Char := Char.ofNat b.toNat

def isDigit (b : UInt8) : Bool := Number.isDigit (ascii b)

def isWordStart (b : UInt8) : Bool := (ascii b).isAlpha || ascii b == '_'

def isWord (b : UInt8) : Bool := isWordStart b || isDigit b

def isLineEnd (b : UInt8) : Bool := ascii b == '\n'

/-- What stands at the front. Blanks and comments are gaps. -/
inductive Content where
  | token (kind : Kind) (literal : Literal)
  | gap
  | fault (fault : LexFault)

/-- What stands at the front, and the number of its bytes after the first. -/
structure Front where
  content : Content
  more : Nat

/-- Signs that are tokens whatever follows. -/
def sign? : Char → Option Kind
  | '(' => some .leftParen
  | ')' => some .rightParen
  | '\x7b' => some .leftBrace
  | '\x7d' => some .rightBrace
  | ',' => some .comma
  | ';' => some .semicolon
  | '?' => some .question
  | ':' => some .colon
  | _ => none

/-- Operators: the kind of the sign alone, and of the sign with certain second ones. -/
def operator? : Char → Option (Kind × List (Char × Kind))
  | '+' => some (.plus, [('=', .plusEqual), ('+', .plusPlus)])
  | '-' => some (.minus, [('=', .minusEqual), ('-', .minusMinus)])
  | '*' => some (.star, [('=', .starEqual)])
  | '%' => some (.percent, [('=', .percentEqual)])
  | '!' => some (.bang, [('=', .bangEqual)])
  | '=' => some (.equal, [('=', .equalEqual)])
  | '<' => some (.less, [('=', .lessEqual), ('-', .leftArrow)])
  | '>' => some (.greater, [('=', .greaterEqual)])
  | '/' => some (.slash, [('/', .slashSlash), ('=', .slashEqual)])
  | _ => none

def operator (alone : Kind) (pairs : List (Char × Kind)) (rest : List UInt8) : Front :=
  match rest.head?.bind fun b => pairs.lookup (ascii b) with
  | some kind => ⟨.token kind .nil, 1⟩
  | none => ⟨.token alone .nil, 0⟩

/-- A comment's inside runs up to the first byte that is `*` or that stands before a `/`. -/
def commentInside : List UInt8 → Nat
  | [] => 0
  | b :: bs =>
    if ascii b = '*' ∨ bs.head?.map ascii = some '/' then 0 else 1 + commentInside bs

/-- A comment between `/*` and its end: the inside and the two bytes after it, as far as there are
any. `rest` starts at the `*`. -/
def blockComment (rest : List UInt8) : Front :=
  let inside := commentInside (rest.drop 1)
  ⟨.gap, min rest.length (1 + inside + 2)⟩

def lineComment (rest : List UInt8) : Front :=
  ⟨.gap, (rest.takeWhile fun b => !isLineEnd b).length⟩

/-- A string runs to the next quote; nothing inside it is special. -/
def string (rest : List UInt8) : Front :=
  let inside := rest.takeWhile fun b => ascii b != '"'
  if inside.length = rest.length then ⟨.fault .unterminatedString, inside.length⟩
  else ⟨.token .string (.string (Text.Utf8.decodeLossy inside)), inside.length + 1⟩

def digitsLength (bytes : List UInt8) : Nat := (bytes.takeWhile isDigit).length

def signLength (bytes : List UInt8) : Nat :=
  match bytes.head?.map ascii with
  | some '+' | some '-' => 1
  | _ => 0

/-- Length of a power of ten at the front, zero where none stands. It needs a digit. -/
def exponentLength : List UInt8 → Nat
  | [] => 0
  | b :: bs =>
    let digits := digitsLength (bs.drop (signLength bs))
    if (ascii b = 'e' ∨ ascii b = 'E') ∧ digits ≠ 0 then 1 + signLength bs + digits else 0

/-- Length of a fraction at the front. Its point needs a digit or a power of ten after it. -/
def fractionLength : List UInt8 → Nat
  | [] => 0
  | b :: bs =>
    if ascii b = '.' ∧ (digitsLength bs ≠ 0 ∨ exponentLength bs ≠ 0) then 1 + digitsLength bs
    else 0

/-- A number: digits, a fraction unless it began with its point, and a power of ten, after which no
point may follow. -/
def number (first : UInt8) (rest : List UInt8) : Front :=
  let whole := digitsLength rest
  let fraction := if ascii first = '.' then 0 else fractionLength (rest.drop whole)
  let power := exponentLength (rest.drop (whole + fraction))
  let more := whole + fraction + power
  if power ≠ 0 ∧ (rest.drop more).head?.map ascii = some '.' then ⟨.fault .pointAfterExponent, more⟩
  else
    let text := (first :: rest.take more).map ascii
    match Number.readNumeral text with
    | some bits => ⟨.token .number (.number (Float.ofBits bits)), more⟩
    | none => ⟨.fault (.invalidNumber (String.ofList text)), more⟩

/-- A word: letters, digits and underscores. -/
def word (first : UInt8) (rest : List UInt8) : Front :=
  let more := rest.takeWhile isWord
  ⟨.token (Kind.ofWord (String.ofList ((first :: more).map ascii))) .nil, more.length⟩

/-- Bytes of the character that a byte announces. -/
def announced (b : UInt8) : Nat :=
  if 0xC0 ≤ b ∧ b ≤ 0xDF then 2
  else if 0xE0 ≤ b ∧ b ≤ 0xEF then 3
  else if 0xF0 ≤ b ∧ b ≤ 0xF7 then 4
  else 1

/-- A character that begins no lexeme is taken whole, so that it is one fault. -/
def unexpected (first : UInt8) (rest : List UInt8) : Front :=
  let more := rest.take (announced first - 1)
  ⟨.fault (.unexpectedCharacter (Text.Utf8.decodeLossy (first :: more))), more.length⟩

def front (first : UInt8) (rest : List UInt8) : Front :=
  let c := ascii first
  if c = ' ' ∨ c = '\r' ∨ c = '\t' ∨ c = '\n' then ⟨.gap, 0⟩
  else if c = '#' then lineComment rest
  else if c = '/' ∧ rest.head?.map ascii = some '*' then blockComment rest
  else if c = '"' then string rest
  else if isDigit first then number first rest
  else if c = '.' then
    if rest.head?.any isDigit then number first rest else ⟨.token .dot .nil, 0⟩
  else if isWordStart first then word first rest
  else
    match sign? c, operator? c with
    | some kind, _ => ⟨.token kind .nil, 0⟩
    | none, some (alone, pairs) => operator alone pairs rest
    | none, none => unexpected first rest

end Lexeme

end Scriptling
