import Scriptling.Token.Lexeme

namespace Scriptling

namespace Scan

/-- The line at the front of some bytes, without its line break and the carriage returns before
it. -/
def lineText (bytes : List UInt8) : String :=
  let line := (Text.Utf8.pieces (bytes.takeWhile fun b => !Lexeme.isLineEnd b)).map
    Text.Utf8.Piece.shown
  String.ofList (line.reverse.dropWhile (· == '\r')).reverse

def start (bytes : List UInt8) : Place := ⟨1, 1, lineText bytes⟩

def along (place : Place) (n : Nat) : Place := { place with column := place.column + n }

/-- The first place of the next line, where `rest` is left. -/
def nextLine (place : Place) (rest : List UInt8) : Place := ⟨place.line + 1, 1, lineText rest⟩

/-- The place behind the first bytes, or all of them if there are fewer. They are taken one by one,
and each line break among them is noted. -/
def through (place : Place) : Nat → List UInt8 → Place
  | 0, _ => place
  | _, [] => place
  | n + 1, b :: bs =>
    through (if Lexeme.isLineEnd b then nextLine place bs else along place 1) n bs

/-- The place behind a lexeme, from its first byte and the number of those after it. A line break is
noted where it stands alone, in a string, in a comment between `/*` and its end, and among the two
bytes that end one. -/
def behind (place : Place) (first : UInt8) (rest : List UInt8) (more : Nat) : Place :=
  let c := Lexeme.ascii first
  if c = '\n' then nextLine place rest
  else if c = '/' ∧ rest.head?.map Lexeme.ascii = some '*' then
    let inside := Lexeme.commentInside (rest.drop 1)
    through (through (along place 2) inside (rest.drop 1)) 2 ((rest.drop 1).drop inside)
  else if c = '"' then
    let inside := (rest.takeWhile fun b => Lexeme.ascii b != '"').length
    along (through (along place 1) inside rest) (more - inside)
  else along place (1 + more)

end Scan

/-- A scan under way: the place it has come to and the bytes that are left there, or nothing behind
the end marker. -/
structure Scanner where
  place : Place
  left : Option (List UInt8)

namespace Scanner

def start (source : String) : Scanner :=
  let bytes := Text.Utf8.encode source
  ⟨Scan.start bytes, some bytes⟩

/-- The next token or fault where these bytes are left, and the scanner behind it. Gaps are passed
over, and the end of the bytes is marked. -/
def find (place : Place) : List UInt8 → Except (Located LexFault) Token × Scanner
  | [] => (.ok ⟨.eof, "", .nil, place⟩, ⟨place, none⟩)
  | b :: bs =>
    let front := Lexeme.front b bs
    let rest := bs.drop front.more
    let later := Scan.behind place b bs front.more
    match front.content with
    | .gap => find later rest
    | .fault fault => (.error ⟨fault, place⟩, ⟨later, some rest⟩)
    | .token kind literal =>
      let lexeme := Text.Utf8.decodeLossy (b :: bs.take front.more)
      (.ok ⟨kind, lexeme, literal, place⟩, ⟨later, some rest⟩)
termination_by bytes => bytes.length
decreasing_by simp only [List.length_drop, List.length_cons]; omega

/-- The next token or fault, if there is one. Behind the end marker there is none any more. -/
def next (s : Scanner) : Option (Except (Located LexFault) Token) × Scanner :=
  match s.left with
  | none => (none, s)
  | some bytes =>
    let found := find s.place bytes
    (some found.1, found.2)

/-- What is left to scan, the end marker counted. -/
def size (s : Scanner) : Nat :=
  match s.left with
  | none => 0
  | some bytes => bytes.length + 1

theorem size_find (place : Place) (bytes : List UInt8) :
    (find place bytes).2.size < bytes.length + 1 := by
  have hrest : ∀ n (bs : List UInt8), (bs.drop n).length ≤ bs.length := fun n bs => by
    rw [List.length_drop]
    exact Nat.sub_le ..
  fun_induction find place bytes with
  | case1 => exact Nat.one_pos
  | case2 place b bs front rest later hgap ih =>
    exact Nat.lt_trans ih (Nat.succ_le_succ (Nat.succ_le_succ (hrest front.more bs)))
  | case3 place b bs | case4 place b bs =>
    exact Nat.succ_le_succ (Nat.succ_le_succ (hrest _ bs))

theorem next_eq_some {s later : Scanner} {item : Except (Located LexFault) Token}
    (h : s.next = (some item, later)) :
    ∃ bytes, s.left = some bytes ∧ find s.place bytes = (item, later) := by
  cases hleft : s.left with
  | none => simp [next, hleft] at h
  | some bytes =>
    simp only [next, hleft, Prod.mk.injEq, Option.some.injEq] at h
    exact ⟨bytes, rfl, Prod.ext h.1 h.2⟩

theorem size_next {s later : Scanner} {item : Except (Located LexFault) Token}
    (h : s.next = (some item, later)) : later.size < s.size := by
  obtain ⟨bytes, hleft, hfind⟩ := next_eq_some h
  have hsize := size_find s.place bytes
  rwa [hfind, ← show s.size = bytes.length + 1 by rw [size, hleft]] at hsize

def items (s : Scanner) : List (Except (Located LexFault) Token) :=
  match h : s.next with
  | (none, _) => []
  | (some item, later) =>
    have := size_next h
    item :: items later
termination_by s.size

end Scanner

/-- What a text yields from a place on, from front to back. -/
def Scan.items (place : Place) (bytes : List UInt8) : List (Except (Located LexFault) Token) :=
  Scanner.items ⟨place, some bytes⟩

/-- Tokens and faults of a program in the order they stand, the end marker last. -/
def scan (source : String) : List (Except (Located LexFault) Token) := (Scanner.start source).items

def tokensOf (items : List (Except (Located LexFault) Token)) : List Token :=
  items.filterMap (·.toOption)

def faultsOf (items : List (Except (Located LexFault) Token)) : List (Located LexFault) :=
  items.filterMap fun
    | .error e => some e
    | .ok _ => none

end Scriptling
