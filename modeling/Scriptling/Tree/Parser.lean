import Scriptling.Tree.Basic

namespace Scriptling

/-- A place among a program's tokens, and what is kept while reading goes on from it. The steps of
the grammar's rules are made of these alone. -/
class Reader (C : Type) where
  /-- The token that is looked at. -/
  peek : C → Token
  /-- Is that the end marker? -/
  atEnd : C → Bool
  /-- The token that is looked at, passed unless it is the end marker. -/
  advance : C → Token × C
  /-- Behind the tokens up to the next statement. -/
  synchronize : C → C
  /-- A bound on the tokens that are left. -/
  left : C → Nat
  /-- May the last statement go unterminated? -/
  lenient : C → Bool
  nextId : C → ExprId
  number : ExprId → C → C
  note : Located ParseFault → C → C

/-- A step of a rule: it moves on and may fail. One that fails keeps what was consumed, so that
reading can go on behind the fault. -/
abbrev Parse (C : Type) := EStateM (Located ParseFault) C

namespace Parse

variable {C : Type} [Reader C] {α : Type}

def peek : Parse C Token := fun c => .ok (Reader.peek c) c

def atEnd : Parse C Bool := fun c => .ok (Reader.atEnd c) c

def lenient : Parse C Bool := fun c => .ok (Reader.lenient c) c

/-- Is the token that is looked at of this kind? The end marker never is. -/
def check (kind : Kind) : Parse C Bool := fun c =>
  .ok (!Reader.atEnd c && (Reader.peek c).kind = kind) c

/-- The token that is looked at, consumed, if it is of one of these kinds. -/
def acceptAny (kinds : List Kind) : Parse C (Option Token) := fun c =>
  if Reader.atEnd c = false ∧ (Reader.peek c).kind ∈ kinds then
    .ok (some (Reader.advance c).1) (Reader.advance c).2
  else .ok none c

def accept (kind : Kind) : Parse C (Option Token) := acceptAny [kind]

def refuse (what : Expected) : Parse C α := do
  throw ⟨.expected what, (← peek).place⟩

/-- The token that is looked at, consumed, which must be of this kind. -/
def expect (kind : Kind) (what : Expected) : Parse C Token := do
  match ← accept kind with
  | some t => pure t
  | none => refuse what

def note (fault : ParseFault) (place : Place) : Parse C Unit := fun c =>
  .ok () (Reader.note ⟨fault, place⟩ c)

def fresh : Parse C ExprId := fun c =>
  .ok (Reader.nextId c) (Reader.number (Reader.nextId c + 1) c)

/-- The end of a statement: a semicolon, or in lenient reading the end of the tokens. -/
def terminator (what : Expected) : Parse C Unit := do
  match ← accept .semicolon with
  | some _ => pure ()
  | none => if (← lenient) && (← atEnd) then pure () else refuse what

/-- Goes on with `step` until it has nothing more, at most `bound` times. -/
def iterate (step : α → Parse C (Option α)) : Nat → α → Parse C α
  | 0, a => pure a
  | bound + 1, a => do
    match ← step a with
    | none => pure a
    | some b => iterate step bound b

/-- Goes on with `step` until it has nothing more. A step that has consumes a token, so the tokens
left bound the number of steps. -/
def chain (step : α → Parse C (Option α)) (a : α) : Parse C α := fun c =>
  iterate step (Reader.left c + 1) a c

/-- One or more items with commas between them. The item after the last allowed one is noted as
`tooMany` before it is read. -/
def items (tooMany : ParseFault) (item : Parse C α) : Parse C (List α) := do
  let first ← item
  chain (fun read => do
    match ← accept .comma with
    | none => pure none
    | some _ =>
      if read.length = maxItems then note tooMany (← peek).place
      return some (read ++ [← item])) [first]

/-- Reads by a rule; if it fails, notes the fault and goes on at the next statement. -/
def recovering (rule : Parse C α) : Parse C (Option α) := fun c =>
  match rule c with
  | .ok a c => .ok (some a) c
  | .error fault c => .ok none (Reader.synchronize (Reader.note fault c))

/-- Kinds that a statement begins with, where reading goes on after a fault. -/
def startsStatement (kind : Kind) : Bool :=
  kind ∈ [Kind.classKeyword, .func, .for, .if, .while, .return]

end Parse

/-- The tokens of a program with an end marker behind them, unless they end with one. -/
def padded (tokens : List Token) : List Token :=
  if tokens.getLast?.any (·.kind = .eof) then tokens else tokens ++ [.synthetic .eof ""]

theorem getLast?_padded {tokens : List Token} {t : Token} (h : (padded tokens).getLast? = some t) :
    t.kind = .eof := by
  unfold padded at h
  split at h
  · rename_i hlast
    rw [h] at hlast
    simpa using hlast
  · rw [List.getLast?_concat] at h
    cases h
    rfl

theorem padded_ne_nil (tokens : List Token) : padded tokens ≠ [] := by
  unfold padded
  split
  · rintro rfl
    contradiction
  · simp

/-- A place in a program's tokens. It is one of them, and the last of them is an end marker. `nextId`
is the next unused node number. -/
structure Parser where
  tokens : Array Token
  current : Nat
  nextId : ExprId
  faults : List (Located ParseFault)
  lenient : Bool
  inRange : current < tokens.size
  closed : ∀ t, tokens.back? = some t → t.kind = .eof

namespace Parser

def start (lenient : Bool) (nextId : ExprId) (tokens : List Token) : Parser where
  tokens := (padded tokens).toArray
  current := 0
  nextId
  faults := []
  lenient
  inRange := List.length_pos_iff.2 (padded_ne_nil tokens)
  closed t ht := getLast?_padded (by simpa using ht)

variable (p : Parser)

def peek : Token := getElem p.tokens p.current p.inRange

/-- The token before the one that is looked at, or that one where there is none before. -/
def previous : Token :=
  getElem p.tokens (p.current - 1) (Nat.lt_of_le_of_lt (Nat.sub_le _ _) p.inRange)

def atEnd : Bool := p.peek.kind = .eof

/-- Behind a token that is no end marker there is another one. -/
theorem succ_lt_size (h : p.atEnd = false) : p.current + 1 < p.tokens.size := by
  apply Nat.lt_of_le_of_ne p.inRange
  intro hlast
  have hback : p.tokens.back? = some p.peek := by
    rw [Array.back?_eq_getElem?, ← hlast, Nat.succ_sub_one]
    exact Array.getElem?_eq_getElem p.inRange
  simp [atEnd, p.closed _ hback] at h

def advance : Parser :=
  if h : p.atEnd = false then { p with current := p.current + 1, inRange := p.succ_lt_size h } else p

/-- Passes at most so many tokens, up to one behind a semicolon or one that begins a statement. -/
def skip : Nat → Parser → Parser
  | 0, p => p
  | bound + 1, p =>
    if p.atEnd ∨ p.previous.kind = .semicolon ∨ Parse.startsStatement p.peek.kind then p
    else skip bound p.advance

/-- Passes the token at a fault, and then those before the next statement. -/
def synchronize : Parser := skip p.tokens.size p.advance

instance : Reader Parser where
  peek := peek
  atEnd := atEnd
  advance p := (p.advance.previous, p.advance)
  synchronize := synchronize
  left p := p.tokens.size - p.current
  lenient := lenient
  nextId := nextId
  number id p := { p with nextId := id }
  note fault p := { p with faults := p.faults ++ [fault] }

end Parser

end Scriptling
