import Scriptling.Fault
import Scriptling.Number.Binary
import Scriptling.Text.Utf8

namespace Scriptling

/-- A source of answers: the state it is in, the answer it gives in a state, and the state after. -/
structure Supply (α : Type) where
  state : Nat
  answer : Nat → α
  advance : Nat → Nat

namespace Supply

variable {α : Type}

def next (s : Supply α) : α := s.answer s.state

def rest (s : Supply α) : Supply α := { s with state := s.advance s.state }

def sequence (answers : Nat → α) : Supply α := ⟨0, answers, (· + 1)⟩

def always (a : α) : Supply α := ⟨0, fun _ => a, id⟩

/-- A clock that counts milliseconds, one for each reading. -/
def ticking (start : Nat) : Supply Int := ⟨start, Int.ofNat, (· + 1)⟩

def scatter (n : Nat) : Nat := (n * 6364136223846793005 + 1442695040888963407) % Number.pow2 64

def scattered (seed : Nat) : Supply Nat :=
  ⟨scatter seed, fun n => n / Number.pow2 16 + n * Number.pow2 32, scatter⟩

def nth : Supply α → Nat → α
  | s, 0 => s.next
  | s, n + 1 => nth s.rest n

/-- Every sequence of answers is given by some supply. -/
theorem nth_sequence (answers : Nat → α) (n : Nat) : (sequence answers).nth n = answers n := by
  have hfrom : ∀ k, nth ⟨k, answers, (· + 1)⟩ n = answers (k + n) := by
    induction n with
    | zero => exact fun k => rfl
    | succ n ih => exact fun k => (ih (k + 1)).trans (congrArg answers (by omega))
  exact (hfrom 0).trans (congrArg answers (Nat.zero_add n))

@[simp] theorem next_always (a : α) : (always a).next = a := rfl

@[simp] theorem rest_always (a : α) : (always a).rest = always a := rfl

instance (n : Nat) : OfNat (Supply Int) n := ⟨ticking n⟩

instance (n : Nat) : OfNat (Supply Nat) n := ⟨scattered n⟩

instance : Coe Bool (Supply Bool) := ⟨always⟩

end Supply

/-- What was written so far, how many more bytes are taken if there is a limit, and which flushes
fail. -/
structure Output where
  written : ByteArray
  room : Option Nat
  flushFails : Supply Bool

def Output.unlimited : Output := ⟨.empty, none, false⟩

/-- Says whether the output could be flushed. -/
def Output.flush (o : Output) : Bool × Output :=
  (!o.flushFails.next, { o with flushFails := o.flushFails.rest })

/-- Writes as much of a text as there is room for, and says whether that was all of it. -/
def Output.write (o : Output) (text : String) : Bool × Output :=
  let bytes := text.toByteArray
  match o.room with
  | none => (true, { o with written := o.written ++ bytes })
  | some room =>
    (decide (bytes.size ≤ room),
     { o with written := o.written ++ bytes.extract 0 room, room := some (room - bytes.size) })

namespace Input

/-- The first line of some input with its line break, and the rest. -/
def cutLine : List UInt8 → List UInt8 × List UInt8
  | [] => ([], [])
  | b :: bs =>
    if b = 10 then ([b], bs)
    else
      let (line, rest) := cutLine bs
      (b :: line, rest)

def isLineBreak (c : Char) : Bool := c == '\n' || c == '\r'

/-- The text of a line without the line breaks at its end. -/
def lineText (line : List UInt8) : Except StreamFault String :=
  match Text.Utf8.decode line with
  | .error _ => .error .inputNotText
  | .ok text => .ok (String.ofList (text.toList.reverse.dropWhile isLineBreak).reverse)

end Input

end Scriptling
