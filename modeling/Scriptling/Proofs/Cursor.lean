import Scriptling.Tree.Grammar

namespace Scriptling

/-- A place in a list of tokens, told by what is left of them. `finish` is the end marker, which is
never passed. -/
structure Cursor where
  rest : List Token
  finish : Token
  nextId : ExprId
  faults : List (Located ParseFault)
  lenient : Bool

namespace Cursor

/-- Before the tokens up to the first end marker. Where there is none, one without a place is
taken. -/
def start (lenient : Bool) (nextId : ExprId) (tokens : List Token) : Cursor where
  rest := tokens.takeWhile (·.kind ≠ .eof)
  finish := (tokens.find? (·.kind = .eof)).getD (.synthetic .eof "")
  nextId
  faults := []
  lenient

end Cursor

namespace Parse

/-- Tokens from the next statement on, the last one passed over being `previous`. -/
def skipFrom (previous : Token) : List Token → List Token
  | [] => []
  | t :: ts =>
    if previous.kind = .semicolon ∨ startsStatement t.kind then t :: ts else skipFrom t ts

/-- Tokens from the next statement on, at least one being passed over. -/
def skipStatement : List Token → List Token
  | [] => []
  | t :: ts => skipFrom t ts

end Parse

instance : Reader Cursor where
  peek c := c.rest.headD c.finish
  atEnd c := c.rest.isEmpty
  advance c :=
    match c.rest with
    | [] => (c.finish, c)
    | t :: ts => (t, { c with rest := ts })
  synchronize c := { c with rest := Parse.skipStatement c.rest }
  left c := c.rest.length
  lenient := Cursor.lenient
  nextId := Cursor.nextId
  number id c := { c with nextId := id }
  note fault c := { c with faults := c.faults ++ [fault] }

namespace Parse

/-- Passing over tokens up to the next statement passes one at least, if there is one. -/
theorem skipFrom_suffix (previous : Token) (ts : List Token) : skipFrom previous ts <:+ ts := by
  induction ts generalizing previous with
  | nil => exact List.suffix_refl _
  | cons t ts ih =>
    rw [skipFrom]
    split
    · exact List.suffix_refl _
    · exact (ih t).trans (List.suffix_cons t ts)

theorem skipStatement_suffix (ts : List Token) : skipStatement ts <:+ ts := by
  cases ts with
  | nil => exact List.suffix_refl _
  | cons t ts => exact (skipFrom_suffix t ts).trans (List.suffix_cons t ts)

theorem length_skipStatement {ts : List Token} (h : ts ≠ []) :
    (skipStatement ts).length < ts.length := by
  cases ts with
  | nil => exact absurd rfl h
  | cons t ts => exact Nat.lt_succ_of_le (skipFrom_suffix t ts).length_le

/-- What is done after a step is done on the cursor it left; a failure is final. -/
theorem bind_eq {C α β : Type} (p : Parse C α) (q : α → Parse C β) (c : C) :
    (p >>= q) c =
      match p c with
      | .ok a c₁ => q a c₁
      | .error e c₁ => .error e c₁ := by
  simp only [bind, EStateM.bind]
  cases p c <;> rfl

/-- Without a semicolon a statement ends at the end of lenient reading only. -/
theorem terminator_bare {C : Type} [Reader C] (what : Expected) (c : C) :
    (do if (← lenient) && (← atEnd) then pure () else refuse what : Parse C Unit) c =
      if Reader.lenient c && Reader.atEnd c then .ok () c else refuse what c := by
  simp only [bind_eq, lenient, atEnd]
  split <;> rfl

variable {α : Type} (c : Cursor)

theorem atEnd_eq : atEnd c = .ok c.rest.isEmpty c := rfl

theorem check_eq (kind : Kind) : check kind c = .ok (c.rest.head?.any (·.kind = kind)) c := by
  rcases c with ⟨_ | ⟨t, ts⟩, finish, nextId, faults, lenient⟩ <;> rfl

/-- A token of one of the kinds is consumed; at the end there is none. -/
theorem acceptAny_eq (kinds : List Kind) :
    acceptAny kinds c =
      match c.rest with
      | [] => .ok none c
      | t :: ts => if t.kind ∈ kinds then .ok (some t) { c with rest := ts } else .ok none c := by
  rcases c with ⟨_ | ⟨t, ts⟩, finish, nextId, faults, lenient⟩
  · rfl
  · exact ite_congr (propext (and_iff_right rfl)) (fun _ => rfl) fun _ => rfl

/-- A statement ends with its semicolon, or leniently with the tokens. -/
theorem terminator_eq (what : Expected) :
    terminator what c =
      match c.rest with
      | [] => if c.lenient then .ok () c else refuse what c
      | t :: ts =>
        if t.kind = .semicolon then .ok () { c with rest := ts } else refuse what c := by
  rw [terminator, bind_eq, accept, acceptAny_eq]
  rcases c with ⟨_ | ⟨t, ts⟩, finish, nextId, faults, lenient⟩
  · dsimp only
    rw [terminator_bare]
    cases lenient <;> rfl
  · simp only [List.mem_singleton]
    by_cases ht : t.kind = .semicolon
    · simp only [ht, if_true]
      rfl
    · simp only [ht, if_false, terminator_bare]
      cases lenient <;> rfl

theorem chain_eq (step : α → Parse Cursor (Option α)) (a : α) :
    chain step a c = iterate step (c.rest.length + 1) a c := rfl

/-- A rule that fails is followed by the next statement. -/
theorem recovering_eq (rule : Parse Cursor α) :
    recovering rule c =
      match rule c with
      | .ok a c => .ok (some a) c
      | .error fault c =>
        .ok none { c with faults := c.faults ++ [fault], rest := skipStatement c.rest } := by
  simp only [recovering]
  cases rule c <;> rfl

end Parse

def Cursor.parse (lenient : Bool) (nextId : ExprId) (tokens : List Token) : Parsed :=
  let start := Cursor.start lenient nextId tokens
  match Grammar.program (start.rest.length + 1) start with
  | .ok statements c =>
    ⟨if c.faults.isEmpty then .ok statements else .error c.faults, c.nextId⟩
  | .error fault c => ⟨.error (c.faults ++ [fault]), c.nextId⟩

end Scriptling
