import Mathlib.Data.List.DropRight
import Scriptling.Proofs.Decoding
import Scriptling.Stream

namespace Scriptling.Input

open Text.Utf8

def pieces : List UInt8 → List (List UInt8)
  | [] => []
  | b :: bs =>
    if b = 10 then [b] :: pieces bs
    else
      match pieces bs with
      | [] => [[b]]
      | p :: ps => (b :: p) :: ps

/-- The pieces make up the input, none of them is empty, a line break stands nowhere but at the end
of a piece, and all but the last end with one. -/
structure Cut (input : List UInt8) (ps : List (List UInt8)) : Prop where
  whole : ps.flatten = input
  nonempty : ∀ p ∈ ps, p ≠ []
  inner : ∀ p ∈ ps, 10 ∉ p.dropLast
  ended : ∀ p ∈ ps.dropLast, p.getLast? = some 10

theorem cut_pieces (input : List UInt8) : Cut input (pieces input) := by
  induction input with
  | nil => exact ⟨rfl, by simp [pieces], by simp [pieces], by simp [pieces]⟩
  | cons b bs ih =>
    rw [pieces]
    split
    · rename_i hb
      refine ⟨by simp [ih.whole], ?_, ?_, ?_⟩
      · exact List.forall_mem_cons.2 ⟨by simp, ih.nonempty⟩
      · exact List.forall_mem_cons.2 ⟨by simp, ih.inner⟩
      · cases hps : pieces bs with
        | nil => simp
        | cons p ps =>
          have hended := ih.ended
          rw [hps] at hended
          exact List.forall_mem_cons.2 ⟨by simp [hb], hended⟩
    · rename_i hb
      have hwhole := ih.whole
      cases hps : pieces bs with
      | nil =>
        rw [hps] at hwhole
        refine ⟨?_, by simp, by simp, by simp⟩
        simp [← hwhole]
      | cons p ps =>
        obtain ⟨-, hnonempty, hinner, hended⟩ := ih
        rw [hps] at hwhole hnonempty hinner hended
        rw [List.forall_mem_cons] at hnonempty hinner
        refine ⟨by simp [← hwhole], ?_, ?_, ?_⟩
        · exact List.forall_mem_cons.2 ⟨by simp, hnonempty.2⟩
        · refine List.forall_mem_cons.2 ⟨?_, hinner.2⟩
          rw [List.dropLast_cons_of_ne_nil hnonempty.1]
          simp [hinner.1, Ne.symm hb]
        · cases ps with
          | nil => simp
          | cons q qs =>
            rw [List.dropLast_cons_cons, List.forall_mem_cons] at hended
            refine List.forall_mem_cons.2 ⟨?_, hended.2⟩
            rw [List.getLast?_cons, hended.1]
            rfl

/-- What is cut off is the first piece. -/
theorem pieces_cutLine {input : List UInt8} (h : input ≠ []) :
    pieces input = (cutLine input).1 :: pieces (cutLine input).2 := by
  induction input with
  | nil => exact absurd rfl h
  | cons b bs ih =>
    rw [pieces, cutLine]
    split
    · rfl
    · cases bs with
      | nil => rfl
      | cons b' bs' =>
        rw [ih (by simp)]

theorem flatten_pieces (input : List UInt8) : (pieces input).flatten = input := (cut_pieces input).whole

/-- The pieces of what is left are those that are left. -/
theorem pieces_drop (input : List UInt8) (k : Nat) :
    pieces ((pieces input).drop k).flatten = (pieces input).drop k := by
  induction k generalizing input with
  | zero => rw [List.drop_zero, flatten_pieces]
  | succ k ih =>
    by_cases h : input = []
    · simp [h, pieces]
    · rw [pieces_cutLine h, List.drop_succ_cons, ih]

/-- What a piece of input is read as: its text without the line breaks at the end, or a fault if it
is not a text. -/
def Yields (piece : List UInt8) : Except StreamFault String → Prop
  | .ok line => ∃ breaks : List Char, encode (line ++ String.ofList breaks) = piece ∧
    (∀ c ∈ breaks, c = '\n' ∨ c = '\r') ∧
      ∀ c, line.toList.getLast? = some c → c ≠ '\n' ∧ c ≠ '\r'
  | .error fault => fault = .inputNotText ∧ ∀ text, encode text ≠ piece

theorem isLineBreak_iff {c : Char} : isLineBreak c = true ↔ c = '\n' ∨ c = '\r' := by
  simp [isLineBreak]

theorem yields_lineText (piece : List UInt8) : Yields piece (lineText piece) := by
  unfold lineText
  cases hd : decode piece with
  | error d =>
    refine ⟨rfl, fun text ht => ?_⟩
    rw [decode_eq_ok_iff.2 ht] at hd
    cases hd
  | ok text =>
    have hsplit : text.toList.rdropWhile isLineBreak ++ text.toList.rtakeWhile isLineBreak =
        text.toList := List.rdropWhile_append_rtakeWhile
    refine ⟨text.toList.rtakeWhile isLineBreak, ?_, fun c hc => ?_, fun c hc => ?_⟩
    · change encode (String.ofList (text.toList.rdropWhile isLineBreak) ++ _) = piece
      rw [← String.ofList_append, hsplit, String.ofList_toList]
      exact decode_eq_ok_iff.1 hd
    · exact isLineBreak_iff.1 (List.mem_rtakeWhile_imp hc)
    · change (String.ofList (text.toList.rdropWhile isLineBreak)).toList.getLast? = some c at hc
      rw [String.toList_ofList] at hc
      have hne : text.toList.rdropWhile isLineBreak ≠ [] := by
        intro hnil
        rw [hnil] at hc
        cases hc
      rw [List.getLast?_eq_some_getLast hne] at hc
      cases hc
      have hlast := List.rdropWhile_last_not isLineBreak text.toList hne
      rw [isLineBreak_iff] at hlast
      simpa [not_or] using hlast

end Scriptling.Input
