import Mathlib.Data.List.TakeWhile
import Scriptling.Token.Lexeme
import Scriptling.Proofs.Utf8
import Scriptling.Proofs.Spelling

namespace Scriptling

namespace Lexeme

open Text.Utf8 (Whole)

/-- A longest run of bytes of a class. -/
def Run (p : UInt8 → Bool) (taken rest : List UInt8) : Prop :=
  (∀ b ∈ taken, p b = true) ∧ ∀ b ∈ rest.head?, p b = false

/-- A form where it stands, and nothing where it does not. -/
def Perhaps (Form : List UInt8 → List UInt8 → Prop) (taken rest : List UInt8) : Prop :=
  Form taken rest ∨ taken = [] ∧ ∀ form later, rest = form ++ later → ¬ Form form later

/-- A power of ten: its letter, perhaps a sign, and all digits that follow, at least one. -/
def Power (taken rest : List UInt8) : Prop :=
  ∃ letter sign digits, taken = letter :: (sign ++ digits) ∧
    (ascii letter = 'e' ∨ ascii letter = 'E') ∧
    (sign = [] ∨ ∃ s, sign = [s] ∧ (ascii s = '+' ∨ ascii s = '-')) ∧
    digits ≠ [] ∧ Run isDigit digits rest

/-- A point and all digits that follow. There is one at least, or else a power of ten. -/
def Fraction (taken rest : List UInt8) : Prop :=
  ∃ point digits, taken = point :: digits ∧ ascii point = '.' ∧ Run isDigit digits rest ∧
    (digits ≠ [] ∨ ∃ power later, rest = power ++ later ∧ Power power later)

/-- A numeral and the power of ten it ends with, empty where there is none. -/
inductive Numeral : List UInt8 → List UInt8 → List UInt8 → Prop where
  | whole {whole fraction power rest : List UInt8} :
    whole ≠ [] → Run isDigit whole (fraction ++ (power ++ rest)) →
      Perhaps Fraction fraction (power ++ rest) → Perhaps Power power rest →
      Numeral (whole ++ (fraction ++ power)) power rest
  | point {point : UInt8} {digits power rest : List UInt8} :
    ascii point = '.' → digits ≠ [] → Run isDigit digits (power ++ rest) →
      Perhaps Power power rest → Numeral (point :: (digits ++ power)) power rest

/-- Where the inside of a block comment stops: at a `*`, and one byte before a `/`. -/
def Stops (bytes : List UInt8) : Prop :=
  bytes.head?.map ascii = some '*' ∨ (bytes.drop 1).head?.map ascii = some '/'

/-- A byte that is no blank and begins no comment with `#`, no string, number or word. -/
structure Loose (b : UInt8) : Prop where
  blank : ascii b ∉ [' ', '\r', '\t', '\n', '#', '"', '.']
  digit : isDigit b = false
  word : isWordStart b = false

/-- A byte that no lexeme begins with. -/
structure Stray (b : UInt8) : Prop extends Loose b where
  sign : sign? (ascii b) = none
  operator : operator? (ascii b) = none

/-- `Stands content bytes rest`: where `rest` follows, the bytes are one lexeme of that content. -/
inductive Stands : Content → List UInt8 → List UInt8 → Prop where
  | blank {b : UInt8} {rest : List UInt8} :
    ascii b ∈ [' ', '\r', '\t', '\n'] → Stands .gap [b] rest
  | lineComment {hash : UInt8} {body rest : List UInt8} :
    ascii hash = '#' → Run (fun b => !isLineEnd b) body rest → Stands .gap (hash :: body) rest
  | blockComment {slash star : UInt8} {inside tail rest : List UInt8} :
    ascii slash = '/' → ascii star = '*' →
      (∀ before after, inside = before ++ after → after ≠ [] → ¬ Stops (after ++ (tail ++ rest))) →
      (Stops (tail ++ rest) ∨ tail ++ rest = []) → tail = (tail ++ rest).take 2 →
      Stands .gap (slash :: star :: (inside ++ tail)) rest
  | string {opening closing : UInt8} {inside rest : List UInt8} {text : String} :
    ascii opening = '"' → (∀ b ∈ inside, ascii b ≠ '"') → ascii closing = '"' →
      Text.Utf8.encode text = inside →
      Stands (.token .string (.string text)) (opening :: (inside ++ [closing])) rest
  | unterminated {opening : UInt8} {inside : List UInt8} :
    ascii opening = '"' → (∀ b ∈ inside, ascii b ≠ '"') →
      Stands (.fault .unterminatedString) (opening :: inside) []
  | number {bytes power rest : List UInt8} {bits : UInt64} :
    Numeral bytes power rest → (power = [] ∨ rest.head?.map ascii ≠ some '.') →
      Number.readNumeral (bytes.map ascii) = some bits →
      Stands (.token .number (.number (Float.ofBits bits))) bytes rest
  | pointAfterExponent {bytes power rest : List UInt8} :
    Numeral bytes power rest → power ≠ [] → rest.head?.map ascii = some '.' →
      Stands (.fault .pointAfterExponent) bytes rest
  | dot {b : UInt8} {rest : List UInt8} :
    ascii b = '.' → (∀ c ∈ rest.head?, isDigit c = false) → Stands (.token .dot .nil) [b] rest
  | word {first : UInt8} {more rest : List UInt8} :
    isWordStart first = true → Run isWord more rest →
      Stands (.token (Kind.ofWord (String.ofList ((first :: more).map ascii))) .nil)
        (first :: more) rest
  | sign {b : UInt8} {rest : List UInt8} {kind : Kind} :
    sign? (ascii b) = some kind → Stands (.token kind .nil) [b] rest
  | operator {b : UInt8} {rest : List UInt8} {alone : Kind} {pairs : List (Char × Kind)} :
    operator? (ascii b) = some (alone, pairs) →
      ¬ (ascii b = '/' ∧ rest.head?.map ascii = some '*') →
      (∀ c ∈ rest.head?, pairs.lookup (ascii c) = none) → Stands (.token alone .nil) [b] rest
  | pair {b c : UInt8} {rest : List UInt8} {alone kind : Kind} {pairs : List (Char × Kind)} :
    operator? (ascii b) = some (alone, pairs) → pairs.lookup (ascii c) = some kind →
      Stands (.token kind .nil) [b, c] rest
  | unexpected {b : UInt8} {more rest : List UInt8} :
    Stray b → more = (more ++ rest).take (announced b - 1) →
      Stands (.fault (.unexpectedCharacter (Text.Utf8.decodeLossy (b :: more)))) (b :: more) rest

theorem Run.takeWhile {p : UInt8 → Bool} {taken rest : List UInt8} (h : Run p taken rest) :
    (taken ++ rest).takeWhile p = taken := by
  rw [List.takeWhile_append_of_pos h.1]
  cases rest with
  | nil => simp
  | cons b rest => simp [h.2 b rfl]

theorem run_takeWhile (p : UInt8 → Bool) (bytes : List UInt8) :
    Run p (bytes.takeWhile p) (bytes.drop (bytes.takeWhile p).length) := by
  induction bytes with
  | nil => simp [Run]
  | cons b bytes ih =>
    by_cases hb : p b = true
    · rw [List.takeWhile_cons_of_pos hb]
      exact ⟨List.forall_mem_cons.2 ⟨hb, ih.1⟩, ih.2⟩
    · rw [List.takeWhile_cons_of_neg hb]
      simp [Run, hb]

theorem take_takeWhile (p : UInt8 → Bool) (bytes : List UInt8) :
    bytes.take (bytes.takeWhile p).length = bytes.takeWhile p :=
  (List.prefix_iff_eq_take.1 (List.takeWhile_prefix p)).symm

theorem takeWhile_append_drop (p : UInt8 → Bool) (bytes : List UInt8) :
    bytes.takeWhile p ++ bytes.drop (bytes.takeWhile p).length = bytes := by
  have h := List.take_append_drop (bytes.takeWhile p).length bytes
  rwa [take_takeWhile] at h

/-- A run of digits is as long as the digits that are counted. -/
theorem digitsLength_run {digits rest : List UInt8} (h : Run isDigit digits rest) :
    digitsLength (digits ++ rest) = digits.length := by rw [digitsLength, h.takeWhile]

/-- A text cut after so many bytes, from two pieces of which the first has that length. -/
theorem of_pieces {Form : List UInt8 → List UInt8 → Prop} {bytes taken rest : List UInt8} {n : Nat}
    (hform : Form taken rest) (hbytes : bytes = taken ++ rest) (hn : taken.length = n) :
    Form (bytes.take n) (bytes.drop n) := by
  subst hbytes hn
  rwa [List.take_left, List.drop_left]

/-- The function says how long the form at the front is, zero where none stands. -/
structure Measures (length : List UInt8 → Nat) (Form : List UInt8 → List UInt8 → Prop) : Prop where
  nonempty {taken rest} : Form taken rest → taken ≠ []
  length_eq {taken rest} : Form taken rest → length (taken ++ rest) = taken.length
  form {bytes} : length bytes ≠ 0 → Form (bytes.take (length bytes)) (bytes.drop (length bytes))

variable {length : List UInt8 → Nat} {Form : List UInt8 → List UInt8 → Prop}

/-- A form stands at the front exactly where its length is not zero. -/
theorem Measures.ne_zero_iff (h : Measures length Form) {bytes : List UInt8} :
    length bytes ≠ 0 ↔ ∃ form later, bytes = form ++ later ∧ Form form later := by
  constructor
  · intro hne
    exact ⟨_, _, (List.take_append_drop _ _).symm, h.form hne⟩
  · rintro ⟨form, later, rfl, hform⟩
    rw [h.length_eq hform]
    exact fun hlen => h.nonempty hform (List.eq_nil_of_length_eq_zero hlen)

/-- Where it does not stand, the length is zero. -/
theorem Measures.length_perhaps (h : Measures length Form) {taken rest : List UInt8}
    (hp : Perhaps Form taken rest) : length (taken ++ rest) = taken.length := by
  rcases hp with hform | ⟨rfl, hnone⟩
  · exact h.length_eq hform
  · by_contra hne
    obtain ⟨form, later, hsplit, hform⟩ := h.ne_zero_iff.1 hne
    exact hnone form later hsplit hform

theorem Measures.perhaps (h : Measures length Form) (bytes : List UInt8) :
    Perhaps Form (bytes.take (length bytes)) (bytes.drop (length bytes)) := by
  by_cases hne : length bytes = 0
  · refine .inr ⟨by simp [hne], fun form later hsplit hform => ?_⟩
    rw [hne, List.drop_zero] at hsplit
    exact h.ne_zero_iff.2 ⟨form, later, hsplit, hform⟩ hne
  · exact .inl (h.form hne)

theorem isDigit_of_sign {b : UInt8} (h : ascii b = '+' ∨ ascii b = '-') : isDigit b = false := by
  rcases h with h | h <;> (rw [isDigit, h]; decide)

theorem measures_power : Measures exponentLength Power where
  nonempty := by
    rintro taken rest ⟨letter, sign, digits, rfl, -⟩
    simp
  length_eq := by
    rintro taken rest ⟨letter, sign, digits, rfl, hletter, hsign, hne, hrun⟩
    have hsignLength : signLength (sign ++ (digits ++ rest)) = sign.length := by
      rcases hsign with rfl | ⟨s, rfl, hs⟩
      · obtain ⟨d, ds, rfl⟩ := List.exists_cons_of_ne_nil hne
        have hd := hrun.1 d (by simp)
        simp only [List.nil_append, List.cons_append, signLength, List.head?_cons, Option.map_some]
        split
        · next h => rw [isDigit_of_sign (.inl (Option.some.inj h))] at hd; cases hd
        · next h => rw [isDigit_of_sign (.inr (Option.some.inj h))] at hd; cases hd
        · rfl
      · rcases hs with hs | hs <;> simp [signLength, hs]
    have hlen : digits.length ≠ 0 := fun h => hne (List.eq_nil_of_length_eq_zero h)
    simp only [List.cons_append, List.append_assoc, exponentLength, hsignLength, List.drop_left,
      digitsLength_run hrun, if_pos (And.intro hletter hlen), List.length_cons, List.length_append]
    omega
  form := by
    intro bytes hne
    cases bytes with
    | nil => simp [exponentLength] at hne
    | cons b bs =>
      simp only [exponentLength] at hne ⊢
      split at hne
      · next h =>
        rw [if_pos h]
        have hsign : bs.take (signLength bs) = [] ∨
            ∃ s, bs.take (signLength bs) = [s] ∧ (ascii s = '+' ∨ ascii s = '-') := by
          cases bs with
          | nil => simp
          | cons s bs =>
            simp only [signLength, List.head?_cons, Option.map_some]
            split
            · next hs => exact .inr ⟨s, rfl, .inl (Option.some.inj hs)⟩
            · next hs => exact .inr ⟨s, rfl, .inr (Option.some.inj hs)⟩
            · simp
        have hsignLength : (bs.take (signLength bs)).length = signLength bs := by
          rw [List.length_take, min_eq_left]
          cases bs with
          | nil => simp [signLength]
          | cons s bs => unfold signLength; split <;> simp
        generalize htail : bs.drop (signLength bs) = tail at h ⊢
        have hrun := run_takeWhile isDigit tail
        refine of_pieces ⟨b, _, tail.takeWhile isDigit, rfl, h.1, hsign, fun hd => h.2 ?_, hrun⟩ ?_ ?_
        · rw [digitsLength, hd, List.length_nil]
        · rw [List.cons_append, List.append_assoc, takeWhile_append_drop, ← htail,
            List.take_append_drop]
        · rw [List.length_cons, List.length_append, hsignLength, digitsLength]
          omega
      · simp at hne

theorem measures_fraction : Measures fractionLength Fraction where
  nonempty := by
    rintro taken rest ⟨point, digits, rfl, -⟩
    simp
  length_eq := by
    rintro taken rest ⟨point, digits, rfl, hpoint, hrun, hne⟩
    have hahead : digitsLength (digits ++ rest) ≠ 0 ∨ exponentLength (digits ++ rest) ≠ 0 := by
      by_cases hd : digits = []
      · subst hd
        exact .inr (measures_power.ne_zero_iff.2 (hne.resolve_left (by simp)))
      · rw [digitsLength_run hrun]
        exact .inl fun h => hd (List.eq_nil_of_length_eq_zero h)
    rw [List.cons_append, fractionLength, if_pos ⟨hpoint, hahead⟩, digitsLength_run hrun,
      List.length_cons, Nat.add_comm]
  form := by
    intro bytes hne
    cases bytes with
    | nil => simp [fractionLength] at hne
    | cons b bs =>
      simp only [fractionLength] at hne ⊢
      split at hne
      · next h =>
        rw [if_pos h]
        have hrun := run_takeWhile isDigit bs
        refine of_pieces ⟨b, bs.takeWhile isDigit, rfl, h.1, hrun, ?_⟩ ?_ ?_
        · by_cases hd : bs.takeWhile isDigit = []
          · have hzero : digitsLength bs = 0 := by rw [digitsLength, hd, List.length_nil]
            rw [hd, List.length_nil, List.drop_zero]
            exact .inr (measures_power.ne_zero_iff.1 (h.2.resolve_left (not_not.2 hzero)))
          · exact .inl hd
        · rw [List.cons_append, takeWhile_append_drop]
        · rw [List.length_cons, digitsLength, Nat.add_comm]
      · simp at hne

theorem isDigit_point {b : UInt8} (h : ascii b = '.') : isDigit b = false := by
  rw [isDigit, h]
  decide

theorem Run.tail {p : UInt8 → Bool} {b : UInt8} {taken rest : List UInt8}
    (h : Run p (b :: taken) rest) : Run p taken rest :=
  ⟨fun c hc => h.1 c (by simp [hc]), h.2⟩

/-- A numeral stands wherever a digit does, or a point before one. -/
theorem numeral_front {b : UInt8} {bs : List UInt8}
    (h : isDigit b = true ∨ ascii b = '.' ∧ bs.head?.any isDigit = true) :
    ∃ more power rest, bs = more ++ rest ∧ Numeral (b :: more) power rest := by
  have hrun := run_takeWhile isDigit bs
  have hsplit := takeWhile_append_drop isDigit bs
  generalize hdigits : bs.takeWhile isDigit = digits at hrun hsplit
  generalize bs.drop digits.length = tail at hrun hsplit
  rcases h with hb | ⟨hb, hnext⟩
  · have hfraction := measures_fraction.perhaps tail
    have hpower := measures_power.perhaps (tail.drop (fractionLength tail))
    have hcut := List.take_append_drop (fractionLength tail) tail
    generalize tail.take (fractionLength tail) = fraction at hfraction hcut
    generalize tail.drop (fractionLength tail) = later at hfraction hpower hcut
    have hcut' := List.take_append_drop (exponentLength later) later
    generalize later.take (exponentLength later) = power at hpower hcut'
    generalize later.drop (exponentLength later) = rest at hpower hcut'
    subst hcut' hcut
    have hwhole : Run isDigit (b :: digits) (fraction ++ (power ++ rest)) :=
      ⟨List.forall_mem_cons.2 ⟨hb, hrun.1⟩, hrun.2⟩
    exact ⟨digits ++ (fraction ++ power), power, rest, by simp [← hsplit],
      .whole (by simp) hwhole hfraction hpower⟩
  · have hpower := measures_power.perhaps tail
    have hcut := List.take_append_drop (exponentLength tail) tail
    generalize tail.take (exponentLength tail) = power at hpower hcut
    generalize tail.drop (exponentLength tail) = rest at hpower hcut
    subst hcut
    have hne : digits ≠ [] := by
      cases bs with
      | nil => simp at hnext
      | cons c bs =>
        rw [← hdigits, List.takeWhile_cons_of_pos (by simpa using hnext)]
        simp
    exact ⟨digits ++ power, power, rest, by simp [← hsplit], .point hb hne hrun hpower⟩

/-- What the digits of a numeral are cut into. -/
theorem Numeral.lengths {b : UInt8} {more power rest : List UInt8}
    (h : Numeral (b :: more) power rest) : ∃ whole fraction,
      digitsLength (more ++ rest) = whole ∧
      (if ascii b = '.' then 0 else fractionLength ((more ++ rest).drop whole)) = fraction ∧
      exponentLength ((more ++ rest).drop (whole + fraction)) = power.length ∧
      whole + fraction + power.length = more.length := by
  generalize hbytes : b :: more = bytes at h
  cases h with
  | @whole whole fraction power rest hne hrun hfraction hpower =>
    obtain ⟨d, digits, rfl⟩ := List.exists_cons_of_ne_nil hne
    obtain ⟨rfl, rfl⟩ := List.cons.inj hbytes
    have hpoint : ascii b ≠ '.' := by
      intro hb
      have := hrun.1 b (by simp)
      rw [isDigit_point hb] at this
      cases this
    refine ⟨digits.length, fraction.length, ?_, ?_, ?_, by simp [Nat.add_assoc]⟩
    · simpa [List.append_assoc] using digitsLength_run hrun.tail
    · rw [if_neg hpoint]
      simpa [List.append_assoc] using measures_fraction.length_perhaps hfraction
    · rw [← List.drop_drop]
      simpa [List.append_assoc] using measures_power.length_perhaps hpower
  | @point point digits power rest hpoint hne hrun hpower =>
    obtain ⟨rfl, rfl⟩ := List.cons.inj hbytes
    refine ⟨digits.length, 0, ?_, if_pos hpoint, ?_, by simp⟩
    · simpa [List.append_assoc] using digitsLength_run hrun
    · simpa [List.append_assoc] using measures_power.length_perhaps hpower

theorem takeWhile_ascii (bytes : List UInt8) :
    (bytes.map ascii).takeWhile Number.isDigit = (bytes.takeWhile isDigit).map ascii := by
  rw [List.takeWhile_map]
  rfl

theorem dropWhile_ascii (bytes : List UInt8) :
    (bytes.map ascii).dropWhile Number.isDigit = (bytes.dropWhile isDigit).map ascii := by
  rw [List.dropWhile_map]
  rfl

theorem Run.dropWhile {p : UInt8 → Bool} {taken rest : List UInt8} (h : Run p taken rest) :
    (taken ++ rest).dropWhile p = rest := by
  rw [List.dropWhile_append_of_pos h.1]
  cases rest with
  | nil => rfl
  | cons b rest => simp [h.2 b rfl]

theorem takeSign_digit {b : UInt8} {cs : List Char} (h : isDigit b = true) :
    (Number.takeSign (ascii b :: cs)).2 = ascii b :: cs := by
  unfold Number.takeSign
  split
  · next hc => rw [isDigit_of_sign (.inr (List.cons.inj hc).1)] at h; cases h
  · next hc => rw [isDigit_of_sign (.inl (List.cons.inj hc).1)] at h; cases h
  · rfl

/-- A power of ten can be read. -/
theorem readPower_isSome {power rest : List UInt8} (h : Perhaps Power power rest) :
    (Number.readPower (power.map ascii)).isSome = true := by
  rcases h with ⟨letter, sign, digits, rfl, hletter, hsign, hne, hrun⟩ | ⟨rfl, -⟩
  · have hall : (digits.map ascii).all Number.isDigit = true := by
      rw [List.all_map]
      exact List.all_eq_true.2 hrun.1
    have hread : (Number.takeSign ((sign ++ digits).map ascii)).2 = digits.map ascii := by
      rcases hsign with rfl | ⟨s, rfl, hs⟩
      · obtain ⟨d, ds, rfl⟩ := List.exists_cons_of_ne_nil hne
        have hd := hrun.1 d (by simp)
        exact takeSign_digit hd
      · rcases hs with hs | hs <;> simp [hs, Number.takeSign]
    simp only [List.map_cons, Number.readPower, if_pos hletter, hread, hall, ne_eq,
      List.map_eq_nil_iff, hne, not_false_eq_true, and_self, if_true, Option.isSome_some]
  · rfl

/-- Digits and perhaps a power of ten are read as a decimal. -/
theorem readDecimal_whole {cs power : List Char} (hwhole : cs.takeWhile Number.isDigit ≠ [])
    (hrest : cs.dropWhile Number.isDigit = power) (hhead : power.head? ≠ some '.')
    (hpower : (Number.readPower power).isSome = true) : (Number.readDecimal cs).isSome = true := by
  simp only [Number.readDecimal, hrest]
  split
  · simp at hhead
  · rw [if_neg fun h => hwhole h.1, Option.isSome_map, hpower]

/-- So are digits on either side of a point. -/
theorem readDecimal_fraction {cs : List Char} (digits power : List Char)
    (hrest : cs.dropWhile Number.isDigit = '.' :: (digits ++ power))
    (htake : (digits ++ power).takeWhile Number.isDigit = digits)
    (hdrop : (digits ++ power).dropWhile Number.isDigit = power)
    (hne : cs.takeWhile Number.isDigit ≠ [] ∨ digits ≠ [])
    (hpower : (Number.readPower power).isSome = true) : (Number.readDecimal cs).isSome = true := by
  simp only [Number.readDecimal, hrest, htake, hdrop]
  rw [if_neg fun h => hne.elim (fun hn => hn h.1) fun hn => hn h.2, Option.isSome_map, hpower]

theorem Perhaps.head_ne_point {power rest : List UInt8} (h : Perhaps Power power rest) :
    (power.map ascii).head? ≠ some '.' := by
  rcases h with ⟨letter, sign, digits, rfl, hletter, -⟩ | ⟨rfl, -⟩
  · simp only [List.map_cons, List.head?_cons, ne_eq, Option.some.injEq]
    rcases hletter with h | h <;> (rw [h]; decide)
  · simp

theorem Run.shorten {p : UInt8 → Bool} {taken next rest : List UInt8}
    (h : Run p taken (next ++ rest)) : Run p taken next := by
  refine ⟨h.1, fun b hb => h.2 b ?_⟩
  cases next with
  | nil => simp at hb
  | cons c next => exact hb

/-- Every numeral can be read. -/
theorem Numeral.readNumeral {bytes power rest : List UInt8} (h : Numeral bytes power rest) :
    ∃ bits, Number.readNumeral (bytes.map ascii) = some bits := by
  have hread : (Number.readDecimal (bytes.map ascii)).isSome = true ∧
      (Number.takeSign (bytes.map ascii)).2 = bytes.map ascii := by
    cases h with
    | @whole whole fraction power rest hne hrun hfraction hpower =>
      have hrun' : Run isDigit whole (fraction ++ power) := by
        rw [← List.append_assoc] at hrun
        exact hrun.shorten
      have htake : ((whole ++ (fraction ++ power)).map ascii).takeWhile Number.isDigit ≠ [] := by
        rw [takeWhile_ascii, hrun'.takeWhile]
        simpa using hne
      constructor
      · rcases hfraction with ⟨point, digits, rfl, hpoint, hdigits, -⟩ | ⟨rfl, -⟩
        · refine readDecimal_fraction (digits.map ascii) (power.map ascii) ?_ ?_ ?_
            (.inl htake) (readPower_isSome hpower)
          · rw [dropWhile_ascii, hrun'.dropWhile]
            simp [hpoint]
          · rw [← List.map_append, takeWhile_ascii, hdigits.shorten.takeWhile]
          · rw [← List.map_append, dropWhile_ascii, hdigits.shorten.dropWhile]
        · refine readDecimal_whole htake ?_ hpower.head_ne_point (readPower_isSome hpower)
          rw [dropWhile_ascii, hrun'.dropWhile, List.nil_append]
      · obtain ⟨d, ds, rfl⟩ := List.exists_cons_of_ne_nil hne
        exact takeSign_digit (hrun.1 d (by simp))
    | @point point digits power rest hpoint hne hrun hpower =>
      have hrun' := hrun.shorten
      constructor
      · refine readDecimal_fraction (digits.map ascii) (power.map ascii) ?_ ?_ ?_
          (.inr (by simpa using hne)) (readPower_isSome hpower)
        · rw [dropWhile_ascii, List.dropWhile_cons_of_neg (by simp [isDigit_point hpoint])]
          simp [hpoint]
        · rw [← List.map_append, takeWhile_ascii, hrun'.takeWhile]
        · rw [← List.map_append, dropWhile_ascii, hrun'.dropWhile]
      · simp [Number.takeSign, hpoint]
  obtain ⟨d, hd⟩ := Option.isSome_iff_exists.1 hread.1
  rw [Number.readNumeral]
  dsimp only
  rw [hread.2, hd]
  exact ⟨_, rfl⟩

/-- A numeral is a number token, unless a point follows its power of ten. -/
theorem Numeral.number_eq {b : UInt8} {more power rest : List UInt8} {bits : UInt64}
    (h : Numeral (b :: more) power rest)
    (hbits : Number.readNumeral ((b :: more).map ascii) = some bits) :
    number b (more ++ rest) =
      if power ≠ [] ∧ rest.head?.map ascii = some '.' then ⟨.fault .pointAfterExponent, more.length⟩
      else ⟨.token .number (.number (Float.ofBits bits)), more.length⟩ := by
  obtain ⟨whole, fraction, hwhole, hfraction, hpower, hsum⟩ := h.lengths
  have hne : power.length ≠ 0 ↔ power ≠ [] := by
    rw [ne_eq, List.length_eq_zero_iff]
  simp only [number, hwhole, hfraction, hpower, hsum, List.drop_left, List.take_left, hbits, hne]

theorem front_digit {b : UInt8} (h : isDigit b = true) (bs : List UInt8) :
    front b bs = number b bs := by
  have hne : ∀ c, Number.isDigit c = false → ascii b ≠ c := by
    rintro c hc rfl
    rw [isDigit, hc] at h
    cases h
  have h₁ : ¬ (ascii b = ' ' ∨ ascii b = '\r' ∨ ascii b = '\t' ∨ ascii b = '\n') := by
    simp [hne ' ' (by decide), hne '\r' (by decide), hne '\t' (by decide), hne '\n' (by decide)]
  simp only [front, h₁, hne '#' (by decide), hne '/' (by decide), hne '"' (by decide), h, if_true,
    if_false, false_and]

theorem front_point {b : UInt8} (h : ascii b = '.') (bs : List UInt8) :
    front b bs = if bs.head?.any isDigit then number b bs else ⟨.token .dot .nil, 0⟩ := by
  simp [front, h, isDigit_point h]

theorem wordStart_below : ∀ n < 256, ((Char.ofNat n).isAlpha || Char.ofNat n == '_') = true →
    Number.isDigit (Char.ofNat n) = false := by
  decide +kernel

theorem front_word {b : UInt8} (h : isWordStart b = true) (bs : List UInt8) :
    front b bs = word b bs := by
  have hne : ∀ c : Char, (c.isAlpha || c == '_') = false → ascii b ≠ c := by
    rintro c hc rfl
    rw [isWordStart, hc] at h
    cases h
  have h₁ : ¬ (ascii b = ' ' ∨ ascii b = '\r' ∨ ascii b = '\t' ∨ ascii b = '\n') := by
    simp [hne ' ' (by decide), hne '\r' (by decide), hne '\t' (by decide), hne '\n' (by decide)]
  have hdigit : isDigit b = false := wordStart_below b.toNat b.toNat_lt h
  simp only [front, h₁, hne '#' (by decide), hne '/' (by decide), hne '"' (by decide),
    hne '.' (by decide), hdigit, h, if_true, if_false, false_and, Bool.false_eq_true]

theorem sign?_loose {b : UInt8} {kind : Kind} (h : sign? (ascii b) = some kind) : Loose b := by
  generalize hc : ascii b = c at h
  unfold sign? at h
  split at h <;> cases h <;>
    exact ⟨by rw [hc]; decide, by rw [isDigit, hc]; decide, by rw [isWordStart, hc]; decide⟩

theorem operator?_loose {b : UInt8} {op : Kind × List (Char × Kind)}
    (h : operator? (ascii b) = some op) : Loose b := by
  generalize hc : ascii b = c at h
  unfold operator? at h
  split at h <;> cases h <;>
    exact ⟨by rw [hc]; decide, by rw [isDigit, hc]; decide, by rw [isWordStart, hc]; decide⟩

/-- No sign is an operator. -/
theorem operator?_of_sign? {c : Char} {kind : Kind} (h : sign? c = some kind) :
    operator? c = none := by
  unfold sign? at h
  split at h <;> first | rfl | cases h

/-- A loose byte is a sign, an operator, or out of place. -/
theorem front_loose {b : UInt8} {bs : List UInt8} (h : Loose b)
    (hcomment : ¬ (ascii b = '/' ∧ bs.head?.map ascii = some '*')) :
    (∀ kind, sign? (ascii b) = some kind → front b bs = ⟨.token kind .nil, 0⟩) ∧
    (∀ alone pairs, sign? (ascii b) = none → operator? (ascii b) = some (alone, pairs) →
      front b bs = operator alone pairs bs) ∧
    (sign? (ascii b) = none → operator? (ascii b) = none → front b bs = unexpected b bs) := by
  have hblank := h.blank
  simp only [List.mem_cons, List.not_mem_nil, or_false, not_or] at hblank
  obtain ⟨h₁, h₂, h₃, h₄, h₅, h₆, h₇⟩ := hblank
  simp only [front, h₁, h₂, h₃, h₄, h₅, h₆, h₇, or_self, if_false, hcomment, h.digit, h.word,
    Bool.false_eq_true]
  refine ⟨fun kind hs => ?_, fun alone pairs hs ho => ?_, fun hs ho => ?_⟩
  · rw [hs]
  · rw [hs, ho]
  · rw [hs, ho]

theorem front_sign {b : UInt8} {kind : Kind} (h : sign? (ascii b) = some kind) (bs : List UInt8) :
    front b bs = ⟨.token kind .nil, 0⟩ := by
  have hslash : ascii b ≠ '/' := by
    intro hc
    rw [hc] at h
    cases h
  exact (front_loose (sign?_loose h) fun hc => hslash hc.1).1 kind h

theorem front_operator {b : UInt8} {bs : List UInt8} {alone : Kind} {pairs : List (Char × Kind)}
    (h : operator? (ascii b) = some (alone, pairs))
    (hcomment : ¬ (ascii b = '/' ∧ bs.head?.map ascii = some '*')) :
    front b bs = operator alone pairs bs := by
  have hsign : sign? (ascii b) = none := by
    cases hs : sign? (ascii b) with
    | none => rfl
    | some kind =>
      rw [operator?_of_sign? hs] at h
      cases h
  exact (front_loose (operator?_loose h) hcomment).2.1 alone pairs hsign h

theorem front_stray {b : UInt8} (h : Stray b) (bs : List UInt8) : front b bs = unexpected b bs := by
  have hslash : ascii b ≠ '/' := by
    intro hc
    have := h.operator
    rw [hc] at this
    cases this
  exact (front_loose h.toLoose fun hc => hslash hc.1).2.2 h.sign h.operator

/-- The inside of a comment is as long as it goes without a stop. -/
theorem commentInside_eq {inside later : List UInt8}
    (hinside : ∀ before after, inside = before ++ after → after ≠ [] → ¬ Stops (after ++ later))
    (hlater : Stops later ∨ later = []) : commentInside (inside ++ later) = inside.length := by
  induction inside with
  | nil =>
    rcases hlater with h | rfl
    · cases later with
      | nil => rfl
      | cons b bs =>
        have hstop : ascii b = '*' ∨ bs.head?.map ascii = some '/' := by simpa [Stops] using h
        rw [List.nil_append, commentInside, if_pos hstop, List.length_nil]
    · rfl
  | cons b inside ih =>
    have hgo := hinside [] (b :: inside) rfl (by simp)
    have hstop : ¬ (ascii b = '*' ∨ (inside ++ later).head?.map ascii = some '/') := by
      simpa [Stops] using hgo
    rw [List.cons_append, commentInside, if_neg hstop, List.length_cons, Nat.add_comm,
      ih fun before after h => hinside (b :: before) after (by rw [h, List.cons_append])]

/-- Where the inside of a comment ends, and that it goes on up to there. -/
theorem commentInside_stops (bytes : List UInt8) :
    (∀ before after, bytes.take (commentInside bytes) = before ++ after → after ≠ [] →
      ¬ Stops (after ++ bytes.drop (commentInside bytes))) ∧
    (Stops (bytes.drop (commentInside bytes)) ∨ bytes.drop (commentInside bytes) = []) := by
  induction bytes with
  | nil => simp [commentInside]
  | cons b bs ih =>
    by_cases h : ascii b = '*' ∨ bs.head?.map ascii = some '/'
    · rw [commentInside, if_pos h]
      refine ⟨fun before after hsplit hne => ?_, .inl (by simpa [Stops] using h)⟩
      simp at hsplit
      exact absurd hsplit.2 hne
    · rw [commentInside, if_neg h, Nat.add_comm, List.take_succ_cons, List.drop_succ_cons]
      refine ⟨fun before after hsplit hne => ?_, ih.2⟩
      cases before with
      | nil =>
        rw [List.nil_append] at hsplit
        subst hsplit
        rw [List.cons_append, List.take_append_drop]
        simpa [Stops] using h
      | cons c before => exact ih.1 before after (List.cons.inj hsplit).2 hne

theorem front_blockComment {slash star : UInt8} (hslash : ascii slash = '/')
    (hstar : ascii star = '*') (bs : List UInt8) :
    front slash (star :: bs) = blockComment (star :: bs) := by
  simp [front, hslash, hstar]

theorem front_blank {b : UInt8} (h : ascii b ∈ [' ', '\r', '\t', '\n']) (bs : List UInt8) :
    front b bs = ⟨.gap, 0⟩ := by
  simp only [List.mem_cons, List.not_mem_nil, or_false] at h
  simp only [front, h, if_true]

theorem front_hash {b : UInt8} (h : ascii b = '#') (bs : List UInt8) :
    front b bs = lineComment bs := by
  simp [front, h]

theorem front_quote {b : UInt8} (h : ascii b = '"') (bs : List UInt8) : front b bs = string bs := by
  simp [front, h]

theorem Numeral.front {b : UInt8} {more power rest : List UInt8}
    (h : Numeral (b :: more) power rest) : front b (more ++ rest) = number b (more ++ rest) := by
  generalize hbytes : b :: more = bytes at h
  cases h with
  | @whole whole fraction power rest hne hrun hfraction hpower =>
    obtain ⟨d, digits, rfl⟩ := List.exists_cons_of_ne_nil hne
    obtain ⟨rfl, rfl⟩ := List.cons.inj hbytes
    exact front_digit (hrun.1 b (by simp)) _
  | @point point digits power rest hpoint hne hrun hpower =>
    obtain ⟨d, ds, rfl⟩ := List.exists_cons_of_ne_nil hne
    obtain ⟨rfl, rfl⟩ := List.cons.inj hbytes
    rw [front_point hpoint, if_pos (by simpa using hrun.1 d (by simp))]

/-- No operator of two signs begins like a comment. -/
theorem no_comment_of_pair {b c : UInt8} {alone kind : Kind} {pairs : List (Char × Kind)}
    (hop : operator? (ascii b) = some (alone, pairs)) (hpair : pairs.lookup (ascii c) = some kind)
    (rest : List UInt8) : ¬ (ascii b = '/' ∧ (c :: rest).head?.map ascii = some '*') := by
  rintro ⟨hb, hc⟩
  rw [hb] at hop
  cases hop
  rw [List.head?_cons, Option.map_some, Option.some.injEq] at hc
  rw [hc, show List.lookup '*' [('/', Kind.slashSlash), ('=', Kind.slashEqual)] = none from rfl]
    at hpair
  cases hpair

/-- What stands there is what is found. -/
theorem Stands.front {content : Content} {b : UInt8} {more rest : List UInt8}
    (h : Stands content (b :: more) rest) : front b (more ++ rest) = ⟨content, more.length⟩ := by
  generalize hbytes : b :: more = bytes at h
  cases h with
  | blank hb =>
    obtain ⟨rfl, rfl⟩ := List.cons.inj hbytes
    exact front_blank hb _
  | lineComment hhash hrun =>
    obtain ⟨rfl, rfl⟩ := List.cons.inj hbytes
    rw [front_hash hhash, Lexeme.lineComment, hrun.takeWhile]
  | @blockComment slash star inside tail rest hslash hstar hinside hend htail =>
    obtain ⟨rfl, rfl⟩ := List.cons.inj hbytes
    have hlen := congrArg List.length htail
    rw [List.length_take, List.length_append] at hlen
    rw [List.cons_append, front_blockComment hslash hstar, Lexeme.blockComment, List.drop_succ_cons,
      List.drop_zero, List.append_assoc, commentInside_eq hinside hend]
    simp only [List.length_cons, List.length_append, Front.mk.injEq, true_and]
    omega
  | @string opening closing inside rest text hopening hinside hclosing htext =>
    obtain ⟨rfl, rfl⟩ := List.cons.inj hbytes
    have hrun : Run (fun b => ascii b != '"') inside (closing :: rest) :=
      ⟨fun c hc => by simpa using hinside c hc, by simp [hclosing]⟩
    have hdecode : Text.Utf8.decodeLossy inside = text := by
      rw [← htext, Text.Utf8.encode_eq, Text.Utf8.decodeLossy_bytesOf, String.ofList_toList]
    rw [front_quote hopening, Lexeme.string, List.append_assoc, List.singleton_append]
    simp only [hrun.takeWhile, hdecode]
    rw [if_neg (by simp)]
    simp
  | @unterminated opening inside hopening hinside =>
    obtain ⟨rfl, rfl⟩ := List.cons.inj hbytes
    have hrun : Run (fun b => ascii b != '"') more [] :=
      ⟨fun c hc => by simpa using hinside c hc, by simp⟩
    rw [front_quote hopening, Lexeme.string]
    simp only [hrun.takeWhile]
    rw [if_pos (by simp)]
  | number hnumeral hpoint hbits =>
    subst hbytes
    rw [hnumeral.front, hnumeral.number_eq hbits,
      if_neg fun h => hpoint.elim (fun hp => h.1 hp) fun hp => hp h.2]
  | pointAfterExponent hnumeral hpower hpoint =>
    subst hbytes
    obtain ⟨bits, hbits⟩ := hnumeral.readNumeral
    rw [hnumeral.front, hnumeral.number_eq hbits, if_pos ⟨hpower, hpoint⟩]
  | dot hb hdigit =>
    obtain ⟨rfl, rfl⟩ := List.cons.inj hbytes
    rw [front_point hb, if_neg]
    · rfl
    · cases rest with
      | nil => simp
      | cons c rest => simp [hdigit c rfl]
  | word hfirst hrun =>
    obtain ⟨rfl, rfl⟩ := List.cons.inj hbytes
    rw [front_word hfirst, Lexeme.word]
    simp only [hrun.takeWhile]
  | sign hsign =>
    obtain ⟨rfl, rfl⟩ := List.cons.inj hbytes
    exact front_sign hsign _
  | operator hop hcomment hnext =>
    obtain ⟨rfl, rfl⟩ := List.cons.inj hbytes
    rw [List.nil_append, front_operator hop hcomment, Lexeme.operator]
    cases rest with
    | nil => rfl
    | cons c rest => simp [hnext c rfl]
  | @pair b c rest alone kind pairs hop hpair =>
    obtain ⟨rfl, rfl⟩ := List.cons.inj hbytes
    rw [List.singleton_append, front_operator hop (no_comment_of_pair hop hpair rest),
      Lexeme.operator]
    simp [hpair]
  | unexpected hstray hmore =>
    obtain ⟨rfl, rfl⟩ := List.cons.inj hbytes
    rw [front_stray hstray, Lexeme.unexpected, ← hmore]

theorem toNat_ascii (b : UInt8) : (ascii b).toNat = b.toNat := by
  have := b.toNat_lt
  rw [ascii, Char.ofNat, dif_pos (by unfold Nat.isValidChar; omega)]
  rfl

theorem below_of_ascii {b : UInt8} {c : Char} (h : ascii b = c) (hc : c.toNat < 128) :
    b.toNat < 128 := by
  rwa [← toNat_ascii, h]

theorem below_of_digit {b : UInt8} (h : isDigit b = true) : b.toNat < 128 :=
  ascii_of_isWord (by simp [isWord, h])

def Numeric (b : UInt8) : Prop := isDigit b = true ∨ ascii b ∈ ['.', 'e', 'E', '+', '-']

theorem Numeric.below {b : UInt8} (h : Numeric b) : b.toNat < 128 := by
  rcases h with h | h
  · exact below_of_digit h
  · have hall : ∀ c ∈ ['.', 'e', 'E', '+', '-'], c.toNat < 128 := by simp
    rw [← toNat_ascii]
    exact hall _ h

theorem Power.numeric {taken rest : List UInt8} (h : Power taken rest) : ∀ b ∈ taken, Numeric b := by
  obtain ⟨letter, sign, digits, rfl, hletter, hsign, -, hrun⟩ := h
  simp only [List.forall_mem_cons, List.forall_mem_append]
  refine ⟨.inr ?_, ?_, fun b hb => .inl (hrun.1 b hb)⟩
  · rcases hletter with h | h <;> simp [h]
  · rcases hsign with rfl | ⟨s, rfl, hs⟩
    · simp
    · rw [List.forall_mem_singleton]
      rcases hs with h | h <;> exact .inr (by simp [h])

theorem Fraction.numeric {taken rest : List UInt8} (h : Fraction taken rest) :
    ∀ b ∈ taken, Numeric b := by
  obtain ⟨point, digits, rfl, hpoint, hrun, -⟩ := h
  rw [List.forall_mem_cons]
  exact ⟨.inr (by simp [hpoint]), fun b hb => .inl (hrun.1 b hb)⟩

theorem Perhaps.numeric {taken rest : List UInt8} (hp : Perhaps Form taken rest)
    (h : Form taken rest → ∀ b ∈ taken, Numeric b) : ∀ b ∈ taken, Numeric b := by
  rcases hp with hform | ⟨rfl, -⟩
  · exact h hform
  · simp

theorem Numeral.numeric {bytes power rest : List UInt8} (h : Numeral bytes power rest) :
    ∀ b ∈ bytes, Numeric b := by
  cases h with
  | whole hne hrun hfraction hpower =>
    simp only [List.forall_mem_append]
    exact ⟨fun b hb => .inl (hrun.1 b hb), hfraction.numeric Fraction.numeric,
      hpower.numeric Power.numeric⟩
  | point hpoint hne hrun hpower =>
    simp only [List.forall_mem_cons, List.forall_mem_append]
    exact ⟨.inr (by simp [hpoint]), fun b hb => .inl (hrun.1 b hb), hpower.numeric Power.numeric⟩

/-- A numeral is ASCII. -/
theorem Numeral.below {bytes power rest : List UInt8} (h : Numeral bytes power rest) :
    ∀ b ∈ bytes, b.toNat < 128 := fun b hb => (h.numeric b hb).below

theorem sign?_below {b : UInt8} {kind : Kind} (h : sign? (ascii b) = some kind) : b.toNat < 128 := by
  generalize hc : ascii b = c at h
  unfold sign? at h
  split at h <;> cases h <;> exact below_of_ascii hc (by decide)

/-- Both signs of an operator are ASCII. -/
theorem operator?_below {b : UInt8} {alone : Kind} {pairs : List (Char × Kind)}
    (h : operator? (ascii b) = some (alone, pairs)) :
    b.toNat < 128 ∧ ∀ p ∈ pairs, p.1.toNat < 128 := by
  generalize hc : ascii b = c at h
  unfold operator? at h
  split at h <;> cases h <;> exact ⟨below_of_ascii hc (by decide), by decide⟩

/-- The bytes of a token are a text of their own. -/
theorem Stands.whole {kind : Kind} {literal : Literal} {bytes rest : List UInt8}
    (h : Stands (.token kind literal) bytes rest) : Whole bytes := by
  generalize hcontent : Content.token kind literal = content at h
  cases h with
  | blank | lineComment | blockComment | unterminated | pointAfterExponent | unexpected =>
    cases hcontent
  | string hopening hinside hclosing htext =>
    have hquote : ∀ b, ascii b = '"' → Whole [b] := fun b hb =>
      Text.Utf8.whole_ascii (by simpa using below_of_ascii hb (by decide))
    rw [← htext]
    exact (hquote _ hopening).append ((Text.Utf8.whole_encode _).append (hquote _ hclosing))
  | number hnumeral => exact Text.Utf8.whole_ascii hnumeral.below
  | dot hb => exact Text.Utf8.whole_ascii (by simpa using below_of_ascii hb (by decide))
  | word hfirst hrun =>
    refine Text.Utf8.whole_ascii (List.forall_mem_cons.2 ⟨?_, fun b hb => ?_⟩)
    · exact ascii_of_isWord (by simp [isWord, hfirst])
    · exact ascii_of_isWord (hrun.1 b hb)
  | sign hsign => exact Text.Utf8.whole_ascii (by simpa using sign?_below hsign)
  | operator hop => exact Text.Utf8.whole_ascii (by simpa using (operator?_below hop).1)
  | @pair b c rest alone kind pairs hop hpair =>
    obtain ⟨l₁, l₂, hp, -⟩ := List.lookup_eq_some_iff.1 hpair
    have hc : (ascii c).toNat < 128 := (operator?_below hop).2 (ascii c, kind) (by rw [hp]; simp)
    rw [toNat_ascii] at hc
    exact Text.Utf8.whole_ascii (by simpa using ⟨(operator?_below hop).1, hc⟩)

theorem keywords_ne_eof : ∀ p ∈ Kind.keywords, p.2 ≠ .eof := by decide

/-- No lexeme is the end marker. -/
theorem Stands.kind_ne_eof {kind : Kind} {literal : Literal} {bytes rest : List UInt8}
    (h : Stands (.token kind literal) bytes rest) : kind ≠ .eof := by
  generalize hcontent : Content.token kind literal = content at h
  cases h with
  | blank | lineComment | blockComment | unterminated | pointAfterExponent | unexpected =>
    cases hcontent
  | string | number | dot =>
    cases hcontent
    simp
  | @word first more rest hfirst hrun =>
    cases hcontent
    rw [Kind.ofWord]
    cases hl : Kind.keywords.lookup (String.ofList ((first :: more).map ascii)) with
    | none => simp
    | some kind =>
      obtain ⟨l₁, l₂, hp, -⟩ := List.lookup_eq_some_iff.1 hl
      exact keywords_ne_eof _ (hp ▸ List.mem_append_right l₁ List.mem_cons_self)
  | sign hsign =>
    cases hcontent
    unfold sign? at hsign
    split at hsign <;> cases hsign <;> simp
  | operator hop =>
    cases hcontent
    unfold operator? at hop
    split at hop <;> cases hop <;> simp
  | @pair b c rest alone kind pairs hop hpair =>
    cases hcontent
    obtain ⟨l₁, l₂, hp, -⟩ := List.lookup_eq_some_iff.1 hpair
    have hall : ∀ p ∈ pairs, p.2 ≠ .eof := by
      unfold operator? at hop
      split at hop <;> cases hop <;> simp
    exact hall (ascii c, kind) (by rw [hp]; simp)

section Front

variable {before : List UInt8} {b : UInt8} {bs : List UInt8}

/-- Behind `/*` stands a comment. -/
theorem stands_blockComment (h : ascii b = '/' ∧ bs.head?.map ascii = some '*') :
    ∃ content more rest, bs = more ++ rest ∧ Stands content (b :: more) rest := by
  obtain ⟨star, bytes, rfl⟩ : ∃ star bytes, bs = star :: bytes := by
    cases bs with
    | nil => simp at h
    | cons star bytes => exact ⟨star, bytes, rfl⟩
  obtain ⟨hinside, hend⟩ := commentInside_stops bytes
  have hcut := List.take_append_drop (commentInside bytes) bytes
  generalize bytes.take (commentInside bytes) = inside at hinside hcut
  generalize bytes.drop (commentInside bytes) = later at hinside hend hcut
  have hlater := List.take_append_drop 2 later
  refine ⟨.gap, star :: (inside ++ later.take 2), later.drop 2, by simp [← hcut], ?_⟩
  refine .blockComment h.1 (by simpa using h.2) ?_ ?_ (by rw [hlater])
  · rwa [hlater]
  · rwa [hlater]

/-- Behind a quote stands a string, ended or not. -/
theorem stands_quote (hwhole : Whole (before ++ b :: bs)) (h : ascii b = '"') :
    ∃ content more rest, bs = more ++ rest ∧ Stands content (b :: more) rest := by
  obtain ⟨hinside, hnext⟩ := run_takeWhile (fun b => ascii b != '"') bs
  have hcut := takeWhile_append_drop (fun b => ascii b != '"') bs
  generalize bs.takeWhile (fun b => ascii b != '"') = inside at hinside hnext hcut
  generalize bs.drop inside.length = rest at hnext hcut
  replace hinside : ∀ b ∈ inside, ascii b ≠ '"' := fun b hb => by simpa using hinside b hb
  cases rest with
  | nil => exact ⟨_, inside, [], hcut.symm, .unterminated h hinside⟩
  | cons closing rest =>
    have hclosing : ascii closing = '"' := by simpa using hnext closing rfl
    have hafter : Whole (inside ++ closing :: rest) := by
      rw [hcut]
      exact (hwhole.cut (below_of_ascii h (by decide))).2
    have htext := (hafter.cut (below_of_ascii hclosing (by decide))).1.encode_decodeLossy
    exact ⟨_, inside ++ [closing], rest, by simp [← hcut], .string h hinside hclosing htext⟩

/-- Where a number begins, one stands or the fault of a point behind it. -/
theorem stands_number (h : isDigit b = true ∨ ascii b = '.' ∧ bs.head?.any isDigit = true) :
    ∃ content more rest, bs = more ++ rest ∧ Stands content (b :: more) rest := by
  obtain ⟨more, power, rest, hbs, hnumeral⟩ := numeral_front h
  obtain ⟨bits, hbits⟩ := hnumeral.readNumeral
  by_cases hpoint : power ≠ [] ∧ rest.head?.map ascii = some '.'
  · exact ⟨_, more, rest, hbs, .pointAfterExponent hnumeral hpoint.1 hpoint.2⟩
  · refine ⟨_, more, rest, hbs, .number hnumeral ?_ hbits⟩
    rwa [not_and_or, not_not] at hpoint

/-- An operator stands with its second sign if there is one. -/
theorem stands_operator {alone : Kind} {pairs : List (Char × Kind)}
    (h : operator? (ascii b) = some (alone, pairs))
    (hcomment : ¬ (ascii b = '/' ∧ bs.head?.map ascii = some '*')) :
    ∃ content more rest, bs = more ++ rest ∧ Stands content (b :: more) rest := by
  cases bs with
  | nil => exact ⟨_, [], [], rfl, .operator h (by simp) (by simp)⟩
  | cons c rest =>
    cases hpair : pairs.lookup (ascii c) with
    | some kind => exact ⟨_, [c], rest, rfl, .pair h hpair⟩
    | none => exact ⟨_, [], c :: rest, rfl, .operator h hcomment (by simpa using hpair)⟩

/-- Something stands at the front of every text: of the bytes of a text, what follows some of
them. -/
theorem stands_front (hwhole : Whole (before ++ b :: bs)) :
    ∃ content more rest, bs = more ++ rest ∧ Stands content (b :: more) rest := by
  by_cases hblank : ascii b ∈ [' ', '\r', '\t', '\n']
  · exact ⟨_, [], bs, rfl, .blank hblank⟩
  by_cases hhash : ascii b = '#'
  · exact ⟨_, _, _, (takeWhile_append_drop (fun b => !isLineEnd b) bs).symm,
      .lineComment hhash (run_takeWhile _ bs)⟩
  by_cases hcomment : ascii b = '/' ∧ bs.head?.map ascii = some '*'
  · exact stands_blockComment hcomment
  by_cases hquote : ascii b = '"'
  · exact stands_quote hwhole hquote
  by_cases hnumber : isDigit b = true ∨ ascii b = '.' ∧ bs.head?.any isDigit = true
  · exact stands_number hnumber
  rw [not_or] at hnumber
  by_cases hpoint : ascii b = '.'
  · refine ⟨_, [], bs, rfl, .dot hpoint fun c hc => ?_⟩
    cases hd : isDigit c with
    | false => rfl
    | true => exact absurd ⟨hpoint, by rw [Option.mem_def.1 hc]; simpa using hd⟩ hnumber.2
  by_cases hword : isWordStart b = true
  · exact ⟨_, _, _, (takeWhile_append_drop isWord bs).symm, .word hword (run_takeWhile _ bs)⟩
  cases hsign : sign? (ascii b) with
  | some kind => exact ⟨_, [], bs, rfl, .sign hsign⟩
  | none =>
    cases hop : operator? (ascii b) with
    | some op => exact stands_operator hop hcomment
    | none =>
      have hstray : Stray b := by
        refine ⟨⟨?_, by simpa using hnumber.1, by simpa using hword⟩, hsign, hop⟩
        simp_all
      refine ⟨_, bs.take (announced b - 1), bs.drop (announced b - 1),
        (List.take_append_drop _ _).symm, .unexpected hstray ?_⟩
      rw [List.take_append_drop]

end Front

/-- Nothing, or a blank and more. -/
def Parted (rest : List UInt8) : Prop := ∀ b ∈ rest.head?, ascii b = ' '

/-- A blank ends a run as whatever followed did. -/
theorem Run.parted {p : UInt8 → Bool} {taken rest later : List UInt8} (h : Run p taken rest)
    (hp : ∀ b, ascii b = ' ' → p b = false) (hlater : Parted later) : Run p taken later :=
  ⟨h.1, fun b hb => hp b (hlater b hb)⟩

theorem isDigit_blank {b : UInt8} (h : ascii b = ' ') : isDigit b = false := by
  rw [isDigit, h]
  decide

theorem isWord_blank {b : UInt8} (h : ascii b = ' ') : isWord b = false := by
  rw [isWord, isWordStart, isDigit, h]
  decide

theorem Power.parted {power rest later : List UInt8} (h : Power power rest)
    (hlater : Parted later) : Power power later := by
  obtain ⟨letter, sign, digits, hpower, hletter, hsign, hne, hrun⟩ := h
  exact ⟨letter, sign, digits, hpower, hletter, hsign, hne,
    hrun.parted (fun _ => isDigit_blank) hlater⟩

theorem Parted.not_power {later form rest : List UInt8} (h : Parted later)
    (hsplit : later = form ++ rest) : ¬ Power form rest := by
  rintro ⟨letter, sign, digits, rfl, hletter, -⟩
  have hblank := h letter (by rw [hsplit]; rfl)
  rw [hblank] at hletter
  revert hletter
  decide

theorem Perhaps.power_parted {power rest later : List UInt8} (h : Perhaps Power power rest)
    (hlater : Parted later) : Perhaps Power power later := by
  rcases h with h | ⟨rfl, -⟩
  · exact .inl (h.parted hlater)
  · exact .inr ⟨rfl, fun _ _ hsplit => hlater.not_power hsplit⟩

/-- A run before something is a run before the same with another continuation. -/
theorem Run.continued {p : UInt8 → Bool} {taken next rest later : List UInt8}
    (h : Run p taken (next ++ rest)) (hp : ∀ b, ascii b = ' ' → p b = false)
    (hlater : Parted later) : Run p taken (next ++ later) := by
  cases next with
  | nil => exact h.parted hp hlater
  | cons c next => exact h

/-- A fraction stands before a blank as it stood before what followed. -/
theorem Perhaps.fraction_parted {fraction power rest later : List UInt8}
    (h : Perhaps Fraction fraction (power ++ rest)) (hpower : Perhaps Power power rest)
    (hlater : Parted later) : Perhaps Fraction fraction (power ++ later) := by
  rcases h with ⟨point, digits, hfraction, hpoint, hrun, hne⟩ | ⟨rfl, hnone⟩
  · refine .inl ⟨point, digits, hfraction, hpoint,
      hrun.continued (fun _ => isDigit_blank) hlater, hne.imp_right ?_⟩
    rintro ⟨form, after, hsplit, hform⟩
    -- the power of ten ahead is the numeral's own
    rcases hpower with h | ⟨rfl, hnone⟩
    · exact ⟨power, later, rfl, h.parted hlater⟩
    · exact absurd hform (hnone form after hsplit)
  · refine .inr ⟨rfl, ?_⟩
    rintro form after hsplit ⟨point, digits, rfl, hpoint, -⟩
    rcases hpower with ⟨letter, sign, ds, rfl, hletter, -⟩ | ⟨rfl, -⟩
    · rw [List.cons_append, List.cons_append, List.cons.injEq] at hsplit
      rw [hsplit.1, hpoint] at hletter
      revert hletter
      decide
    · have hblank := hlater point (by rw [List.nil_append] at hsplit; rw [hsplit]; rfl)
      rw [hpoint] at hblank
      cases hblank

theorem Numeral.parted {bytes power rest later : List UInt8} (h : Numeral bytes power rest)
    (hlater : Parted later) : Numeral bytes power later := by
  cases h with
  | whole hne hrun hfraction hpower =>
    refine .whole hne ?_ (hfraction.fraction_parted hpower hlater) (hpower.power_parted hlater)
    rw [← List.append_assoc] at hrun ⊢
    exact hrun.continued (fun _ => isDigit_blank) hlater
  | point hpoint hne hrun hpower =>
    exact .point hpoint hne (hrun.continued (fun _ => isDigit_blank) hlater)
      (hpower.power_parted hlater)

/-- A blank is not the second sign of an operator. -/
theorem operator?_blank {c d : Char} {alone : Kind} {pairs : List (Char × Kind)}
    (h : operator? c = some (alone, pairs)) (hd : d ∈ [' ', '\n']) : pairs.lookup d = none := by
  simp only [List.mem_cons, List.not_mem_nil, or_false] at hd
  unfold operator? at h
  rcases hd with rfl | rfl <;> split at h <;> cases h <;> rfl

theorem Parted.head_ne {later : List UInt8} (h : Parted later) {c : Char} (hc : c ≠ ' ') :
    later.head?.map ascii ≠ some c := by
  intro hhead
  obtain ⟨b, hb, rfl⟩ := Option.map_eq_some_iff.1 hhead
  exact hc (h b hb)

/-- A token is the same token before a blank, and at the end of a text. -/
theorem Stands.parted {kind : Kind} {literal : Literal} {bytes rest later : List UInt8}
    (h : Stands (.token kind literal) bytes rest) (hlater : Parted later) :
    Stands (.token kind literal) bytes later := by
  generalize hcontent : Content.token kind literal = content at h ⊢
  cases h with
  | blank | lineComment | blockComment | unterminated | pointAfterExponent | unexpected =>
    cases hcontent
  | string hopening hinside hclosing htext => exact .string hopening hinside hclosing htext
  | number hnumeral _ hbits =>
    exact .number (hnumeral.parted hlater) (.inr (hlater.head_ne (by decide))) hbits
  | dot hb => exact .dot hb fun c hc => isDigit_blank (hlater c hc)
  | word hfirst hrun => exact .word hfirst (hrun.parted (fun _ => isWord_blank) hlater)
  | sign hsign => exact .sign hsign
  | operator hop =>
    refine .operator hop (fun h => hlater.head_ne (by decide) h.2) fun c hc => ?_
    rw [hlater c hc]
    exact operator?_blank hop (by decide)
  | pair hop hpair => exact .pair hop hpair

end Lexeme

end Scriptling
