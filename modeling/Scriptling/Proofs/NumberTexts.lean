import Mathlib
import Scriptling.Number.Text
import Scriptling.Proofs.Numerals
import Scriptling.Proofs.ShortestDecimals

namespace Scriptling

open Text.Utf8 (encode)

namespace Number

structure Row (cs : List Char) : Prop where
  nonempty : cs ≠ []
  digit : ∀ c ∈ cs, isDigit c = true

theorem ofDigits_eq_ofDigitChars (cs : List Char) : ofDigits cs = Nat.ofDigitChars 10 cs 0 := by
  rw [ofDigits_eq, Nat.ofDigitChars_eq_foldl]
  rfl

theorem ofDigits_append (cs ds : List Char) :
    ofDigits (cs ++ ds) = 10 ^ ds.length * ofDigits cs + ofDigits ds := by
  simp only [ofDigits_eq_ofDigitChars]
  rw [Nat.ofDigitChars_append, Nat.ofDigitChars_eq_ofDigitChars_zero]

theorem ofDigits_toDigits (n : Nat) : ofDigits (Nat.toDigits 10 n) = n := by
  rw [ofDigits_eq_ofDigitChars, Nat.ofDigitChars_ten_toDigits]

theorem ofDigits_zeros (n : Nat) : ofDigits (List.replicate n '0') = 0 := by
  rw [ofDigits_eq_ofDigitChars, Nat.ofDigitChars_replicate_zero, Nat.mul_zero]

theorem row_toDigits (n : Nat) : Row (Nat.toDigits 10 n) where
  nonempty := Nat.toDigits_ne_nil
  digit c hc := by
    have h := Nat.isDigit_of_mem_toDigits (by decide) (by decide) hc
    simpa [Char.isDigit, isDigit, Char.le_def] using h

theorem digit_zeros (n : Nat) : ∀ c ∈ List.replicate n '0', isDigit c = true := by
  intro c hc
  rw [(List.mem_replicate.1 hc).2]
  decide

/-- A numeral without a power of ten, digits alone or a point with digits on both sides, and the
number that it writes. -/
inductive Plain : List Char → ℚ → Prop where
  | whole {digits : List Char} : Row digits → Plain digits (ofDigits digits)
  | fraction {digits decimals : List Char} : Row digits → Row decimals →
    Plain (digits ++ '.' :: decimals) (ofDigits (digits ++ decimals) / 10 ^ decimals.length)

theorem Plain.head {cs : List Char} {x : ℚ} (h : Plain cs x) :
    ∃ d ds, cs = d :: ds ∧ isDigit d = true := by
  have hrow : ∀ {ds : List Char}, Row ds →
      ∀ es, ∃ d es', ds ++ es = d :: es' ∧ isDigit d = true := by
    intro ds h es
    obtain ⟨d, ds, rfl⟩ := List.exists_cons_of_ne_nil h.nonempty
    exact ⟨d, ds ++ es, rfl, h.digit d (by simp)⟩
  cases h with
  | whole h => simpa using hrow h []
  | fraction h => exact hrow h _

theorem Plain.chars {cs : List Char} {x : ℚ} (h : Plain cs x) :
    ∀ c ∈ cs, isNumeralChar c = true := by
  have hrow : ∀ {ds : List Char}, Row ds → ∀ c ∈ ds, isNumeralChar c = true :=
    fun h c hc => Lexeme.isNumeralChar_digit (h.digit c hc)
  cases h with
  | whole h => exact hrow h
  | fraction h h' =>
    rw [List.forall_mem_append, List.forall_mem_cons]
    exact ⟨hrow h, by decide, hrow h'⟩

/-- A plain numeral is read as the number that it writes. -/
theorem Plain.readDecimal {cs : List Char} {x : ℚ} (h : Plain cs x) :
    ∃ d, Number.readDecimal cs = some d ∧ d.value = x := by
  cases h with
  | whole h =>
    have htake := List.takeWhile_eq_self_iff.2 h.digit
    have hdrop := List.dropWhile_eq_nil_iff.2 h.digit
    refine ⟨⟨ofDigits cs, 0⟩, ?_, by simp [Decimal.value]⟩
    simp [Number.readDecimal, htake, hdrop, h.nonempty, readPower]
  | @fraction digits decimals h h' =>
    have htake : (digits ++ '.' :: decimals).takeWhile isDigit = digits := by
      rw [List.takeWhile_append_of_pos h.digit, List.takeWhile_cons_of_neg (by decide),
        List.append_nil]
    have hdrop : (digits ++ '.' :: decimals).dropWhile isDigit = '.' :: decimals := by
      rw [List.dropWhile_append_of_pos h.digit, List.dropWhile_cons_of_neg (by decide)]
    have htake' := List.takeWhile_eq_self_iff.2 h'.digit
    have hdrop' := List.dropWhile_eq_nil_iff.2 h'.digit
    refine ⟨⟨ofDigits (digits ++ decimals), -decimals.length⟩, ?_, ?_⟩
    · simp [Number.readDecimal, htake, hdrop, htake', hdrop', h.nonempty, readPower]
    · rw [Decimal.value, zpow_neg, zpow_natCast, div_eq_mul_inv]

theorem Decimal.nearestSize_eq {d : Decimal} {s : Nat} (h : RoundsTo d.value s)
    (hs : s ≤ infiniteSize) : d.nearestSize = s := by
  have hvalue : d.value =
      (d.digits * pow10 d.exponent.toNat : Nat) / (pow10 (-d.exponent).toNat : Nat) := by
    have hpow := pow_toNat_div (by norm_num : (10 : ℚ) ≠ 0) d.exponent
    simp only [pow10_eq]
    push_cast
    rw [mul_div_assoc, hpow, value]
  rw [hvalue] at h
  exact h.nearestSize (by rw [pow10_eq]; positivity) hs

theorem takeSign_of_digit {d : Char} {ds : List Char} (h : isDigit d = true) :
    takeSign (d :: ds) = (false, d :: ds) := by
  unfold takeSign
  split
  · next hc =>
    rw [(List.cons.inj hc).1] at h
    exact absurd h (by decide)
  · next hc =>
    rw [(List.cons.inj hc).1] at h
    exact absurd h (by decide)
  · rfl

/-- A plain numeral with a sign in front is read as the double that its number is rounded to. -/
theorem Plain.readNumeral {cs : List Char} {x : ℚ} {s : Nat} (h : Plain cs x) (hx : RoundsTo x s)
    (hs : s ≤ infiniteSize) (negative : Bool) :
    Number.readNumeral ((minus negative).toList ++ cs) = some (ofSize negative s) := by
  have hsign : takeSign ((minus negative).toList ++ cs) = (negative, cs) := by
    cases negative with
    | true => rfl
    | false =>
      obtain ⟨d, ds, rfl, hd⟩ := h.head
      exact takeSign_of_digit hd
  obtain ⟨d, hread, hvalue⟩ := h.readDecimal
  rw [Number.readNumeral, hsign]
  simp only [hread, Option.map_some, Decimal.nearestSize_eq (hvalue ▸ hx) hs]

theorem Decimal.value_of_nonneg {d : Decimal} (h : 0 ≤ d.exponent) :
    d.value = (10 ^ d.exponent.toNat * d.digits : Nat) := by
  obtain ⟨k, hk⟩ := Int.eq_ofNat_of_zero_le h
  rw [value, hk, zpow_natCast, Int.toNat_natCast]
  push_cast
  ring

theorem Decimal.value_of_neg {d : Decimal} (h : ¬ 0 ≤ d.exponent) :
    d.value = d.digits / 10 ^ (-d.exponent).toNat := by
  rw [value, div_eq_mul_inv, ← zpow_natCast, ← zpow_neg]
  congr 2
  omega

/-- Zeros behind the digits. -/
theorem plain_zeros_behind (n k : Nat) :
    Plain (Nat.toDigits 10 n ++ List.replicate k '0') (10 ^ k * n : Nat) := by
  obtain ⟨hne, hdigit⟩ := row_toDigits n
  have hrow : Row (Nat.toDigits 10 n ++ List.replicate k '0') :=
    ⟨by simp [hne], List.forall_mem_append.2 ⟨hdigit, digit_zeros k⟩⟩
  have h := Plain.whole hrow
  rwa [ofDigits_append, ofDigits_zeros, ofDigits_toDigits, List.length_replicate, Nat.add_zero] at h

/-- A point among the digits. -/
theorem plain_point {n k : Nat} (hk : 0 < k) (hlt : k < (Nat.toDigits 10 n).length) :
    Plain ((Nat.toDigits 10 n).take ((Nat.toDigits 10 n).length - k) ++
      '.' :: (Nat.toDigits 10 n).drop ((Nat.toDigits 10 n).length - k)) (n / 10 ^ k) := by
  obtain ⟨hne, hdigit⟩ := row_toDigits n
  generalize hcut : (Nat.toDigits 10 n).length - k = cut
  have hlength : ((Nat.toDigits 10 n).drop cut).length = k := by
    rw [List.length_drop]
    omega
  have hfront : Row ((Nat.toDigits 10 n).take cut) :=
    ⟨by simp [hne]; omega, fun c hc => hdigit c (List.mem_of_mem_take hc)⟩
  have hback : Row ((Nat.toDigits 10 n).drop cut) :=
    ⟨List.length_pos_iff.1 (by omega), fun c hc => hdigit c (List.mem_of_mem_drop hc)⟩
  have h := Plain.fraction hfront hback
  rwa [List.take_append_drop, ofDigits_toDigits, hlength] at h

/-- Zeros before the digits, and a point behind the first of them. -/
theorem plain_zeros_before {n k : Nat} (hle : (Nat.toDigits 10 n).length ≤ k) :
    Plain ('0' :: '.' :: (List.replicate (k - (Nat.toDigits 10 n).length) '0' ++
      Nat.toDigits 10 n)) (n / 10 ^ k) := by
  obtain ⟨hne, hdigit⟩ := row_toDigits n
  generalize hmore : k - (Nat.toDigits 10 n).length = more
  have hlength : (List.replicate more '0' ++ Nat.toDigits 10 n).length = k := by
    rw [List.length_append, List.length_replicate]
    omega
  have hfront : Row (List.replicate 1 '0') := ⟨by simp, digit_zeros 1⟩
  have hback : Row (List.replicate more '0' ++ Nat.toDigits 10 n) :=
    ⟨by simp [hne], List.forall_mem_append.2 ⟨digit_zeros more, hdigit⟩⟩
  have h := Plain.fraction hfront hback
  rwa [hlength, ofDigits_append, ofDigits_append, ofDigits_zeros, ofDigits_zeros, ofDigits_toDigits,
    Nat.mul_zero, Nat.mul_zero, Nat.zero_add, Nat.zero_add] at h

/-- A decimal is written as a plain numeral. -/
theorem Decimal.positional_plain (d : Decimal) : Plain d.positional.toList d.value := by
  simp only [positional, Nat.toList_repr]
  split
  · rename_i hexponent
    rw [value_of_nonneg hexponent]
    simpa [String.toList_append, zeros] using plain_zeros_behind d.digits d.exponent.toNat
  rename_i hexponent
  rw [value_of_neg hexponent]
  split
  · rename_i hshort
    simpa [String.toList_append] using plain_point (by omega) hshort
  · rename_i hlong
    simpa [String.toList_append, zeros] using plain_zeros_before (not_lt.1 hlong)

/-- Whole numbers are found out. -/
theorem whole?_eq_some_iff {m : Nat} {e : Int} {n : Nat} :
    whole? m e = some n ↔ (m * 2 ^ e : ℚ) = n := by
  rw [whole?, pow2_eq, pow2_eq]
  rcases Int.le_total 0 e with he | he
  · obtain ⟨k, rfl⟩ := Int.eq_ofNat_of_zero_le he
    rw [zpow_natCast, show (-(k : Int)).toNat = 0 by omega]
    simp only [Int.toNat_natCast, pow_zero, Nat.mod_one, Nat.div_one, if_true, Option.some.injEq]
    exact_mod_cast Iff.rfl
  · obtain ⟨k, rfl⟩ : ∃ k : Nat, e = -k := ⟨(-e).toNat, by omega⟩
    rw [neg_neg, Int.toNat_natCast, show (-(k : Int)).toNat = 0 by omega, pow_zero, Nat.mul_one,
      zpow_neg, zpow_natCast, ← div_eq_mul_inv, div_eq_iff (by positivity)]
    norm_cast
    constructor
    · intro h
      split at h
      · rename_i hmod
        cases h
        exact (Nat.div_mul_cancel (Nat.dvd_of_mod_eq_zero hmod)).symm
      · cases h
    · rintro rfl
      simp

/-- What is written for a finite double behind its sign. -/
def sizeText (s : Nat) : String :=
  match whole? (mantissa s) (exponent s) with
  | some n => if n < pow2 63 then n.repr else (shortest .up (mantissa s) (exponent s)).positional
  | none => (shortest .up (mantissa s) (exponent s)).positional

theorem valueText_of_finite {bits : UInt64} (h : size bits < infiniteSize) :
    valueText bits = minus (negativeBit bits) ++ sizeText (size bits) := by
  rw [valueText, Exact.ofBits, Exact.ofSize_finite h]
  rfl

/-- It is a plain numeral, and the number that it writes is rounded to the double. -/
theorem sizeText_plain (s : Nat) : ∃ x, Plain (sizeText s).toList x ∧ RoundsTo x s := by
  have hshortest : s ≠ 0 → ∃ x,
      Plain (shortest .up (mantissa s) (exponent s)).positional.toList x ∧ RoundsTo x s :=
    fun hs => ⟨_, Decimal.positional_plain _, shortest_roundsTo .up (Nat.pos_of_ne_zero hs)⟩
  have hzero : s = 0 → whole? (mantissa s) (exponent s) = some 0 := by
    rintro rfl
    rw [whole?_eq_some_iff, ← magnitude, magnitude_zero, Nat.cast_zero]
  rw [sizeText]
  split
  · rename_i n hn
    split
    · have hvalue := whole?_eq_some_iff.1 hn
      rw [← magnitude] at hvalue
      have hplain := Plain.whole (row_toDigits n)
      rw [ofDigits_toDigits, ← hvalue] at hplain
      rw [Nat.toList_repr]
      exact ⟨_, hplain, roundsTo_magnitude s⟩
    · rename_i hlarge
      refine hshortest fun hs => hlarge ?_
      rw [hzero hs, Option.some.injEq] at hn
      rw [← hn, pow2_eq]
      positivity
  · rename_i hnone
    refine hshortest fun hs => ?_
    rw [hzero hs] at hnone
    cases hnone

/-- What is written for a finite double is read as that double. -/
theorem parseText_valueText {bits : UInt64} (h : size bits < infiniteSize) :
    parseText (valueText bits) = some bits := by
  obtain ⟨x, hplain, hx⟩ := sizeText_plain (size bits)
  have hlist : (valueText bits).toList =
      (minus (negativeBit bits)).toList ++ (sizeText (size bits)).toList := by
    rw [valueText_of_finite h, String.toList_append]
  have hread := hplain.readNumeral hx h.le (negativeBit bits)
  rw [ofSize_size, ← hlist] at hread
  rw [parseText_eq, hread]
  · obtain ⟨d, ds, hds, -⟩ := hplain.head
    rw [hlist, hds]
    simp
  · rw [hlist, List.forall_mem_append]
    refine ⟨?_, hplain.chars⟩
    cases negativeBit bits <;> simp [minus, isNumeralChar]

/-- Nothing else that is written is a numeral. -/
theorem parseText_of_not_finite {bits : UInt64} (h : ¬ size bits < infiniteSize) :
    parseText (valueText bits) = none := by
  have hexact : Exact.ofBits bits = .nan ∨ Exact.ofBits bits = .infinite (negativeBit bits) := by
    rw [Exact.ofBits, Exact.ofSize]
    split
    · exact .inl rfl
    · rw [if_pos (by omega)]
      exact .inr rfl
  rw [valueText]
  rcases hexact with h | h <;> rw [h]
  · rfl
  · dsimp only
    cases negativeBit bits <;> rfl

theorem ascii_toNat {c : Char} (h : c.toNat < 128) : Lexeme.ascii (UInt8.ofNat c.toNat) = c := by
  rw [Lexeme.ascii, Text.Utf8.toNat_ofNat_lt (by omega), Char.ofNat_toNat]

theorem Row.bytes {cs : List Char} (h : Row cs) :
    ∃ bytes, bytes.map Lexeme.ascii = cs ∧ Lexeme.Digits bytes := by
  have hmap : (cs.map fun c => UInt8.ofNat c.toNat).map Lexeme.ascii = cs := by
    rw [List.map_map]
    refine (List.map_congr_left fun c hc => ?_).trans (List.map_id cs)
    have := toNat_digit (h.digit c hc)
    exact ascii_toNat (by omega)
  refine ⟨_, hmap, by simp [h.nonempty], ?_⟩
  intro b hb
  exact h.digit (Lexeme.ascii b) (hmap ▸ List.mem_map_of_mem hb)

/-- At the end of a text a plain numeral is a numeral of the program. -/
theorem Plain.numeral {cs : List Char} {x : ℚ} (h : Plain cs x) :
    ∃ bytes, bytes.map Lexeme.ascii = cs ∧ Lexeme.Numeral bytes [] [] := by
  have hend : Lexeme.Parted [] := fun b hb => by cases hb
  have hpower : Lexeme.Perhaps Lexeme.Power [] [] := .inr ⟨rfl, fun _ _ h => hend.not_power h⟩
  cases h with
  | whole h =>
    obtain ⟨digits, hdigits, hne, hall⟩ := h.bytes
    have hfraction : Lexeme.Perhaps Lexeme.Fraction [] ([] ++ []) := by
      refine .inr ⟨rfl, ?_⟩
      rintro form later hsplit ⟨point, decimals, rfl, -⟩
      cases hsplit
    refine ⟨_, ?_, .whole hne ⟨hall, by simp⟩ hfraction hpower⟩
    simpa using hdigits
  | fraction h h' =>
    obtain ⟨digits, hdigits, hne, hall⟩ := h.bytes
    obtain ⟨decimals, hdecimals, hne', hall'⟩ := h'.bytes
    have hpoint : Lexeme.ascii 46 = '.' := rfl
    have hfraction : Lexeme.Perhaps Lexeme.Fraction (46 :: decimals) ([] ++ []) :=
      .inl ⟨46, decimals, rfl, hpoint, ⟨hall', by simp⟩, .inl hne'⟩
    refine ⟨_, ?_, .whole hne (Lexeme.run_point hall hpoint _) hfraction hpower⟩
    simp [hdigits, hdecimals, hpoint]

/-- What is written for a finite double without a sign is one token of a program. -/
theorem scan_valueText {bits : UInt64} (h : size bits < infiniteSize)
    (hsign : negativeBit bits = false) : ∃ place last, scan (valueText bits) =
      [.ok ⟨.number, valueText bits, .number (Float.ofBits bits), place⟩,
        .ok ⟨.eof, "", .nil, last⟩] := by
  obtain ⟨x, hplain, hx⟩ := sizeText_plain (size bits)
  have htext : valueText bits = sizeText (size bits) := by
    rw [valueText_of_finite h, hsign]
    exact String.empty_append
  obtain ⟨bytes, hbytes, hnumeral⟩ := hplain.numeral
  have hread : Number.readNumeral (bytes.map Lexeme.ascii) = some (ofSize false (size bits)) :=
    hbytes ▸ hplain.readNumeral hx h.le false
  rw [← hsign, ofSize_size] at hread
  have hdecode : Text.Utf8.decodeLossy bytes = valueText bits := by
    rw [Text.Utf8.decodeLossy_ascii hnumeral.below, hbytes, String.ofList_toList, htext]
  have hencode : encode (valueText bits) = bytes := by
    rw [← hdecode, (Text.Utf8.whole_ascii hnumeral.below).encode_decodeLossy]
  have hstands := hnumeral.stands hread
  rw [if_neg fun h => h.1 rfl] at hstands
  obtain ⟨b, more, rfl⟩ : ∃ b more, bytes = b :: more := by
    refine List.exists_cons_of_ne_nil ?_
    rintro rfl
    obtain ⟨d, ds, hds, -⟩ := hplain.head
    simp [hds] at hbytes
  have hitems := Scan.items_cons hstands (by simp) (Scan.start (b :: more))
  rw [List.append_nil, Scan.items_nil, Lexeme.Content.items, hdecode] at hitems
  rw [scan, Scanner.start, hencode]
  exact ⟨_, _, hitems⟩

end Number

/-- **Numbers as texts.** The text of a finite double is read as the very same double, `-0` included,
so the built-in functions give a number back from its text and accept the text as a number. Without
a minus the text is a program of one token, a number of that value, and no faults. The text of an
infinity, or of what is not a number, is not read as a number. -/
theorem number_texts (bits : UInt64) :
    (Number.value? bits ≠ none →
      Number.parseText (Number.valueText bits) = some bits ∧
      (∀ site site', (do
          let text ← Builtin.run .toString site [Builtin.ofBits bits]
          Builtin.run .toNumber site' [text]) = pure (Builtin.ofBits bits)) ∧
      (∀ site site', (do
          let text ← Builtin.run .toString site [Builtin.ofBits bits]
          Builtin.run .isNumber site' [text]) = pure (.bool true)) ∧
      (Number.negativeBit bits = false → ∃ place last, scan (Number.valueText bits) =
        [.ok ⟨.number, Number.valueText bits, .number (Float.ofBits bits), place⟩,
          .ok ⟨.eof, "", .nil, last⟩])) ∧
    (Number.value? bits = none → Number.parseText (Number.valueText bits) = none) := by
  have hfinite : Number.value? bits ≠ none ↔ Number.size bits < Number.infiniteSize := by
    rw [Number.value?, Number.Exact.ofBits, Number.Exact.value?_ofSize]
    split <;> simp [*]
  refine ⟨fun h => ?_, fun h => Number.parseText_of_not_finite ((not_congr hfinite).1 (not_not.2 h))⟩
  rw [hfinite] at h
  have hparse := Number.parseText_valueText h
  have hwrite : ∀ site, Builtin.run .toString site [Builtin.ofBits bits] =
      pure (.string (Number.valueText bits)) := by
    intro site
    rw [Builtin.run, Builtin.ofBits, Builtin.numberText, Number.toBits_ofBits h.le]
  refine ⟨hparse, fun site site' => ?_, fun site site' => ?_, Number.scan_valueText h⟩
  · rw [hwrite, pure_bind, Builtin.run, Builtin.parseNumber, hparse]
  · rw [hwrite, pure_bind, Builtin.run, Builtin.readsAsNumber, hparse, Option.isSome_some]

/-- The double nearest to `0.1`. -/
theorem number_texts_tenth : Number.value? 0x3FB999999999999A ≠ none ∧
    Number.parseText (Number.valueText 0x3FB999999999999A) = some 0x3FB999999999999A := by
  have hfinite : Number.value? 0x3FB999999999999A ≠ none := by decide
  exact ⟨hfinite, ((number_texts 0x3FB999999999999A).1 hfinite).1⟩

end Scriptling
