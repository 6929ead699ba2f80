import Mathlib
import Scriptling.Token.Text
import Scriptling.Tree.Printer
import Scriptling.Proofs.NumberTexts

namespace Scriptling

namespace Number

/-- The texts of a whole number. Beside its token zero has no sign. -/
theorem texts_of_whole {bits : UInt64} {n : Nat} (h : size bits < infiniteSize)
    (hn : magnitude (size bits) = n) :
    treeText bits = minus (negativeBit bits) ++ (n.repr ++ ".0") ∧
      (n < 2 ^ 63 → valueText bits = minus (negativeBit bits) ++ n.repr ∧
        tokenText bits = minus (negativeBit bits && decide (n ≠ 0)) ++ n.repr ++ ".0") := by
  have hwhole : whole? (mantissa (size bits)) (exponent (size bits)) = some n :=
    whole?_eq_some_iff.2 hn
  rw [treeText, valueText_of_finite h, sizeText, tokenText, Exact.ofBits, Exact.ofSize_finite h]
  simp only [hwhole, pow2_eq]
  refine ⟨trivial, fun hsmall => ?_⟩
  rw [if_pos hsmall, if_pos hsmall]
  exact ⟨rfl, rfl⟩

/-- All other numbers have one text. -/
theorem texts_of_not_whole {bits : UInt64} (h : size bits < infiniteSize)
    (hnot : ∀ n : Nat, magnitude (size bits) ≠ n) :
    treeText bits = valueText bits ∧ tokenText bits = valueText bits := by
  have hwhole : whole? (mantissa (size bits)) (exponent (size bits)) = none :=
    Option.eq_none_iff_forall_ne_some.2 fun n hn => hnot n (whole?_eq_some_iff.1 hn)
  rw [treeText, valueText_of_finite h, sizeText, tokenText, Exact.ofBits, Exact.ofSize_finite h]
  simp only [hwhole, and_self]

/-- A whole number and its size. -/
theorem magnitude_of_whole {negative : Bool} {s : Nat} {n : Int}
    (h : signed negative (magnitude s) = n) : magnitude s = n.natAbs := by
  rw [← abs_of_nonneg (magnitude_nonneg s), ← abs_signed negative, h, Nat.cast_natAbs, Int.cast_abs]

theorem magnitude_pos_of_negative {bits : UInt64} (h : bits ≠ ofSize true 0)
    (hsign : negativeBit bits = true) : 0 < magnitude (size bits) := by
  rw [← magnitude_zero]
  refine magnitude_strictMono (Nat.pos_of_ne_zero fun hzero => h ?_)
  rw [← ofSize_size bits, hsign, hzero]

/-- The digits of a whole number with its sign, which zero may have too. -/
theorem minus_repr {bits : UInt64} {n : Int}
    (h : signed (negativeBit bits) (magnitude (size bits)) = n) :
    minus (negativeBit bits) ++ n.natAbs.repr =
      if bits = ofSize true 0 then "-0" else n.repr := by
  split
  · rename_i hzero
    have hn := magnitude_of_whole h
    rw [hzero, size_ofSize (by decide), magnitude_zero] at hn
    rw [hzero, negativeBit_ofSize (by decide), show n.natAbs = 0 by exact_mod_cast hn.symm]
    rfl
  · rename_i hne
    cases hsign : negativeBit bits with
    | true =>
      have hpos := magnitude_pos_of_negative hne hsign
      rw [hsign] at h
      have hneg : n < 0 := by
        have h : -magnitude (size bits) = n := h
        exact_mod_cast (by linarith : (n : ℚ) < 0)
      obtain ⟨k, rfl⟩ := Int.eq_negSucc_of_lt_zero hneg
      rfl
    | false =>
      rw [hsign] at h
      have hnonneg : 0 ≤ n := by
        have h : magnitude (size bits) = n := h
        exact_mod_cast h ▸ magnitude_nonneg _
      obtain ⟨k, rfl⟩ := Int.eq_ofNat_of_zero_le hnonneg
      exact String.empty_append

/-- Whole numbers end in `.0`, as tokens and in trees. -/
theorem whole_texts {bits : UInt64} {n : Int} (hs : size bits < infiniteSize)
    (hn : signed (negativeBit bits) (magnitude (size bits)) = n) (hsmall : n.natAbs < 2 ^ 63)
    (hne : bits ≠ ofSize true 0) :
    tokenText bits = valueText bits ++ ".0" ∧ treeText bits = valueText bits ++ ".0" := by
  have hvalue := magnitude_of_whole hn
  obtain ⟨htree, htexts⟩ := texts_of_whole hs hvalue
  obtain ⟨hvalueText, htoken⟩ := htexts hsmall
  have hsign : (negativeBit bits && decide (n.natAbs ≠ 0)) = negativeBit bits := by
    cases hsign : negativeBit bits with
    | false => rfl
    | true =>
      have hpos := magnitude_pos_of_negative hne hsign
      rw [hvalue] at hpos
      simpa using hpos
  rw [htoken, hsign, htree, hvalueText, String.append_assoc]
  exact ⟨rfl, rfl⟩

/-- No other number does. -/
theorem fraction_texts {bits : UInt64} (hs : size bits < infiniteSize)
    (hnot : ¬ ∃ n : Int, signed (negativeBit bits) (magnitude (size bits)) = n) :
    tokenText bits = valueText bits ∧ treeText bits = valueText bits := by
  refine (texts_of_not_whole hs fun n hn => hnot ?_).symm
  refine ⟨if negativeBit bits then -n else n, ?_⟩
  rw [hn, signed]
  split <;> push_cast <;> rfl

end Number

/-- **Three printers of numbers.** Below `2 ^ 63`, and but for `-0`, the text of a whole number beside
its token and in a printed tree is the text of the value and `.0`, and the text of any other number
is the text of the value. In a printed tree a whole number of any size is written out digit by digit
with `.0` behind it, its sign included, which `-0` keeps. -/
theorem number_printers (c : Float) (x : ℚ) (h : Number.value? c.toBits = some x) :
    (c.toBits ≠ Number.ofSize true 0 → |x| < 2 ^ 63 →
      ((∃ n : Int, x = n) →
        (∀ kind lexeme place, Token.display ⟨kind, lexeme, .number c, place⟩ =
          kind.name ++ " " ++ lexeme ++ " " ++ (Number.valueText c.toBits ++ ".0")) ∧
        Expr.print (.literal (.number c)) = Number.valueText c.toBits ++ ".0") ∧
      ((¬ ∃ n : Int, x = n) →
        (∀ kind lexeme place, Token.display ⟨kind, lexeme, .number c, place⟩ =
          kind.name ++ " " ++ lexeme ++ " " ++ Number.valueText c.toBits) ∧
        Expr.print (.literal (.number c)) = Number.valueText c.toBits)) ∧
    ∀ n : Int, x = n → Expr.print (.literal (.number c)) =
      (if c.toBits = Number.ofSize true 0 then "-0" else n.repr) ++ ".0" := by
  obtain ⟨hs, rfl⟩ := Number.value?_eq_some_iff.1 h
  have hdisplay : ∀ kind lexeme place, Token.display ⟨kind, lexeme, .number c, place⟩ =
      kind.name ++ " " ++ lexeme ++ " " ++ Number.tokenText c.toBits := fun _ _ _ => rfl
  have hprint : Expr.print (.literal (.number c)) = Number.treeText c.toBits := by
    rw [Expr.print, Literal.treeText]
  simp only [hdisplay, hprint]
  refine ⟨fun hne hsmall => ⟨?_, fun hnot => ?_⟩, fun n hn => ?_⟩
  · rintro ⟨n, hn⟩
    rw [hn, ← Int.cast_abs, ← Nat.cast_natAbs] at hsmall
    obtain ⟨htoken, htree⟩ := Number.whole_texts hs hn (by exact_mod_cast hsmall) hne
    exact ⟨fun _ _ _ => by rw [htoken], htree⟩
  · obtain ⟨htoken, htree⟩ := Number.fraction_texts hs hnot
    exact ⟨fun _ _ _ => by rw [htoken], htree⟩
  · have htree := (Number.texts_of_whole hs (Number.magnitude_of_whole hn)).1
    rw [htree, ← Number.minus_repr hn, String.append_assoc]

/-- The double `2.5`. -/
theorem number_printers_fraction :
    Number.value? (Float.ofBits 0x4004000000000000).toBits = some (5 / 2) ∧
      Expr.print (.literal (.number (Float.ofBits 0x4004000000000000))) =
        Number.valueText (Float.ofBits 0x4004000000000000).toBits := by
  have hbits : (Float.ofBits 0x4004000000000000).toBits = 0x4004000000000000 :=
    Number.toBits_ofBits (by decide)
  have hvalue : Number.value? (Float.ofBits 0x4004000000000000).toBits = some (5 / 2) := by
    rw [hbits, Number.value?_of_finite false 5629499534213120 (-51) (by decide)]
    norm_num [Number.signed]
  refine ⟨hvalue, (((number_printers _ _ hvalue).1 ?_ ?_).2 ?_).2⟩
  · rw [hbits]
    decide
  · norm_num
  · rintro ⟨n, hn⟩
    have h : (5 : ℚ) = (2 * n : Int) := by
      push_cast
      linarith
    have h : (5 : Int) = 2 * n := by exact_mod_cast h
    omega

end Scriptling
