import Mathlib
import Scriptling.Number.Shortest
import Scriptling.Proofs.Rounding

namespace Scriptling.Number

def Decimal.value (d : Decimal) : ℚ := d.digits * 10 ^ d.exponent

theorem digitCount_bounds {n : Nat} (hn : 0 < n) :
    0 < digitCount n ∧ 10 ^ (digitCount n - 1) ≤ n ∧ n < 10 ^ digitCount n := by
  have hlength : ∀ k, 0 < k → (digitCount n ≤ k ↔ n < 10 ^ k) := by
    intro k hk
    rw [digitCount, if_neg hn.ne', Nat.length_toDigits_le_iff (by decide) hk]
  have hpos : 0 < digitCount n := by
    rw [digitCount, if_neg hn.ne']
    exact Nat.length_toDigits_pos
  refine ⟨hpos, ?_, (hlength _ hpos).1 le_rfl⟩
  rcases Nat.eq_or_lt_of_le hpos with h | h
  · rw [← h]
    exact hn
  · exact not_lt.1 ((not_congr (hlength (digitCount n - 1) (by omega))).1 (by omega))

/-- A fraction has its first digit just behind the place. -/
theorem place_bounds {num den : Nat} (hnum : 0 < num) (hden : 0 < den) :
    (10 : ℚ) ^ (Decimal.place num den - 1) ≤ num / den ∧
      (num : ℚ) / den < 10 ^ Decimal.place num den := by
  have hd : (0 : ℚ) < den := by exact_mod_cast hden
  rw [Decimal.place]
  split
  · rename_i hle
    obtain ⟨hpos, hlow, hhigh⟩ := digitCount_bounds (Nat.div_pos hle hden)
    generalize digitCount (num / den) = k at *
    constructor
    · rw [show (k : Int) - 1 = ((k - 1 : Nat) : Int) by omega, zpow_natCast, le_div_iff₀ hd]
      exact_mod_cast (Nat.le_div_iff_mul_le hden).1 hlow
    · rw [zpow_natCast, div_lt_iff₀ hd]
      exact_mod_cast (Nat.div_lt_iff_lt_mul hden).1 hhigh
  · rename_i hlt
    obtain ⟨hpos, hlow, hhigh⟩ := digitCount_bounds (Nat.div_pos (by omega : num ≤ den - 1) hnum)
    generalize digitCount ((den - 1) / num) = k at *
    rw [Nat.le_div_iff_mul_le hnum] at hlow
    rw [Nat.div_lt_iff_lt_mul hnum] at hhigh
    constructor
    · rw [show 1 - (k : Int) - 1 = -(k : Int) by ring, zpow_neg, zpow_natCast, le_div_iff₀ hd,
        inv_mul_le_iff₀ (by positivity)]
      exact_mod_cast (by omega : den ≤ 10 ^ k * num)
    · rw [show 1 - (k : Int) = -((k - 1 : Nat) : Int) by omega, zpow_neg, zpow_natCast,
        div_lt_iff₀ hd, lt_inv_mul_iff₀ (by positivity)]
      exact_mod_cast (by omega : 10 ^ (k - 1) * num < den)

/-- Units of both kinds are in proportion to `10 ^ k` and a quarter of `2 ^ e`. -/
theorem Scale.of_ratio (k e : Int) : ∃ r : ℚ, 0 < r ∧
    ((Scale.of k e).decimal : ℚ) = 10 ^ k * r ∧ ((Scale.of k e).binary : ℚ) = 2 ^ e / 4 * r := by
  refine ⟨10 ^ (-k).toNat * 2 ^ (2 - e).toNat, by positivity, ?_, ?_⟩
  · simp only [Scale.of, pow2_eq, pow10_eq]
    push_cast
    rw [← pow_toNat_div (by norm_num : (10 : ℚ) ≠ 0) k]
    field_simp
  · simp only [Scale.of, pow2_eq, pow10_eq]
    push_cast
    have h := pow_toNat_div two_ne_zero (e - 2)
    rw [show -(e - 2) = 2 - e by ring, zpow_sub₀ two_ne_zero, div_eq_iff (by positivity)] at h
    rw [h]
    norm_num
    ring

/-- How far it is half way down from a size, in quarter units: at a power of two the step is half a
unit. -/
def quartersBelow (m : Nat) (e : Int) : Nat := if m = 2 ^ 52 ∧ -1074 < e then 1 else 2

/-- At a power of two the next size below has a smaller unit. -/
theorem exponent_pred (t : Nat) : exponent t =
    if mantissa (t + 1) = 2 ^ 52 ∧ -1074 < exponent (t + 1) then exponent (t + 1) - 1
    else exponent (t + 1) := by
  simp only [exponent, mantissa]
  split_ifs <;> omega

/-- Half way down is as far from the double as was counted in quarter units. -/
theorem halfway_below (t : Nat) : halfway t = magnitude (t + 1) -
    quartersBelow (mantissa (t + 1)) (exponent (t + 1)) * (2 ^ exponent (t + 1) / 4) := by
  have h : halfway t = magnitude (t + 1) - 2 ^ exponent t / 2 := by
    rw [halfway, magnitude_succ]
    ring
  rw [h, exponent_pred, quartersBelow]
  split
  · rw [zpow_sub₀ two_ne_zero]
    ring
  · push_cast
    ring

theorem halfway_above (s : Nat) : halfway s = magnitude s + 2 * (2 ^ exponent s / 4) := by
  rw [halfway, magnitude_succ]
  ring

theorem mantissa_pos {s : Nat} (hs : 0 < s) : 0 < mantissa s := by
  simp only [mantissa]
  split <;> omega

/-- The ends belong to an even mantissa. -/
theorem readsBack_eq_true {m : Nat} {e : Int} {s : Scale} {c : Nat} : readsBack m e s c = true ↔
    if m % 2 = 0 then (4 * m - quartersBelow m e) * s.binary ≤ c * s.decimal ∧
      c * s.decimal ≤ (4 * m + 2) * s.binary
    else (4 * m - quartersBelow m e) * s.binary < c * s.decimal ∧
      c * s.decimal < (4 * m + 2) * s.binary := by
  simp only [readsBack, pow2_eq, quartersBelow]
  split <;> exact decide_eq_true_iff

/-- The ends are rounded to an even size. -/
theorem roundsTo_succ {x : ℚ} {t : Nat} : RoundsTo x (t + 1) ↔
    if (t + 1) % 2 = 0 then halfway t ≤ x ∧ x ≤ halfway (t + 1)
    else halfway t < x ∧ x < halfway (t + 1) := by
  constructor
  · intro h
    have habove := h.above t rfl
    have hbelow := h.below
    split <;> simp_all [le_iff_lt_or_eq]
  · intro h
    split at h
    · rename_i heven
      refine ⟨fun t' ht' => ?_, h.2.lt_or_eq.imp_right fun h => ⟨h, heven⟩⟩
      cases ht'
      exact h.1.lt_or_eq.imp_right fun h => ⟨h, heven⟩
    · refine ⟨fun t' ht' => ?_, .inl h.2⟩
      cases ht'
      exact .inl h.1

/-- The decimals that are said to read back are those that are rounded to the double. -/
theorem readsBack_iff (t : Nat) (k : Int) (c : Nat) :
    readsBack (mantissa (t + 1)) (exponent (t + 1)) (Scale.of k (exponent (t + 1))) c = true ↔
      RoundsTo (c * 10 ^ k) (t + 1) := by
  obtain ⟨r, hr, hdecimal, hbinary⟩ := Scale.of_ratio k (exponent (t + 1))
  have hm : 0 < mantissa (t + 1) := mantissa_pos t.succ_pos
  have hbelow : quartersBelow (mantissa (t + 1)) (exponent (t + 1)) ≤ 4 * mantissa (t + 1) := by
    rw [quartersBelow]
    split <;> omega
  -- both ends and the decimal, in the units that the decimal is tested in
  have hlow : (((4 * mantissa (t + 1) - quartersBelow (mantissa (t + 1)) (exponent (t + 1))) *
      (Scale.of k (exponent (t + 1))).binary : Nat) : ℚ) = halfway t * r := by
    rw [halfway_below, magnitude, Nat.cast_mul, Nat.cast_sub hbelow, hbinary]
    push_cast
    ring
  have hhigh : (((4 * mantissa (t + 1) + 2) * (Scale.of k (exponent (t + 1))).binary : Nat) : ℚ) =
      halfway (t + 1) * r := by
    rw [halfway_above, magnitude, Nat.cast_mul, hbinary]
    push_cast
    ring
  have hpoint : ((c * (Scale.of k (exponent (t + 1))).decimal : Nat) : ℚ) = c * 10 ^ k * r := by
    rw [Nat.cast_mul, hdecimal]
    ring
  rw [readsBack_eq_true, roundsTo_succ, mantissa_mod_two]
  simp only [← Nat.cast_le (α := ℚ), ← Nat.cast_lt (α := ℚ), hlow, hhigh, hpoint,
    mul_le_mul_iff_left₀ hr, mul_lt_mul_iff_left₀ hr]

/-- What is taken from a grid is rounded to the double. -/
theorem onGrid?_roundsTo {tie : Tie} {t : Nat} {k : Int} {d : Decimal}
    (h : onGrid? tie (mantissa (t + 1)) (exponent (t + 1)) k = some d) :
    RoundsTo d.value (t + 1) := by
  simp only [onGrid?] at h
  split at h
  case h_1 hbelow habove =>
    cases h
    dsimp only [Decimal.value]
    split
    · exact (readsBack_iff t k _).1 habove
    · exact (readsBack_iff t k _).1 hbelow
  case h_2 hbelow _ =>
    cases h
    exact (readsBack_iff t k _).1 hbelow
  case h_3 _ habove =>
    cases h
    exact (readsBack_iff t k _).1 habove
  case h_4 => cases h

/-- A double between its neighbours on a grid. -/
theorem grid_neighbours (s : Nat) (k : Int) :
    let c := 4 * mantissa s * (Scale.of k (exponent s)).binary / (Scale.of k (exponent s)).decimal
    c * (10 : ℚ) ^ k ≤ magnitude s ∧ magnitude s < (c + 1 : Nat) * (10 : ℚ) ^ k := by
  obtain ⟨r, hr, hdecimal, hbinary⟩ := Scale.of_ratio k (exponent s)
  have hnum : ((4 * mantissa s * (Scale.of k (exponent s)).binary : Nat) : ℚ) = magnitude s * r := by
    rw [magnitude, Nat.cast_mul, hbinary]
    push_cast
    ring
  generalize 4 * mantissa s * (Scale.of k (exponent s)).binary = num at *
  generalize (Scale.of k (exponent s)).decimal = den at *
  have hden : 0 < den := by
    have : (0 : ℚ) < den := by
      rw [hdecimal]
      positivity
    exact_mod_cast this
  constructor
  · have h : ((num / den * den : Nat) : ℚ) ≤ num := by exact_mod_cast Nat.div_mul_le_self num den
    rw [hnum, Nat.cast_mul, hdecimal, ← mul_assoc] at h
    exact le_of_mul_le_mul_right h hr
  · have h : (num : ℚ) < ((num / den + 1) * den : Nat) := by
      exact_mod_cast Nat.lt_mul_of_div_lt (Nat.lt_succ_self _) hden
    rw [hnum, Nat.cast_mul, hdecimal, ← mul_assoc] at h
    exact lt_of_mul_lt_mul_right h hr.le

/-- Where the step of a grid is smaller than the stretch that is rounded to the double, one of its
neighbours is: the lower one or, if that lies too low, the upper one. -/
theorem neighbour_roundsTo {t c : Nat} {step : ℚ} (hstep : step < halfway (t + 1) - halfway t)
    (hlow : c * step ≤ magnitude (t + 1)) (hhigh : magnitude (t + 1) < (c + 1 : Nat) * step) :
    RoundsTo (c * step) (t + 1) ∨ RoundsTo ((c + 1 : Nat) * step) (t + 1) := by
  have hbelow := halfway_lt_magnitude t
  have habove := magnitude_lt_halfway (t + 1)
  rcases lt_or_ge (halfway t) (c * step) with h | h
  · refine .inl ⟨fun t' ht' => ?_, .inl (hlow.trans_lt habove)⟩
    cases ht'
    exact .inl h
  · refine .inr ⟨fun t' ht' => ?_, .inl ?_⟩
    · cases ht'
      exact .inl (hbelow.trans hhigh)
    · push_cast
      linarith

/-- On a grid finer than the stretch that reads back, a decimal is found. -/
theorem onGrid?_isSome (tie : Tie) {t : Nat} {k : Int}
    (hstep : (10 : ℚ) ^ k < halfway (t + 1) - halfway t) :
    (onGrid? tie (mantissa (t + 1)) (exponent (t + 1)) k).isSome = true := by
  obtain ⟨hlow, hhigh⟩ := grid_neighbours (t + 1) k
  have hone := neighbour_roundsTo hstep hlow hhigh
  rw [← readsBack_iff, ← readsBack_iff] at hone
  simp only [onGrid?]
  split
  case h_4 hbelow habove =>
    rw [hbelow, habove] at hone
    simp at hone
  all_goals rfl

/-- The stretch that is rounded to a double is wider than a unit of its seventeenth digit. -/
theorem step_lt_stretch {t : Nat} {k : Int} (h : (10 : ℚ) ^ (k + 16) ≤ magnitude (t + 1)) :
    (10 : ℚ) ^ k < halfway (t + 1) - halfway t := by
  have hunit : (0 : ℚ) < 2 ^ exponent (t + 1) := by positivity
  have hstretch : halfway (t + 1) - halfway t =
      (2 + quartersBelow (mantissa (t + 1)) (exponent (t + 1))) * (2 ^ exponent (t + 1) / 4) := by
    rw [halfway_above, halfway_below]
    ring
  rw [zpow_add₀ (by norm_num), magnitude] at h
  rw [hstretch, quartersBelow]
  split
  · rename_i hpower
    rw [hpower.1] at h
    norm_num at h ⊢
    linarith
  · have hm : (mantissa (t + 1) : ℚ) < 2 ^ 53 := by exact_mod_cast mantissa_lt (t + 1)
    have := mul_lt_mul_of_pos_right hm hunit
    norm_num at h this ⊢
    linarith

theorem Decimal.trimZeros_value : ∀ (fuel : Nat) (d : Decimal), (trimZeros fuel d).value = d.value
  | 0, _ => rfl
  | fuel + 1, d => by
    rw [trimZeros]
    split
    · rename_i h
      have hdigits : (d.digits : ℚ) = 10 * (d.digits / 10 : Nat) := by
        exact_mod_cast (by omega : d.digits = 10 * (d.digits / 10))
      rw [trimZeros_value fuel, value, value, hdigits, zpow_add₀ (by norm_num)]
      ring
    · rfl

/-- The shortest decimal is rounded to the double that it is written for. -/
theorem shortest_roundsTo (tie : Tie) {s : Nat} (hs : 0 < s) :
    RoundsTo (shortest tie (mantissa s) (exponent s)).value s := by
  obtain ⟨t, rfl⟩ : ∃ t, s = t + 1 := ⟨s - 1, by omega⟩
  have hnum : 0 < mantissa (t + 1) * pow2 (exponent (t + 1)).toNat := by
    rw [pow2_eq]
    exact Nat.mul_pos (mantissa_pos hs) (by positivity)
  have hden : 0 < pow2 (-exponent (t + 1)).toNat := by
    rw [pow2_eq]
    positivity
  have hplace := (place_bounds hnum hden).1
  have hvalue : ((mantissa (t + 1) * pow2 (exponent (t + 1)).toNat : Nat) : ℚ) /
      (pow2 (-exponent (t + 1)).toNat : Nat) = magnitude (t + 1) := by
    have h := pow_toNat_div two_ne_zero (exponent (t + 1))
    simp only [pow2_eq]
    push_cast
    rw [mul_div_assoc, h, magnitude]
  rw [hvalue] at hplace
  rw [shortest, Decimal.trimZeros_value]
  generalize Decimal.place _ _ = place at *
  cases hfound : (List.range 17).findSome? fun (i : Nat) =>
      onGrid? tie (mantissa (t + 1)) (exponent (t + 1)) (place - 1 - (i : Int)) with
  | some d =>
    obtain ⟨i, -, hi⟩ := List.exists_of_findSome?_eq_some hfound
    exact onGrid?_roundsTo hi
  | none =>
    have hlast := List.findSome?_eq_none_iff.1 hfound 16 (by simp)
    have hstep : (10 : ℚ) ^ (place - 1 - ((16 : Nat) : Int)) < halfway (t + 1) - halfway t :=
      step_lt_stretch (by simpa using hplace)
    have h := onGrid?_isSome tie hstep
    rw [hlast] at h
    cases h

end Scriptling.Number
