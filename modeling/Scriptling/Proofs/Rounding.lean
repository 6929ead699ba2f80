import Mathlib
import Scriptling.Proofs.Doubles

namespace Scriptling.Number

/-- The quotient is rounded to the nearest whole number, and half way to the even one. -/
theorem roundDiv_near (num : Nat) {den : Nat} (hden : 0 < den) :
    let x : ℚ := num / den
    let q := roundDiv num den
    (q - 1 / 2 < x ∨ q - 1 / 2 = x ∧ q % 2 = 0) ∧ (x < q + 1 / 2 ∨ x = q + 1 / 2 ∧ q % 2 = 0) := by
  have hd : (0 : ℚ) < den := by exact_mod_cast hden
  have hx : (num : ℚ) / den = (num / den : Nat) + (num % den : Nat) / den := by
    have h : (num : ℚ) = den * (num / den : Nat) + (num % den : Nat) := by
      exact_mod_cast (Nat.div_add_mod num den).symm
    field_simp
    linarith
  have hr : (0 : ℚ) ≤ (num % den : Nat) / den := by positivity
  have hr' : ((num % den : Nat) : ℚ) / den < 1 := by
    rw [div_lt_one hd]
    exact_mod_cast Nat.mod_lt num hden
  have hhalf : ∀ {n : Nat}, 2 * n < den ↔ (n : ℚ) / den < 1 / 2 := by
    intro n
    rw [div_lt_div_iff₀ hd (by norm_num), one_mul, mul_comm]
    exact_mod_cast Iff.rfl
  have hhalf' : ∀ {n : Nat}, den < 2 * n ↔ 1 / 2 < (n : ℚ) / den := by
    intro n
    rw [div_lt_div_iff₀ (by norm_num) hd, one_mul, mul_comm (n : ℚ)]
    exact_mod_cast Iff.rfl
  simp only [roundDiv, hhalf, hhalf', hx]
  generalize num / den = q at *
  generalize ((num % den : Nat) : ℚ) / den = r at *
  split
  · exact ⟨.inl (by linarith), .inl (by linarith)⟩
  split
  · push_cast
    exact ⟨.inl (by linarith), .inl (by linarith)⟩
  have hr : r = 1 / 2 := by linarith
  split
  · rename_i heven
    exact ⟨.inl (by linarith), .inr ⟨by linarith, heven⟩⟩
  · push_cast
    exact ⟨.inr ⟨by linarith, by omega⟩, .inl (by linarith)⟩

/-- Numerator and denominator of a power, of which one is one. -/
theorem pow_toNat_div {b : ℚ} (hb : b ≠ 0) (e : Int) : b ^ e.toNat / b ^ (-e).toNat = b ^ e := by
  rw [← zpow_natCast, ← zpow_natCast, ← zpow_sub₀ hb]
  congr 1
  omega

theorem inUnits_pos (num : Nat) {den : Nat} (hden : 0 < den) (e : Int) : 0 < (inUnits num den e).2 := by
  simp only [inUnits, pow2_eq]
  positivity

theorem inUnits_eq (num den : Nat) (e : Int) :
    ((inUnits num den e).1 : ℚ) / (inUnits num den e).2 = num / den / 2 ^ e := by
  have h := pow_toNat_div two_ne_zero (-e)
  rw [neg_neg] at h
  simp only [inUnits, pow2_eq]
  push_cast
  rw [mul_div_mul_comm, h, zpow_neg, ← div_eq_mul_inv]

theorem two_pow_mul_zpow (n : Nat) (e : Int) : (2 : ℚ) ^ n * 2 ^ e = 2 ^ (n + e) := by
  rw [zpow_add₀ two_ne_zero, zpow_natCast]

theorem log2_bounds {n : Nat} (hn : 0 < n) :
    (2 : ℚ) ^ (n.log2 : Int) ≤ n ∧ (n : ℚ) < 2 ^ ((n.log2 : Int) + 1) := by
  constructor
  · rw [zpow_natCast]
    exact_mod_cast Nat.log2_self_le hn.ne'
  · rw [← Nat.cast_succ, zpow_natCast]
    exact_mod_cast Nat.lt_log2_self

/-- How many binary digits a fraction has before its point, but for one. -/
theorem fraction_bounds {num den : Nat} (hnum : 0 < num) (hden : 0 < den) :
    let k : Int := (num.log2 : Int) - den.log2
    (2 : ℚ) ^ (k - 1) < num / den ∧ (num : ℚ) / den < 2 ^ (k + 1) := by
  intro k
  obtain ⟨hn, hn'⟩ := log2_bounds hnum
  obtain ⟨hd, hd'⟩ := log2_bounds hden
  have hden : (0 : ℚ) < den := by exact_mod_cast hden
  constructor
  · rw [lt_div_iff₀ hden]
    calc (2 : ℚ) ^ (k - 1) * den < 2 ^ (k - 1) * 2 ^ ((den.log2 : Int) + 1) := by gcongr
      _ = 2 ^ (num.log2 : Int) := by
        rw [← zpow_add₀ two_ne_zero]
        congr 1
        omega
      _ ≤ num := hn
  · rw [div_lt_iff₀ hden]
    calc (num : ℚ) < 2 ^ ((num.log2 : Int) + 1) := hn'
      _ = 2 ^ (k + 1) * 2 ^ (den.log2 : Int) := by
        rw [← zpow_add₀ two_ne_zero]
        congr 1
        omega
      _ ≤ 2 ^ (k + 1) * den := by gcongr

/-- Fewer than 53 digits before the point. -/
theorem inUnits_lt_iff (num : Nat) {den : Nat} (hden : 0 < den) (e : Int) :
    (inUnits num den e).1 / (inUnits num den e).2 < pow2 52 ↔
      (num : ℚ) / den < 2 ^ 52 * 2 ^ e := by
  have hpos := inUnits_pos num hden e
  rw [Nat.div_lt_iff_lt_mul hpos, pow2_eq, ← Nat.cast_lt (α := ℚ), Nat.cast_mul,
    ← div_lt_iff₀ (by exact_mod_cast hpos), inUnits_eq, div_lt_iff₀ (by positivity)]
  push_cast
  rfl

/-- In its unit a fraction has 53 digits before the point, or fewer if it is the least unit. -/
theorem unitOf_fits {num den : Nat} (hnum : 0 < num) (hden : 0 < den) :
    let x : ℚ := num / den
    let u := unitOf num den
    x < 2 ^ 53 * 2 ^ u ∧ (2 ^ 52 * 2 ^ u ≤ x ∨ u = -1074) ∧ -1074 ≤ u := by
  intro x u
  obtain ⟨hlow, hhigh⟩ := fraction_bounds hnum hden
  simp only [u, unitOf, inUnits_lt_iff num hden]
  generalize hk : (num.log2 : Int) - den.log2 = k at *
  generalize hguess : max (k - 52) (-1074) = guess
  split
  · rename_i hfew
    by_cases hleast : guess = -1074
    · subst hleast
      refine ⟨hfew.trans ?_, .inr (by omega), by omega⟩
      rw [show max ((-1074 : Int) - 1) (-1074) = -1074 by omega]
      gcongr <;> norm_num
    · -- the guess was one too high
      have hu : max (guess - 1) (-1074) = guess - 1 := by omega
      rw [hu]
      refine ⟨hfew.trans_eq ?_, .inl (hlow.le.trans_eq' ?_), by omega⟩
      · rw [two_pow_mul_zpow, two_pow_mul_zpow]
        congr 1
        omega
      · rw [two_pow_mul_zpow]
        congr 1
        omega
  · rename_i hmany
    refine ⟨hhigh.trans_le ?_, .inl (not_lt.1 hmany), by omega⟩
    rw [two_pow_mul_zpow]
    exact zpow_le_zpow_right₀ one_le_two (by omega)

/-- A number of units is rounded to the nearest whole number of them. -/
theorem roundsTo_units {y : ℚ} {u : Int} {r : Nat} (hu : -1074 ≤ u) (hlt : y < 2 ^ 53)
    (hnormal : 2 ^ 52 ≤ y ∨ u = -1074) (habove : r - 1 / 2 < y ∨ r - 1 / 2 = y ∧ r % 2 = 0)
    (hbelow : y < r + 1 / 2 ∨ y = r + 1 / 2 ∧ r % 2 = 0) :
    RoundsTo (y * 2 ^ u) ((u + 1074).toNat * 2 ^ 52 + r) := by
  have hunit : (0 : ℚ) < 2 ^ u := by positivity
  have hr : r ≤ 2 ^ 53 := by
    have h : (r : ℚ) < 2 ^ 53 + 1 := by rcases habove with h | ⟨h, -⟩ <;> linarith
    exact Nat.lt_succ_iff.1 (by exact_mod_cast h)
  have hr' : 2 ^ 52 ≤ r ∨ u = -1074 := by
    refine hnormal.imp_left fun h => ?_
    have h : (2 : ℚ) ^ 52 < r + 1 := by rcases hbelow with h | ⟨h, -⟩ <;> linarith
    exact Nat.lt_succ_iff.1 (by exact_mod_cast h)
  have heven : r % 2 = 0 → ((u + 1074).toNat * 2 ^ 52 + r) % 2 = 0 := by omega
  constructor
  · intro t ht
    by_cases hlast : 2 ^ 52 ≤ r - 1 ∨ u = -1074
    · have hpos : 0 < r := by omega
      have hhalf : halfway t = (r - 1 / 2) * 2 ^ u := by
        rw [show t = (u + 1074).toNat * 2 ^ 52 + (r - 1) by omega, halfway_of hu (by omega) hlast,
          Nat.cast_sub hpos]
        push_cast
        ring
      rw [hhalf]
      exact habove.imp (mul_lt_mul_of_pos_right · hunit) fun ⟨h, hr⟩ => ⟨by rw [h], heven hr⟩
    · -- the first size of its unit, where the neighbour below is nearer
      have hfirst : r = 2 ^ 52 := by omega
      have h := halfway_lt_magnitude t
      rw [← ht, magnitude_of hu hr hr', hfirst] at h
      push_cast at h
      refine .inl (h.trans_le ?_)
      exact mul_le_mul_of_nonneg_right (hnormal.resolve_right (by omega)) hunit.le
  · by_cases htop : r = 2 ^ 53
    · have h := magnitude_lt_halfway ((u + 1074).toNat * 2 ^ 52 + r)
      rw [magnitude_of hu hr hr', htop] at h
      push_cast at h
      rw [htop]
      exact .inl ((mul_lt_mul_of_pos_right hlt hunit).trans h)
    · rw [halfway_of hu (by omega) hr']
      exact hbelow.imp (mul_lt_mul_of_pos_right · hunit) fun ⟨h, hr⟩ => ⟨by rw [h], heven hr⟩

theorem nearestSize_roundsTo (num : Nat) {den : Nat} (hden : 0 < den) :
    ∃ s, RoundsTo (num / den) s ∧ nearestSize num den = min s infiniteSize := by
  rcases Nat.eq_zero_or_pos num with rfl | hnum
  · refine ⟨0, ?_, by simp [nearestSize]⟩
    have h := roundsTo_magnitude 0
    rwa [magnitude_zero, ← zero_div (den : ℚ), ← Nat.cast_zero] at h
  obtain ⟨hlt, hnormal, hu⟩ := unitOf_fits hnum hden
  have hnear := roundDiv_near (inUnits num den (unitOf num den)).1
    (inUnits_pos num hden (unitOf num den))
  simp only [inUnits_eq] at hnear
  simp only [nearestSize, if_neg hnum.ne', pow2_eq]
  generalize unitOf num den = u at *
  have hunit : (0 : ℚ) < 2 ^ u := by positivity
  rw [← div_lt_iff₀ hunit] at hlt
  rw [← le_div_iff₀ hunit] at hnormal
  have h := roundsTo_units hu hlt hnormal hnear.1 hnear.2
  rw [div_mul_cancel₀ _ hunit.ne'] at h
  exact ⟨_, h, rfl⟩

/-- The nearest size is the one that the fraction is rounded to. -/
theorem RoundsTo.nearestSize {num den : Nat} {s : Nat} (hden : 0 < den)
    (h : RoundsTo (num / den) s) (hs : s ≤ infiniteSize) : nearestSize num den = s := by
  obtain ⟨t, ht, heq⟩ := nearestSize_roundsTo num hden
  rw [heq, ht.unique h, min_eq_left hs]

end Scriptling.Number
