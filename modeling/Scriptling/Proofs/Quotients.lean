import Mathlib
import Scriptling.Operator
import Scriptling.Proofs.Rounding

namespace Scriptling

namespace Number

def towardZero (x : ℚ) : Int := if 0 ≤ x then ⌊x⌋ else ⌈x⌉

theorem towardZero_signed {x : ℚ} (hx : 0 ≤ x) (negative : Bool) :
    towardZero (signed negative x) = withSign negative ⌊x⌋₊ := by
  have hfloor : (⌊x⌋₊ : Int) = ⌊x⌋ := Int.natCast_floor_eq_floor hx
  cases negative with
  | false => simp [signed, withSign, towardZero, hx, hfloor]
  | true =>
    simp only [signed, withSign, towardZero, if_true, hfloor, Int.ceil_neg]
    split
    · have hzero : x = 0 := by linarith
      simp [hzero]
    · rfl

theorem floorAbs_eq (m : Nat) (e : Int) : floorAbs m e = ⌊(m * 2 ^ e : ℚ)⌋₊ := by
  rw [floorAbs, ← pow_toNat_div two_ne_zero, ← mul_div_assoc, ← Nat.floor_div_eq_div (K := ℚ)]
  simp

theorem truncate64_eq {bits : UInt64} {x : ℚ} (h : value? bits = some x) :
    truncate64 bits = clamp64 (towardZero x) := by
  obtain ⟨hs, rfl⟩ := value?_eq_some_iff.1 h
  rw [towardZero_signed (magnitude_nonneg _), magnitude, ← floorAbs_eq, truncate64, Exact.ofBits,
    Exact.ofSize_finite hs]

theorem natAbs_towardZero (x : ℚ) : (towardZero x).natAbs = ⌊|x|⌋₊ := by
  have h := towardZero_signed (abs_nonneg x) (decide (x < 0))
  have hx : signed (decide (x < 0)) |x| = x := by
    by_cases hx : x < 0
    · simp [signed, hx, abs_of_neg hx]
    · simp [signed, hx, abs_of_nonneg (not_lt.1 hx)]
  rw [hx] at h
  rw [h, withSign]
  split <;> simp

/-- The size of a power of two. -/
theorem magnitude_pow (k : Nat) : magnitude ((k + 1023) * 2 ^ 52) = 2 ^ k := by
  have h := magnitude_of (u := (k : Int) - 52) (m := 2 ^ 52) (by omega) (by norm_num) (.inl le_rfl)
  rw [show ((k : Int) - 52 + 1074).toNat * 2 ^ 52 + 2 ^ 52 = (k + 1023) * 2 ^ 52 by omega] at h
  rw [h, zpow_sub₀ two_ne_zero, zpow_natCast]
  push_cast
  field_simp

/-- A whole number below the largest power of two becomes the double nearest to it. -/
theorem nearest_ofInt {n : Int} (h : n.natAbs ≤ 2 ^ 1023) : Nearest n (ofInt n) := by
  obtain ⟨s, hs, hsize⟩ := nearestSize_roundsTo n.natAbs Nat.one_pos
  rw [Nat.cast_one, div_one] at hs
  have hle : s ≤ (1023 + 1023) * 2 ^ 52 := by
    refine hs.le (roundsTo_magnitude _) ?_
    rw [magnitude_pow]
    exact_mod_cast h
  have hfinite : s < infiniteSize := by
    rw [infiniteSize_eq]
    omega
  have hn : (n : ℚ) = signed (decide (n < 0)) n.natAbs := by
    rw [Nat.cast_natAbs, signed]
    split
    · rename_i hneg
      rw [abs_of_neg (by simpa using hneg)]
      push_cast
      ring
    · rename_i hneg
      rw [abs_of_nonneg (by simpa using hneg)]
  rw [ofInt, Number.nearest, hsize, min_eq_left hfinite.le]
  nth_rewrite 1 [hn]
  exact hs.nearest (Nat.cast_nonneg _) hfinite _

/-- Whole or not, a double that is less than `2 ^ 63` is less by more than one. -/
theorem natAbs_towardZero_lt {bits : UInt64} {x : ℚ} (h : value? bits = some x)
    (hx : |x| < 2 ^ 63) : (towardZero x).natAbs < 2 ^ 63 - 1 := by
  obtain ⟨-, rfl⟩ := value?_eq_some_iff.1 h
  rw [abs_signed, abs_of_nonneg (magnitude_nonneg _), ← magnitude_pow,
    magnitude_strictMono.lt_iff_lt] at hx
  have hlast : magnitude ((63 + 1023) * 2 ^ 52 - 1) = ((2 ^ 53 - 1) * 2 ^ 10 : Nat) := by
    have h := magnitude_of (u := 10) (m := 2 ^ 53 - 1) (by omega) (by omega) (.inl (by omega))
    exact_mod_cast h
  have hle := magnitude_strictMono.monotone (Nat.le_pred_of_lt hx)
  rw [Nat.pred_eq_sub_one, hlast] at hle
  rw [natAbs_towardZero, abs_signed, abs_of_nonneg (magnitude_nonneg _),
    Nat.floor_lt (magnitude_nonneg _)]
  exact hle.trans_lt (by norm_num)

theorem clamp64_eq_zero_iff {n : Int} : clamp64 n = 0 ↔ n = 0 := by
  simp only [clamp64, least64, greatest64, pow2_eq]
  omega

theorem natAbs_clamp64_le (n : Int) : (clamp64 n).natAbs ≤ 2 ^ 63 := by
  simp only [clamp64, least64, greatest64, pow2_eq]
  omega

theorem natAbs_tdiv_le (a b : Int) : (a.tdiv b).natAbs ≤ a.natAbs :=
  (Int.natAbs_tdiv a b).trans_le (Nat.div_le_self _ _)

/-- Of 64-bit integers one quotient is out of range. -/
theorem quotient64_eq (n b : Int) : quotient64 (clamp64 n) b =
    if clamp64 n = -2 ^ 63 ∧ b = -1 then -2 ^ 63 else (clamp64 n).tdiv b := by
  have hn := natAbs_clamp64_le n
  have hquotient : ((clamp64 n).tdiv b).natAbs = (clamp64 n).natAbs / b.natAbs :=
    Int.natAbs_tdiv _ _
  have hle := natAbs_tdiv_le (clamp64 n) b
  have hrange : -2 ^ 63 ≤ clamp64 n ∧ clamp64 n ≤ 2 ^ 63 - 1 := by
    simp only [clamp64, least64, greatest64, pow2_eq]
    omega
  simp only [quotient64, least64, greatest64, pow2_eq]
  generalize clamp64 n = a at *
  by_cases hwrap : a = -2 ^ 63 ∧ b = -1
  · rw [if_pos hwrap, hwrap.1, hwrap.2]
    rfl
  rw [if_neg hwrap, if_neg]
  intro hlt
  -- only the least dividend has a quotient as large, and only by one or minus one
  have ha : a = -2 ^ 63 := by omega
  subst ha
  have hb : b.natAbs ≤ 1 := by
    by_contra hb
    have := Nat.div_le_div_left (c := 2) (by omega : 2 ≤ b.natAbs) (by norm_num)
      (a := (-2 ^ 63 : Int).natAbs)
    omega
  obtain rfl | rfl : b = 0 ∨ b = 1 := by omega
  · simp at hlt
  · simp at hlt

/-- A divisor beyond 64 bits gives no other quotient than the last one before them. -/
theorem quotient64_clamp64 {p q : Int} (hp : p.natAbs < 2 ^ 63 - 1) :
    quotient64 (clamp64 p) (clamp64 q) = p.tdiv q := by
  have hclamp : clamp64 p = p := by
    simp only [clamp64, least64, greatest64, pow2_eq]
    omega
  rw [quotient64_eq, hclamp, if_neg (by omega)]
  by_cases hq : clamp64 q = q
  · rw [hq]
  · have hzero : ∀ r : Int, p.natAbs < r.natAbs → p.tdiv r = 0 := by
      intro r hr
      exact Int.natAbs_eq_zero.1 ((Int.natAbs_tdiv p r).trans (Nat.div_eq_of_lt hr))
    simp only [clamp64, least64, greatest64, pow2_eq] at hq ⊢
    rw [hzero _ (by omega), hzero _ (by omega)]

end Number

open Number

/-- **Whole quotients.** Dividing without fractions fails exactly when the divisor is zero without
its fraction. Otherwise the result is the double nearest to a quotient toward zero: that of both
numbers without their fractions, each held to the 64-bit integers, and the one that is no such
integer turned into the least of them. Of a dividend below `2 ^ 63` it is nearest to the exact
quotient, whatever the divisor. -/
theorem whole_quotients (lexeme : String) {a b : Float} {x y : ℚ} (ha : value? a.toBits = some x)
    (hb : value? b.toBits = some y) :
    let p := clamp64 (towardZero x)
    let q := clamp64 (towardZero y)
    let result := Operator.apply .slashSlash lexeme (.number a) (.number b)
    (towardZero y = 0 ↔
      ∃ fault, result = .error fault ∧ fault.message = "Division by zero error.") ∧
    (towardZero y ≠ 0 → ∃ c, result = .ok (.number c) ∧
      Nearest (if p = -2 ^ 63 ∧ q = -1 then -2 ^ 63 else p.tdiv q : Int) c.toBits ∧
      (|x| < 2 ^ 63 → Nearest ((towardZero x).tdiv (towardZero y)) c.toBits)) := by
  intro p q result
  have hresult : result = Operator.quotient a b := rfl
  by_cases hy : towardZero y = 0
  · have hfails : result = .error .divisionByZero := by
      rw [hresult, Operator.quotient, quotient?, truncate64_eq hb, if_pos (clamp64_eq_zero_iff.2 hy)]
    exact ⟨⟨fun _ => ⟨_, hfails, rfl⟩, fun _ => hy⟩, fun h => absurd hy h⟩
  have hsucceeds : result = .ok (.number (Float.ofBits (ofInt (quotient64 p q)))) := by
    rw [hresult, Operator.quotient, quotient?, truncate64_eq hb,
      if_neg (mt clamp64_eq_zero_iff.1 hy), truncate64_eq ha]
  have hnearest : Nearest (quotient64 p q) (ofInt (quotient64 p q)) := by
    refine nearest_ofInt ?_
    have h := quotient64_eq (towardZero x) q
    have := (natAbs_tdiv_le p q).trans (natAbs_clamp64_le _)
    split at h <;> (simp only [p, h] at *; omega)
  obtain ⟨v, hv, -⟩ := id hnearest
  have hbits := toBits_ofBits (value?_eq_some_iff.1 hv).1.le
  refine ⟨⟨fun h => absurd h hy, ?_⟩, fun _ => ⟨_, hsucceeds, ?_, fun hx => ?_⟩⟩
  · rintro ⟨fault, hfails, -⟩
    rw [hsucceeds] at hfails
    cases hfails
  · rwa [hbits, ← quotient64_eq]
  · rwa [hbits, ← quotient64_clamp64 (natAbs_towardZero_lt ha hx)]

/-- Seven and a half with a minus, by two and a quarter: minus seven by two, which is minus three. -/
theorem whole_quotients_negative :
    value? (Float.ofBits 0xC01E000000000000).toBits = some (-15 / 2) ∧
    value? (Float.ofBits 0x4002000000000000).toBits = some (9 / 4) ∧
    ∃ c, Operator.apply .slashSlash "//" (.number (Float.ofBits 0xC01E000000000000))
        (.number (Float.ofBits 0x4002000000000000)) = .ok (.number c) ∧
      Nearest (-3) c.toBits := by
  have ha : value? (Float.ofBits 0xC01E000000000000).toBits = some (-15 / 2) := by
    rw [toBits_ofBits (by decide), value?_of_finite true (15 * 2 ^ 49) (-50) (by decide +kernel)]
    norm_num [signed]
  have hb : value? (Float.ofBits 0x4002000000000000).toBits = some (9 / 4) := by
    rw [toBits_ofBits (by decide), value?_of_finite false (9 * 2 ^ 49) (-51) (by decide +kernel)]
    norm_num [signed]
  refine ⟨ha, hb, ?_⟩
  obtain ⟨c, hc, -, hnearest⟩ :=
    (whole_quotients "//" ha hb).2 (by norm_num [towardZero])
  have h := hnearest (by norm_num [abs_of_neg])
  norm_num [towardZero] at h
  exact ⟨c, hc, h⟩

/-- The pattern of `10 ^ 19`. -/
def tenTo19 : UInt64 := 0x43E158E460913D00

/-- Divided by one, `10 ^ 19` is no longer itself. -/
theorem tenTo19_not_kept :
    value? (Float.ofBits tenTo19).toBits = some (10 ^ 19) ∧
    value? (Float.ofBits 0x3FF0000000000000).toBits = some 1 ∧
    ∃ c, Operator.apply .slashSlash "//" (.number (Float.ofBits tenTo19))
        (.number (Float.ofBits 0x3FF0000000000000)) = .ok (.number c) ∧
      ¬ Nearest ((towardZero (10 ^ 19)).tdiv (towardZero 1)) c.toBits := by
  have hten : value? tenTo19 = some (10 ^ 19) := by
    rw [value?_of_finite false (5 ^ 19 * 2 ^ 8) 11 (by decide +kernel)]
    norm_num [signed]
  have hone : value? 0x3FF0000000000000 = some 1 := by
    rw [value?_of_finite false (2 ^ 52) (-52) (by decide +kernel)]
    norm_num [signed]
  have hlimit : value? 0x43E0000000000000 = some (2 ^ 63) := by
    rw [value?_of_finite false (2 ^ 52) 11 (by decide +kernel)]
    norm_num [signed]
  have hquotient : quotient? tenTo19 0x3FF0000000000000 = some 0x43E0000000000000 := by
    decide +kernel
  rw [toBits_ofBits (by decide), toBits_ofBits (by decide)]
  refine ⟨hten, hone, Float.ofBits 0x43E0000000000000, ?_, ?_⟩
  · simp only [Operator.apply, Operator.numbers, Operator.quotient]
    rw [toBits_ofBits (by decide), toBits_ofBits (by decide), hquotient]
  · rw [toBits_ofBits (by decide)]
    rintro ⟨v, hv, h⟩
    rw [hlimit] at hv
    cases hv
    -- the dividend itself is nearer
    have h := h tenTo19 _ hten
    norm_num [towardZero] at h

end Scriptling
