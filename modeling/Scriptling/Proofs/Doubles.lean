import Mathlib
import Scriptling.Number.Binary

namespace Scriptling.Number

@[simp] theorem pow2_eq (n : Nat) : pow2 n = 2 ^ n := by rw [pow2, Nat.pow_eq]

@[simp] theorem pow10_eq (n : Nat) : pow10 n = 10 ^ n := by rw [pow10, Nat.pow_eq]

def signed (negative : Bool) (x : ℚ) : ℚ := if negative then -x else x

/-- The number that stands for a finite double. -/
def Exact.value? : Exact → Option ℚ
  | .nan => none
  | .infinite _ => none
  | .finite negative m e => some (signed negative (m * 2 ^ e))

/-- The number that a pattern stands for; none for infinities and for what is not a number. -/
def value? (bits : UInt64) : Option ℚ := (Exact.ofBits bits).value?

/-- The mantissa of a size, its first digit included. -/
def mantissa (size : Nat) : Nat := if size < 2 ^ 52 then size else size % 2 ^ 52 + 2 ^ 52

/-- The power of two that the mantissa of a size is counted in. -/
def exponent (size : Nat) : Int :=
  if size < 2 ^ 52 then -1074 else ((size / 2 ^ 52 : Nat) : Int) - 1075

/-- The number that a size stands for. The size of the infinities goes on as the next power of
two. -/
def magnitude (size : Nat) : ℚ := mantissa size * 2 ^ exponent size

theorem size_eq (s : Nat) : s = (exponent s + 1074).toNat * 2 ^ 52 + mantissa s := by
  simp only [exponent, mantissa]
  split <;> omega

theorem mantissa_lt (s : Nat) : mantissa s < 2 ^ 53 := by
  simp only [mantissa]
  split <;> omega

theorem exponent_ge (s : Nat) : -1074 ≤ exponent s := by
  simp only [exponent]
  split <;> omega

theorem mantissa_normal (s : Nat) : 2 ^ 52 ≤ mantissa s ∨ exponent s = -1074 := by
  simp only [exponent, mantissa]
  split <;> omega

theorem mantissa_mod_two (s : Nat) : mantissa s % 2 = s % 2 := by
  simp only [mantissa]
  split <;> omega

/-- A size below that of the infinities is a finite double's. -/
theorem Exact.ofSize_finite {s : Nat} (hs : s < infiniteSize) (negative : Bool) :
    Exact.ofSize negative s = .finite negative (mantissa s) (exponent s) := by
  rw [Exact.ofSize, if_neg (by omega), if_neg (by omega)]
  simp only [mantissa, exponent, pow2_eq]
  split <;> rfl

/-- The number that a size and a sign stand for. -/
theorem Exact.value?_ofSize (negative : Bool) (s : Nat) :
    (Exact.ofSize negative s).value? =
      if s < infiniteSize then some (signed negative (magnitude s)) else none := by
  split
  · rename_i hs
    rw [ofSize_finite hs, Exact.value?, magnitude]
  · rename_i hs
    rw [Exact.ofSize]
    split
    · rfl
    · rw [if_pos (by omega), Exact.value?]

/-- A pattern stands for a number exactly if it is finite, and then for its magnitude with its sign.
-/
theorem value?_eq_some_iff {bits : UInt64} {x : ℚ} : value? bits = some x ↔
    size bits < infiniteSize ∧ x = signed (negativeBit bits) (magnitude (size bits)) := by
  rw [value?, Exact.ofBits, Exact.value?_ofSize]
  split <;> simp [*, eq_comm]

/-- The mantissa and the exponent give the number. -/
theorem value?_of_finite {bits : UInt64} (negative : Bool) (m : Nat) (e : Int)
    (h : Exact.ofBits bits = .finite negative m e) :
    value? bits = some (signed negative (m * 2 ^ e)) := by rw [value?, h, Exact.value?]

theorem infiniteSize_eq : infiniteSize = 2047 * 2 ^ 52 := rfl

theorem ofSize_size (bits : UInt64) : ofSize (negativeBit bits) (size bits) = bits := by
  have := bits.toNat_lt
  apply UInt64.toNat_inj.1
  simp only [ofSize, negativeBit, size, pow2_eq, decide_eq_true_eq, UInt64.toNat_ofNat']
  split <;> omega

theorem toNat_ofSize {s : Nat} (hs : s < 2 ^ 63) (negative : Bool) :
    (ofSize negative s).toNat = if negative then 2 ^ 63 + s else s := by
  rw [ofSize, UInt64.toNat_ofNat', pow2_eq]
  split <;> omega

theorem size_ofSize {s : Nat} (hs : s < 2 ^ 63) (negative : Bool) : size (ofSize negative s) = s := by
  rw [size, toNat_ofSize hs, pow2_eq]
  split <;> omega

theorem negativeBit_ofSize {s : Nat} (hs : s < 2 ^ 63) (negative : Bool) :
    negativeBit (ofSize negative s) = negative := by
  rw [negativeBit, toNat_ofSize hs, pow2_eq]
  cases negative
  · simpa using hs
  · simp

/-- What is not a number is larger than the infinities. -/
theorem infiniteSize_lt_of_isNaNBits {bits : UInt64}
    (h : @Float.Model.UnpackedFloat.isNaNBits .binary64 bits.toBitVec = true) :
    infiniteSize < size bits := by
  simp only [Float.Model.UnpackedFloat.isNaNBits, Bool.decide_and, Bool.and_eq_true,
    decide_eq_true_eq] at h
  obtain ⟨hexponent, hmantissa⟩ := h
  have he := congrArg BitVec.toNat hexponent
  have hm : (@Float.Model.UnpackedFloat.unpackMantissa .binary64 bits.toBitVec).toNat ≠ 0 :=
    fun h => hmantissa (BitVec.eq_of_toNat_eq (by simpa using h))
  simp [Float.Model.UnpackedFloat.unpackExponent] at he
  simp [Float.Model.UnpackedFloat.unpackMantissa] at hm
  simp only [infiniteSize, size, pow2_eq]
  omega

/-- A float keeps every pattern, but for those that are not numbers. -/
theorem toBits_ofBits {bits : UInt64} (h : size bits ≤ infiniteSize) :
    (Float.ofBits bits).toBits = bits := by
  have hpack := @Float.Model.UnpackedFloat.pack_unpack .binary64 bits.toBitVec (by decide)
  rw [if_neg fun hn => absurd (infiniteSize_lt_of_isNaNBits hn) (not_lt.2 h)] at hpack
  exact UInt64.toBitVec_inj.1 hpack

/-- A mantissa in its unit; the one after the last is the first of the next unit. -/
theorem magnitude_of {u : Int} {m : Nat} (hu : -1074 ≤ u) (hm : m ≤ 2 ^ 53)
    (hnormal : 2 ^ 52 ≤ m ∨ u = -1074) :
    magnitude ((u + 1074).toNat * 2 ^ 52 + m) = m * 2 ^ u := by
  simp only [magnitude, mantissa, exponent]
  by_cases hlow : m < 2 ^ 52
  · have hu : u = -1074 := hnormal.resolve_left (by omega)
    subst hu
    rw [show ((-1074 : Int) + 1074).toNat * 2 ^ 52 + m = m by omega, if_pos hlow, if_pos hlow]
  rw [if_neg (by omega), if_neg (by omega)]
  by_cases htop : m = 2 ^ 53
  · have hdiv : (((u + 1074).toNat * 2 ^ 52 + m) / 2 ^ 52 : Nat) - (1075 : Int) = u + 1 := by omega
    have hmod : ((u + 1074).toNat * 2 ^ 52 + m) % 2 ^ 52 = 0 := by omega
    rw [hdiv, hmod, htop, zpow_add₀ (by norm_num)]
    push_cast
    ring
  · have hdiv : (((u + 1074).toNat * 2 ^ 52 + m) / 2 ^ 52 : Nat) - (1075 : Int) = u := by omega
    have hmod : ((u + 1074).toNat * 2 ^ 52 + m) % 2 ^ 52 + 2 ^ 52 = m := by omega
    rw [hdiv, hmod]

/-- From one size to the next it is one unit. -/
theorem magnitude_succ (s : Nat) : magnitude (s + 1) = magnitude s + 2 ^ exponent s := by
  have hs : s + 1 = (exponent s + 1074).toNat * 2 ^ 52 + (mantissa s + 1) := by
    have := size_eq s
    omega
  have hm := mantissa_lt s
  rw [hs, magnitude_of (exponent_ge s) hm ((mantissa_normal s).imp_left Nat.le_succ_of_le), magnitude]
  push_cast
  ring

theorem magnitude_strictMono : StrictMono magnitude :=
  strictMono_nat_of_lt_succ fun s => by
    rw [magnitude_succ]
    exact lt_add_of_pos_right _ (by positivity)

theorem magnitude_zero : magnitude 0 = 0 := by simp [magnitude, mantissa]

theorem magnitude_nonneg (s : Nat) : 0 ≤ magnitude s := by
  rw [magnitude]
  positivity

/-- Half way from a size to the next. -/
def halfway (s : Nat) : ℚ := (magnitude s + magnitude (s + 1)) / 2

/-- What is rounded to a size: all that is nearer to it than to its neighbours, and what is half way
to them if the size is even. -/
structure RoundsTo (x : ℚ) (s : Nat) : Prop where
  above : ∀ t, s = t + 1 → halfway t < x ∨ halfway t = x ∧ s % 2 = 0
  below : x < halfway s ∨ x = halfway s ∧ s % 2 = 0

theorem halfway_strictMono : StrictMono halfway := fun s t hst => by
  have h := magnitude_strictMono hst
  have h' := magnitude_strictMono (Nat.succ_lt_succ hst)
  rw [halfway, halfway]
  linarith

theorem magnitude_lt_halfway (s : Nat) : magnitude s < halfway s := by
  have := magnitude_strictMono (Nat.lt_succ_self s)
  rw [halfway]
  linarith

theorem halfway_lt_magnitude (s : Nat) : halfway s < magnitude (s + 1) := by
  have := magnitude_strictMono (Nat.lt_succ_self s)
  rw [halfway]
  linarith

/-- Half way from a mantissa in its unit to the next. -/
theorem halfway_of {u : Int} {m : Nat} (hu : -1074 ≤ u) (hm : m < 2 ^ 53)
    (hnormal : 2 ^ 52 ≤ m ∨ u = -1074) :
    halfway ((u + 1074).toNat * 2 ^ 52 + m) = (m + 1 / 2) * 2 ^ u := by
  have hnext := magnitude_of hu hm (hnormal.imp_left Nat.le_succ_of_le)
  rw [halfway, Nat.add_assoc, hnext, magnitude_of hu hm.le hnormal]
  push_cast
  ring

/-- A double is rounded to itself. -/
theorem roundsTo_magnitude (s : Nat) : RoundsTo (magnitude s) s where
  above := by
    rintro t rfl
    exact .inl (halfway_lt_magnitude t)
  below := .inl (magnitude_lt_halfway s)

/-- Rounding keeps the order. -/
theorem RoundsTo.le {x y : ℚ} {s t : Nat} (hs : RoundsTo x s) (ht : RoundsTo y t) (hxy : x ≤ y) :
    s ≤ t := by
  by_contra hlt
  obtain ⟨r, rfl⟩ : ∃ r, s = r + 1 := ⟨s - 1, by omega⟩
  have htr : halfway t ≤ halfway r := halfway_strictMono.monotone (by omega)
  rcases hs.above r rfl with h | ⟨h, hs⟩
  · rcases ht.below with h' | ⟨h', -⟩ <;> linarith
  · rcases ht.below with h' | ⟨h', ht⟩
    · linarith
    · -- both are half way between the two, and neighbours are not both even
      have := halfway_strictMono.injective (show halfway r = halfway t by linarith)
      omega

/-- A number is rounded to one size only. -/
theorem RoundsTo.unique {x : ℚ} {s t : Nat} (hs : RoundsTo x s) (ht : RoundsTo x t) : s = t :=
  Nat.le_antisymm (hs.le ht le_rfl) (ht.le hs le_rfl)

/-- Beyond the middle, or in it, nothing before the middle is nearer. -/
theorem abs_sub_of_middle {x a b c : ℚ} {p : Prop} (hba : b < a) (hc : c ≤ b)
    (h : (b + a) / 2 < x ∨ (b + a) / 2 = x ∧ p) :
    |x - a| < |x - c| ∨ |x - a| = |x - c| ∧ p := by
  have hcx : |x - c| = x - c := abs_of_nonneg (by rcases h with h | ⟨h, -⟩ <;> linarith)
  rw [hcx]
  rcases h with h | ⟨h, hp⟩
  · exact .inl (abs_sub_lt_iff.2 ⟨by linarith, by linarith⟩)
  · have hle : |x - a| ≤ x - c := abs_sub_le_iff.2 ⟨by linarith, by linarith⟩
    exact hle.lt_or_eq.imp_right fun heq => ⟨heq, hp⟩

/-- What is rounded to a size is nearer to it than to any other, or as near and the size is even. -/
theorem RoundsTo.nearer {x : ℚ} {s t : Nat} (h : RoundsTo x s) (hne : t ≠ s) :
    |x - magnitude s| < |x - magnitude t| ∨
      |x - magnitude s| = |x - magnitude t| ∧ s % 2 = 0 := by
  rcases Nat.lt_or_gt_of_ne hne with hlt | hlt
  · obtain ⟨r, rfl⟩ : ∃ r, s = r + 1 := ⟨s - 1, by omega⟩
    exact abs_sub_of_middle (magnitude_strictMono (Nat.lt_succ_self r))
      (magnitude_strictMono.monotone (by omega)) (h.above r rfl)
  · -- the same with everything turned to the other side of zero
    have hbelow : (-magnitude (s + 1) + -magnitude s) / 2 < -x ∨
        (-magnitude (s + 1) + -magnitude s) / 2 = -x ∧ s % 2 = 0 := by
      have h := h.below
      rw [halfway] at h
      exact h.imp (fun h => by linarith) fun ⟨h, heven⟩ => ⟨by linarith, heven⟩
    have h := abs_sub_of_middle (neg_lt_neg (magnitude_strictMono (Nat.lt_succ_self s)))
      (neg_le_neg (magnitude_strictMono.monotone hlt)) hbelow
    rwa [neg_sub_neg, neg_sub_neg, abs_sub_comm (magnitude s), abs_sub_comm (magnitude t)] at h

/-- No finite double is nearer to the number, and of two that are equally near this is the even
one. -/
def Nearest (x : ℚ) (bits : UInt64) : Prop :=
  ∃ v, value? bits = some v ∧ ∀ other w, value? other = some w →
    |x - v| < |x - w| ∨ |x - v| = |x - w| ∧ (w = v ∨ size bits % 2 = 0)

theorem abs_signed (negative : Bool) (x : ℚ) : |signed negative x| = |x| := by
  cases negative <;> simp [signed]

theorem signed_sub (negative : Bool) (x y : ℚ) :
    signed negative x - signed negative y = signed negative (x - y) := by
  cases negative <;> simp [signed] ; ring

/-- With the other sign a size is further away, unless it is zero. -/
theorem RoundsTo.nearer_opposite {x : ℚ} {s : Nat} (h : RoundsTo x s) (hx : 0 ≤ x)
    (negative other : Bool) :
    |x - magnitude s| < |signed negative x - signed other (magnitude s)| ∨
      |x - magnitude s| = |signed negative x - signed other (magnitude s)| ∧
        signed other (magnitude s) = signed negative (magnitude s) := by
  by_cases hsign : other = negative
  · subst hsign
    exact .inr ⟨by rw [signed_sub, abs_signed], rfl⟩
  have hsum : |signed negative x - signed other (magnitude s)| = x + magnitude s := by
    rw [← abs_of_nonneg (add_nonneg hx (magnitude_nonneg s))]
    cases negative <;> cases other <;> simp [signed] at hsign ⊢
    rw [← abs_neg]
    ring_nf
  rw [hsum]
  rcases (magnitude_nonneg s).eq_or_lt with hs | hs
  · rw [← hs]
    exact .inr ⟨by simp [abs_of_nonneg hx], by simp [signed]⟩
  · have hxpos : 0 < x := by
      refine hx.lt_of_ne' ?_
      rintro rfl
      -- zero is rounded to zero
      have hzero := h.unique (magnitude_zero ▸ roundsTo_magnitude 0)
      rw [hzero, magnitude_zero] at hs
      exact lt_irrefl _ hs
    exact .inl (abs_sub_lt_iff.2 ⟨by linarith, by linarith⟩)

/-- Signs do not matter to rounding: the nearest double has the sign of the number. -/
theorem RoundsTo.nearest {x : ℚ} {s : Nat} (h : RoundsTo x s) (hx : 0 ≤ x) (hs : s < infiniteSize)
    (negative : Bool) : Nearest (signed negative x) (ofSize negative s) := by
  have hs' : s < 2 ^ 63 := by
    rw [infiniteSize_eq] at hs
    omega
  refine ⟨signed negative (magnitude s), ?_, ?_⟩
  · rw [value?_eq_some_iff, size_ofSize hs', negativeBit_ofSize hs']
    exact ⟨hs, rfl⟩
  intro other w hw
  obtain ⟨-, rfl⟩ := value?_eq_some_iff.1 hw
  rw [signed_sub, abs_signed, size_ofSize hs']
  generalize size other = t
  generalize negativeBit other = negative'
  by_cases hts : t = s
  · subst hts
    exact h.nearer_opposite hx negative negative' |>.imp_right fun h => ⟨h.1, .inl h.2⟩
  · have hle : |x - magnitude t| ≤ |signed negative x - signed negative' (magnitude t)| := by
      have := abs_abs_sub_abs_le (signed negative x) (signed negative' (magnitude t))
      rwa [abs_signed, abs_signed, abs_of_nonneg hx, abs_of_nonneg (magnitude_nonneg t)] at this
    rcases h.nearer hts with h | ⟨h, heven⟩
    · exact .inl (h.trans_le hle)
    · rcases (h.trans_le hle).lt_or_eq with h | h
      · exact .inl h
      · exact .inr ⟨h, .inr heven⟩

end Scriptling.Number
