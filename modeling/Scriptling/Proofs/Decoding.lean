import Mathlib.Data.List.TakeWhile
import Scriptling.Proofs.Utf8

namespace Scriptling.Text.Utf8

theorem val_ofNat {n : Nat} (h : n < 0xD800 ∨ 0xDFFF < n ∧ n < 0x110000) :
    (Char.ofNat n).val.toNat = n := by
  rw [Char.ofNat, dif_pos h]
  rfl

theorem eq_ofNat {b : UInt8} {n : Nat} (h : n = b.toNat) : UInt8.ofNat n = b := by
  rw [h, UInt8.ofNat_toNat]

/-- How many bytes a character has is told by the range of its first one. -/
theorem width_cases {lead : UInt8} {n : Nat} (h : width lead = n + 1) :
    n = 0 ∧ lead.toNat < 128 ∨ n = 1 ∧ 194 ≤ lead.toNat ∧ lead.toNat < 224 ∨
      n = 2 ∧ 224 ≤ lead.toNat ∧ lead.toNat < 240 ∨
      n = 3 ∧ 240 ≤ lead.toNat ∧ lead.toNat < 245 := by
  rw [width_eq] at h
  repeat' split at h
  all_goals omega

theorem goodLength_le (lead : UInt8) (tail : List UInt8) : goodLength lead tail ≤ tail.length := by
  cases tail with
  | nil => exact Nat.le_refl _
  | cons b bs =>
    have hle := (List.takeWhile_prefix laterByte (l := bs)).length_le
    rw [goodLength, List.length_cons]
    split <;> omega

/-- Where all bytes are good they are right for the first one. -/
theorem bytes_of_goodLength {lead b : UInt8} {bs : List UInt8}
    (h : goodLength lead (b :: bs) = bs.length + 1) :
    secondByte lead b = true ∧ ∀ d ∈ bs, laterByte d = true := by
  rw [goodLength] at h
  split at h
  · rename_i hb
    have hall : bs.takeWhile laterByte = bs :=
      (List.takeWhile_prefix laterByte).eq_of_length (by omega)
    exact ⟨hb, List.takeWhile_eq_self_iff.1 hall⟩
  · omega

/-- The bytes of the character of a number, by its size. -/
theorem encodeChar_ofNat {n : Nat} (h : n < 0xD800 ∨ 0xDFFF < n ∧ n < 0x110000) :
    String.utf8EncodeChar (Char.ofNat n) =
      if n ≤ 0x7f then [UInt8.ofNat n]
      else if n ≤ 0x7ff then [UInt8.ofNat (n / 64 % 32 + 192), UInt8.ofNat (n % 64 + 128)]
      else if n ≤ 0xffff then
        [UInt8.ofNat (n / 4096 % 16 + 224), UInt8.ofNat (n / 64 % 64 + 128),
          UInt8.ofNat (n % 64 + 128)]
      else
        [UInt8.ofNat (n / 262144 % 8 + 240), UInt8.ofNat (n / 4096 % 64 + 128),
          UInt8.ofNat (n / 64 % 64 + 128), UInt8.ofNat (n % 64 + 128)] := by
  unfold String.utf8EncodeChar
  dsimp only
  rw [val_ofNat h]

/-- The bounds of the second byte, as far as they keep code points apart. -/
theorem bounds_of_secondByte {lead b : UInt8} (h : secondByte lead b = true) :
    128 ≤ b.toNat ∧ b.toNat ≤ 191 ∧ (lead.toNat = 224 → 160 ≤ b.toNat) ∧
      (lead.toNat = 237 → b.toNat ≤ 159) ∧ (lead.toNat = 240 → 144 ≤ b.toNat) ∧
      (lead.toNat = 244 → b.toNat ≤ 143) := by
  rw [secondByte_eq, decide_eq_true_eq] at h
  obtain ⟨hlow, hhigh⟩ := h
  repeat' split at hlow
  all_goals repeat' split at hhigh
  all_goals omega

/-- The character of good bytes is written with these bytes. -/
theorem encodeChar_assemble {lead : UInt8} {tail : List UInt8}
    (hw : width lead = tail.length + 1) (hgood : goodLength lead tail = tail.length) :
    String.utf8EncodeChar (assemble lead tail) = lead :: tail := by
  have hcases := width_cases hw
  match tail with
  | [] =>
    have hl : lead.toNat < 128 := by simpa using hcases
    have hv : assemble lead [] = Char.ofNat lead.toNat := by
      rw [assemble, leadBits_eq, if_pos hl]
      rfl
    rw [hv, encodeChar_ofNat (by omega), if_pos (by omega), eq_ofNat rfl]
  | [b] =>
    have hl : 194 ≤ lead.toNat ∧ lead.toNat < 224 := by simpa using hcases
    have hb := bounds_of_secondByte (bytes_of_goodLength hgood).1
    have hv : assemble lead [b] = Char.ofNat (64 * (lead.toNat % 32) + b.toNat % 64) := by
      rw [assemble, leadBits_eq, if_neg (by omega), if_pos (by omega)]
      rfl
    rw [hv, encodeChar_ofNat (by omega), if_neg (by omega), if_pos (by omega),
      eq_ofNat (b := lead) (by omega), eq_ofNat (b := b) (by omega)]
  | [b, c] =>
    have hl : 224 ≤ lead.toNat ∧ lead.toNat < 240 := by simpa using hcases
    obtain ⟨hb, hlater⟩ := bytes_of_goodLength hgood
    have hb := bounds_of_secondByte hb
    have hc : 128 ≤ c.toNat ∧ c.toNat ≤ 191 := by simpa [laterByte_eq] using hlater
    have hv : assemble lead [b, c] =
        Char.ofNat (64 * (64 * (lead.toNat % 16) + b.toNat % 64) + c.toNat % 64) := by
      rw [assemble, leadBits_eq, if_neg (by omega), if_neg (by omega), if_pos (by omega)]
      rfl
    rw [hv, encodeChar_ofNat (by omega), if_neg (by omega), if_neg (by omega), if_pos (by omega),
      eq_ofNat (b := lead) (by omega), eq_ofNat (b := b) (by omega), eq_ofNat (b := c) (by omega)]
  | [b, c, d] =>
    have hl : 240 ≤ lead.toNat ∧ lead.toNat < 245 := by simpa using hcases
    obtain ⟨hb, hlater⟩ := bytes_of_goodLength hgood
    have hb := bounds_of_secondByte hb
    have hcd : (128 ≤ c.toNat ∧ c.toNat ≤ 191) ∧ 128 ≤ d.toNat ∧ d.toNat ≤ 191 := by
      simpa [laterByte_eq] using hlater
    have hv : assemble lead [b, c, d] = Char.ofNat
        (64 * (64 * (64 * (lead.toNat % 8) + b.toNat % 64) + c.toNat % 64) + d.toNat % 64) := by
      rw [assemble, leadBits_eq, if_neg (by omega), if_neg (by omega), if_neg (by omega)]
      rfl
    rw [hv, encodeChar_ofNat (by omega), if_neg (by omega), if_neg (by omega), if_neg (by omega),
      eq_ofNat (b := lead) (by omega), eq_ofNat (b := b) (by omega), eq_ofNat (b := c) (by omega),
      eq_ofNat (b := d) (by omega)]
  | b :: c :: d :: e :: tail =>
    simp only [List.length_cons] at hcases
    omega

/-- A character is read from its own bytes. -/
theorem encodeChar_of_head {lead : UInt8} {rest : List UInt8} {c : Char}
    (h : head lead rest = .char c) :
    ∃ tail rest', rest = tail ++ rest' ∧ String.utf8EncodeChar c = lead :: tail := by
  unfold head at h
  split at h
  · cases h
  rename_i n hw
  dsimp only at h
  split at h
  case isFalse => split at h <;> cases h
  rename_i hgood
  cases h
  have hle := goodLength_le lead (rest.take n)
  have hlen : (rest.take n).length = n := by
    have := List.length_take_le n rest
    omega
  exact ⟨rest.take n, rest.drop n, (List.take_append_drop n rest).symm,
    encodeChar_assemble (by rw [hlen, hw]) (by rw [hlen, hgood])⟩

/-- Bytes in which no damage is found are a text. -/
theorem whole_of_undamaged {bytes : List UInt8} {index : Nat}
    (h : firstDamage? index (pieces bytes) = none) : Whole bytes := by
  induction bytes using pieces.induct generalizing index with
  | case1 => exact whole_nil
  | case2 lead rest piece =>
    rename_i ih
    rw [pieces] at h
    cases hhead : head lead rest with
    | char c =>
      obtain ⟨tail, rest', rfl, hc⟩ := encodeChar_of_head hhead
      have hlen : c.utf8Size - 1 = tail.length := by
        have hsize := String.length_utf8EncodeChar c
        rw [hc, List.length_cons] at hsize
        omega
      have hrest : (tail ++ rest').drop (piece.length - 1) = rest' := by
        rw [show piece = .char c from hhead, Piece.length, hlen, List.drop_left]
      rw [hrest] at ih
      rw [hhead, Piece.length, hlen, List.drop_left, firstDamage?] at h
      obtain ⟨cs, hcs⟩ := ih h
      exact ⟨c :: cs, by rw [bytesOf, List.flatMap_cons, hc, ← bytesOf, ← hcs]; rfl⟩
    | broken n =>
      rw [hhead] at h
      cases h
    | unfinished n =>
      rw [hhead] at h
      cases h

theorem firstDamage?_chars (index : Nat) (cs : List Char) :
    firstDamage? index (cs.map .char) = none := by
  induction cs generalizing index with
  | nil => rfl
  | cons c cs ih => exact ih _

/-- Decoding is undone by encoding, and fails on all bytes that are no text. -/
theorem decode_eq_ok_iff {bytes : List UInt8} {text : String} :
    decode bytes = .ok text ↔ encode text = bytes := by
  constructor
  · intro h
    unfold decode at h
    cases hd : firstDamage? 0 (pieces bytes) with
    | none =>
      rw [hd] at h
      cases h
      exact (whole_of_undamaged hd).encode_decodeLossy
    | some d =>
      rw [hd] at h
      cases h
  · rintro rfl
    rw [encode_eq, decode, pieces_bytesOf, firstDamage?_chars]
    simp

end Scriptling.Text.Utf8
