import Scriptling.Text.Utf8

namespace Scriptling.Text.Utf8

def bytesOf (cs : List Char) : List UInt8 := cs.flatMap String.utf8EncodeChar

theorem encode_ofList (cs : List Char) : encode (String.ofList cs) = bytesOf cs := by
  simp [encode, bytesOf, List.utf8Encode]

theorem encode_eq (s : String) : encode s = bytesOf s.toList := by
  rw [← encode_ofList, String.ofList_toList]

theorem bytesOf_append (cs ds : List Char) : bytesOf (cs ++ ds) = bytesOf cs ++ bytesOf ds := by
  simp [bytesOf]

theorem encode_append (s t : String) : encode (s ++ t) = encode s ++ encode t := by
  rw [encode_eq, String.toList_append, bytesOf_append, encode_eq, encode_eq]

/-- The width, with the bounds as numbers. -/
theorem width_eq (lead : UInt8) : width lead =
    if lead.toNat < 128 then 1
    else if lead.toNat < 194 then 0
    else if lead.toNat < 224 then 2
    else if lead.toNat < 240 then 3
    else if lead.toNat < 245 then 4
    else 0 := by
  simp only [width, UInt8.lt_iff_toNat_lt, UInt8.reduceToNat]

theorem laterByte_eq (b : UInt8) : laterByte b = decide (128 ≤ b.toNat ∧ b.toNat ≤ 191) := by
  simp only [laterByte, UInt8.le_iff_toNat_le, UInt8.reduceToNat]

/-- The least and the greatest byte after the given first one. -/
theorem secondByte_eq (lead b : UInt8) : secondByte lead b =
    decide ((if lead.toNat = 224 then 160 else if lead.toNat = 240 then 144 else 128) ≤ b.toNat ∧
      b.toNat ≤ if lead.toNat = 237 then 159 else if lead.toNat = 244 then 143 else 191) := by
  have heq : ∀ n : UInt8, (lead == n) = decide (lead.toNat = n.toNat) := by
    intro n
    by_cases h : lead = n
    · simp [h]
    · have hne : lead.toNat ≠ n.toNat := fun h' => h (UInt8.toNat_inj.1 h')
      simp [h, hne]
  simp only [secondByte, heq, UInt8.le_iff_toNat_le, UInt8.reduceToNat, decide_eq_true_eq]
  congr 1
  split <;> split <;> (try split) <;> (try split) <;> simp

theorem leadBits_eq (lead : UInt8) : leadBits lead =
    if lead.toNat < 128 then lead.toNat
    else if lead.toNat < 224 then lead.toNat % 32
    else if lead.toNat < 240 then lead.toNat % 16
    else lead.toNat % 8 := by
  simp only [leadBits, UInt8.lt_iff_toNat_lt, UInt8.reduceToNat]

theorem val_lt (c : Char) : c.val.toNat < 0xD800 ∨ 0xDFFF < c.val.toNat ∧ c.val.toNat < 0x110000 :=
  c.valid

theorem toNat_ofNat_lt {n : Nat} (h : n < 256) : (UInt8.ofNat n).toNat = n := by
  rw [UInt8.toNat_ofNat']
  exact Nat.mod_eq_of_lt h

theorem ofNat_val (c : Char) {n : Nat} (h : n = c.val.toNat) : Char.ofNat n = c := by
  subst h
  exact Char.ofNat_toNat c

/-- A first byte and the right number of right bytes behind it are a character. -/
theorem head_of_good {lead : UInt8} {tail rest : List UInt8} {c : Char}
    (hw : width lead = tail.length + 1) (hgood : goodLength lead tail = tail.length)
    (hc : assemble lead tail = c) : head lead (tail ++ rest) = .char c := by
  simp only [head, hw, List.take_left, hgood, if_true, hc]

/-- The second byte is right if it is a later one and within the narrower bounds, where these hold.
-/
theorem secondByte_of {lead b : UInt8} (hb : 128 ≤ b.toNat ∧ b.toNat ≤ 191)
    (h₁ : lead.toNat = 224 → 160 ≤ b.toNat) (h₂ : lead.toNat = 237 → b.toNat ≤ 159)
    (h₃ : lead.toNat = 240 → 144 ≤ b.toNat) (h₄ : lead.toNat = 244 → b.toNat ≤ 143) :
    secondByte lead b = true := by
  rw [secondByte_eq, decide_eq_true_eq]
  constructor <;> split <;> (try split) <;> omega

/-- A character is a first byte and the right number of right bytes behind it. -/
theorem encodeChar_good (c : Char) : ∃ lead more, String.utf8EncodeChar c = lead :: more ∧
    width lead = more.length + 1 ∧ goodLength lead more = more.length ∧
    assemble lead more = c := by
  have hc := val_lt c
  unfold String.utf8EncodeChar
  dsimp only
  generalize hv : c.val.toNat = v at hc ⊢
  split
  · have h₀ : (UInt8.ofNat v).toNat = v := toNat_ofNat_lt (by omega)
    refine ⟨_, _, rfl, ?_, rfl, ?_⟩
    · rw [width_eq, h₀, if_pos (by omega)]
      rfl
    · rw [assemble, List.foldl_nil, leadBits_eq, h₀, if_pos (by omega), ofNat_val c hv.symm]
  split
  · have h₀ : (UInt8.ofNat (v / 64 % 32 + 192)).toNat = v / 64 % 32 + 192 :=
      toNat_ofNat_lt (by omega)
    have h₁ : (UInt8.ofNat (v % 64 + 128)).toNat = v % 64 + 128 :=
      toNat_ofNat_lt (by omega)
    refine ⟨_, _, rfl, ?_, ?_, ?_⟩
    · rw [width_eq, h₀, if_neg (by omega), if_neg (by omega), if_pos (by omega)]
      rfl
    · rw [goodLength, if_pos (secondByte_of (by omega) (by omega) (by omega) (by omega) (by omega))]
      rfl
    · simp only [assemble, List.foldl_cons, List.foldl_nil, leadBits_eq, h₀, h₁]
      rw [if_neg (by omega), if_pos (by omega), ofNat_val c (by omega)]
  split
  · have h₀ : (UInt8.ofNat (v / 4096 % 16 + 224)).toNat = v / 4096 % 16 + 224 :=
      toNat_ofNat_lt (by omega)
    have h₁ : (UInt8.ofNat (v / 64 % 64 + 128)).toNat = v / 64 % 64 + 128 :=
      toNat_ofNat_lt (by omega)
    have h₂ : (UInt8.ofNat (v % 64 + 128)).toNat = v % 64 + 128 :=
      toNat_ofNat_lt (by omega)
    refine ⟨_, _, rfl, ?_, ?_, ?_⟩
    · rw [width_eq, h₀, if_neg (by omega), if_neg (by omega), if_neg (by omega), if_pos (by omega)]
      rfl
    · rw [goodLength, if_pos (secondByte_of (by omega) (by omega) (by omega) (by omega) (by omega))]
      simp only [List.takeWhile_cons, laterByte_eq, h₂]
      rw [if_pos (by simp only [decide_eq_true_eq]; omega)]
      rfl
    · simp only [assemble, List.foldl_cons, List.foldl_nil, leadBits_eq, h₀, h₁, h₂]
      rw [if_neg (by omega), if_neg (by omega), if_pos (by omega), ofNat_val c (by omega)]
  · have h₀ : (UInt8.ofNat (v / 262144 % 8 + 240)).toNat = v / 262144 % 8 + 240 :=
      toNat_ofNat_lt (by omega)
    have h₁ : (UInt8.ofNat (v / 4096 % 64 + 128)).toNat = v / 4096 % 64 + 128 :=
      toNat_ofNat_lt (by omega)
    have h₂ : (UInt8.ofNat (v / 64 % 64 + 128)).toNat = v / 64 % 64 + 128 :=
      toNat_ofNat_lt (by omega)
    have h₃ : (UInt8.ofNat (v % 64 + 128)).toNat = v % 64 + 128 :=
      toNat_ofNat_lt (by omega)
    refine ⟨_, _, rfl, ?_, ?_, ?_⟩
    · rw [width_eq, h₀, if_neg (by omega), if_neg (by omega), if_neg (by omega), if_neg (by omega),
        if_pos (by omega)]
      rfl
    · rw [goodLength, if_pos (secondByte_of (by omega) (by omega) (by omega) (by omega) (by omega))]
      simp only [List.takeWhile_cons, laterByte_eq, h₂, h₃]
      rw [if_pos (by simp only [decide_eq_true_eq]; omega),
        if_pos (by simp only [decide_eq_true_eq]; omega)]
      rfl
    · simp only [assemble, List.foldl_cons, List.foldl_nil, leadBits_eq, h₀, h₁, h₂, h₃]
      rw [if_neg (by omega), if_neg (by omega), if_neg (by omega), ofNat_val c (by omega)]

/-- The bytes of a character are read as that character, whatever follows. -/
theorem head_encodeChar (c : Char) (rest : List UInt8) :
    ∃ lead more, String.utf8EncodeChar c = lead :: more ∧ head lead (more ++ rest) = .char c := by
  obtain ⟨lead, more, hc, hwidth, hgood, hassemble⟩ := encodeChar_good c
  exact ⟨lead, more, hc, head_of_good hwidth hgood hassemble⟩

theorem laterByte_of_secondByte {lead b : UInt8} (h : secondByte lead b = true) :
    laterByte b = true := by
  rw [secondByte_eq, decide_eq_true_eq] at h
  rw [laterByte_eq, decide_eq_true_eq]
  constructor
  · refine Nat.le_trans ?_ h.1
    split <;> (try split) <;> omega
  · refine Nat.le_trans h.2 ?_
    split <;> (try split) <;> omega

/-- Behind the first byte of a character there are later bytes only. -/
theorem laterByte_of_good {lead : UInt8} {more : List UInt8}
    (h : goodLength lead more = more.length) : ∀ b ∈ more, laterByte b = true := by
  cases more with
  | nil => simp
  | cons b bs =>
    rw [goodLength, List.length_cons] at h
    split at h
    · rename_i hsecond
      have hall : bs.takeWhile laterByte = bs :=
        (List.takeWhile_prefix laterByte).eq_of_length (by omega)
      have hlater : bs.all laterByte = true := by
        rw [← hall]
        exact List.all_takeWhile
      exact List.forall_mem_cons.2
        ⟨laterByte_of_secondByte hsecond, List.all_eq_true.1 hlater⟩
    · omega

/-- A byte of a character that is ASCII is the whole of it. -/
theorem encodeChar_of_ascii {c : Char} {b : UInt8} (hb : b ∈ String.utf8EncodeChar c)
    (h : b.toNat < 128) : String.utf8EncodeChar c = [b] := by
  have hc := val_lt c
  unfold String.utf8EncodeChar at hb ⊢
  dsimp only at hb ⊢
  generalize c.val.toNat = v at hb hc ⊢
  split at hb
  · rw [if_pos ‹_›, List.mem_singleton.1 hb]
  -- every byte of a longer character is at least 128
  exfalso
  have hlow : ∀ n, 128 ≤ n → n < 256 → b ≠ UInt8.ofNat n := by
    rintro n hn hn' rfl
    rw [toNat_ofNat_lt hn'] at h
    omega
  split at hb
  · simp only [List.mem_cons, List.not_mem_nil, or_false] at hb
    rcases hb with hb | hb <;> exact hlow _ (by omega) (by omega) hb
  split at hb
  · simp only [List.mem_cons, List.not_mem_nil, or_false] at hb
    rcases hb with hb | hb | hb <;> exact hlow _ (by omega) (by omega) hb
  · simp only [List.mem_cons, List.not_mem_nil, or_false] at hb
    rcases hb with hb | hb | hb | hb <;> exact hlow _ (by omega) (by omega) hb

theorem pieces_encodeChar (c : Char) (rest : List UInt8) :
    pieces (String.utf8EncodeChar c ++ rest) = .char c :: pieces rest := by
  obtain ⟨lead, more, hc, hhead⟩ := head_encodeChar c rest
  have hlen : c.utf8Size - 1 = more.length := by
    have := String.length_utf8EncodeChar c
    rw [hc, List.length_cons] at this
    omega
  rw [hc, List.cons_append, pieces, hhead]
  simp only [Piece.length, hlen, List.drop_left]

theorem pieces_bytesOf (cs : List Char) : pieces (bytesOf cs) = cs.map .char := by
  induction cs with
  | nil => rw [bytesOf, List.flatMap_nil, pieces, List.map_nil]
  | cons c cs ih => rw [bytesOf, List.flatMap_cons, pieces_encodeChar, List.map_cons, ← ih, bytesOf]

@[simp] theorem decodeLossy_bytesOf (cs : List Char) : decodeLossy (bytesOf cs) = String.ofList cs := by
  rw [decodeLossy, pieces_bytesOf, List.map_map]
  congr 1
  exact List.map_id _

/-- The bytes of some text. -/
def Whole (bytes : List UInt8) : Prop := ∃ cs, bytes = bytesOf cs

theorem whole_encode (s : String) : Whole (encode s) := ⟨_, encode_eq s⟩

theorem whole_nil : Whole [] := ⟨[], rfl⟩

theorem Whole.append {l r : List UInt8} : Whole l → Whole r → Whole (l ++ r) := by
  rintro ⟨cs, rfl⟩ ⟨ds, rfl⟩
  exact ⟨cs ++ ds, (bytesOf_append cs ds).symm⟩

/-- Nothing of a text is lost in decoding. -/
theorem Whole.encode_decodeLossy {bytes : List UInt8} (h : Whole bytes) :
    encode (decodeLossy bytes) = bytes := by
  obtain ⟨cs, rfl⟩ := h
  rw [decodeLossy_bytesOf, encode_ofList]

theorem whole_ascii {bytes : List UInt8} (h : ∀ b ∈ bytes, b.toNat < 128) : Whole bytes := by
  refine ⟨bytes.map fun b => Char.ofNat b.toNat, ?_⟩
  induction bytes with
  | nil => rfl
  | cons b bytes ih =>
    have hb := h b (by simp)
    have hval : (Char.ofNat b.toNat).val.toNat = b.toNat := by
      rw [Char.ofNat, dif_pos (by unfold Nat.isValidChar; omega)]
      rfl
    have hc : String.utf8EncodeChar (Char.ofNat b.toNat) = [b] := by
      unfold String.utf8EncodeChar
      dsimp only
      rw [hval, if_pos (by omega), UInt8.ofNat_toNat]
    rw [List.map_cons, bytesOf, List.flatMap_cons, hc]
    exact congrArg (b :: ·) (ih fun c hc => h c (by simp [hc]))

/-- A text can be cut behind an ASCII byte, and before it. -/
theorem Whole.cut {l r : List UInt8} {b : UInt8} (h : Whole (l ++ b :: r)) (hb : b.toNat < 128) :
    Whole l ∧ Whole r := by
  obtain ⟨cs, hcs⟩ := h
  induction cs generalizing l with
  | nil => simp [bytesOf] at hcs
  | cons c cs ih =>
    rw [bytesOf, List.flatMap_cons, ← bytesOf] at hcs
    rcases List.append_eq_append_iff.1 hcs with ⟨mid, hc, hrest⟩ | ⟨mid, rfl, hrest⟩
    · -- the byte stands in the first character, or right behind it
      cases mid with
      | nil =>
        rw [List.append_nil] at hc
        have hlater := ih (l := []) hrest
        exact ⟨⟨[c], by simp [bytesOf, hc]⟩, hlater.2⟩
      | cons d mid =>
        obtain ⟨rfl, hr⟩ := List.cons.inj hrest
        have hone := encodeChar_of_ascii (c := c) (b := b) (by simp [hc]) hb
        rw [hone] at hc
        cases l with
        | nil =>
          obtain ⟨-, hmid⟩ := List.cons.inj hc
          exact ⟨whole_nil, cs, by rw [hr, ← hmid]; rfl⟩
        | cons a l => simp at hc
    · obtain ⟨⟨ds, hds⟩, hr⟩ := ih hrest.symm
      exact ⟨⟨c :: ds, by rw [hds]; rfl⟩, hr⟩

end Scriptling.Text.Utf8
