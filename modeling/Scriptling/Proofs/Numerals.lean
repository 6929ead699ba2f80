import Mathlib.Data.List.TakeWhile
import Scriptling.Builtin
import Scriptling.Proofs.Scanning

namespace Scriptling

open Text.Utf8 (encode)

namespace Lexeme

/-- Digits, one at least. -/
def Digits (bytes : List UInt8) : Prop := bytes ≠ [] ∧ ∀ b ∈ bytes, isDigit b = true

/-- A power of ten: its letter, perhaps a sign, and digits. -/
def Exponent (bytes : List UInt8) : Prop :=
  ∃ letter sign digits, bytes = letter :: (sign ++ digits) ∧
    (ascii letter = 'e' ∨ ascii letter = 'E') ∧
    (sign = [] ∨ ∃ s, sign = [s] ∧ (ascii s = '+' ∨ ascii s = '-')) ∧ Digits digits

/-- The forms of a number, and the power of ten at its end, empty where there is none. -/
inductive NumberForm : List UInt8 → List UInt8 → Prop where
  | whole {digits power : List UInt8} :
    Digits digits → (power = [] ∨ Exponent power) → NumberForm (digits ++ power) power
  | fraction {point : UInt8} {digits decimals power : List UInt8} :
    Digits digits → ascii point = '.' → Digits decimals → (power = [] ∨ Exponent power) →
      NumberForm (digits ++ point :: (decimals ++ power)) power
  | point {point : UInt8} {decimals power : List UInt8} :
    ascii point = '.' → Digits decimals → (power = [] ∨ Exponent power) →
      NumberForm (point :: (decimals ++ power)) power
  | openPoint {point : UInt8} {digits power : List UInt8} :
    Digits digits → ascii point = '.' → Exponent power → NumberForm (digits ++ point :: power) power

/-- A number in front of `rest`, as long as any that the text begins with. -/
structure LongestNumber (bytes power rest : List UInt8) : Prop where
  form : NumberForm bytes power
  longest : ∀ form power' later, bytes ++ rest = form ++ later → NumberForm form power' →
    form.length ≤ bytes.length

theorem Power.exponent {power rest : List UInt8} (h : Power power rest) : Exponent power := by
  obtain ⟨letter, sign, digits, hpower, hletter, hsign, hne, hrun⟩ := h
  exact ⟨letter, sign, digits, hpower, hletter, hsign, hne, hrun.1⟩

theorem Perhaps.exponent {power rest : List UInt8} (h : Perhaps Power power rest) :
    power = [] ∨ Exponent power := by
  rcases h with h | ⟨hnil, -⟩
  · exact .inr h.exponent
  · exact .inl hnil

theorem Numeral.form {bytes power rest : List UInt8} (h : Numeral bytes power rest) :
    NumberForm bytes power := by
  cases h with
  | @whole digits fraction power rest hne hrun hfraction hpower =>
    rcases hfraction with ⟨point, decimals, rfl, hpoint, hdecimals, hahead⟩ | ⟨rfl, -⟩
    · by_cases hd : decimals = []
      · subst hd
        -- the power of ten ahead is the numeral's own
        obtain ⟨form, later, hsplit, hform⟩ := hahead.resolve_left (not_not.2 rfl)
        rcases hpower with h | ⟨rfl, hnone⟩
        · exact .openPoint ⟨hne, hrun.1⟩ hpoint h.exponent
        · exact absurd hform (hnone form later hsplit)
      · exact .fraction ⟨hne, hrun.1⟩ hpoint ⟨hd, hdecimals.1⟩ hpower.exponent
    · exact .whole ⟨hne, hrun.1⟩ hpower.exponent
  | point hpoint hne hrun hpower => exact .point hpoint ⟨hne, hrun.1⟩ hpower.exponent

/-- Digits are no more than all digits at the front. -/
theorem length_le_digitsLength {digits : List UInt8} (h : ∀ b ∈ digits, isDigit b = true)
    (rest : List UInt8) : digits.length ≤ digitsLength (digits ++ rest) := by
  rw [digitsLength, List.takeWhile_append_of_pos h, List.length_append]
  exact Nat.le_add_right _ _

theorem Exponent.length_le {power : List UInt8} (h : Exponent power) (rest : List UInt8) :
    power.length ≤ exponentLength (power ++ rest) := by
  obtain ⟨letter, sign, digits, rfl, hletter, hsign, hne, hdigits⟩ := h
  have hrun := run_takeWhile isDigit (digits ++ rest)
  have hcut := takeWhile_append_drop isDigit (digits ++ rest)
  have hle := length_le_digitsLength hdigits rest
  rw [digitsLength] at hle
  generalize (digits ++ rest).takeWhile isDigit = run at hrun hcut hle
  generalize (digits ++ rest).drop run.length = later at hrun hcut
  have hrunne : run ≠ [] := by
    rintro rfl
    exact hne (List.eq_nil_of_length_eq_zero (Nat.le_zero.1 hle))
  have hpower : Power (letter :: (sign ++ run)) later :=
    ⟨letter, sign, run, rfl, hletter, hsign, hrunne, hrun⟩
  have hlength := measures_power.length_eq hpower
  rw [List.cons_append, List.append_assoc, hcut] at hlength
  rw [List.cons_append, List.append_assoc, hlength]
  simpa using hle

/-- Where a power of ten may stand, it begins with its letter. -/
theorem Exponent.head {power : List UInt8} (h : Exponent power) (rest : List UInt8) :
    ∀ b ∈ (power ++ rest).head?, ascii b = 'e' ∨ ascii b = 'E' := by
  obtain ⟨letter, sign, digits, rfl, hletter, -⟩ := h
  simpa using hletter

/-- Digits before a power of ten are a longest run. -/
theorem Exponent.run {power digits : List UInt8} (h : Exponent power)
    (hdigits : ∀ b ∈ digits, isDigit b = true) (rest : List UInt8) :
    Run isDigit digits (power ++ rest) := by
  refine ⟨hdigits, fun b hb => ?_⟩
  rcases h.head rest b hb with h | h <;> (rw [isDigit, h]; decide)

theorem Exponent.no_fraction {power : List UInt8} (h : Exponent power) (rest : List UInt8) :
    fractionLength (power ++ rest) = 0 := by
  obtain ⟨letter, sign, digits, rfl, hletter, -⟩ := h
  rw [List.cons_append, fractionLength, if_neg]
  rintro ⟨hpoint, -⟩
  rw [hpoint] at hletter
  revert hletter
  decide

/-- And so are digits before a point. -/
theorem run_point {point : UInt8} {digits : List UInt8} (hdigits : ∀ b ∈ digits, isDigit b = true)
    (hpoint : ascii point = '.') (rest : List UInt8) : Run isDigit digits (point :: rest) := by
  refine ⟨hdigits, fun b hb => ?_⟩
  cases hb
  exact isDigit_point hpoint

/-- Digits and perhaps a power of ten are no longer than what is found of them. -/
theorem length_le_whole {digits power : List UInt8} (hdigits : ∀ b ∈ digits, isDigit b = true)
    (hpower : power = [] ∨ Exponent power) (rest : List UInt8) :
    let bytes := digits ++ (power ++ rest)
    (digits ++ power).length ≤ digitsLength bytes + exponentLength (bytes.drop (digitsLength bytes)) ∧
      (power = [] ∨ fractionLength (bytes.drop (digitsLength bytes)) = 0) := by
  rcases hpower with rfl | hpower
  · have := length_le_digitsLength hdigits rest
    refine ⟨?_, .inl rfl⟩
    simp only [List.nil_append, List.append_nil]
    omega
  · have hwhole := digitsLength_run (hpower.run hdigits rest)
    have hle := hpower.length_le rest
    simp only [hwhole, List.drop_left, List.length_append]
    exact ⟨by omega, .inr (hpower.no_fraction rest)⟩

theorem Digits.head_ne_point {d : UInt8} {ds : List UInt8} (h : Digits (d :: ds)) :
    ascii d ≠ '.' := by
  intro hpoint
  have hd := h.2 d (by simp)
  rw [isDigit_point hpoint] at hd
  cases hd

/-- A point belongs to the number where a digit follows. -/
theorem Digits.fractionLength {point : UInt8} {decimals : List UInt8} (h : Digits decimals)
    (hpoint : ascii point = '.') (rest : List UInt8) :
    Lexeme.fractionLength (point :: (decimals ++ rest)) = digitsLength (decimals ++ rest) + 1 := by
  have hle := length_le_digitsLength h.2 rest
  have hpos := List.length_pos_iff.2 h.1
  rw [Lexeme.fractionLength, if_pos ⟨hpoint, .inl (by omega)⟩, Nat.add_comm]

/-- And it does where a power of ten follows. -/
theorem Exponent.fractionLength {point : UInt8} {power : List UInt8} (h : Exponent power)
    (hpoint : ascii point = '.') (rest : List UInt8) :
    Lexeme.fractionLength (point :: (power ++ rest)) = 1 := by
  have hle := h.length_le rest
  have hnone : digitsLength (power ++ rest) = 0 :=
    digitsLength_run (h.run (by simp : ∀ b ∈ [], isDigit b = true) rest)
  have hsome : exponentLength (power ++ rest) ≠ 0 := by
    obtain ⟨letter, sign, ds, rfl, -⟩ := h
    simp only [List.length_cons] at hle
    omega
  rw [Lexeme.fractionLength, if_pos ⟨hpoint, .inr hsome⟩, hnone]

/-- Of the bytes after the first, no form takes more than the digits, the fraction and the power of
ten that are found there. -/
theorem NumberForm.length_le {b : UInt8} {bs form power later : List UInt8}
    (h : NumberForm form power) (hsplit : b :: bs = form ++ later) :
    let whole := digitsLength bs
    let fraction := if ascii b = '.' then 0 else fractionLength (bs.drop whole)
    form.length ≤ 1 + (whole + fraction + exponentLength (bs.drop (whole + fraction))) := by
  cases h with
  | @whole digits power hdigits hpower =>
    obtain ⟨d, ds, rfl⟩ := List.exists_cons_of_ne_nil hdigits.1
    rw [List.cons_append, List.cons_append, List.append_assoc, List.cons.injEq] at hsplit
    obtain ⟨rfl, rfl⟩ := hsplit
    obtain ⟨hle, hfraction⟩ := length_le_whole (List.forall_mem_cons.1 hdigits.2).2 hpower later
    simp only [if_neg hdigits.head_ne_point, List.cons_append, List.length_cons]
    rcases hfraction with rfl | hfraction
    · have := length_le_digitsLength (List.forall_mem_cons.1 hdigits.2).2 ([] ++ later)
      rw [List.append_nil]
      omega
    · simp only [hfraction, Nat.add_zero]
      omega
  | @fraction point digits decimals power hdigits hpoint hdecimals hpower =>
    obtain ⟨d, ds, rfl⟩ := List.exists_cons_of_ne_nil hdigits.1
    simp only [List.cons_append, List.append_assoc, List.cons.injEq] at hsplit
    obtain ⟨rfl, rfl⟩ := hsplit
    have hwhole := digitsLength_run (run_point (List.forall_mem_cons.1 hdigits.2).2 hpoint
      (decimals ++ (power ++ later)))
    have hle := (length_le_whole hdecimals.2 hpower later).1
    simp only [if_neg hdigits.head_ne_point, hwhole, List.drop_left,
      hdecimals.fractionLength hpoint]
    rw [← List.drop_drop, List.drop_left, List.drop_succ_cons]
    simp only [List.cons_append, List.length_cons, List.length_append] at hle ⊢
    omega
  | @point point decimals power hpoint hdecimals hpower =>
    rw [List.cons_append, List.append_assoc, List.cons.injEq] at hsplit
    obtain ⟨rfl, rfl⟩ := hsplit
    have hle := (length_le_whole hdecimals.2 hpower later).1
    simp only [if_pos hpoint, Nat.add_zero, List.length_cons] at hle ⊢
    omega
  | @openPoint point digits power hdigits hpoint hpower =>
    obtain ⟨d, ds, rfl⟩ := List.exists_cons_of_ne_nil hdigits.1
    simp only [List.cons_append, List.append_assoc, List.cons.injEq] at hsplit
    obtain ⟨rfl, rfl⟩ := hsplit
    have hwhole := digitsLength_run (run_point (List.forall_mem_cons.1 hdigits.2).2 hpoint
      (power ++ later))
    have hle := hpower.length_le later
    simp only [if_neg hdigits.head_ne_point, hwhole, List.drop_left, hpower.fractionLength hpoint]
    rw [← List.drop_drop, List.drop_left, List.drop_succ_cons, List.drop_zero]
    simp only [List.cons_append, List.length_cons, List.length_append]
    omega

/-- A numeral is the longest number where it stands. -/
theorem Numeral.longest {bytes power rest : List UInt8} (h : Numeral bytes power rest) :
    LongestNumber bytes power rest := by
  refine ⟨h.form, fun form power' later hsplit hform => ?_⟩
  obtain ⟨b, more, rfl⟩ : ∃ b more, bytes = b :: more := by
    cases h with
    | whole hne =>
      obtain ⟨d, ds, rfl⟩ := List.exists_cons_of_ne_nil hne
      exact ⟨_, _, rfl⟩
    | point => exact ⟨_, _, rfl⟩
  obtain ⟨whole, fraction, hwhole, hfraction, hpower, hsum⟩ := h.lengths
  have hle := hform.length_le (show b :: (more ++ rest) = form ++ later from hsplit)
  simp only [hwhole, hfraction, hpower, hsum] at hle
  rw [List.length_cons]
  omega

theorem isNumeralChar_digit {c : Char} (h : Number.isDigit c = true) :
    Number.isNumeralChar c = true := by simp [Number.isNumeralChar, h]

theorem Exponent.chars {power : List UInt8} (h : power = [] ∨ Exponent power) :
    ∀ b ∈ power, Number.isNumeralChar (ascii b) = true := by
  rcases h with rfl | ⟨letter, sign, digits, rfl, hletter, hsign, -, hdigits⟩
  · simp
  simp only [List.forall_mem_cons, List.forall_mem_append]
  refine ⟨?_, ?_, fun b hb => isNumeralChar_digit (hdigits b hb)⟩
  · rcases hletter with h | h <;> (rw [h]; decide)
  · rcases hsign with rfl | ⟨s, rfl, hs⟩
    · simp
    · rw [List.forall_mem_singleton]
      rcases hs with h | h <;> (rw [h]; decide)

/-- A number is made of the characters of a numeral. -/
theorem NumberForm.chars {bytes power : List UInt8} (h : NumberForm bytes power) :
    ∀ b ∈ bytes, Number.isNumeralChar (ascii b) = true := by
  have hdigits : ∀ {ds : List UInt8}, Digits ds → ∀ b ∈ ds, Number.isNumeralChar (ascii b) = true :=
    fun hds b hb => isNumeralChar_digit (hds.2 b hb)
  have hpoint : ∀ {p : UInt8}, ascii p = '.' → Number.isNumeralChar (ascii p) = true := by
    intro p hp
    rw [hp]
    decide
  cases h with
  | whole hd hpower => exact List.forall_mem_append.2 ⟨hdigits hd, Exponent.chars hpower⟩
  | fraction hd hp hf hpower =>
    simp only [List.forall_mem_cons, List.forall_mem_append]
    exact ⟨hdigits hd, hpoint hp, hdigits hf, Exponent.chars hpower⟩
  | point hp hf hpower =>
    simp only [List.forall_mem_cons, List.forall_mem_append]
    exact ⟨hpoint hp, hdigits hf, Exponent.chars hpower⟩
  | openPoint hd hp hpower =>
    simp only [List.forall_mem_cons, List.forall_mem_append]
    exact ⟨hdigits hd, hpoint hp, Exponent.chars (.inr hpower)⟩

end Lexeme

namespace Number

theorem toNat_digit {c : Char} (h : isDigit c = true) : 48 ≤ c.toNat ∧ c.toNat ≤ 57 := by
  simpa [isDigit, Char.le_def, UInt32.le_iff_toNat_le] using h

theorem not_isBlank {c : Char} (h : isNumeralChar c = true) : Text.isBlank c = false := by
  simp only [isNumeralChar, Bool.or_eq_true, beq_iff_eq, or_assoc] at h
  rcases h with h | rfl | rfl | rfl | rfl | rfl
  · obtain ⟨hlow, hhigh⟩ := toNat_digit h
    simp only [Text.isBlank, Bool.or_eq_false_iff, Bool.and_eq_false_iff, decide_eq_false_iff_not,
      beq_eq_false_iff_ne, ne_eq]
    omega
  all_goals decide

theorem trim_eq {cs : List Char} (h : ∀ c ∈ cs, Text.isBlank c = false) : Text.trim cs = cs := by
  have hdrop : ∀ {ds : List Char}, (∀ c ∈ ds, Text.isBlank c = false) →
      ds.dropWhile Text.isBlank = ds := by
    intro ds hds
    cases ds with
    | nil => rfl
    | cons d ds => rw [List.dropWhile_cons_of_neg (by simp [hds d (by simp)])]
  rw [Text.trim, hdrop h, hdrop fun c hc => h c (List.mem_reverse.1 hc), List.reverse_reverse]

/-- A text of the characters of a numeral is read as it is. -/
theorem parseText_eq {text : String} (hne : text.toList ≠ [])
    (h : ∀ c ∈ text.toList, isNumeralChar c = true) : parseText text = readNumeral text.toList := by
  rw [parseText, trim_eq fun c hc => not_isBlank (h c hc)]
  exact if_pos ⟨hne, List.all_eq_true.2 h⟩

end Number

namespace Lexeme

/-- The text of a numeral is read as its bytes are. -/
theorem Numeral.parseText {bytes power rest : List UInt8} (h : Numeral bytes power rest) :
    Number.parseText (Text.Utf8.decodeLossy bytes) = Number.readNumeral (bytes.map ascii) := by
  have htext := Text.Utf8.decodeLossy_ascii h.below
  have hchars := h.form.chars
  have hne : bytes ≠ [] := by
    cases h with
    | whole hne => simp [hne]
    | point => simp
  rw [htext, Number.parseText_eq, String.toList_ofList]
  · simpa using hne
  · simpa using hchars

def BeginsNumber (b : UInt8) (bs : List UInt8) : Prop :=
  isDigit b = true ∨ ascii b = '.' ∧ bs.head?.any isDigit = true

/-- What a number is scanned as: a point behind a power of ten is a fault. -/
theorem Numeral.stands {bytes power rest : List UInt8} {bits : UInt64} (h : Numeral bytes power rest)
    (hbits : Number.readNumeral (bytes.map ascii) = some bits) :
    Stands (if power ≠ [] ∧ rest.head?.map ascii = some '.' then .fault .pointAfterExponent
      else .token .number (.number (Float.ofBits bits))) bytes rest := by
  split
  · rename_i hpoint
    exact .pointAfterExponent h hpoint.1 hpoint.2
  · rename_i hpoint
    rw [not_and_or, not_not] at hpoint
    exact .number h hpoint hbits

theorem keywords_ne_number : ∀ p ∈ Kind.keywords, p.2 ≠ .number := by decide

/-- A number token is a numeral and has the value that is read from it. -/
theorem Stands.numeral {literal : Literal} {bytes rest : List UInt8}
    (h : Stands (.token .number literal) bytes rest) : ∃ power bits, Numeral bytes power rest ∧
      Number.readNumeral (bytes.map ascii) = some bits ∧ literal = .number (Float.ofBits bits) := by
  generalize hcontent : Content.token .number literal = content at h
  cases h with
  | blank | lineComment | blockComment | unterminated | pointAfterExponent | unexpected | string |
    dot => cases hcontent
  | number hnumeral _ hbits =>
    cases hcontent
    exact ⟨_, _, hnumeral, hbits, rfl⟩
  | @word first more rest hfirst hrun =>
    have hkind := (Content.token.inj hcontent).1
    rw [Kind.ofWord] at hkind
    cases hl : Kind.keywords.lookup (String.ofList ((first :: more).map ascii)) with
    | none =>
      rw [hl] at hkind
      cases hkind
    | some kind =>
      obtain ⟨l₁, l₂, hp, -⟩ := List.lookup_eq_some_iff.1 hl
      rw [hl, Option.getD_some] at hkind
      exact absurd hkind.symm (keywords_ne_number _ (hp ▸ List.mem_append_right l₁ List.mem_cons_self))
  | sign hsign =>
    cases hcontent
    unfold sign? at hsign
    split at hsign <;> cases hsign
  | operator hop =>
    cases hcontent
    unfold operator? at hop
    split at hop <;> cases hop
  | @pair b c rest alone kind pairs hop hpair =>
    cases hcontent
    obtain ⟨l₁, l₂, hp, -⟩ := List.lookup_eq_some_iff.1 hpair
    have hall : ∀ p ∈ pairs, p.2 ≠ .number := by
      unfold operator? at hop
      split at hop <;> cases hop <;> simp
    exact absurd rfl (hall (ascii c, .number) (by rw [hp]; simp))

/-- No fault is a number that cannot be read. -/
theorem Stands.readable {fault : LexFault} {bytes rest : List UInt8}
    (h : Stands (.fault fault) bytes rest) (text : String) : fault ≠ .invalidNumber text := by
  generalize hcontent : Content.fault fault = content at h
  cases h <;> cases hcontent <;> simp

end Lexeme

/-- What a scan yields stands somewhere in the text, the end marker apart. -/
theorem Yields.stands {text bytes : List UInt8} {p : Nat} {segments : List Segment}
    {items : List (Except (Located LexFault) Token)} (h : Yields text p segments items)
    (hsegments : Segments bytes segments) :
    (∀ e, .error e ∈ items → ∃ taken rest, Lexeme.Stands (.fault e.fault) taken rest) ∧
    ∀ t, .ok t ∈ items → t.kind ≠ .eof →
      ∃ rest, Lexeme.Stands (.token t.kind t.literal) (encode t.lexeme) rest := by
  induction h generalizing bytes with
  | done => simp
  | gap _ ih =>
    cases hsegments with
    | cons _ _ hrest => exact ih hrest
  | fault _ _ ih =>
    cases hsegments with
    | cons _ hstands hrest =>
      obtain ⟨hfaults, htokens⟩ := ih hrest
      refine ⟨fun e he => ?_, fun t ht => htokens t (by simpa using ht)⟩
      rcases List.mem_cons.1 he with he | he
      · cases he
        exact ⟨_, _, hstands⟩
      · exact hfaults e he
  | token _ hlexeme _ _ ih =>
    cases hsegments with
    | cons _ hstands hrest =>
      obtain ⟨hfaults, htokens⟩ := ih hrest
      refine ⟨fun e he => hfaults e (by simpa using he), fun t ht hkind => ?_⟩
      rcases List.mem_cons.1 ht with ht | ht
      · cases ht
        exact ⟨_, hlexeme ▸ hstands⟩
      · exact htokens t ht hkind

/-- What a scan yields stands in some text as what it is said to be. -/
theorem scan_stands (source : String) :
    (∀ e, .error e ∈ scan source → ∃ taken rest, Lexeme.Stands (.fault e.fault) taken rest) ∧
    ∀ t, .ok t ∈ scan source → t.kind ≠ .eof →
      ∃ rest, Lexeme.Stands (.token t.kind t.literal) (encode t.lexeme) rest := by
  have hwhole := Text.Utf8.whole_encode source
  obtain ⟨segments, hsegments, hyields⟩ := Scan.items_yields [] hwhole (Scan.start_at hwhole)
  exact hyields.stands hsegments

/-- **Numbers in a program.** Where a number begins, the scan takes the longest piece that has the
form of a number. It is a fault exactly when it ends with a power of ten and a point follows, and
else a number token. In no program there is a number that cannot be read, and a running program
reads the text of each number token as the number that the token is. -/
theorem numbers_scanned :
    (∀ (place : Place) (b : UInt8) (bs : List UInt8), Lexeme.BeginsNumber b bs →
      ∃ bytes power rest item, b :: bs = bytes ++ rest ∧ Lexeme.LongestNumber bytes power rest ∧
        Scan.items place (b :: bs) = item :: Scan.items (Scan.past place bytes rest) rest ∧
        (power ≠ [] ∧ rest.head?.map Lexeme.ascii = some '.' →
          ∃ fault, item = .error ⟨fault, place⟩ ∧ fault.message = "Unexpected number literal.") ∧
        (¬ (power ≠ [] ∧ rest.head?.map Lexeme.ascii = some '.') →
          ∃ lexeme x, encode lexeme = bytes ∧ item = .ok ⟨.number, lexeme, .number x, place⟩)) ∧
    ∀ source : String,
      (∀ e, .error e ∈ scan source → ∀ text, e.fault ≠ .invalidNumber text) ∧
      ∀ t, .ok t ∈ scan source → t.kind = .number → ∃ x, t.literal = .number x ∧
        ∀ site, Builtin.run .toNumber site [.string t.lexeme] = pure (.number x) := by
  refine ⟨fun place b bs hbegins => ?_, fun source => ⟨fun e he text => ?_, fun t ht hkind => ?_⟩⟩
  · obtain ⟨more, power, rest, rfl, hnumeral⟩ := Lexeme.numeral_front hbegins
    obtain ⟨bits, hbits⟩ := hnumeral.readNumeral
    have hitems := Scan.items_cons (hnumeral.stands hbits) (by split <;> simp) place
    have htext := (Text.Utf8.whole_ascii hnumeral.below).encode_decodeLossy
    by_cases hpoint : power ≠ [] ∧ rest.head?.map Lexeme.ascii = some '.'
    · rw [if_pos hpoint] at hitems
      exact ⟨_, power, rest, _, rfl, hnumeral.longest, hitems, fun _ => ⟨_, rfl, rfl⟩,
        fun h => absurd hpoint h⟩
    · rw [if_neg hpoint] at hitems
      exact ⟨_, power, rest, _, rfl, hnumeral.longest, hitems, fun h => absurd h hpoint,
        fun _ => ⟨_, _, htext, rfl⟩⟩
  · obtain ⟨taken, rest, hstands⟩ := (scan_stands source).1 e he
    exact hstands.readable text
  · obtain ⟨rest, hstands⟩ := (scan_stands source).2 t ht (by simp [hkind])
    rw [hkind] at hstands
    obtain ⟨power, bits, hnumeral, hbits, hliteral⟩ := hstands.numeral
    have hread := hnumeral.parseText
    rw [Text.Utf8.decodeLossy_encode, hbits] at hread
    refine ⟨_, hliteral, fun site => ?_⟩
    simp only [Builtin.run, Builtin.parseNumber, hread, Builtin.ofBits]

/-- The bytes of `1.e5`, where the point has no digit behind it. -/
theorem numbers_scanned_open_point : Lexeme.BeginsNumber 49 [46, 101, 53] ∧
    ∃ bytes power rest, [49, 46, 101, 53] = bytes ++ rest ∧
      Lexeme.LongestNumber bytes power rest := by
  have hbegins : Lexeme.BeginsNumber 49 [46, 101, 53] := .inl rfl
  obtain ⟨bytes, power, rest, item, hsplit, hlongest, -⟩ :=
    numbers_scanned.1 (Scan.start []) 49 [46, 101, 53] hbegins
  exact ⟨hbegins, bytes, power, rest, hsplit, hlongest⟩

end Scriptling
