import Scriptling.Token.Scan
import Scriptling.Proofs.Lexemes

namespace Scriptling

open Text.Utf8 (Whole encode)

def newline : UInt8 := 10

/-- Where the line of the byte `p` begins: at the front of the text or behind a line break, with no
line break from there to `p`. -/
structure LineStart (text : List UInt8) (p start : Nat) : Prop where
  le : start ≤ p
  fresh : start = 0 ∨ ∃ before, text.take start = before ++ [newline]
  unbroken : newline ∉ (text.take p).drop start

/-- The text of the line that begins at a byte: what stands before the line break, less the carriage
returns at its end. -/
def LineText (text : List UInt8) (start : Nat) (line : String) : Prop :=
  (∃ k, encode line ++ List.replicate k 13 = (text.drop start).takeWhile (· != newline)) ∧
    line.toList.getLast? ≠ some '\r'

/-- The place of the byte `p` of a text, or of its end. -/
structure Place.At (place : Place) (text : List UInt8) (p : Nat) : Prop where
  line : place.line = 1 + (text.take p).count newline
  column : ∃ start, LineStart text p start ∧ place.column = p - start + 1 ∧
    LineText text start place.text

structure Segment where
  content : Lexeme.Content
  bytes : List UInt8

/-- The bytes are these segments, one behind the other, and each is what it is said to be. -/
inductive Segments : List UInt8 → List Segment → Prop where
  | nil : Segments [] []
  | cons {content : Lexeme.Content} {bytes rest : List UInt8} {segments : List Segment} :
    bytes ≠ [] → Lexeme.Stands content bytes rest → Segments rest segments →
      Segments (bytes ++ rest) (⟨content, bytes⟩ :: segments)

/-- What the segments from the byte `p` on yield: a token or a fault for each that is no gap, then
the end marker, which no other token is like. -/
inductive Yields (text : List UInt8) :
    Nat → List Segment → List (Except (Located LexFault) Token) → Prop where
  | done {place : Place} :
    place.At text text.length → Yields text text.length [] [.ok ⟨.eof, "", .nil, place⟩]
  | gap {p : Nat} {bytes : List UInt8} {segments : List Segment}
      {items : List (Except (Located LexFault) Token)} :
    Yields text (p + bytes.length) segments items → Yields text p (⟨.gap, bytes⟩ :: segments) items
  | fault {p : Nat} {fault : LexFault} {place : Place} {bytes : List UInt8}
      {segments : List Segment} {items : List (Except (Located LexFault) Token)} :
    place.At text p → Yields text (p + bytes.length) segments items →
      Yields text p (⟨.fault fault, bytes⟩ :: segments) (.error ⟨fault, place⟩ :: items)
  | token {p : Nat} {kind : Kind} {literal : Literal} {lexeme : String} {place : Place}
      {bytes : List UInt8} {segments : List Segment}
      {items : List (Except (Located LexFault) Token)} :
    kind ≠ .eof → encode lexeme = bytes → place.At text p →
      Yields text (p + bytes.length) segments items →
      Yields text p (⟨.token kind literal, bytes⟩ :: segments)
        (.ok ⟨kind, lexeme, literal, place⟩ :: items)

/-- The bytes after the last line break, if there is one. -/
def Scan.lastLine? : List UInt8 → Option (List UInt8)
  | [] => none
  | b :: bs =>
    match lastLine? bs with
    | some line => some line
    | none => if Lexeme.isLineEnd b then some bs else none

/-- The place after some bytes, counted out from all of them at once, given those that follow. -/
def Scan.past (place : Place) (taken rest : List UInt8) : Place :=
  match lastLine? taken with
  | none => along place taken.length
  | some line =>
    ⟨place.line + taken.countP Lexeme.isLineEnd, line.length + 1, lineText (line ++ rest)⟩

theorem Lexeme.ascii_eq_newline {b : UInt8} : ascii b = '\n' ↔ b = newline := by
  rw [← UInt8.toNat_inj, ← toNat_ascii, Char.ext_iff, ← UInt32.toNat_inj]
  rfl

theorem Lexeme.isLineEnd_eq (b : UInt8) : isLineEnd b = (b == newline) := by
  rw [isLineEnd, Bool.eq_iff_iff, beq_iff_eq, beq_iff_eq, ascii_eq_newline]

theorem Lexeme.ne_newline {b : UInt8} {c : Char} (h : ascii b = c) (hc : c ≠ '\n') : newline ≠ b :=
  fun hb => hc (h.symm.trans (ascii_eq_newline.2 hb.symm))

theorem Lexeme.not_isLineEnd : (fun b => !isLineEnd b) = (· != newline) := by
  funext b
  rw [isLineEnd_eq]
  rfl

theorem Lexeme.countP_isLineEnd (bytes : List UInt8) :
    bytes.countP isLineEnd = bytes.count newline := by
  rw [List.count]
  congr 1
  funext b
  exact isLineEnd_eq b

/-- The bytes of a line are a text. -/
theorem Text.Utf8.Whole.line {bytes : List UInt8} (h : Whole bytes) :
    Whole (bytes.takeWhile (· != newline)) := by
  have hrun := Lexeme.run_takeWhile (· != newline) bytes
  have hcut := Lexeme.takeWhile_append_drop (· != newline) bytes
  generalize bytes.takeWhile (· != newline) = line at hrun hcut ⊢
  generalize bytes.drop line.length = rest at hrun hcut
  cases rest with
  | nil => rwa [← hcut, List.append_nil] at h
  | cons b rest =>
    have hb : b = newline := by simpa using hrun.2 b rfl
    rw [← hcut] at h
    exact (h.cut (by rw [hb]; decide)).1

/-- Characters less those of one kind at their end. -/
theorem trimmed_append (c : Char) (cs : List Char) : ∃ k,
    (cs.reverse.dropWhile (· == c)).reverse ++ List.replicate k c = cs ∧
      (cs.reverse.dropWhile (· == c)).reverse.getLast? ≠ some c := by
  have hcut := List.takeWhile_append_dropWhile (p := (· == c)) (l := cs.reverse)
  have hall : ∀ d ∈ cs.reverse.takeWhile (· == c), d = c := fun d hd => by
    simpa using List.mem_takeWhile_imp hd
  refine ⟨(cs.reverse.takeWhile (· == c)).length, ?_, ?_⟩
  · rw [← List.reverse_inj, List.reverse_append, List.reverse_reverse, List.reverse_replicate,
      ← List.eq_replicate_of_mem hall, hcut]
  · rw [List.getLast?_reverse]
    intro h
    have := List.head?_dropWhile_not (· == c) cs.reverse
    rw [h] at this
    simp at this

/-- The text that is kept of a line is the line's. -/
theorem Scan.lineText_eq {bytes : List UInt8} (h : Whole bytes) {text : List UInt8} {start : Nat}
    (hbytes : text.drop start = bytes) : LineText text start (lineText bytes) := by
  obtain ⟨cs, hcs⟩ := h.line
  obtain ⟨k, hk, hlast⟩ := trimmed_append '\r' cs
  have hshown : (Text.Utf8.pieces (Text.Utf8.bytesOf cs)).map Text.Utf8.Piece.shown = cs := by
    rw [Text.Utf8.pieces_bytesOf, List.map_map]
    exact List.map_id cs
  have htext : lineText bytes = String.ofList (cs.reverse.dropWhile (· == '\r')).reverse := by
    rw [lineText, Lexeme.not_isLineEnd, hcs, hshown]
  refine ⟨⟨k, ?_⟩, ?_⟩
  · have hreturns : ∀ k, Text.Utf8.bytesOf (List.replicate k '\r') = List.replicate k 13 := by
      intro k
      induction k with
      | zero => rfl
      | succ k ih => rw [List.replicate_succ, List.replicate_succ, ← ih]; rfl
    rw [hbytes, hcs, htext, Text.Utf8.encode_ofList, ← hreturns, ← Text.Utf8.bytesOf_append, hk]
  · rwa [htext, String.toList_ofList]

theorem Scan.start_at {text : List UInt8} (h : Whole text) : (Scan.start text).At text 0 :=
  ⟨by simp [Scan.start], 0, ⟨Nat.le_refl 0, .inl rfl, by simp⟩, rfl, lineText_eq h rfl⟩

/-- Either there is no line break, or the text is cut behind the last one. -/
theorem Scan.lastLine?_eq (bytes : List UInt8) :
    (lastLine? bytes = none ∧ newline ∉ bytes) ∨
      ∃ before line, lastLine? bytes = some line ∧ bytes = before ++ newline :: line ∧
        newline ∉ line := by
  induction bytes with
  | nil => simp [lastLine?]
  | cons b bytes ih =>
    rcases ih with ⟨hnone, hfree⟩ | ⟨before, line, hsome, rfl, hfree⟩
    · by_cases hb : b = newline
      · refine .inr ⟨[], bytes, ?_, by simp [hb], hfree⟩
        simp [lastLine?, hnone, Lexeme.isLineEnd_eq, hb]
      · refine .inl ⟨by simp [lastLine?, hnone, Lexeme.isLineEnd_eq, hb], ?_⟩
        simp [hfree, Ne.symm hb]
    · exact .inr ⟨b :: before, line, by simp [lastLine?, hsome], rfl, hfree⟩

/-- Behind bytes of a text stands the place of the next one. -/
theorem Place.At.past {place : Place} {before rest : List UInt8} (taken : List UInt8)
    (h : place.At (before ++ (taken ++ rest)) before.length)
    (hwhole : Whole (before ++ (taken ++ rest))) :
    (Scan.past place taken rest).At (before ++ (taken ++ rest)) (before.length + taken.length) := by
  have htake : (before ++ (taken ++ rest)).take (before.length + taken.length) = before ++ taken := by
    rw [← List.append_assoc, ← List.length_append, List.take_left]
  have hline := h.line
  rw [List.take_left] at hline
  rcases Scan.lastLine?_eq taken with ⟨hnone, hfree⟩ | ⟨first, line, hsome, rfl, hfree⟩
  · obtain ⟨start, hstart, hcolumn, htext⟩ := h.column
    have hle := hstart.le
    have hunbroken := hstart.unbroken
    rw [List.take_left] at hunbroken
    simp only [Scan.past, hnone, Scan.along]
    refine ⟨?_, start, ⟨by omega, hstart.fresh, ?_⟩, ?_, htext⟩
    · rw [htake, List.count_append, List.count_eq_zero.2 hfree, Nat.add_zero]
      exact hline
    · rw [htake, List.drop_append_of_le_length hle, List.mem_append]
      exact fun hmem => hmem.elim hunbroken hfree
    · dsimp only
      omega
  · have hsplit : before ++ (first ++ newline :: line ++ rest) =
        (before ++ first ++ [newline]) ++ (line ++ rest) := by simp
    have hlen : (before ++ first ++ [newline]).length = before.length + first.length + 1 := by
      simp [Nat.add_assoc]
    simp only [Scan.past, hsome]
    refine ⟨?_, (before ++ first ++ [newline]).length, ⟨?_, .inr ⟨before ++ first, ?_⟩, ?_⟩, ?_, ?_⟩
    · rw [htake, List.count_append, Lexeme.countP_isLineEnd, hline, Nat.add_assoc]
    · simp only [hlen, List.length_append, List.length_cons]
      omega
    · rw [hsplit, List.take_left]
    · rw [htake, show before ++ (first ++ newline :: line) = (before ++ first ++ [newline]) ++ line by
        simp, List.drop_left]
      exact hfree
    · simp only [hlen, List.length_append, List.length_cons]
      omega
    · refine Scan.lineText_eq ?_ (by rw [hsplit, List.drop_left])
      have hwhole' : Whole ((before ++ first) ++ newline :: (line ++ rest)) := by
        simpa using hwhole
      exact (hwhole'.cut (by decide)).2

theorem Scan.lastLine?_append (as bs : List UInt8) :
    lastLine? (as ++ bs) = (lastLine? bs).or ((lastLine? as).map (· ++ bs)) := by
  induction as with
  | nil => simp [lastLine?]
  | cons a as ih =>
    rw [List.cons_append, lastLine?, ih, lastLine?]
    cases lastLine? bs <;> cases lastLine? as <;> simp

/-- Without line breaks only the column goes on. -/
theorem Scan.past_of_free (place : Place) {taken : List UInt8} (h : newline ∉ taken)
    (rest : List UInt8) : past place taken rest = along place taken.length := by
  rcases lastLine?_eq taken with ⟨hnone, -⟩ | ⟨before, line, -, rfl, -⟩
  · rw [past, hnone]
  · simp at h

/-- Past some bytes and then past more is past all of them. -/
theorem Scan.past_append (place : Place) (as bs rest : List UInt8) :
    past (past place as (bs ++ rest)) bs rest = past place (as ++ bs) rest := by
  have hfree : ∀ cs : List UInt8, lastLine? cs = none → cs.countP Lexeme.isLineEnd = 0 := by
    intro cs hcs
    rcases lastLine?_eq cs with ⟨-, hfree⟩ | ⟨before, line, hline, -⟩
    · rw [Lexeme.countP_isLineEnd, List.count_eq_zero.2 hfree]
    · rw [hcs] at hline
      cases hline
  cases has : lastLine? as with
  | none =>
    cases hbs : lastLine? bs with
    | none => simp [past, lastLine?_append, has, hbs, along, Nat.add_assoc]
    | some line => simp [past, lastLine?_append, has, hbs, along, hfree as has]
  | some first =>
    cases hbs : lastLine? bs with
    | none => simp [past, lastLine?_append, has, hbs, along, hfree bs hbs, Nat.add_right_comm]
    | some line => simp [past, lastLine?_append, has, hbs, Nat.add_assoc]

/-- One byte is a step on, or a new line. -/
theorem Scan.past_single (place : Place) (b : UInt8) (rest : List UInt8) :
    past place [b] rest = if Lexeme.isLineEnd b then nextLine place rest else along place 1 := by
  cases h : Lexeme.isLineEnd b <;> simp [past, lastLine?, h, nextLine, along]

/-- Bytes taken one by one come to the place that is counted from all of them. -/
theorem Scan.through_eq (place : Place) (n : Nat) (bytes : List UInt8) :
    through place n bytes = past place (bytes.take n) (bytes.drop n) := by
  induction n generalizing place bytes with
  | zero => simp [through, past, lastLine?, along]
  | succ n ih =>
    cases bytes with
    | nil => simp [through, past, lastLine?, along]
    | cons b bytes =>
      have hall := past_append place [b] (bytes.take n) (bytes.drop n)
      rw [List.take_append_drop] at hall
      rw [through, ih, ← past_single place b bytes, hall]
      rfl

/-- A lexeme that cannot have a line break ends in its line. -/
theorem Scan.behind_plain (place : Place) {b : UInt8} {more rest : List UInt8}
    (hfirst : Lexeme.ascii b ∉ ['\n', '"'])
    (hcomment : ¬ (Lexeme.ascii b = '/' ∧ (more ++ rest).head?.map Lexeme.ascii = some '*'))
    (hfree : newline ∉ more) :
    behind place b (more ++ rest) more.length = past place (b :: more) rest := by
  simp only [List.mem_cons, List.not_mem_nil, or_false, not_or] at hfirst
  have hb : newline ≠ b := Lexeme.ne_newline rfl hfirst.1
  rw [behind, if_neg hfirst.1, if_neg hcomment, if_neg hfirst.2,
    past_of_free place (List.not_mem_cons_of_ne_of_not_mem hb hfree), List.length_cons, Nat.add_comm]

/-- Behind signs without line breaks the bytes are taken one by one. -/
theorem Scan.through_along (place : Place) {signs : List UInt8} (h : newline ∉ signs)
    (inside rest : List UInt8) :
    through (along place signs.length) inside.length (inside ++ rest) =
      past place (signs ++ inside) rest := by
  rw [through_eq, List.take_left, List.drop_left, ← past_of_free place h (inside ++ rest),
    past_append]

/-- The line breaks of a comment are noted, also those in the two bytes that end it. -/
theorem Scan.behind_comment (place : Place) {slash star : UInt8} {inside tail rest : List UInt8}
    (hslash : Lexeme.ascii slash = '/') (hstar : Lexeme.ascii star = '*')
    (hinside : Lexeme.commentInside (inside ++ (tail ++ rest)) = inside.length)
    (htail : tail = (tail ++ rest).take 2) (more : Nat) :
    behind place slash (star :: (inside ++ (tail ++ rest))) more =
      past place (slash :: star :: (inside ++ tail)) rest := by
  have hsigns : newline ∉ [slash, star] := by
    simpa using ⟨Lexeme.ne_newline hslash (by decide), Lexeme.ne_newline hstar (by decide)⟩
  have hrest : (tail ++ rest).drop 2 = rest := by
    have hcut := List.take_append_drop 2 (tail ++ rest)
    rw [← htail] at hcut
    exact List.append_cancel_left hcut
  have hentered := through_along place hsigns inside (tail ++ rest)
  rw [behind, if_neg (by simp [hslash]), if_pos ⟨hslash, by simp [hstar]⟩]
  simp only [List.drop_succ_cons, List.drop_zero, hinside, List.drop_left]
  rw [show along place 2 = along place [slash, star].length from rfl, hentered, through_eq, ← htail,
    hrest, past_append]
  rfl

/-- The line breaks of a string are noted, whether it is closed or not. -/
theorem Scan.behind_quote (place : Place) {opening : UInt8} {inside closing rest : List UInt8}
    (hopening : Lexeme.ascii opening = '"')
    (hinside : Lexeme.Run (fun b => Lexeme.ascii b != '"') inside (closing ++ rest))
    (hclosing : newline ∉ closing) :
    behind place opening (inside ++ (closing ++ rest)) (inside ++ closing).length =
      past place (opening :: (inside ++ closing)) rest := by
  have hsign : newline ∉ [opening] := by simpa using Lexeme.ne_newline hopening (by decide)
  have hentered := through_along place hsign inside (closing ++ rest)
  rw [behind, if_neg (by simp [hopening]), if_neg (by simp [hopening]), if_pos hopening]
  simp only [hinside.takeWhile, List.length_append, Nat.add_sub_cancel_left]
  rw [show along place 1 = along place [opening].length from rfl, hentered,
    ← past_of_free _ hclosing rest, past_append]
  rfl

theorem Lexeme.Numeric.first {b : UInt8} (h : Numeric b) : ascii b ∉ ['\n', '"', '/'] := by
  intro hmem
  rcases h with h | h
  · rw [isDigit] at h
    revert h
    generalize ascii b = c at hmem
    simp only [List.mem_cons, List.not_mem_nil, or_false] at hmem
    rcases hmem with rfl | rfl | rfl <;> decide
  · generalize ascii b = c at h hmem
    simp only [List.mem_cons, List.not_mem_nil, or_false] at hmem
    rcases hmem with rfl | rfl | rfl <;> revert h <;> decide

theorem Lexeme.Loose.first {b : UInt8} (h : Loose b) : ascii b ∉ ['\n', '"'] := by
  have hblank := h.blank
  simp only [List.mem_cons, List.not_mem_nil, or_false, not_or] at hblank ⊢
  exact ⟨hblank.2.2.2.1, hblank.2.2.2.2.2.1⟩

theorem Lexeme.numeric_newline : ¬ Numeric newline := by
  unfold Numeric
  decide

/-- Nothing but a line break alone, a string and a comment has line breaks, and in those they are
noted. So a lexeme ends at the place that is counted from its bytes, if no unexpected character takes
a line break with it. -/
theorem Lexeme.Stands.behind_eq {content : Content} {b : UInt8} {more rest : List UInt8}
    (h : Stands content (b :: more) rest)
    (hfree : ∀ text, content = .fault (.unexpectedCharacter text) → newline ∉ more)
    (place : Place) :
    Scan.behind place b (more ++ rest) more.length = Scan.past place (b :: more) rest := by
  generalize hbytes : b :: more = bytes at h
  cases h with
  | blank hb =>
    obtain ⟨rfl, rfl⟩ := List.cons.inj hbytes
    by_cases hbreak : ascii b = '\n'
    · rw [Scan.past_single, isLineEnd, hbreak, Scan.behind, if_pos hbreak]
      rfl
    · simp only [List.mem_cons, List.not_mem_nil, or_false, hbreak] at hb
      exact Scan.behind_plain place (by rcases hb with hb | hb | hb <;> simp [hb])
        (by rcases hb with hb | hb | hb <;> simp [hb]) (by simp)
  | lineComment hhash hrun =>
    obtain ⟨rfl, rfl⟩ := List.cons.inj hbytes
    exact Scan.behind_plain place (by simp [hhash]) (by simp [hhash])
      fun hmem => by simpa [isLineEnd_eq] using hrun.1 _ hmem
  | @blockComment slash star inside tail rest hslash hstar hinside hend htail =>
    obtain ⟨rfl, rfl⟩ := List.cons.inj hbytes
    rw [List.cons_append, List.append_assoc]
    exact Scan.behind_comment place hslash hstar (commentInside_eq hinside hend) htail _
  | @string opening closing inside rest text hopening hinside hclosing htext =>
    obtain ⟨rfl, rfl⟩ := List.cons.inj hbytes
    have hrun : Run (fun b => ascii b != '"') inside ([closing] ++ rest) :=
      ⟨fun c hc => by simpa using hinside c hc, by simp [hclosing]⟩
    rw [List.append_assoc]
    exact Scan.behind_quote place hopening hrun (by simpa using ne_newline hclosing (by decide))
  | @unterminated opening inside hopening hinside =>
    obtain ⟨rfl, rfl⟩ := List.cons.inj hbytes
    have hrun : Run (fun b => ascii b != '"') more ([] ++ []) :=
      ⟨fun c hc => by simpa using hinside c hc, by simp⟩
    simpa using Scan.behind_quote place hopening hrun List.not_mem_nil
  | number hnumeral | pointAfterExponent hnumeral =>
    subst hbytes
    have hfirst := (hnumeral.numeric b (by simp)).first
    exact Scan.behind_plain place (fun hmem => hfirst (by simp_all)) (fun hc => hfirst (by simp [hc.1]))
      fun hmem => numeric_newline (hnumeral.numeric _ (by simp [hmem]))
  | dot hb =>
    obtain ⟨rfl, rfl⟩ := List.cons.inj hbytes
    exact Scan.behind_plain place (by simp [hb]) (by simp [hb]) (by simp)
  | word hfirst hrun =>
    obtain ⟨rfl, rfl⟩ := List.cons.inj hbytes
    have hword : ∀ c : Char, (c.isAlpha || c == '_') = false → ascii b ≠ c := by
      rintro c hc rfl
      exact absurd (hfirst.symm.trans hc) (by decide)
    refine Scan.behind_plain place ?_ (fun hc => hword '/' (by decide) hc.1) fun hmem => ?_
    · simpa using ⟨hword '\n' (by decide), hword '"' (by decide)⟩
    · exact absurd (hrun.1 _ hmem) (by decide)
  | sign hsign =>
    obtain ⟨rfl, rfl⟩ := List.cons.inj hbytes
    refine Scan.behind_plain place (sign?_loose hsign).first (fun hc => ?_) (by simp)
    rw [hc.1] at hsign
    cases hsign
  | operator hop hcomment =>
    obtain ⟨rfl, rfl⟩ := List.cons.inj hbytes
    exact Scan.behind_plain place (operator?_loose hop).first hcomment (by simp)
  | @pair b c rest alone kind pairs hop hpair =>
    obtain ⟨rfl, rfl⟩ := List.cons.inj hbytes
    refine Scan.behind_plain place (operator?_loose hop).first (no_comment_of_pair hop hpair rest)
      fun hmem => ?_
    rw [← List.mem_singleton.1 hmem, ascii_eq_newline.2 rfl,
      operator?_blank hop (by decide)] at hpair
    cases hpair
  | unexpected hstray =>
    obtain ⟨rfl, rfl⟩ := List.cons.inj hbytes
    refine Scan.behind_plain place hstray.first (fun hc => ?_) (hfree _ rfl)
    have hoperator := hstray.operator
    rw [hc.1] at hoperator
    cases hoperator

theorem Lexeme.announced_of_later {b : UInt8} (h : Text.Utf8.laterByte b = true) :
    announced b = 1 := by
  rw [Text.Utf8.laterByte_eq, decide_eq_true_eq] at h
  simp only [announced, UInt8.le_iff_toNat_le, UInt8.reduceToNat]
  rw [if_neg (by omega), if_neg (by omega), if_neg (by omega)]

theorem Lexeme.announced_of_width {b : UInt8} {n : Nat} (h : Text.Utf8.width b = n + 1) :
    announced b = n + 1 := by
  rw [Text.Utf8.width_eq] at h
  simp only [announced, UInt8.le_iff_toNat_le, UInt8.reduceToNat]
  split at h
  · rwa [if_neg (by omega), if_neg (by omega), if_neg (by omega)]
  split at h
  · cases h
  split at h
  · rwa [if_pos (by omega)]
  split at h
  · rwa [if_neg (by omega), if_pos (by omega)]
  split at h
  · rwa [if_neg (by omega), if_neg (by omega), if_pos (by omega)]
  · cases h

/-- The bytes that a byte of a text announces are not of other characters. -/
theorem Text.Utf8.Whole.announced {l r : List UInt8} {b : UInt8} (h : Whole (l ++ b :: r)) :
    ∀ x ∈ r.take (Lexeme.announced b - 1), laterByte x = true := by
  obtain ⟨cs, hcs⟩ := h
  -- on the characters: the byte is in the first one, or in the text without it
  induction cs generalizing l with
  | nil => simp [bytesOf] at hcs
  | cons c cs ih =>
    rw [bytesOf, List.flatMap_cons, ← bytesOf] at hcs
    rcases List.append_eq_append_iff.1 hcs with ⟨mid, hc, hrest⟩ | ⟨mid, rfl, hrest⟩
    · cases mid with
      | nil => exact ih (l := []) hrest
      | cons d mid =>
        obtain ⟨rfl, rfl⟩ := List.cons.inj hrest
        obtain ⟨lead, more, hlead, hwidth, hgood, -⟩ := encodeChar_good c
        rw [hlead] at hc
        have hlater := laterByte_of_good hgood
        cases l with
        | nil =>
          obtain ⟨rfl, rfl⟩ := List.cons.inj hc
          rw [Lexeme.announced_of_width hwidth, Nat.add_sub_cancel, List.append_eq, List.take_left]
          exact hlater
        | cons x l =>
          obtain ⟨rfl, rfl⟩ := List.cons.inj hc
          rw [Lexeme.announced_of_later (hlater b (by simp))]
          simp
    · exact ih hrest.symm

/-- In a text an unexpected character does not take a line break with it. -/
theorem Lexeme.Stands.unbroken {content : Content} {before more rest : List UInt8} {b : UInt8}
    (h : Stands content (b :: more) rest) (hwhole : Whole (before ++ b :: (more ++ rest)))
    (text : String) (hcontent : content = .fault (.unexpectedCharacter text)) : newline ∉ more := by
  generalize hbytes : b :: more = bytes at h
  cases h with
  | unexpected hstray hmore =>
    obtain ⟨rfl, rfl⟩ := List.cons.inj hbytes
    intro hmem
    rw [hmore] at hmem
    exact absurd (hwhole.announced _ hmem) (by decide)
  | _ => cases hcontent

def Lexeme.Content.items (content : Content) (bytes : List UInt8) (place : Place) :
    List (Except (Located LexFault) Token) :=
  match content with
  | .gap => []
  | .fault f => [.error ⟨f, place⟩]
  | .token kind literal => [.ok ⟨kind, Text.Utf8.decodeLossy bytes, literal, place⟩]

theorem Scanner.items_eq (s : Scanner) : s.items = match s.next with
    | (none, _) => []
    | (some item, later) => item :: later.items := by
  rw [items]
  split <;> simp [*]

theorem Scan.items_nil (place : Place) : items place [] = [.ok ⟨.eof, "", .nil, place⟩] := by
  rw [items, Scanner.items_eq]
  simp only [Scanner.next, Scanner.find]
  rw [Scanner.items_eq]
  rfl

/-- One step of a scan, by what stands at the front. -/
theorem Scan.items_cons {content : Lexeme.Content} {b : UInt8} {more rest : List UInt8}
    (h : Lexeme.Stands content (b :: more) rest)
    (hfree : ∀ text, content = .fault (.unexpectedCharacter text) → newline ∉ more)
    (place : Place) :
    items place (b :: (more ++ rest)) =
      content.items (b :: more) place ++ items (past place (b :: more) rest) rest := by
  rw [← h.behind_eq hfree place, items, Scanner.items_eq]
  simp only [Scanner.next]
  rw [Scanner.find]
  simp only [h.front, List.take_left, List.drop_left]
  cases content with
  | gap =>
    rw [Lexeme.Content.items, List.nil_append, items, Scanner.items_eq ⟨_, some rest⟩]
    rfl
  | fault | token => rfl

/-- A text has one segmentation. -/
theorem Segments.unique {bytes : List UInt8} {segments others : List Segment}
    (h : Segments bytes segments) (h' : Segments bytes others) : others = segments := by
  induction h generalizing others with
  | nil =>
    generalize hbytes : ([] : List UInt8) = bytes at h'
    cases h' with
    | nil => rfl
    | cons hne => exact absurd (List.append_eq_nil_iff.1 hbytes.symm).1 hne
  | @cons content bytes rest segments hne hstands _ ih =>
    generalize hbytes : bytes ++ rest = all at h'
    cases h' with
    | nil => exact absurd (List.append_eq_nil_iff.1 hbytes).1 hne
    | @cons content' bytes' rest' others hne' hstands' hothers =>
      obtain ⟨b, more, rfl⟩ := List.exists_cons_of_ne_nil hne
      obtain ⟨b', more', rfl⟩ := List.exists_cons_of_ne_nil hne'
      obtain ⟨rfl, hmore⟩ := List.cons.inj hbytes
      have hfront := hstands.front
      rw [show more ++ rest = more' ++ rest' from hmore, hstands'.front] at hfront
      obtain ⟨rfl, hlen⟩ := Lexeme.Front.mk.inj hfront
      obtain ⟨rfl, rfl⟩ := List.append_inj hmore hlen.symm
      rw [ih hothers]

/-- From a byte of a text on, what the scan yields is what the segments do. -/
theorem Scan.items_yields (before : List UInt8) {bytes : List UInt8} {place : Place}
    (hwhole : Whole (before ++ bytes)) (hat : place.At (before ++ bytes) before.length) :
    ∃ segments, Segments bytes segments ∧
      Yields (before ++ bytes) before.length segments (items place bytes) := by
  -- each lexeme takes a byte at least, so the rest is shorter
  induction hn : bytes.length using Nat.strong_induction_on generalizing before bytes place with
  | _ n ih =>
    subst hn
    cases bytes with
    | nil =>
      refine ⟨[], .nil, ?_⟩
      rw [List.append_nil] at hat ⊢
      rw [items_nil]
      exact .done hat
    | cons b bs =>
      obtain ⟨content, more, rest, rfl, hstands⟩ := Lexeme.stands_front hwhole
      have hpast := hat.past (b :: more) hwhole
      have hsplit : before ++ b :: (more ++ rest) = (before ++ b :: more) ++ rest := by simp
      rw [← List.length_append] at hpast
      obtain ⟨segments, hsegments, hyields⟩ := ih rest.length
        (by simp only [List.length_cons, List.length_append]; omega)
        (before ++ b :: more) (by rwa [← hsplit]) (by rwa [← hsplit]) rfl
      rw [← hsplit, List.length_append] at hyields
      refine ⟨⟨content, b :: more⟩ :: segments, .cons (by simp) hstands hsegments, ?_⟩
      rw [items_cons hstands (hstands.unbroken hwhole)]
      cases content with
      | gap => exact .gap hyields
      | fault fault => exact .fault hat hyields
      | token kind literal =>
        exact .token hstands.kind_ne_eof hstands.whole.encode_decodeLossy hat hyields

def Scanner.after (s : Scanner) : Nat → Scanner
  | 0 => s
  | n + 1 => s.next.2.after n

/-- A scanner gives its items one by one, and then nothing however often it is asked. -/
theorem Scanner.next_after (s : Scanner) (n : Nat) : (s.after n).next.1 = s.items[n]? := by
  induction n generalizing s with
  | zero =>
    rw [after, items_eq]
    split <;> simp [*]
  | succ n ih =>
    rw [after, ih, items_eq s]
    split
    · rename_i later hnext
      -- behind the end the scanner stays as it is
      have hend : later.next = (none, later) := by
        cases hleft : s.left with
        | none =>
          simp only [next, hleft, Prod.mk.injEq, true_and] at hnext
          rw [← hnext, next, hleft]
        | some bytes => simp [next, hleft] at hnext
      rw [hnext, items_eq, hend]
      simp
    · rename_i item later hnext
      rw [hnext, List.getElem?_cons_succ]

/-- A text has exactly one cut into tokens, faults and gaps, and a scan yields its tokens and
faults in their order, each with its own text and place, and the end marker last. A scanner gives
them one after the other, and behind the end marker nothing for ever. -/
theorem scan_segments (source : String) :
    (∃ segments, Segments (encode source) segments ∧
      (∀ others, Segments (encode source) others → others = segments) ∧
      Yields (encode source) 0 segments (scan source)) ∧
    ∀ n, ((Scanner.start source).after n).next.1 = (scan source)[n]? := by
  have hwhole := Text.Utf8.whole_encode source
  obtain ⟨segments, hsegments, hyields⟩ :=
    Scan.items_yields [] hwhole (Scan.start_at hwhole)
  exact ⟨⟨segments, hsegments, fun _ => hsegments.unique, hyields⟩, Scanner.next_after _⟩

/-- A token without its place. -/
def Token.unplaced (t : Token) : Kind × String × Literal := (t.kind, t.lexeme, t.literal)

/-- A token that stands in some text. -/
structure Token.Standing (t : Token) : Prop where
  kind : t.kind ≠ .eof
  nonempty : encode t.lexeme ≠ []
  stands : ∃ rest, Lexeme.Stands (.token t.kind t.literal) (encode t.lexeme) rest

/-- The tokens of a text stand in it, the end marker apart. -/
theorem Yields.tokens {text bytes : List UInt8} {p : Nat} {segments : List Segment}
    {items : List (Except (Located LexFault) Token)} (h : Yields text p segments items)
    (hsegments : Segments bytes segments) : ∃ ts place,
      tokensOf items = ts ++ [⟨.eof, "", .nil, place⟩] ∧ ∀ t ∈ ts, t.Standing := by
  induction h generalizing bytes with
  | done => exact ⟨[], _, rfl, by simp⟩
  | gap _ ih =>
    cases hsegments with
    | cons _ _ hrest => exact ih hrest
  | fault _ _ ih =>
    cases hsegments with
    | cons _ _ hrest => exact ih hrest
  | @token p kind literal lexeme place bytes segments items hkind hlexeme _ _ ih =>
    cases hsegments with
    | cons hne hstands hrest =>
      obtain ⟨ts, last, hts, hall⟩ := ih hrest
      subst hlexeme
      refine ⟨⟨kind, lexeme, literal, place⟩ :: ts, last, ?_, ?_⟩
      · rw [List.cons_append, ← hts]
        rfl
      · exact List.forall_mem_cons.2 ⟨⟨hkind, hne, _, hstands⟩, hall⟩

/-- A scan marks the end. -/
theorem tokensOf_scan_end (source : String) : ∃ k ∈ tokensOf (scan source), k.kind = .eof := by
  have hwhole := Text.Utf8.whole_encode source
  obtain ⟨segments, hsegments, hyields⟩ := Scan.items_yields [] hwhole (Scan.start_at hwhole)
  obtain ⟨ts, place, htokens, -⟩ := hyields.tokens hsegments
  have hscan : tokensOf (scan source) = ts ++ [⟨.eof, "", .nil, place⟩] := htokens
  exact ⟨⟨.eof, "", .nil, place⟩, by simp [hscan], rfl⟩

theorem Text.Utf8.decodeLossy_encode (s : String) : decodeLossy (encode s) = s := by
  rw [encode_eq, decodeLossy_bytesOf, String.ofList_toList]

/-- Before a blank and at the end a token is read back. -/
theorem Token.Standing.items {t : Token} (h : t.Standing) (later : List UInt8)
    (hlater : Lexeme.Parted later) (place : Place) :
    Scan.items place (encode t.lexeme ++ later) =
      .ok ⟨t.kind, t.lexeme, t.literal, place⟩ ::
        Scan.items (Scan.past place (encode t.lexeme) later) later := by
  obtain ⟨rest, hstands⟩ := h.stands
  replace hstands := hstands.parted hlater
  have hdecode := Text.Utf8.decodeLossy_encode t.lexeme
  obtain ⟨b, more, hbytes⟩ := List.exists_cons_of_ne_nil h.nonempty
  rw [hbytes] at hstands hdecode ⊢
  rw [List.cons_append, Scan.items_cons hstands (by simp), Lexeme.Content.items, hdecode,
    List.singleton_append]

/-- Tokens with blanks between them are read as they are. -/
theorem Scan.items_joined {ts : List Token} (h : ∀ t ∈ ts, t.Standing) (place : Place) :
    ∃ us : List Token, items place (encode (" ".intercalate (ts.map Token.lexeme))) =
        us.map .ok ∧
      us.map Token.unplaced = ts.map Token.unplaced ++ [(.eof, "", .nil)] := by
  induction ts generalizing place with
  | nil =>
    refine ⟨[⟨.eof, "", .nil, place⟩], ?_, rfl⟩
    rw [List.map_nil, String.intercalate_nil, show encode "" = [] from rfl, items_nil]
    rfl
  | cons t ts ih =>
    obtain ⟨ht, hts⟩ := List.forall_mem_cons.1 h
    cases ts with
    | nil =>
      have hitems := ht.items [] (by simp [Lexeme.Parted]) place
      rw [List.append_nil] at hitems
      refine ⟨[⟨t.kind, t.lexeme, t.literal, place⟩,
        ⟨.eof, "", .nil, past place (encode t.lexeme) []⟩], ?_, rfl⟩
      rw [List.map_singleton, String.intercalate_singleton, hitems, items_nil]
      rfl
    | cons u ts =>
      have hblank : Lexeme.ascii 32 = ' ' := by decide
      generalize hjoined : encode (" ".intercalate ((u :: ts).map Token.lexeme)) = joined at ih
      have hbytes : encode (" ".intercalate ((t :: u :: ts).map Token.lexeme)) =
          encode t.lexeme ++ 32 :: joined := by
        rw [List.map_cons, List.map_cons, String.intercalate_cons_cons, ← List.map_cons,
          Text.Utf8.encode_append, Text.Utf8.encode_append, hjoined, List.append_assoc]
        rfl
      have hparted : Lexeme.Parted (32 :: joined) := by simp [Lexeme.Parted, hblank]
      have hgap : Lexeme.Stands .gap [32] joined := .blank (by rw [hblank]; decide)
      have hskip := items_cons hgap (by simp) (past place (encode t.lexeme) (32 :: joined))
      rw [List.nil_append, Lexeme.Content.items, List.nil_append] at hskip
      obtain ⟨us, hus, hread⟩ := ih hts (past (past place (encode t.lexeme) (32 :: joined)) [32] joined)
      refine ⟨⟨t.kind, t.lexeme, t.literal, place⟩ :: us, ?_, ?_⟩
      · rw [hbytes, ht.items _ hparted, hskip, hus]
        rfl
      · rw [List.map_cons, hread]
        rfl

theorem tokensOf_ok (us : List Token) : tokensOf (us.map .ok) = us := by
  induction us with
  | nil => rfl
  | cons u us ih => exact congrArg (u :: ·) ih

theorem faultsOf_ok (us : List Token) : faultsOf (us.map .ok) = [] := by
  induction us with
  | nil => rfl
  | cons u us ih => exact ih

/-- The tokens of a text written out with single blanks between them, without the end marker. -/
def rejoined (source : String) : String :=
  " ".intercalate (((tokensOf (scan source)).filter (·.kind ≠ .eof)).map Token.lexeme)

/-- The tokens of a text, written out, are a text without faults that has the same tokens. -/
theorem scan_rejoined (source : String) :
    faultsOf (scan (rejoined source)) = [] ∧
      (tokensOf (scan (rejoined source))).map Token.unplaced =
        (tokensOf (scan source)).map Token.unplaced := by
  have hwhole := Text.Utf8.whole_encode source
  obtain ⟨segments, hsegments, hyields⟩ := Scan.items_yields [] hwhole (Scan.start_at hwhole)
  obtain ⟨ts, place, htokens, hstanding⟩ := hyields.tokens hsegments
  have hscan : tokensOf (scan source) = ts ++ [⟨.eof, "", .nil, place⟩] := htokens
  have hfilter : (ts ++ [Token.mk .eof "" .nil place]).filter (·.kind ≠ .eof) = ts := by
    rw [List.filter_append, List.filter_eq_self.2 fun t ht => by simpa using (hstanding t ht).kind]
    simp
  obtain ⟨us, hus, hread⟩ := Scan.items_joined hstanding
    (Scan.start (encode (" ".intercalate (ts.map Token.lexeme))))
  have hagain : scan (rejoined source) = us.map .ok := by
    rw [rejoined, hscan, hfilter]
    exact hus
  rw [hagain, faultsOf_ok, tokensOf_ok, hread, hscan, List.map_append]
  exact ⟨rfl, rfl⟩

end Scriptling
