import Mathlib.Data.List.TakeWhile
import Scriptling.Token.Scan
import Scriptling.Proofs.Phrase
import Scriptling.Proofs.Uses

namespace Scriptling

/-- Not one of the two words that stand for a receiver and its superclass. -/
def Token.Plain (t : Token) : Prop := t.lexeme ≠ "this" ∧ t.lexeme ≠ "super"

/-- Names are plain, and the two words are written as they are called. -/
structure Token.Spelled (t : Token) : Prop where
  name : t.kind = .identifier → t.Plain
  this : t.kind = .this → t.lexeme = "this"
  super : t.kind = .super → t.lexeme = "super"

namespace Text.Utf8

theorem utf8Size_ascii : ∀ n < 128, (Char.ofNat n).utf8Size = 1 := by decide

theorem pieces_ascii {b : UInt8} (rest : List UInt8) (hb : b.toNat < 128) :
    pieces (b :: rest) = .char (Char.ofNat b.toNat) :: pieces rest := by
  have hlt : b < 0x80 := UInt8.lt_iff_toNat_lt.2 hb
  have hhead : head b rest = .char (Char.ofNat b.toNat) := by
    simp [head, width, hlt, goodLength, assemble, leadBits]
  rw [pieces, hhead]
  simp [Piece.length, utf8Size_ascii _ hb]

theorem decodeLossy_ascii {bytes : List UInt8} (h : ∀ b ∈ bytes, b.toNat < 128) :
    decodeLossy bytes = String.ofList (bytes.map Lexeme.ascii) := by
  unfold decodeLossy
  congr 1
  induction bytes with
  | nil => simp [pieces]
  | cons b bytes ih =>
    rw [pieces_ascii _ (h b (by simp)), List.map_cons, ih fun c hc => h c (by simp [hc])]
    rfl

end Text.Utf8

namespace Lexeme

theorem word_below : ∀ n < 256, ((Char.ofNat n).isAlpha || Char.ofNat n == '_' ||
    Number.isDigit (Char.ofNat n)) = true → n < 128 := by
  decide +kernel

theorem ascii_of_isWord {b : UInt8} (h : isWord b = true) : b.toNat < 128 :=
  word_below b.toNat b.toNat_lt h

theorem keywords_spelled : ∀ p ∈ Kind.keywords,
    (p.2 = .this → p.1 = "this") ∧ (p.2 = .super → p.1 = "super") ∧ p.2 ≠ .identifier := by
  decide

theorem ofWord_spelled (word : String) (literal : Literal) (place : Place) :
    Token.Spelled ⟨Kind.ofWord word, word, literal, place⟩ := by
  have hlookup : ∀ kind, Kind.keywords.lookup word = some kind →
      (kind = .this → word = "this") ∧ (kind = .super → word = "super") ∧ kind ≠ .identifier := by
    intro kind h
    obtain ⟨l₁, l₂, hl, -⟩ := List.lookup_eq_some_iff.1 h
    exact keywords_spelled (word, kind) (by rw [hl]; simp)
  cases hw : Kind.keywords.lookup word with
  | none =>
    have hk : Kind.ofWord word = .identifier := by simp [Kind.ofWord, hw]
    refine ⟨fun _ => ⟨?_, ?_⟩, ?_, ?_⟩
    · rintro rfl
      exact absurd hw (by decide)
    · rintro rfl
      exact absurd hw (by decide)
    · simp [hk]
    · simp [hk]
  | some kind =>
    have hk : Kind.ofWord word = kind := by simp [Kind.ofWord, hw]
    obtain ⟨ht, hs, hi⟩ := hlookup kind hw
    exact ⟨fun h => absurd (hk ▸ h) hi, fun h => ht (hk ▸ h), fun h => hs (hk ▸ h)⟩

def IsSign (kind : Kind) : Prop := kind ≠ .identifier ∧ kind ≠ .this ∧ kind ≠ .super

theorem IsSign.spelled {t : Token} (h : IsSign t.kind) : t.Spelled :=
  ⟨fun hk => absurd hk h.1, fun hk => absurd hk h.2.1, fun hk => absurd hk h.2.2⟩

theorem sign?_isSign {c : Char} {kind : Kind} (h : sign? c = some kind) : IsSign kind := by
  unfold sign? at h
  split at h <;> cases h <;> simp [IsSign]

/-- The kinds of operators are no words. -/
theorem operator_isSign {c : Char} {alone : Kind} {pairs : List (Char × Kind)} {rest : List UInt8}
    {kind : Kind} {literal : Literal} (h : operator? c = some (alone, pairs))
    (hk : (operator alone pairs rest).content = .token kind literal) : IsSign kind := by
  have hall : IsSign alone ∧ ∀ p ∈ pairs, IsSign p.2 := by
    unfold operator? at h
    split at h <;> cases h <;> simp [IsSign]
  unfold operator at hk
  split at hk
  · rename_i kind' hl
    cases hk
    obtain ⟨b, -, hb⟩ := Option.bind_eq_some_iff.1 hl
    obtain ⟨l₁, l₂, hp, -⟩ := List.lookup_eq_some_iff.1 hb
    exact hall.2 (ascii b, kind) (by rw [hp]; simp)
  · cases hk
    exact hall.1

/-- A word is spelled as its kind says. -/
theorem word_spelled {first : UInt8} {rest : List UInt8} (hf : isWordStart first = true)
    {kind : Kind} {literal : Literal} (h : (word first rest).content = .token kind literal)
    (place : Place) : Token.Spelled ⟨kind, Text.Utf8.decodeLossy
      (first :: rest.take (word first rest).more), literal, place⟩ := by
  have hword : ∀ b ∈ first :: rest.takeWhile isWord, b.toNat < 128 := by
    intro b hb
    rcases List.mem_cons.1 hb with rfl | hb
    · exact ascii_of_isWord (by simp [isWord, hf])
    · exact ascii_of_isWord (List.mem_takeWhile_imp hb)
  simp only [word, Content.token.injEq] at h ⊢
  obtain ⟨rfl, rfl⟩ := h
  rw [← List.prefix_iff_eq_take.1 (List.takeWhile_prefix isWord), Text.Utf8.decodeLossy_ascii hword]
  exact ofWord_spelled _ _ _

/-- And so is every token. -/
theorem front_spelled {first : UInt8} {rest : List UInt8} {kind : Kind} {literal : Literal}
    (h : (front first rest).content = .token kind literal) (place : Place) :
    Token.Spelled ⟨kind, Text.Utf8.decodeLossy (first :: rest.take (front first rest).more),
      literal, place⟩ := by
  have hnumber : ∀ {first rest}, (number first rest).content = .token kind literal →
      IsSign kind := by
    intro first rest h
    unfold number at h
    dsimp only at h
    generalize (if ascii first = '.' then 0 else fractionLength _) = fraction at h
    split at h
    · cases h
    · split at h <;> cases h
      simp [IsSign]
  unfold front at h ⊢
  dsimp only at h ⊢
  split at h
  · cases h
  split at h
  · cases h
  split at h
  · cases h
  split at h
  · have hs : IsSign kind := by
      simp only [string] at h
      split at h <;> cases h
      simp [IsSign]
    exact hs.spelled
  split at h
  · exact (hnumber h).spelled
  split at h
  · split at h
    · exact (hnumber h).spelled
    · cases h
      exact IsSign.spelled (by simp [IsSign])
  split at h
  · simp only [*, if_false, if_true]
    exact word_spelled ‹_› h place
  · split at h
    · rename_i hs
      cases h
      exact (sign?_isSign hs).spelled
    · rename_i hs
      exact (operator_isSign hs h).spelled
    · cases h

end Lexeme

theorem Scanner.find_spelled (place : Place) (bytes : List UInt8) :
    ∀ t, (find place bytes).1 = .ok t → t.Spelled := by
  fun_induction find place bytes with
  | case1 place =>
    rintro t ⟨⟩
    exact Lexeme.IsSign.spelled (by simp [Lexeme.IsSign])
  | case2 place b bs front rest later hgap ih => exact ih
  | case3 => simp
  | case4 place b bs front rest later kind literal htoken lexeme =>
    rintro t ⟨⟩
    exact Lexeme.front_spelled htoken place

theorem Scanner.items_spelled (s : Scanner) : ∀ t, .ok t ∈ s.items → t.Spelled := by
  fun_induction items s with
  | case1 => simp
  | case2 s item later hnext hsize ih =>
    intro t ht
    rcases List.mem_cons.1 ht with rfl | ht
    · obtain ⟨bytes, -, hfind⟩ := next_eq_some hnext
      exact find_spelled s.place bytes t (by rw [hfind])
    · exact ih t ht

/-- Every token of a text is spelled as its kind says. -/
theorem tokensOf_scan_spelled (source : String) : ∀ t ∈ tokensOf (scan source), t.Spelled := by
  intro t ht
  simp only [tokensOf, List.mem_filterMap] at ht
  obtain ⟨item, hitem, ht⟩ := ht
  cases item with
  | error e => cases ht
  | ok u =>
    cases ht
    exact Scanner.items_spelled _ t hitem

def Use.Spelled (u : Use) : Prop :=
  match u.role with
  | .variable => u.name.Plain
  | .this => u.name.lexeme = "this"
  | .super => u.name.lexeme = "super"

def Stmt.declares : Stmt → Bool
  | .var _ _ | .function _ | .class _ _ _ _ => true
  | _ => false

mutual

/-- Declared names are plain, and no branch and no body of a loop is a declaration. -/
def Stmt.Proper : Stmt → Prop
  | .expr _ => True
  | .var name _ => name.Plain
  | .block body => Stmt.ProperAll body
  | .ifThen _ whenTrue => whenTrue.Proper ∧ whenTrue.declares = false
  | .ifElse _ whenTrue whenFalse =>
    (whenTrue.Proper ∧ whenTrue.declares = false) ∧ whenFalse.Proper ∧ whenFalse.declares = false
  | .while _ body => body.Proper ∧ body.declares = false
  | .for _ _ body => body.Proper ∧ body.declares = false
  | .function decl => decl.name.Plain ∧ decl.Proper
  | .return _ _ => True
  | .break _ => True
  | .next _ => True
  | .class name _ methods statics =>
    name.Plain ∧ FunctionDecl.ProperAll methods ∧ FunctionDecl.ProperAll statics

def Stmt.ProperAll : List Stmt → Prop
  | [] => True
  | s :: ss => s.Proper ∧ Stmt.ProperAll ss

def FunctionDecl.Proper : FunctionDecl → Prop
  | ⟨_, params, body⟩ => (∀ p ∈ params, p.name.Plain) ∧ Stmt.ProperAll body

def FunctionDecl.ProperAll : List FunctionDecl → Prop
  | [] => True
  | d :: ds => d.Proper ∧ FunctionDecl.ProperAll ds

end

theorem Stmt.properAll_append {ss ds : List Stmt} (hs : Stmt.ProperAll ss)
    (hd : Stmt.ProperAll ds) : Stmt.ProperAll (ss ++ ds) := by
  induction ss with
  | nil => exact hd
  | cons s ss ih => exact ⟨hs.1, ih hs.2⟩

theorem FunctionDecl.properAll_append {ds fs : List FunctionDecl}
    (hd : FunctionDecl.ProperAll ds) (hf : FunctionDecl.ProperAll fs) :
    FunctionDecl.ProperAll (ds ++ fs) := by
  induction ds with
  | nil => exact hf
  | cons d ds ih => exact ⟨hd.1, ih hd.2⟩

def Words (ts : List Token) : Prop := ∀ t ∈ ts, t.Spelled

@[simp] theorem words_cons {t : Token} {ts : List Token} :
    Words (t :: ts) ↔ t.Spelled ∧ Words ts := List.forall_mem_cons

@[simp] theorem words_append {ts us : List Token} : Words (ts ++ us) ↔ Words ts ∧ Words us :=
  List.forall_mem_append

def Fair (us : List Use) : Prop := ∀ u ∈ us, u.Spelled

theorem fair_nil : Fair [] := fun _ h => by cases h

@[simp] theorem fair_append {us vs : List Use} : Fair (us ++ vs) ↔ Fair us ∧ Fair vs :=
  List.forall_mem_append

theorem fair_single {u : Use} (h : u.Spelled) : Fair [u] := by
  intro v hv
  rwa [List.mem_singleton.1 hv]

namespace Phrase

mutual

theorem Expression.fair {ts : List Token} {e : Expr} : Expression ts e → Words ts → Fair e.uses
  | .single h, hw => h.fair hw
  | .comma h _, hw => h.fair hw

theorem Assignments.fair {ts : List Token} {es : List Expr} :
    Assignments ts es → Words ts → Fair (Expr.usesAll es)
  | .one h, hw => by
    rw [Expr.usesAll, Expr.usesAll, List.append_nil]
    exact h.fair hw
  | .more h _ h', hw => by
    simp only [words_append, words_cons] at hw
    rw [Expr.usesAll_append, Expr.usesAll, Expr.usesAll, List.append_nil]
    exact fair_append.2 ⟨h.fair hw.1, h'.fair hw.2.2⟩

theorem Assignment.fair {ts : List Token} {e : Expr} : Assignment ts e → Words ts → Fair e.uses
  | .name hn _ h, hw => by
    simp only [words_cons] at hw
    exact fair_append.2 ⟨h.fair hw.2.2, fair_single (hw.1.name hn)⟩
  | .compoundName hn _ h, hw => by
    simp only [words_cons] at hw
    exact fair_append.2 ⟨h.fair hw.2.2, fair_single (hw.1.name hn)⟩
  | .property h _ _ _ h', hw => by
    simp only [words_append, words_cons] at hw
    exact fair_append.2 ⟨h'.fair hw.2.2.2.2, h.fair hw.1⟩
  | .compoundProperty h _ _ _ h', hw => by
    simp only [words_append, words_cons] at hw
    exact fair_append.2 ⟨h'.fair hw.2.2.2.2, h.fair hw.1⟩
  | .ternary h, hw => h.fair hw

theorem Ternary.fair {ts : List Token} {e : Expr} : Ternary ts e → Words ts → Fair e.uses
  | .plain h, hw => h.fair hw
  | .choice hc _ hy _ hn, hw => by
    simp only [words_append, words_cons] at hw
    exact fair_append.2 ⟨hc.fair hw.1, fair_append.2 ⟨hy.fair hw.2.2.1, hn.fair hw.2.2.2.2⟩⟩

theorem Binary.fair {rows : List (List Kind)} {ts : List Token} {e : Expr} :
    Binary rows ts e → Words ts → Fair e.uses
  | .unary h, hw => h.fair hw
  | .tighter h, hw => h.fair hw
  | .join h _ h', hw => by
    simp only [words_append, words_cons] at hw
    unfold joined
    split <;> exact fair_append.2 ⟨h.fair hw.1, h'.fair hw.2.2⟩

theorem Unary.fair {ts : List Token} {e : Expr} : Unary ts e → Words ts → Fair e.uses
  | .sign _ h, hw => h.fair (words_cons.1 hw).2
  | .update _ h, hw => h.fair (words_cons.1 hw).2
  | .postfixed h, hw => h.fair hw

theorem Postfixed.fair {ts : List Token} {e : Expr} : Postfixed ts e → Words ts → Fair e.uses
  | .plain h, hw => h.fair hw
  | .update h _, hw => h.fair (words_append.1 hw).1

theorem Target.fair {ts : List Token} {e : Expr} : Target ts e → Words ts → Fair e.uses
  | .name hn, hw => fair_single ((words_cons.1 hw).1.name hn)
  | .property h _ _, hw => h.fair (words_append.1 hw).1

theorem Call.fair {ts : List Token} {e : Expr} : Call ts e → Words ts → Fair e.uses
  | .primary h, hw => h.fair hw
  | .call h _ ha _, hw => by
    simp only [words_append, words_cons] at hw
    exact fair_append.2 ⟨h.fair hw.1, ha.fair hw.2.2.1⟩
  | .get h _ _, hw => h.fair (words_append.1 hw).1

theorem Arguments.fair {ts : List Token} {es : List Expr} :
    Arguments ts es → Words ts → Fair (Expr.usesAll es)
  | .none, _ => fair_nil
  | .some h _, hw => h.fair hw

theorem Primary.fair {ts : List Token} {e : Expr} : Primary ts e → Words ts → Fair e.uses
  | .false _, _ => fair_nil
  | .true _, _ => fair_nil
  | .nil _, _ => fair_nil
  | .constant _, _ => fair_nil
  | .name hn, hw => fair_single ((words_cons.1 hw).1.name hn)
  | .this ht, hw => fair_single ((words_cons.1 hw).1.this ht)
  | .super hs _ _, hw => fair_single ((words_cons.1 hw).1.super hs)
  | .group _ h _, hw => h.fair (words_append.1 (words_cons.1 hw).2).1

end

theorem Optional.fair {ts : List Token} {o : Option Expr} (h : Optional ts o) (hw : Words ts) :
    Fair (Expr.uses? o) := by
  cases h with
  | none => exact fair_nil
  | some h => exact h.fair hw

theorem Parameter.fair {ts : List Token} {p : Param} (h : Parameter ts p) (hw : Words ts) :
    Fair (Expr.uses? p.fallback) ∧ p.name.Plain := by
  cases h with
  | plain hn => exact ⟨fair_nil, (words_cons.1 hw).1.name hn⟩
  | fallback hn _ h =>
    simp only [words_cons] at hw
    exact ⟨h.fair hw.2.2, hw.1.name hn⟩

theorem Parameters.fair {ts : List Token} {ps : List Param} (h : Parameters ts ps)
    (hw : Words ts) : Fair (Param.usesAll ps) ∧ ∀ p ∈ ps, p.name.Plain := by
  induction h with
  | one h =>
    have hp := h.fair hw
    simpa [Param.usesAll] using hp
  | more _ _ h ih =>
    simp only [words_append, words_cons] at hw
    obtain ⟨hf, hn⟩ := ih hw.1
    have hp := h.fair hw.2.2
    rw [Param.usesAll_append]
    refine ⟨fair_append.2 ⟨hf, by simpa [Param.usesAll] using hp.1⟩, ?_⟩
    exact List.forall_mem_append.2 ⟨hn, by simpa using hp.2⟩

theorem ParameterList.fair {ts : List Token} {ps : List Param} (h : ParameterList ts ps)
    (hw : Words ts) : Fair (Param.usesAll ps) ∧ ∀ p ∈ ps, p.name.Plain := by
  cases h with
  | none => exact ⟨fair_nil, by simp⟩
  | some h => exact h.fair hw

theorem VarDecl.fair {manner : Manner} {ts : List Token} {s : Stmt} (h : VarDecl manner ts s)
    (hw : Words ts) : Fair s.uses ∧ s.Proper := by
  cases h with
  | plain _ hn =>
    simp only [words_cons] at hw
    exact ⟨fair_nil, hw.2.1.name hn⟩
  | initial _ hn _ he =>
    simp only [words_cons, words_append] at hw
    exact ⟨he.fair hw.2.2.2.1, hw.2.1.name hn⟩

theorem Heritage.fair {ts : List Token} {o : Option Superclass} (h : Heritage ts o)
    (hw : Words ts) : Fair (Superclass.uses? o) := by
  cases h with
  | none => exact fair_nil
  | some _ hn =>
    simp only [words_cons] at hw
    exact fair_single (hw.2.1.name hn)

/-- What a first clause adds to a loop is spelled like the rest of it. -/
theorem forLoop_fair {manner : Manner} {is : List Token} {initial : Option Stmt}
    {condition increment : Option Expr} {body : Stmt} (hi : ForInitial manner is initial)
    (hw : Words is) (hc : Fair (Expr.uses? condition)) (hn : Fair (Expr.uses? increment))
    (hb : Fair body.uses ∧ body.Proper) (hd : body.declares = false) :
    Fair (forLoop initial condition increment body).uses ∧
      (forLoop initial condition increment body).Proper ∧
      (forLoop initial condition increment body).declares = false := by
  have hloop : Fair (Stmt.for (condition.getD (.literal (.bool true))) increment body).uses := by
    refine fair_append.2 ⟨?_, fair_append.2 ⟨hb.1, hn⟩⟩
    cases condition with
    | none => exact fair_nil
    | some c => exact hc
  cases hi with
  | none => exact ⟨hloop, ⟨hb.2, hd⟩, rfl⟩
  | var hv =>
    have hvar := hv.fair hw
    refine ⟨?_, ⟨hvar.2, ⟨hb.2, hd⟩, trivial⟩, rfl⟩
    simp only [forLoop, Stmt.uses, Stmt.usesAll, List.append_nil]
    exact fair_append.2 ⟨hvar.1, hloop⟩
  | expr he =>
    refine ⟨?_, ⟨trivial, ⟨hb.2, hd⟩, trivial⟩, rfl⟩
    simp only [forLoop, Stmt.uses, Stmt.usesAll, List.append_nil]
    exact fair_append.2 ⟨he.fair (words_append.1 hw).1, hloop⟩

mutual

theorem Declaration.fair {manner : Manner} {ts : List Token} {s : Stmt} :
    Declaration manner ts s → Words ts → Fair s.uses ∧ s.Proper
  | .class _ hn hp _ hm _, hw => by
    simp only [words_cons, words_append] at hw
    have hms := hm.fair hw.2.2.2.2.1
    exact ⟨fair_append.2 ⟨hp.fair hw.2.2.1, hms.1⟩, hw.2.1.name hn, hms.2⟩
  | .function _ hf, hw => by
    have h := hf.fair (words_cons.1 hw).2
    exact ⟨h.1, h.2⟩
  | .var hv, hw => hv.fair hw
  | .statement hs, hw => ⟨(hs.fair hw).1, (hs.fair hw).2.1⟩

theorem Declarations.fair {manner : Manner} {ts : List Token} {ss : List Stmt} :
    Declarations manner ts ss → Words ts → Fair (Stmt.usesAll ss) ∧ Stmt.ProperAll ss
  | .none, _ => ⟨fair_nil, trivial⟩
  | .more h hd, hw => by
    obtain ⟨hwt, hwu⟩ := words_append.1 hw
    have hs := h.fair hwt
    have hs' := hd.fair hwu
    rw [Stmt.usesAll_append, Stmt.usesAll, Stmt.usesAll, List.append_nil]
    exact ⟨fair_append.2 ⟨hs.1, hs'.1⟩, Stmt.properAll_append hs.2 ⟨hs'.2, trivial⟩⟩

theorem Block.fair {manner : Manner} {ts : List Token} {ss : List Stmt} :
    Block manner ts ss → Words ts → Fair (Stmt.usesAll ss) ∧ Stmt.ProperAll ss
  | .block _ h _, hw => h.fair (words_append.1 (words_cons.1 hw).2).1

theorem Function.fair {manner : Manner} {ts : List Token} {d : FunctionDecl} :
    Function manner ts d → Words ts → Fair d.uses ∧ d.name.Plain ∧ d.Proper
  | .function hn _ hp _ hb, hw => by
    simp only [words_cons, words_append] at hw
    have hps := hp.fair hw.2.2.1
    have hbody := hb.fair hw.2.2.2.2
    exact ⟨fair_append.2 ⟨hps.1, hbody.1⟩, hw.1.name hn, hps.2, hbody.2⟩

theorem Members.fair {manner : Manner} {ts : List Token} {ms ss : List FunctionDecl} :
    Members manner ts ms ss → Words ts →
      Fair (FunctionDecl.usesAll ms ++ FunctionDecl.usesAll ss) ∧
        FunctionDecl.ProperAll ms ∧ FunctionDecl.ProperAll ss
  | .none, _ => ⟨fair_nil, trivial, trivial⟩
  | .method h hd, hw => by
    obtain ⟨hwt, hwu⟩ := words_append.1 hw
    obtain ⟨hf, hms, hss⟩ := h.fair hwt
    have hfd := hd.fair hwu
    simp only [FunctionDecl.usesAll_append, FunctionDecl.usesAll, List.append_nil, fair_append] at hf ⊢
    exact ⟨⟨⟨hf.1, hfd.1⟩, hf.2⟩, FunctionDecl.properAll_append hms ⟨hfd.2.2, trivial⟩, hss⟩
  | .static h _ hd, hw => by
    simp only [words_append, words_cons] at hw
    obtain ⟨hf, hms, hss⟩ := h.fair hw.1
    have hfd := hd.fair hw.2.2
    simp only [FunctionDecl.usesAll_append, FunctionDecl.usesAll, List.append_nil, fair_append] at hf ⊢
    exact ⟨⟨hf.1, hf.2, hfd.1⟩, hms, FunctionDecl.properAll_append hss ⟨hfd.2.2, trivial⟩⟩

theorem Statement.fair {manner : Manner} {ts : List Token} {s : Stmt} {opened : Bool} :
    Statement manner ts s opened → Words ts → Fair s.uses ∧ s.Proper ∧ s.declares = false
  | .expr h _, hw => ⟨h.fair (words_append.1 hw).1, trivial, rfl⟩
  | .for _ _ hi hc _ hn _ hb, hw => by
    simp only [words_cons, words_append] at hw
    obtain ⟨hf, hp, hd⟩ := hb.fair hw.2.2.2.2.2.2.2
    exact forLoop_fair hi hw.2.2.1 (hc.fair hw.2.2.2.1) (hn.fair hw.2.2.2.2.2.1) ⟨hf, hp⟩ hd
  | .ifThen _ _ hc _ hs, hw => by
    simp only [words_cons, words_append] at hw
    obtain ⟨hf, hp, hd⟩ := hs.fair hw.2.2.2.2
    exact ⟨fair_append.2 ⟨hc.fair hw.2.2.1, hf⟩, ⟨hp, hd⟩, rfl⟩
  | .ifElse _ _ hc _ hs _ _ hs', hw => by
    simp only [words_cons, words_append] at hw
    obtain ⟨hf, hp, hd⟩ := hs.fair hw.2.2.2.2.1
    obtain ⟨hf', hp', hd'⟩ := hs'.fair hw.2.2.2.2.2.2
    exact ⟨fair_append.2 ⟨hc.fair hw.2.2.1, fair_append.2 ⟨hf, hf'⟩⟩, ⟨⟨hp, hd⟩, hp', hd'⟩, rfl⟩
  | .while _ _ hc _ hs, hw => by
    simp only [words_cons, words_append] at hw
    obtain ⟨hf, hp, hd⟩ := hs.fair hw.2.2.2.2
    exact ⟨fair_append.2 ⟨hc.fair hw.2.2.1, hf⟩, ⟨hp, hd⟩, rfl⟩
  | .return _ hv _, hw => by
    simp only [words_cons, words_append] at hw
    exact ⟨hv.fair hw.2.1, trivial, rfl⟩
  | .break _ _, _ => ⟨fair_nil, trivial, rfl⟩
  | .next _ _, _ => ⟨fair_nil, trivial, rfl⟩
  | .block hb, hw => by
    have h := hb.fair hw
    exact ⟨h.1, h.2, rfl⟩

end

end Phrase

end Scriptling
