import Scriptling.Proofs.TakingStatements

namespace Scriptling

namespace Phrase

variable {ts us : List Token}

theorem Ending.as {a a' b : Bool} (h : Ending ⟨a, b⟩ ts) : Ending ⟨a', b⟩ ts := by
  cases h with
  | sign ht => exact .sign ht
  | bare hb => exact .bare hb

theorem VarDecl.as {a a' b : Bool} {s : Stmt} (h : VarDecl ⟨a, b⟩ ts s) :
    VarDecl ⟨a', b⟩ ts s := by
  cases h with
  | plain hk hn he => exact .plain hk hn (he.as)
  | initial hk hn hs he hend => exact .initial hk hn hs he (hend.as)

theorem ForInitial.as {a a' b : Bool} {s : Option Stmt} (h : ForInitial ⟨a, b⟩ ts s) :
    ForInitial ⟨a', b⟩ ts s := by
  cases h with
  | none ht => exact .none ht
  | var hv => exact .var (hv.as)
  | expr he hend => exact .expr he (hend.as)

mutual

theorem Declaration.written {ts : List Token} {s : Stmt} :
    Declaration nearest ts s → Declaration written ts s
  | .class hk hn hp hl hm hr => .class hk hn hp hl hm.written hr
  | .function hk hf => .function hk hf.written
  | .var hv => .var (hv.as)
  | .statement hs => .statement hs.written

theorem Declarations.written {ts : List Token} {ss : List Stmt} :
    Declarations nearest ts ss → Declarations written ts ss
  | .none => .none
  | .more h hd => .more h.written hd.written

theorem Block.written {ts : List Token} {ss : List Stmt} : Block nearest ts ss → Block written ts ss
  | .block hl h hr => .block hl h.written hr

theorem Function.written {ts : List Token} {d : FunctionDecl} :
    Function nearest ts d → Function written ts d
  | .function hn hl hp hr hb => .function hn hl hp hr hb.written

theorem Members.written {ts : List Token} {ms ss : List FunctionDecl} :
    Members nearest ts ms ss → Members written ts ms ss
  | .none => .none
  | .method h hd => .method h.written hd.written
  | .static h hk hd => .static h.written hk hd.written

theorem Statement.written {ts : List Token} {s : Stmt} {opened : Bool} :
    Statement nearest ts s opened → Statement written ts s opened
  | .expr he hend => .expr he (hend.as)
  | .for hk hl hi hc hs hn hr hb => .for hk hl (hi.as) hc hs hn hr hb.written
  | .ifThen hk hl hc hr hs => .ifThen hk hl hc hr hs.written
  | .ifElse hk hl hc hr hs _ ho hd =>
    .ifElse hk hl hc hr hs.written (fun h => by cases h) ho hd.written
  | .while hk hl hc hr hs => .while hk hl hc hr hs.written
  | .return hk hv hend => .return hk hv (hend.as)
  | .break hk hend => .break hk (hend.as)
  | .next hk hend => .next hk (hend.as)
  | .block hb => .block hb.written

end

/-- An `else` behind an open statement goes to the last `if` in it that has none. -/
theorem Statement.adopt {ts us : List Token} {s d : Stmt} {opened opened' : Bool} {otherwise : Token}
    (ho : otherwise.kind = .else) (hd : Statement nearest us d opened') :
    Statement nearest ts s opened → opened = true →
      ∃ s' opened', Statement nearest (ts ++ otherwise :: us) s' opened'
  | .expr _ _, hopen => by cases hopen
  | .for hk hl hi hc hs hn hr hb, hopen => by
    obtain ⟨s', o, h⟩ := Statement.adopt ho hd hb hopen
    exact ⟨_, o, by simpa using Statement.for hk hl hi hc hs hn hr h⟩
  | @Statement.ifThen _ _ _ _ _ inner _ _ _ hk hl hc hr hs, _ => by
    cases hinner : inner with
    | false =>
      have h := Statement.ifElse hk hl hc hr hs (fun _ => hinner) ho hd
      exact ⟨_, opened', by simpa using h⟩
    | true =>
      obtain ⟨s', o, h⟩ := Statement.adopt ho hd hs hinner
      exact ⟨_, true, by simpa using Statement.ifThen hk hl hc hr h⟩
  | .ifElse hk hl hc hr hs hclosed ho' hd', hopen => by
    obtain ⟨s', o, h⟩ := Statement.adopt ho hd hd' hopen
    exact ⟨_, o, by simpa using Statement.ifElse hk hl hc hr hs hclosed ho' h⟩
  | .while hk hl hc hr hs, hopen => by
    obtain ⟨s', o, h⟩ := Statement.adopt ho hd hs hopen
    exact ⟨_, o, by simpa using Statement.while hk hl hc hr h⟩
  | .return _ _ _, hopen => by cases hopen
  | .break _ _, hopen => by cases hopen
  | .next _ _, hopen => by cases hopen
  | .block _, hopen => by cases hopen

mutual

theorem Declaration.settle {ts : List Token} {s : Stmt} :
    Declaration written ts s → ∃ s', Declaration nearest ts s'
  | .class hk hn hp hl hm hr =>
    have ⟨_, _, h⟩ := hm.settle
    ⟨_, .class hk hn hp hl h hr⟩
  | .function hk hf =>
    have ⟨_, h⟩ := hf.settle
    ⟨_, .function hk h⟩
  | .var hv => ⟨_, .var (hv.as)⟩
  | .statement hs =>
    have ⟨_, _, h⟩ := hs.settle
    ⟨_, .statement h⟩

theorem Declarations.settle {ts : List Token} {ss : List Stmt} :
    Declarations written ts ss → ∃ ss', Declarations nearest ts ss'
  | .none => ⟨[], .none⟩
  | .more h hd =>
    have ⟨_, h⟩ := h.settle
    have ⟨_, hd⟩ := hd.settle
    ⟨_, .more h hd⟩

theorem Block.settle {ts : List Token} {ss : List Stmt} :
    Block written ts ss → ∃ ss', Block nearest ts ss'
  | .block hl h hr =>
    have ⟨_, h⟩ := h.settle
    ⟨_, .block hl h hr⟩

theorem Function.settle {ts : List Token} {d : FunctionDecl} :
    Function written ts d → ∃ d', Function nearest ts d'
  | .function hn hl hp hr hb =>
    have ⟨_, h⟩ := hb.settle
    ⟨_, .function hn hl hp hr h⟩

theorem Members.settle {ts : List Token} {ms ss : List FunctionDecl} :
    Members written ts ms ss → ∃ ms' ss', Members nearest ts ms' ss'
  | .none => ⟨[], [], .none⟩
  | .method h hd =>
    have ⟨_, _, h⟩ := h.settle
    have ⟨_, hd⟩ := hd.settle
    ⟨_, _, .method h hd⟩
  | .static h hk hd =>
    have ⟨_, _, h⟩ := h.settle
    have ⟨_, hd⟩ := hd.settle
    ⟨_, _, .static h hk hd⟩

theorem Statement.settle {ts : List Token} {s : Stmt} {opened : Bool} :
    Statement written ts s opened → ∃ s' opened', Statement nearest ts s' opened'
  | .expr he hend => ⟨_, _, .expr he (hend.as)⟩
  | .for hk hl hi hc hs hn hr hb =>
    have ⟨_, _, h⟩ := hb.settle
    ⟨_, _, .for hk hl (hi.as) hc hs hn hr h⟩
  | .ifThen hk hl hc hr hs =>
    have ⟨_, _, h⟩ := hs.settle
    ⟨_, _, .ifThen hk hl hc hr h⟩
  | .ifElse hk hl hc hr hs _ ho hd => by
    obtain ⟨s', o, hs⟩ := hs.settle
    obtain ⟨d', o', hd⟩ := hd.settle
    cases o with
    | false => exact ⟨_, _, .ifElse hk hl hc hr hs (fun _ => rfl) ho hd⟩
    | true =>
      obtain ⟨_, _, h⟩ := Statement.adopt ho hd hs rfl
      exact ⟨_, _, .ifThen hk hl hc hr h⟩
  | .while hk hl hc hr hs =>
    have ⟨_, _, h⟩ := hs.settle
    ⟨_, _, .while hk hl hc hr h⟩
  | .return hk hv hend => ⟨_, _, .return hk hv (hend.as)⟩
  | .break hk hend => ⟨_, _, .break hk (hend.as)⟩
  | .next hk hend => ⟨_, _, .next hk (hend.as)⟩
  | .block hb =>
    have ⟨_, h⟩ := hb.settle
    ⟨_, _, .block h⟩

end

end Phrase

/-- The end marker of a program is not one of its tokens. -/
theorem takeWhile_before_end {ts : List Token} {finish : Token} (hts : ∀ t ∈ ts, t.kind ≠ .eof)
    (hf : finish.kind = .eof) : (ts ++ [finish]).takeWhile (·.kind ≠ .eof) = ts := by
  rw [List.takeWhile_append_of_pos (by simpa using hts)]
  simp [hf]

/-- Strict reading accepts the tokens before the end marker exactly if the rules as written allow
them. The tree it then gives has every `else` at the nearest `if`, and all such trees of these
tokens are the same, numbers apart. -/
theorem parse_exact (nextId : ExprId) (ts : List Token) (finish : Token)
    (hts : ∀ t ∈ ts, t.kind ≠ .eof) (hf : finish.kind = .eof) :
    ((∃ ss, (parse false nextId (ts ++ [finish])).result = .ok ss) ↔
      ∃ ss, Phrase.Program Phrase.written ts ss) ∧
    ∀ ss, (parse false nextId (ts ++ [finish])).result = .ok ss →
      Phrase.Program Phrase.nearest ts ss ∧
        ∀ ss', Phrase.Program Phrase.nearest ts ss' → ss'.map Stmt.bare = ss.map Stmt.bare := by
  have hsound : ∀ ss, (parse false nextId (ts ++ [finish])).result = .ok ss →
      Phrase.Program Phrase.nearest ts ss := by
    intro ss h
    have hp := parse_program h
    rwa [takeWhile_before_end hts hf] at hp
  have hcomplete : ∀ ss, Phrase.Program Phrase.nearest ts ss →
      ∃ ss', (parse false nextId (ts ++ [finish])).result = .ok ss' ∧
        ss'.map Stmt.bare = ss.map Stmt.bare := by
    intro ss h
    apply parse_of_program
    rwa [takeWhile_before_end hts hf]
  refine ⟨⟨?_, ?_⟩, ?_⟩
  · rintro ⟨ss, h⟩
    exact ⟨ss, (hsound ss h).written⟩
  · rintro ⟨ss, h⟩
    obtain ⟨ss', h'⟩ := h.settle
    obtain ⟨ss'', hp, -⟩ := hcomplete ss' h'
    exact ⟨ss'', hp⟩
  · intro ss h
    refine ⟨hsound ss h, fun ss' h' => ?_⟩
    obtain ⟨ss'', hp, hb⟩ := hcomplete ss' h'
    rw [h] at hp
    cases hp
    exact hb.symm

/-- The tokens of `if (a) if (b) c; else d;`. -/
def openElse : List Token :=
  [.synthetic .if "if", .synthetic .leftParen "(", .synthetic .identifier "a",
   .synthetic .rightParen ")", .synthetic .if "if", .synthetic .leftParen "(",
   .synthetic .identifier "b", .synthetic .rightParen ")", .synthetic .identifier "c",
   .synthetic .semicolon ";", .synthetic .else "else", .synthetic .identifier "d",
   .synthetic .semicolon ";"]

def openElseTree (a b c d : ExprId) : List Stmt :=
  [.ifThen (.var a (.synthetic .identifier "a"))
    (.ifElse (.var b (.synthetic .identifier "b")) (.expr (.var c (.synthetic .identifier "c")))
      (.expr (.var d (.synthetic .identifier "d"))))]

/-- The `else` goes to the inner `if`, and no other tree has it at the nearest one. -/
theorem parse_exact_openElse :
    (∀ t ∈ openElse, t.kind ≠ .eof) ∧ (Token.synthetic .eof "").kind = .eof ∧
      ∀ ss, Phrase.Program Phrase.nearest openElse ss → ss.map Stmt.bare = openElseTree 0 0 0 0 := by
  have hts : ∀ t ∈ openElse, t.kind ≠ .eof := by decide
  have hread : (parse false 0 (openElse ++ [.synthetic .eof ""])).result =
      .ok (openElseTree 0 1 2 3) := rfl
  refine ⟨hts, rfl, ?_⟩
  exact ((parse_exact 0 openElse (.synthetic .eof "") hts rfl).2 _ hread).2

end Scriptling
