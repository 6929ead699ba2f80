import Scriptling.Proofs.Unrolling

namespace Scriptling

/-- The scopes around a place, the innermost first, with a mark at those that only the program with
loops written out has. -/
abbrev Padding := List Bool

namespace Padding

/-- The distance that leads to the same scope when the added ones are counted as well. -/
def stretch : Padding → Nat → Nat
  | [], d => d
  | true :: ξ, d => stretch ξ d + 1
  | false :: _, 0 => 0
  | false :: ξ, d + 1 => stretch ξ d + 1

/-- The innermost scope is not an added one. -/
def Level (ξ : Padding) : Prop := ξ.head? ≠ some true

def inClass (ξ : Padding) (derived : Bool) : Padding :=
  false :: if derived then false :: ξ else ξ

theorem level_cons (ξ : Padding) : Level (false :: ξ) := by simp [Level]

theorem level_nil : Level [] := by simp [Level]

end Padding

/-- The second scopes are the first with empty ones in between. -/
inductive Padded : Padding → List (Table Bool) → List (Table Bool) → Prop
  | outside : Padded [] [] []
  | scope {ξ : Padding} {scopes scopes' : List (Table Bool)} (names : Table Bool) :
      Padded ξ scopes scopes' → Padded (false :: ξ) (names :: scopes) (names :: scopes')
  | added {ξ : Padding} {scopes scopes' : List (Table Bool)} :
      Padded ξ scopes scopes' → Padded (true :: ξ) scopes ([] :: scopes')

namespace Padded

variable {ξ : Padding} {scopes scopes' : List (Table Bool)}

theorem distance?_eq (h : Padded ξ scopes scopes') (name : String) :
    Scope.distance? scopes' name = (Scope.distance? scopes name).map ξ.stretch := by
  induction h with
  | outside => rfl
  | scope names _ ih =>
    simp only [Scope.distance?, List.findIdx?_cons] at ih ⊢
    split
    · rfl
    · rw [ih, Option.map_map, Option.map_map]
      rfl
  | added _ ih =>
    have hskip : ∀ scopes, Scope.distance? ([] :: scopes) name =
        (Scope.distance? scopes name).map (· + 1) := fun scopes => List.findIdx?_cons
    rw [hskip, ih, Option.map_map]
    rfl

theorem initializing_eq (h : Padded ξ scopes scopes') (name : String) :
    Scope.initializing scopes' name = Scope.initializing scopes name := by
  induction h with
  | outside => rfl
  | scope names _ ih =>
    simp only [Scope.initializing, List.any_cons] at ih ⊢
    rw [ih]
  | added _ ih =>
    simp only [Scope.initializing, List.any_cons, Table.get?] at ih ⊢
    rw [ih]
    rfl

/-- The same name in the innermost scope of both. -/
theorem mark {Γ Γ' : Context} (h : Padded ξ Γ.scopes Γ'.scopes) (hξ : ξ.Level) (name : String)
    (defined : Bool) : Padded ξ (Γ.mark name defined).scopes (Γ'.mark name defined).scopes := by
  cases Γ with
  | nil =>
    cases Γ' with
    | nil => exact h
    | cons layer' Γ' =>
      obtain ⟨opener', names'⟩ := layer'
      cases h with
      | added => exact absurd rfl hξ
  | cons layer Γ =>
    cases Γ' with
    | nil => cases h
    | cons layer' Γ' =>
      obtain ⟨opener, names⟩ := layer
      obtain ⟨opener', names'⟩ := layer'
      cases h with
      | scope _ h => exact .scope _ h
      | added => exact absurd rfl hξ

/-- A name that both programs declare is in the same scope of both. -/
theorem enter {Γ Γ' : Context} (h : Padded ξ Γ.scopes Γ'.scopes) (hξ : ξ.Level) (name : String) :
    Padded ξ (Γ.enter name).scopes (Γ'.enter name).scopes :=
  (h.mark hξ name false).mark hξ name true

/-- A scope that both programs open. -/
theorem inside {Γ Γ' : Context} (h : Padded ξ Γ.scopes Γ'.scopes) (opener opener' : Opener) :
    Padded (false :: ξ) (Context.scopes (⟨opener, []⟩ :: Γ))
      (Context.scopes (⟨opener', []⟩ :: Γ')) := .scope [] h

/-- A scope that only the second one opens. -/
theorem beside {Γ Γ' : Context} (h : Padded ξ Γ.scopes Γ'.scopes) (opener' : Opener) :
    Padded (true :: ξ) Γ.scopes (Context.scopes (⟨opener', []⟩ :: Γ')) := .added h

/-- The scopes of a class are opened in both. -/
theorem inClass {Γ Γ' : Context} (h : Padded ξ Γ.scopes Γ'.scopes) (declaration declaration' : Stmt)
    (derived : Bool) : Padded (ξ.inClass derived) (Γ.inClass declaration derived).scopes
      (Γ'.inClass declaration' derived).scopes := by
  cases derived with
  | false => exact .scope _ h
  | true => exact .scope _ (.scope _ h)

/-- Parameters are declared in both. -/
theorem params {ps : List Param} {Γ Γ' : Context} (h : Padded ξ Γ.scopes Γ'.scopes)
    (hξ : ξ.Level) : Padded ξ (Param.after Γ ps).scopes (Param.after Γ' ps).scopes := by
  induction ps generalizing Γ Γ' with
  | nil => exact h
  | cons p ps ih => exact ih (h.enter hξ p.name.lexeme)

/-- All scopes are of both programs. -/
theorem refl : ∀ scopes : List (Table Bool), Padded (scopes.map fun _ => false) scopes scopes
  | [] => .outside
  | names :: scopes => .scope names (refl scopes)

end Padded

/-- What is noted of a program and of the one with loops written out, and which of the two may run
out of depth before the other: the first or the second. -/
structure Pairing where
  notes : ExprId → Option Nat
  notes' : ExprId → Option Nat
  first : Bool

namespace Pairing

/-- A reference leads to the same scope in both programs. That of a superclass is the next one
around the receiver's. -/
structure Meets (P : Pairing) (ξ : Padding) (u : Use) : Prop where
  noted : P.notes' u.id = (P.notes u.id).map ξ.stretch
  super : u.role = .super → ∀ d, P.notes u.id = some d →
    ∃ k, d = k + 1 ∧ ξ.stretch (k + 1) = ξ.stretch k + 1

def MeetsAll (P : Pairing) (ξ : Padding) (us : List Use) : Prop := ∀ u ∈ us, P.Meets ξ u

variable {P : Pairing} {ξ : Padding} {us vs : List Use}

theorem MeetsAll.left (h : P.MeetsAll ξ (us ++ vs)) : P.MeetsAll ξ us :=
  fun u hu => h u (List.mem_append_left _ hu)

theorem MeetsAll.right (h : P.MeetsAll ξ (us ++ vs)) : P.MeetsAll ξ vs :=
  fun u hu => h u (List.mem_append_right _ hu)

theorem MeetsAll.single {u : Use} (h : P.MeetsAll ξ [u]) : P.Meets ξ u := h u (by simp)

mutual

/-- The statements of both programs at a place, with their references. -/
inductive Stmts (P : Pairing) : Padding → Stmt → Stmt → Prop
  | expr {ξ : Padding} {e : Expr} : P.MeetsAll ξ e.uses → Stmts P ξ (.expr e) (.expr e)
  | var {ξ : Padding} {name : Token} {initial : Option Expr} : ξ.Level →
      P.MeetsAll ξ (Expr.uses? initial) → Stmts P ξ (.var name initial) (.var name initial)
  | block {ξ : Padding} {body body' : List Stmt} : Bodies P (false :: ξ) body body' →
      Stmts P ξ (.block body) (.block body')
  | ifThen {ξ : Padding} {condition : Expr} {whenTrue whenTrue' : Stmt} :
      P.MeetsAll ξ condition.uses → Stmts P ξ whenTrue whenTrue' →
      Stmts P ξ (.ifThen condition whenTrue) (.ifThen condition whenTrue')
  | ifElse {ξ : Padding} {condition : Expr} {whenTrue whenTrue' whenFalse whenFalse' : Stmt} :
      P.MeetsAll ξ condition.uses → Stmts P ξ whenTrue whenTrue' →
      Stmts P ξ whenFalse whenFalse' →
      Stmts P ξ (.ifElse condition whenTrue whenFalse) (.ifElse condition whenTrue' whenFalse')
  | while {ξ : Padding} {condition : Expr} {body body' : Stmt} : P.MeetsAll ξ condition.uses →
      Stmts P ξ body body' → Stmts P ξ (.while condition body) (.while condition body')
  | for {ξ : Padding} {condition : Expr} {increment : Option Expr} {body body' : Stmt} :
      P.MeetsAll ξ condition.uses → Stmts P ξ body body' → P.MeetsAll ξ (Expr.uses? increment) →
      Stmts P ξ (.for condition increment body) (.for condition increment body')
  | function {ξ : Padding} {decl decl' : FunctionDecl} : ξ.Level → Functions P ξ decl decl' →
      Stmts P ξ (.function decl) (.function decl')
  | return {ξ : Padding} {keyword : Token} {value : Option Expr} :
      P.MeetsAll ξ (Expr.uses? value) → Stmts P ξ (.return keyword value) (.return keyword value)
  | break {ξ : Padding} (keyword : Token) : Stmts P ξ (.break keyword) (.break keyword)
  | next {ξ : Padding} (keyword : Token) : Stmts P ξ (.next keyword) (.next keyword)
  | class {ξ : Padding} {name : Token} {superclass : Option Superclass}
      {methods methods' statics statics' : List FunctionDecl} : ξ.Level →
      P.MeetsAll ξ (Superclass.uses? superclass) →
      Methods P (ξ.inClass superclass.isSome) methods methods' →
      Methods P (ξ.inClass superclass.isSome) statics statics' →
      Stmts P ξ (.class name superclass methods statics) (.class name superclass methods' statics')
  | unrolled {ξ : Padding} {condition : Expr} {increment : Option Expr} {body body' : Stmt} :
      body.skips = false → P.MeetsAll ξ condition.uses → Stmts P (true :: ξ) body body' →
      P.MeetsAll (true :: ξ) (Expr.uses? increment) →
      Stmts P ξ (.for condition increment body)
        (.while condition (body'.withIncrement increment))
  | enclosed {ξ : Padding} {condition : Expr} {increment : Option Expr} {body body' : Stmt} :
      body.skips = false → P.MeetsAll (true :: ξ) condition.uses →
      Stmts P (true :: true :: ξ) body body' →
      P.MeetsAll (true :: true :: ξ) (Expr.uses? increment) →
      Stmts P ξ (.for condition increment body)
        (.block [.while condition (body'.withIncrement increment)])

inductive Bodies (P : Pairing) : Padding → List Stmt → List Stmt → Prop
  | nil {ξ : Padding} : Bodies P ξ [] []
  | cons {ξ : Padding} {s s' : Stmt} {ss ss' : List Stmt} : Stmts P ξ s s' → Bodies P ξ ss ss' →
      Bodies P ξ (s :: ss) (s' :: ss')

inductive Functions (P : Pairing) : Padding → FunctionDecl → FunctionDecl → Prop
  | body {ξ : Padding} {name : Token} {params : List Param} {body body' : List Stmt} :
      P.MeetsAll (false :: ξ) (Param.usesAll params) → Bodies P (false :: ξ) body body' →
      Functions P ξ ⟨name, params, body⟩ ⟨name, params, body'⟩

inductive Methods (P : Pairing) : Padding → List FunctionDecl → List FunctionDecl → Prop
  | nil {ξ : Padding} : Methods P ξ [] []
  | cons {ξ : Padding} {d d' : FunctionDecl} {ds ds' : List FunctionDecl} : Functions P ξ d d' →
      Methods P ξ ds ds' → Methods P ξ (d :: ds) (d' :: ds')

end

theorem Functions.name_eq {d d' : FunctionDecl} (h : P.Functions ξ d d') : d'.name = d.name := by
  cases h
  rfl

theorem Functions.params_eq {d d' : FunctionDecl} (h : P.Functions ξ d d') :
    d'.params = d.params := by
  cases h
  rfl

mutual

theorem Stmts.unrolls : ∀ {ξ : Padding} {s s' : Stmt}, P.Stmts ξ s s' → s.Unrolls true s'
  | _, _, _, .expr _ => .expr _
  | _, _, _, .var _ _ => .var _ _
  | _, _, _, .block h => .block h.unrolls
  | _, _, _, .ifThen _ h => .ifThen _ h.unrolls
  | _, _, _, .ifElse _ h h' => .ifElse _ h.unrolls h'.unrolls
  | _, _, _, .while _ h => .while _ h.unrolls
  | _, _, _, .for _ h _ => .for _ _ h.unrolls
  | _, _, _, .function _ h => .function h.unrolls
  | _, _, _, .return _ => .return _ _
  | _, _, _, .break keyword => .break keyword
  | _, _, _, .next keyword => .next keyword
  | _, _, _, .class _ _ h h' => .class _ _ h.unrolls h'.unrolls
  | _, _, _, .unrolled hs _ h _ => .unrolled _ _ hs h.unrolls
  | _, _, _, .enclosed hs _ h _ => .enclosed _ _ hs h.unrolls

theorem Bodies.unrolls : ∀ {ξ : Padding} {ss ss' : List Stmt}, P.Bodies ξ ss ss' →
    Stmt.UnrollsAll true ss ss'
  | _, _, _, .nil => .nil
  | _, _, _, .cons h h' => .cons h.unrolls h'.unrolls

theorem Functions.unrolls : ∀ {ξ : Padding} {d d' : FunctionDecl}, P.Functions ξ d d' → d.Unrolls d'
  | _, _, _, .body _ h => .body _ _ h.unrolls

theorem Methods.unrolls : ∀ {ξ : Padding} {ds ds' : List FunctionDecl}, P.Methods ξ ds ds' →
    FunctionDecl.UnrollsAll ds ds'
  | _, _, _, .nil => .nil
  | _, _, _, .cons h h' => .cons h.unrolls h'.unrolls

end

end Pairing

section Sites

variable {S S' : Setting} {first : Bool} {ξ : Padding} {Γ Γ' : Context}

def Setting.pair (S S' : Setting) (first : Bool) : Pairing := ⟨S.notes, S'.notes, first⟩

/-- A reference that is good in both programs leads to the same scope. -/
theorem Setting.Good.meets {u : Use} (h : S.Good ⟨Γ, u⟩) (h' : S'.Good ⟨Γ', u⟩)
    (hΓ : Padded ξ Γ.scopes Γ'.scopes) : (S.pair S' first).Meets ξ u := by
  have hnoted : S'.notes u.id = (S.notes u.id).map ξ.stretch := by
    have hd : (⟨Γ', u⟩ : Site).distance? = (⟨Γ, u⟩ : Site).distance?.map ξ.stretch :=
      hΓ.distance?_eq u.name.lexeme
    rw [h.noted, h'.noted, hd]
  refine ⟨hnoted, fun hr d hd => ?_⟩
  have hspelled := h.spelled
  have hallowed := h.allowed
  have hallowed' := h'.allowed
  rw [Use.Spelled, hr] at hspelled
  rw [Site.Allowed, hr] at hallowed hallowed'
  -- in both programs the receiver's scope is the one before the superclass's
  obtain ⟨k, -, -, -, hthis, hsuper, -⟩ := h.formed.derived hallowed
  obtain ⟨k', -, -, -, hthis', hsuper', -⟩ := h'.formed.derived hallowed'
  rw [hΓ.distance?_eq, hthis, Option.map_some, Option.some.injEq] at hthis'
  rw [hΓ.distance?_eq, hsuper, Option.map_some, Option.some.injEq] at hsuper'
  have hk : S.notes u.id = some (k + 1) := by
    rw [h.noted, Site.distance?, hspelled]
    exact hsuper
  refine ⟨k, ?_, by rw [hsuper', hthis']⟩
  exact Option.some.inj (hd.symm.trans hk)

/-- So do all references of a site. -/
theorem meetsAll_sites {us : List Use} (hΓ : Padded ξ Γ.scopes Γ'.scopes)
    (h : ∀ σ ∈ sitesOf Γ us, S.Good σ) (h' : ∀ σ ∈ sitesOf Γ' us, S'.Good σ) :
    (S.pair S' first).MeetsAll ξ us := fun _ hu =>
  (h _ (List.mem_map_of_mem hu)).meets (h' _ (List.mem_map_of_mem hu)) hΓ

theorem meetsAll_params {ps : List Param} (hξ : ξ.Level) (hΓ : Padded ξ Γ.scopes Γ'.scopes)
    (h : ∀ σ ∈ Param.sites Γ ps, S.Good σ) (h' : ∀ σ ∈ Param.sites Γ' ps, S'.Good σ) :
    (S.pair S' first).MeetsAll ξ (Param.usesAll ps) := by
  induction ps generalizing Γ Γ' with
  | nil => exact fun _ hu => by cases hu
  | cons p ps ih =>
    obtain ⟨hp, hps⟩ := List.forall_mem_append.1 h
    obtain ⟨hp', hps'⟩ := List.forall_mem_append.1 h'
    have hrest := ih (hΓ.enter hξ p.name.lexeme) hps hps'
    exact List.forall_mem_append.2 ⟨meetsAll_sites hΓ hp hp', hrest⟩

/-- The scopes behind a statement. -/
theorem Stmt.Unrolls.padded_after {outside : Bool} {s s' : Stmt} (h : s.Unrolls outside s')
    (hξ : s.declares = true → ξ.Level) (hΓ : Padded ξ Γ.scopes Γ'.scopes) :
    Padded ξ (s.after Γ).scopes (s'.after Γ').scopes := by
  cases h with
  | var name initial => exact hΓ.enter (hξ rfl) name.lexeme
  | function h =>
    have henter := hΓ.enter (hξ rfl) (Γ := Γ)
    rw [Stmt.after, Stmt.after, h.name_eq]
    exact henter _
  | «class» name superclass h h' => exact hΓ.enter (hξ rfl) name.lexeme
  | _ => exact hΓ

theorem Stmt.sites_withIncrement (Γ : Context) {body : Stmt} (hb : body.declares = false)
    (increment : Option Expr) : ∃ opener : Opener, (body.withIncrement increment).sites Γ =
      body.sites (⟨opener, []⟩ :: Γ) ++ sitesOf (⟨opener, []⟩ :: Γ) (Expr.uses? increment) := by
  cases increment with
  | none => exact ⟨.block [body], rfl⟩
  | some e =>
    refine ⟨.block [body, .expr e], ?_⟩
    simp [Stmt.withIncrement, Stmt.sites, Stmt.sitesAll, Stmt.after_of_not_declares hb, Expr.uses?]

mutual

theorem Stmt.Unrolls.pairs : ∀ {outside : Bool} {s s' : Stmt} {ξ : Padding} {Γ Γ' : Context},
    s.Unrolls outside s' → s.Proper → (s.declares = true → ξ.Level) →
    Padded ξ Γ.scopes Γ'.scopes → (∀ σ ∈ s.sites Γ, S.Good σ) → (∀ σ ∈ s'.sites Γ', S'.Good σ) →
    (S.pair S' first).Stmts ξ s s'
  | _, _, _, _, _, _, .expr _, _, _, hΓ, hg, hg' => .expr (meetsAll_sites hΓ hg hg')
  | _, _, _, _, _, _, .var _ _, _, hξ, hΓ, hg, hg' =>
    .var (hξ rfl) (meetsAll_sites (hΓ.mark (hξ rfl) _ false) hg hg')
  | _, _, _, _, _, _, .block h, hp, _, hΓ, hg, hg' =>
    .block (h.pairs hp (Padding.level_cons _) (hΓ.inside _ _) hg hg')
  | _, _, _, _, _, _, .ifThen _ h, hp, _, hΓ, hg, hg' => by
    obtain ⟨hc, hb⟩ := List.forall_mem_append.1 hg
    obtain ⟨hc', hb'⟩ := List.forall_mem_append.1 hg'
    exact .ifThen (meetsAll_sites hΓ hc hc') (h.pairs hp.1 (by simp [hp.2]) hΓ hb hb')
  | _, _, _, _, _, _, .ifElse _ h₁ h₂, hp, _, hΓ, hg, hg' => by
    obtain ⟨hc, hb⟩ := List.forall_mem_append.1 hg
    obtain ⟨hc', hb'⟩ := List.forall_mem_append.1 hg'
    obtain ⟨hb₁, hb₂⟩ := List.forall_mem_append.1 hb
    obtain ⟨hb₁', hb₂'⟩ := List.forall_mem_append.1 hb'
    exact .ifElse (meetsAll_sites hΓ hc hc') (h₁.pairs hp.1.1 (by simp [hp.1.2]) hΓ hb₁ hb₁')
      (h₂.pairs hp.2.1 (by simp [hp.2.2]) hΓ hb₂ hb₂')
  | _, _, _, _, _, _, .while _ h, hp, _, hΓ, hg, hg' => by
    obtain ⟨hc, hb⟩ := List.forall_mem_append.1 hg
    obtain ⟨hc', hb'⟩ := List.forall_mem_append.1 hg'
    exact .while (meetsAll_sites hΓ hc hc') (h.pairs hp.1 (by simp [hp.2]) hΓ hb hb')
  | _, _, _, _, _, _, .for _ _ h, hp, _, hΓ, hg, hg' => by
    obtain ⟨hc, hrest⟩ := List.forall_mem_append.1 hg
    obtain ⟨hc', hrest'⟩ := List.forall_mem_append.1 hg'
    obtain ⟨hb, hi⟩ := List.forall_mem_append.1 hrest
    obtain ⟨hb', hi'⟩ := List.forall_mem_append.1 hrest'
    exact .for (meetsAll_sites hΓ hc hc') (h.pairs hp.1 (by simp [hp.2]) hΓ hb hb')
      (meetsAll_sites hΓ hi hi')
  | _, _, _, ξ, Γ, Γ', @Stmt.Unrolls.function _ decl decl' h, hp, hξ, hΓ, hg, hg' => by
    have henter := hΓ.enter (hξ rfl) (Γ := Γ) decl'.name.lexeme
    have hname := h.name_eq
    rw [Stmt.sites] at hg hg'
    refine .function (hξ rfl) (h.pairs hp.2 ?_ hg hg')
    rw [← hname]
    exact henter
  | _, _, _, _, _, _, .return _ _, _, _, hΓ, hg, hg' => .return (meetsAll_sites hΓ hg hg')
  | _, _, _, _, _, _, .break keyword, _, _, _, _, _ => .break keyword
  | _, _, _, _, _, _, .next keyword, _, _, _, _, _ => .next keyword
  | _, _, _, _, _, _, .class name superclass h₁ h₂, hp, hξ, hΓ, hg, hg' => by
    obtain ⟨hs, hm⟩ := List.forall_mem_append.1 hg
    obtain ⟨hs', hm'⟩ := List.forall_mem_append.1 hg'
    obtain ⟨hm₁, hm₂⟩ := List.forall_mem_append.1 hm
    obtain ⟨hm₁', hm₂'⟩ := List.forall_mem_append.1 hm'
    have henter := hΓ.enter (hξ rfl) name.lexeme
    exact .class (hξ rfl) (meetsAll_sites (hΓ.mark (hξ rfl) _ false) hs hs')
      (h₁.pairs hp.2.1 (henter.inClass _ _ _) hm₁ hm₁')
      (h₂.pairs hp.2.2 (henter.inClass _ _ _) hm₂ hm₂')
  | _, _, _, _, _, Γ', .unrolled _ increment hskips h, hp, _, hΓ, hg, hg' => by
    obtain ⟨hc, hrest⟩ := List.forall_mem_append.1 hg
    obtain ⟨hc', hrest'⟩ := List.forall_mem_append.1 hg'
    obtain ⟨hb, hi⟩ := List.forall_mem_append.1 hrest
    obtain ⟨opener, heq⟩ :=
      Stmt.sites_withIncrement Γ' (h.declares_eq.trans hp.2) increment
    rw [heq] at hrest'
    obtain ⟨hb', hi'⟩ := List.forall_mem_append.1 hrest'
    exact .unrolled hskips (meetsAll_sites hΓ hc hc')
      (h.pairs hp.1 (by simp [hp.2]) (hΓ.beside _) hb hb') (meetsAll_sites (hΓ.beside _) hi hi')
  | _, _, _, _, _, Γ', @Stmt.Unrolls.enclosed condition increment _ body' hskips h, hp, _, hΓ, hg,
      hg' => by
    obtain ⟨hc, hrest⟩ := List.forall_mem_append.1 hg
    rw [Stmt.sites, Stmt.sitesAll, Stmt.sitesAll, List.append_nil, Stmt.sites] at hg'
    obtain ⟨hc', hrest'⟩ := List.forall_mem_append.1 hg'
    obtain ⟨hb, hi⟩ := List.forall_mem_append.1 hrest
    obtain ⟨opener, heq⟩ := Stmt.sites_withIncrement
      (⟨.block [.while condition (body'.withIncrement increment)], []⟩ :: Γ')
      (h.declares_eq.trans hp.2) increment
    rw [heq] at hrest'
    obtain ⟨hb', hi'⟩ := List.forall_mem_append.1 hrest'
    exact .enclosed hskips (meetsAll_sites (hΓ.beside _) hc hc')
      (h.pairs hp.1 (by simp [hp.2]) ((hΓ.beside _).beside _) hb hb')
      (meetsAll_sites ((hΓ.beside _).beside _) hi hi')

theorem Stmt.UnrollsAll.pairs : ∀ {outside : Bool} {ss ss' : List Stmt} {ξ : Padding}
    {Γ Γ' : Context}, Stmt.UnrollsAll outside ss ss' → Stmt.ProperAll ss → ξ.Level →
    Padded ξ Γ.scopes Γ'.scopes → (∀ σ ∈ Stmt.sitesAll Γ ss, S.Good σ) →
    (∀ σ ∈ Stmt.sitesAll Γ' ss', S'.Good σ) → (S.pair S' first).Bodies ξ ss ss'
  | _, _, _, _, _, _, .nil, _, _, _, _, _ => .nil
  | _, _, _, _, _, _, .cons h h', hp, hξ, hΓ, hg, hg' => by
    obtain ⟨hs, hss⟩ := List.forall_mem_append.1 hg
    obtain ⟨hs', hss'⟩ := List.forall_mem_append.1 hg'
    exact .cons (h.pairs hp.1 (fun _ => hξ) hΓ hs hs')
      (h'.pairs hp.2 hξ (h.padded_after (fun _ => hξ) hΓ) hss hss')

theorem FunctionDecl.Unrolls.pairs : ∀ {d d' : FunctionDecl} {ξ : Padding} {Γ Γ' : Context},
    d.Unrolls d' → d.Proper → Padded ξ Γ.scopes Γ'.scopes → (∀ σ ∈ d.sites Γ, S.Good σ) →
    (∀ σ ∈ d'.sites Γ', S'.Good σ) → (S.pair S' first).Functions ξ d d'
  | _, _, ξ, _, _, .body _ _ h, hp, hΓ, hg, hg' => by
    obtain ⟨hps, hb⟩ := List.forall_mem_append.1 hg
    obtain ⟨hps', hb'⟩ := List.forall_mem_append.1 hg'
    have hlevel := Padding.level_cons ξ
    exact .body (meetsAll_params hlevel (hΓ.inside _ _) hps hps')
      (h.pairs hp.2 hlevel ((hΓ.inside _ _).params hlevel) hb hb')

theorem FunctionDecl.UnrollsAll.pairs : ∀ {ds ds' : List FunctionDecl} {ξ : Padding}
    {Γ Γ' : Context}, FunctionDecl.UnrollsAll ds ds' → FunctionDecl.ProperAll ds →
    Padded ξ Γ.scopes Γ'.scopes → (∀ σ ∈ FunctionDecl.sitesAll Γ ds, S.Good σ) →
    (∀ σ ∈ FunctionDecl.sitesAll Γ' ds', S'.Good σ) → (S.pair S' first).Methods ξ ds ds'
  | _, _, _, _, _, .nil, _, _, _, _ => .nil
  | _, _, _, _, _, .cons h h', hp, hΓ, hg, hg' => by
    obtain ⟨hd, hds⟩ := List.forall_mem_append.1 hg
    obtain ⟨hd', hds'⟩ := List.forall_mem_append.1 hg'
    exact .cons (h.pairs hp.1 hΓ hd hd') (h'.pairs hp.2 hΓ hds hds')

end

end Sites

end Scriptling
