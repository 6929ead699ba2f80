import Scriptling.Proofs.ReadingSteps
import Scriptling.Proofs.Uses
import Scriptling.Proofs.Parser

namespace Scriptling

/-- References with different numbers, all of them in a range. -/
structure Spread (lo hi : Nat) (us : List Use) : Prop where
  le : lo ≤ hi
  nodup : (us.map Use.id).Nodup
  within : ∀ u ∈ us, lo ≤ u.id ∧ u.id < hi

namespace Spread

variable {lo mid hi : Nat} {us vs : List Use}

theorem nil (h : lo ≤ hi) : Spread lo hi [] := ⟨h, by simp, by simp⟩

theorem single {u : Use} (h : u.id = lo) : Spread lo (lo + 1) [u] :=
  ⟨by omega, by simp, by simp [h]⟩

theorem append (hu : Spread lo mid us) (hv : Spread mid hi vs) : Spread lo hi (us ++ vs) := by
  refine ⟨Nat.le_trans hu.le hv.le, ?_, ?_⟩
  · rw [List.map_append, List.nodup_append]
    refine ⟨hu.nodup, hv.nodup, ?_⟩
    intro i hi j hj
    obtain ⟨u, hum, rfl⟩ := List.mem_map.1 hi
    obtain ⟨v, hvm, rfl⟩ := List.mem_map.1 hj
    have := (hu.within u hum).2
    have := (hv.within v hvm).1
    omega
  · intro u hm
    have hlo := hu.le
    have hhi := hv.le
    rcases List.mem_append.1 hm with hm | hm
    · have := hu.within u hm
      exact ⟨this.1, by omega⟩
    · have := hv.within u hm
      exact ⟨by omega, this.2⟩

theorem perm (h : Spread lo hi us) (hp : us.Perm vs) : Spread lo hi vs :=
  ⟨h.le, (hp.map Use.id).nodup h.nodup, fun v hv => h.within v (hp.mem_iff.2 hv)⟩

/-- Numbers may be left out. -/
theorem skip (h : lo ≤ mid) (hv : Spread mid hi vs) : Spread lo hi vs :=
  nil h |>.append hv

theorem wait (hu : Spread lo mid us) (h : mid ≤ hi) : Spread lo hi us := by
  simpa using hu.append (nil h)

end Spread

namespace Parse

/-- A step that never takes numbers back, and what is claimed of the numbers before and after. -/
structure Numbers {α : Type} (p : Parse Cursor α) (F : Nat → Nat → α → Prop) : Prop where
  grows : ∀ c, c.nextId ≤ (left (p c)).nextId
  claim : ∀ c a c', p c = .ok a c' → F c.nextId c'.nextId a

variable {α β : Type} {p : Parse Cursor α} {q : α → Parse Cursor β} {F F' : Nat → Nat → α → Prop}
  {G : Nat → Nat → β → Prop}

theorem Numbers.mono (h : Numbers p F) (hf : ∀ lo hi a, lo ≤ hi → F lo hi a → F' lo hi a) :
    Numbers p F' := by
  refine ⟨h.grows, fun c a c' hp => hf _ _ _ ?_ (h.claim c a c' hp)⟩
  simpa [hp, left] using h.grows c

theorem Numbers.pure {a : α} (h : ∀ i, F i i a) : Numbers (pure a) F :=
  ⟨fun _ => Nat.le_refl _, fun c a' c' hp => by cases hp; exact h _⟩

theorem Numbers.refuse {what : Expected} : Numbers (refuse what : Parse Cursor α) F :=
  ⟨fun _ => Nat.le_refl _, fun _ _ _ hp => by cases hp⟩

theorem Numbers.bind (hp : Numbers p F)
    (hq : ∀ a, Numbers (q a) fun mid hi b => ∀ lo, lo ≤ mid → F lo mid a → G lo hi b) :
    Numbers (p >>= q) G := by
  constructor
  · intro c
    have h := hp.grows c
    rw [bind_eq]
    cases hr : p c with
    | ok a c₁ => exact Nat.le_trans (by simpa [hr, left] using h) ((hq a).grows c₁)
    | error e c₁ => simpa [hr, left] using h
  · intro c b c' h
    obtain ⟨a, c₁, h₁, h₂⟩ := bind_ok.1 h
    have hle : c.nextId ≤ c₁.nextId := by simpa [h₁, left] using hp.grows c
    exact (hq a).claim c₁ b c' h₂ c.nextId hle (hp.claim c a c₁ h₁)

theorem Numbers.map {f : α → β} (hp : Numbers p fun lo hi a => G lo hi (f a)) :
    Numbers (f <$> p) G := by
  constructor
  · intro c
    have h := hp.grows c
    simp only [Functor.map, EStateM.map]
    cases hr : p c <;> simpa [hr, left] using h
  · intro c b c' h
    simp only [Functor.map, EStateM.map] at h
    split at h <;> cases h
    exact hp.claim _ _ _ ‹_›

def Idle {α : Type} (p : Parse Cursor α) : Prop := ∀ c, (left (p c)).nextId = c.nextId

theorem Numbers.idle (hp : Idle p) (hq : ∀ a, Numbers (q a) G) : Numbers (p >>= q) G := by
  refine .bind (F := fun lo hi _ => lo = hi) ⟨fun c => Nat.le_of_eq (hp c).symm, ?_⟩
    fun a => (hq a).mono ?_
  · intro c a c' h
    simpa [h, left] using (hp c).symm
  · rintro mid hi b - hg lo - rfl
    exact hg

theorem idle_acceptAny (kinds : List Kind) : Idle (acceptAny kinds) := by
  intro c
  rw [acceptAny_eq]
  split
  · rfl
  · split <;> rfl

theorem idle_expect (kind : Kind) (what : Expected) : Idle (expect kind what) := by
  intro c
  rw [expect_eq]
  split
  · rfl
  · split <;> rfl

theorem idle_terminator (what : Expected) : Idle (terminator what) := by
  intro c
  rw [terminator_eq]
  split <;> split <;> rfl

theorem Numbers.fresh {q : ExprId → Parse Cursor β}
    (h : ∀ i, Numbers (q i) fun mid hi b => mid = i + 1 → G i hi b) : Numbers (fresh >>= q) G :=
  ⟨fun c => Nat.le_trans (Nat.le_succ _) ((h c.nextId).grows { c with nextId := c.nextId + 1 }),
    fun c b c' hp => (h c.nextId).claim { c with nextId := c.nextId + 1 } b c' hp rfl⟩

/-- A loop numbers apart what its steps do. -/
theorem Numbers.iterate {step : α → Parse Cursor (Option α)}
    (h : ∀ a, Numbers (step a) fun mid hi o =>
      ∀ lo, F lo mid a → F lo hi (o.getD a)) (bound : Nat) (a : α) :
    Numbers (iterate step bound a) fun mid hi b => ∀ lo, F lo mid a → F lo hi b := by
  induction bound generalizing a with
  | zero => exact .pure fun i lo hl => hl
  | succ bound ih =>
    refine .bind (h a) fun o => ?_
    cases o with
    | none => exact .pure fun i lo _ hn lo' hl => hn lo' hl
    | some b => exact (ih b).mono fun mid hi d _ hd lo _ hs lo' hl => hd lo' (hs lo' hl)

theorem Numbers.chain {step : α → Parse Cursor (Option α)}
    (h : ∀ a, Numbers (step a) fun mid hi o => ∀ lo, F lo mid a → F lo hi (o.getD a)) (a : α) :
    Numbers (chain step a) fun mid hi b => ∀ lo, F lo mid a → F lo hi b :=
  ⟨fun c => (Numbers.iterate h (c.rest.length + 1) a).grows c,
    fun c b c' hp => (Numbers.iterate h (c.rest.length + 1) a).claim c b c' hp⟩

theorem Numbers.recovering (h : Numbers p F) :
    Numbers (recovering p) fun lo hi o => ∀ a, o = some a → F lo hi a := by
  constructor
  · intro c
    have hg := h.grows c
    rw [recovering_eq]
    cases hp : p c <;> simpa [hp, left] using hg
  · intro c o c' hp a ho
    rw [recovering_eq] at hp
    cases hr : p c with
    | ok b c₁ =>
      rw [hr] at hp
      cases hp
      cases ho
      exact h.claim c a _ hr
    | error e c₁ =>
      rw [hr] at hp
      cases hp
      cases ho

theorem idle_check (kind : Kind) : Idle (check kind) := fun _ => rfl

theorem idle_atEnd : Idle atEnd := fun _ => rfl

theorem idle_peek : Idle peek := fun _ => rfl

theorem idle_note (fault : ParseFault) (place : Place) : Idle (note fault place) := fun _ => rfl

/-- Items one after the other. -/
theorem Numbers.items {tooMany : ParseFault} {item : Parse Cursor α} {us : α → List Use}
    {all : List α → List Use} (h : Numbers item fun lo hi a => Spread lo hi (us a))
    (hone : ∀ a, all [a] = us a) (hmore : ∀ as a, all (as ++ [a]) = all as ++ us a) :
    Numbers (items tooMany item) fun lo hi as => Spread lo hi (all as) := by
  refine .bind h fun first => ?_
  refine (Numbers.chain (F := fun lo hi as => Spread lo hi (all as)) ?_ [first]).mono
    fun mid hi as _ hs lo _ hf => hs lo (by rwa [hone])
  intro read
  have hnext : Numbers (do return some (read ++ [← item])) fun mid hi o =>
      ∀ lo, Spread lo mid (all read) → Spread lo hi (all (o.getD read)) := by
    refine .bind h fun a => .pure fun i mid _ ha lo hr => ?_
    simp only [Option.getD_some, hmore]
    exact hr.append ha
  refine .idle (idle_acceptAny _) fun o => ?_
  cases o with
  | none => exact .pure fun i lo hr => hr
  | some comma =>
    dsimp only
    split
    · exact .idle idle_peek fun t => .idle (idle_note _ _) fun _ => hnext
    · exact hnext

end Parse

namespace Grammar

open Parse

/-- Reading numbers the references of a program apart from each other and from all that were read
before. -/
structure Rules.Numbered (rules : Rules Cursor) : Prop where
  assignment : Numbers rules.assignment fun lo hi e => Spread lo hi e.uses
  ternary : Numbers rules.ternary fun lo hi e => Spread lo hi e.uses
  unary : Numbers rules.unary fun lo hi e => Spread lo hi e.uses

variable {rules : Rules Cursor}

theorem usesAll_singleton (e : Expr) : Expr.usesAll [e] = e.uses := by
  simp only [Expr.usesAll, List.append_nil]

theorem numbers_expression (h : rules.Numbered) :
    Numbers (expression rules) fun lo hi e => Spread lo hi e.uses := by
  refine .bind h.assignment fun first => ?_
  refine .bind (Numbers.chain (F := fun lo hi es => Spread lo hi (Expr.usesAll es)) ?_ [first])
    fun all => ?_
  · intro read
    refine .idle (idle_acceptAny _) fun o => ?_
    cases o with
    | none => exact .pure fun i lo hr => hr
    | some comma =>
      refine .bind h.assignment fun e => .pure fun i mid _ he lo hr => ?_
      simp only [Option.getD_some, Expr.usesAll_append, usesAll_singleton]
      exact hr.append he
  · have hall : ∀ (mid hi : Nat), (∀ lo, Spread lo mid (Expr.usesAll [first]) →
        Spread lo hi (Expr.usesAll all)) → ∀ lo, Spread lo mid first.uses →
          Spread lo hi (Expr.usesAll all) := by
      intro mid hi hs lo hf
      exact hs lo (by rwa [usesAll_singleton])
    split
    · refine .pure fun i mid _ hs lo _ hf => ?_
      have := hall mid i hs lo hf
      rwa [usesAll_singleton] at this
    · exact .pure fun i mid _ hs lo _ hf => hall mid i hs lo hf

theorem numbers_primary (h : rules.Numbered) :
    Numbers (primary rules) fun lo hi e => Spread lo hi e.uses := by
  refine .idle (idle_acceptAny _) fun o => ?_
  cases o with
  | none => exact .refuse
  | some t =>
    dsimp only
    split
    · exact .pure fun i => .nil (Nat.le_refl i)
    · exact .pure fun i => .nil (Nat.le_refl i)
    · exact .pure fun i => .nil (Nat.le_refl i)
    · exact .pure fun i => .nil (Nat.le_refl i)
    · exact .pure fun i => .nil (Nat.le_refl i)
    · exact .fresh fun i => .pure fun j hj => hj ▸ .single rfl
    · exact .fresh fun i => .pure fun j hj => hj ▸ .single rfl
    · refine .idle (idle_expect _ _) fun _ => .idle (idle_expect _ _) fun _ => ?_
      exact .fresh fun i => .pure fun j hj => hj ▸ .single rfl
    · refine .bind (numbers_expression h) fun e => .idle (idle_expect _ _) fun _ => ?_
      exact .pure fun i lo _ he => he

theorem numbers_arguments (h : rules.Numbered) :
    Numbers (arguments rules) fun lo hi es => Spread lo hi (Expr.usesAll es) := by
  refine .idle (idle_check _) fun b => ?_
  split
  · exact .pure fun i => .nil (Nat.le_refl i)
  · refine .items h.assignment usesAll_singleton fun es e => ?_
    rw [Expr.usesAll_append, usesAll_singleton]

theorem numbers_call (h : rules.Numbered) :
    Numbers (call rules) fun lo hi e => Spread lo hi e.uses := by
  refine .bind (numbers_primary h) fun e => ?_
  refine (Numbers.chain (F := fun lo hi e => Spread lo hi (Expr.uses e)) ?_ e).mono
    fun mid hi e' _ hs lo _ he => hs lo he
  intro e
  refine .idle (idle_acceptAny _) fun o => ?_
  cases o with
  | none => exact .pure fun i lo he => he
  | some t =>
    dsimp only
    split
    · refine .bind (numbers_arguments h) fun args => .idle (idle_expect _ _) fun paren => ?_
      refine .pure fun i mid _ ha lo he => ?_
      simp only [Option.getD_some, Expr.uses]
      exact he.append ha
    · refine .idle (idle_expect _ _) fun name => .pure fun i lo he => ?_
      simpa only [Option.getD_some, Expr.uses] using he

/-- The references of a target stay, whether or not it can be counted. -/
theorem numbers_update (operator : Token) (target : Expr) (before : Bool) :
    Numbers (update operator target before) fun lo hi e => lo = hi ∧ e.uses = target.uses := by
  unfold update
  split
  · exact .pure fun i => ⟨rfl, rfl⟩
  · exact .pure fun i => ⟨rfl, rfl⟩
  · exact .idle (idle_note _ _) fun _ => .pure fun i => ⟨rfl, rfl⟩

theorem numbers_postfixed (h : rules.Numbered) :
    Numbers (postfixed rules) fun lo hi e => Spread lo hi e.uses := by
  refine .bind (numbers_call h) fun e => .idle (idle_acceptAny _) fun o => ?_
  cases o with
  | none => exact .pure fun i lo _ he => he
  | some operator =>
    refine (numbers_update operator e false).mono ?_
    rintro mid _ d - ⟨rfl, hd⟩ lo - he
    rwa [hd]

theorem numbers_unary (h : rules.Numbered) :
    Numbers (unary rules) fun lo hi e => Spread lo hi e.uses := by
  refine .idle (idle_acceptAny _) fun o => ?_
  cases o with
  | none => exact numbers_postfixed h
  | some operator =>
    refine .bind h.unary fun e => ?_
    split
    · exact .pure fun i lo _ he => he
    · refine (numbers_update operator e true).mono ?_
      rintro mid _ d - ⟨rfl, hd⟩ lo - he
      rwa [hd]

theorem uses_join (level : Level) (left right : Expr) (operator : Token) :
    (level.join left operator right).uses = left.uses ++ right.uses := by
  unfold Level.join
  split <;> rfl

theorem numbers_binary {operand : Parse Cursor Expr}
    (h : Numbers operand fun lo hi e => Spread lo hi e.uses) (levels : List Level) :
    Numbers (binary operand levels) fun lo hi e => Spread lo hi e.uses := by
  induction levels with
  | nil => exact h
  | cons level levels ih =>
    refine .bind ih fun first => ?_
    refine (Numbers.chain (F := fun lo hi e => Spread lo hi (Expr.uses e)) ?_ first).mono
      fun mid hi e _ hs lo _ hf => hs lo hf
    intro left
    refine .idle (idle_acceptAny _) fun o => ?_
    cases o with
    | none => exact .pure fun i lo hl => hl
    | some operator =>
      refine .bind ih fun right => .pure fun i mid _ hr lo hl => ?_
      simp only [Option.getD_some, uses_join]
      exact hl.append hr

theorem numbers_ternary (h : rules.Numbered) :
    Numbers (ternary rules) fun lo hi e => Spread lo hi e.uses := by
  refine .bind (numbers_binary (numbers_unary h) levels) fun c => .idle (idle_acceptAny _) fun o => ?_
  cases o with
  | none => exact .pure fun i lo _ hc => hc
  | some question =>
    refine .bind h.ternary fun yes => .idle (idle_expect _ _) fun colon => ?_
    refine .bind h.ternary fun no => .pure fun i k _ hno j _ hyes lo _ hc => ?_
    exact hc.append (hyes.append hno)

theorem numbers_assignTo (target : Expr) (operator : Token) (value : Expr) :
    Numbers (assignTo target operator value) fun mid hi e => ∀ lo j,
      Spread lo j target.uses → Spread j mid value.uses → Spread lo hi e.uses := by
  unfold assignTo
  split
  · rename_i name
    refine .fresh fun i => .pure ?_
    rintro _ rfl lo j ht hv
    have hv' := (Spread.skip ht.le hv).append (.single (u := ⟨.variable, i, name⟩) rfl)
    split <;> exact hv'
  · refine .pure fun i lo j ht hv => ?_
    split
    · exact (ht.append hv).perm List.perm_append_comm
    · exact (ht.append hv).perm List.perm_append_comm
  · exact .idle (idle_note _ _) fun _ => .pure fun i lo j ht hv => ht.wait hv.le

theorem numbers_assignment (h : rules.Numbered) :
    Numbers (assignment rules) fun lo hi e => Spread lo hi e.uses := by
  refine .bind (numbers_ternary h) fun target => .idle (idle_acceptAny _) fun o => ?_
  cases o with
  | none => exact .pure fun i lo _ ht => ht
  | some operator =>
    refine .bind h.assignment fun value => (numbers_assignTo target operator value).mono ?_
    exact fun mid hi e _ he j _ hv lo _ ht => he lo j ht hv

theorem Rules.upTo_numbered (depth : Nat) : (Rules.upTo depth).Numbered := by
  induction depth with
  | zero => exact ⟨.refuse, .refuse, .refuse⟩
  | succ depth ih => exact ⟨numbers_assignment ih, numbers_ternary ih, numbers_unary ih⟩

structure Blocks.Numbered (blocks : Blocks Cursor) : Prop where
  declaration : Numbers blocks.declaration fun lo hi o =>
    ∀ s, o = some s → Spread lo hi (Stmt.uses s)
  statement : Numbers blocks.statement fun lo hi s => Spread lo hi s.uses

variable {blocks : Blocks Cursor}

theorem numbers_declarations (hb : blocks.Numbered) {more : Parse Cursor Bool} (hm : Idle more) :
    Numbers (declarations blocks more) fun lo hi ss => Spread lo hi (Stmt.usesAll ss) := by
  refine (Numbers.chain (F := fun lo hi ss => Spread lo hi (Stmt.usesAll ss)) ?_ []).mono
    fun mid hi ss hle hs => hs mid (.nil (Nat.le_refl _))
  intro read
  refine .idle hm fun b => ?_
  split
  · refine .bind hb.declaration fun o => .pure fun i mid hle hd lo hr => ?_
    cases o with
    | none => simpa using hr.wait hle
    | some s =>
      simp only [Option.toList_some, Option.getD_some, Stmt.usesAll_append, Stmt.usesAll,
        List.append_nil]
      exact hr.append (hd s rfl)
  · exact .pure fun i lo hr => hr

theorem numbers_block (hb : blocks.Numbered) :
    Numbers (block blocks) fun lo hi ss => Spread lo hi (Stmt.usesAll ss) := by
  refine .bind (numbers_declarations hb fun c => rfl) fun body => .idle (idle_expect _ _) fun _ => ?_
  exact .pure fun i lo _ hs => hs

theorem numbers_param (h : rules.Numbered) :
    Numbers (param rules) fun lo hi p => Spread lo hi (Expr.uses? p.fallback) := by
  refine .idle (idle_expect _ _) fun name => .idle (idle_acceptAny _) fun o => ?_
  cases o with
  | none => exact .pure fun i => .nil (Nat.le_refl i)
  | some sign => exact .bind h.assignment fun e => .pure fun i lo _ he => he

theorem numbers_params (h : rules.Numbered) :
    Numbers (params rules) fun lo hi ps => Spread lo hi (Param.usesAll ps) := by
  refine .idle (idle_check _) fun b => ?_
  split
  · exact .pure fun i => .nil (Nat.le_refl i)
  · refine .items (numbers_param h) (fun p => ?_) fun ps p => ?_
    · simp only [Param.usesAll, List.append_nil]
    · simp only [Param.usesAll_append, Param.usesAll, List.append_nil]

theorem numbers_function (h : rules.Numbered) (hb : blocks.Numbered) (role : Role) :
    Numbers (function rules blocks role) fun lo hi d => Spread lo hi d.uses := by
  refine .idle (idle_expect _ _) fun name => .idle (idle_expect _ _) fun _ => ?_
  refine .bind (numbers_params h) fun ps => .idle (idle_expect _ _) fun _ => ?_
  refine .idle (idle_expect _ _) fun _ => .bind (numbers_block hb) fun body => ?_
  exact .pure fun i mid _ hs lo _ hp => hp.append hs

theorem numbers_methods (h : rules.Numbered) (hb : blocks.Numbered) :
    Numbers (methods rules blocks) fun lo hi r =>
      Spread lo hi (FunctionDecl.usesAll r.1 ++ FunctionDecl.usesAll r.2) := by
  refine (Numbers.chain (α := List FunctionDecl × List FunctionDecl) (F := fun lo hi r =>
    Spread lo hi (FunctionDecl.usesAll r.1 ++ FunctionDecl.usesAll r.2)) ?_ ([], [])).mono
    fun mid hi r _ hs => hs mid (.nil (Nat.le_refl _))
  rintro ⟨ms, ss⟩
  refine .idle (idle_check _) fun b => .idle idle_atEnd fun b' => ?_
  split
  · exact .pure fun i lo hr => hr
  refine .idle (idle_acceptAny _) fun o => ?_
  cases o with
  | none =>
    refine .bind (numbers_function h hb .method) fun d => .pure fun i mid _ hd lo hr => ?_
    simp only [Option.getD_some, FunctionDecl.usesAll_append, FunctionDecl.usesAll, List.append_nil]
    refine (hr.append hd).perm ?_
    rw [List.append_assoc, List.append_assoc]
    exact List.perm_append_comm.append_left _
  | some keyword =>
    refine .bind (numbers_function h hb .static) fun d => .pure fun i mid _ hd lo hr => ?_
    simp only [Option.getD_some, FunctionDecl.usesAll_append, FunctionDecl.usesAll, List.append_nil]
    rw [← List.append_assoc]
    exact hr.append hd

theorem numbers_superclass :
    Numbers superclass fun lo hi o => Spread lo hi (Superclass.uses? o) := by
  refine .idle (idle_acceptAny _) fun o => ?_
  cases o with
  | none => exact .pure fun i => .nil (Nat.le_refl i)
  | some sign =>
    exact .idle (idle_expect _ _) fun name => .fresh fun i => .pure fun j hj => hj ▸ .single rfl

theorem numbers_classDecl (h : rules.Numbered) (hb : blocks.Numbered) :
    Numbers (classDecl rules blocks) fun lo hi s => Spread lo hi s.uses := by
  refine .idle (idle_expect _ _) fun name => .bind numbers_superclass fun parent => ?_
  refine .idle (idle_expect _ _) fun _ => .bind (numbers_methods h hb) fun r => ?_
  refine .idle (idle_expect _ _) fun _ => .pure fun i mid _ hr lo _ hp => ?_
  exact hp.append hr

theorem numbers_varDecl (h : rules.Numbered) :
    Numbers (varDecl rules) fun lo hi s => Spread lo hi s.uses := by
  refine .idle (idle_expect _ _) fun name => .idle (idle_acceptAny _) fun o => ?_
  have hend : ∀ initial, Numbers (do terminator .variableEnd; pure (Stmt.var name initial))
      fun mid hi s => ∀ lo, lo ≤ mid → Spread lo mid (Expr.uses? initial) → Spread lo hi s.uses :=
    fun initial => .idle (idle_terminator _) fun _ => .pure fun i lo _ hs => hs
  cases o with
  | none =>
    exact .bind (F := fun lo hi o => Spread lo hi (Expr.uses? o))
      (.pure fun i => .nil (Nat.le_refl i)) hend
  | some sign =>
    exact .bind (F := fun lo hi o => Spread lo hi (Expr.uses? o))
      (.map (numbers_expression h)) hend

theorem numbers_expressionStmt (h : rules.Numbered) :
    Numbers (expressionStmt rules) fun lo hi s => Spread lo hi s.uses := by
  refine .bind (numbers_expression h) fun e => .idle (idle_terminator _) fun _ => ?_
  exact .pure fun i lo _ he => he

def initialUses : Option Stmt → List Use
  | none => []
  | some s => s.uses

theorem numbers_forInitial (h : rules.Numbered) :
    Numbers (forInitial rules) fun lo hi o => Spread lo hi (initialUses o) := by
  refine .idle (idle_acceptAny _) fun o => ?_
  cases o with
  | none => exact .map (numbers_expressionStmt h)
  | some t =>
    dsimp only
    split
    · exact .pure fun i => .nil (Nat.le_refl i)
    · exact .map (numbers_varDecl h)

theorem numbers_optional {β : Type} (h : rules.Numbered) (absent : Bool)
    {then' : Option Expr → Parse Cursor β} {G : Nat → Nat → β → Prop}
    (ht : ∀ o, Numbers (then' o) fun mid hi b =>
      ∀ lo, lo ≤ mid → Spread lo mid (Expr.uses? o) → G lo hi b) :
    Numbers (if absent then pure none >>= then' else some <$> expression rules >>= then') G := by
  split
  · exact .bind (F := fun lo hi o => Spread lo hi (Expr.uses? o))
      (.pure fun i => .nil (Nat.le_refl i)) ht
  · exact .bind (F := fun lo hi o => Spread lo hi (Expr.uses? o)) (.map (numbers_expression h)) ht

theorem numbers_condition {β : Type} (h : rules.Numbered) (absent : Bool)
    {then' : Expr → Parse Cursor β} {G : Nat → Nat → β → Prop}
    (ht : ∀ c, Numbers (then' c) fun mid hi b => ∀ lo, lo ≤ mid → Spread lo mid c.uses → G lo hi b) :
    Numbers
      (if absent then pure (.literal (.bool true)) >>= then' else expression rules >>= then') G := by
  split
  · exact .bind (F := fun lo hi (c : Expr) => Spread lo hi c.uses)
      (.pure fun i => .nil (Nat.le_refl i)) ht
  · exact .bind (numbers_expression h) ht

theorem numbers_forStmt (h : rules.Numbered) (hb : blocks.Numbered) :
    Numbers (forStmt rules blocks) fun lo hi s => Spread lo hi s.uses := by
  refine .idle (idle_expect _ _) fun _ => .bind (numbers_forInitial h) fun initial => ?_
  refine .idle (idle_check _) fun absent => numbers_condition h absent fun c => ?_
  refine .idle (idle_expect _ _) fun _ => .idle (idle_check _) fun absent' => ?_
  refine numbers_optional h absent' fun increment => .idle (idle_expect _ _) fun _ => ?_
  refine .bind hb.statement fun body => ?_
  -- the body is read behind the increment and resolved before it
  have hloop : ∀ hi k, Spread k hi body.uses → ∀ j, Spread j k (Expr.uses? increment) →
      ∀ i, Spread i j c.uses → ∀ lo, Spread lo i (initialUses initial) →
      Spread lo hi (initialUses initial ++ (Stmt.for c increment body).uses) := by
    intro hi k hbody j hinc i hc lo hini
    refine hini.append ?_
    simp only [Stmt.uses]
    exact hc.append ((hinc.append hbody).perm List.perm_append_comm)
  split
  · refine .pure fun hi k _ hbody j _ hinc i _ hc lo _ hini => ?_
    exact hloop hi k hbody j hinc i hc lo hini
  · refine .pure fun hi k _ hbody j _ hinc i _ hc lo _ hini => ?_
    have := hloop hi k hbody j hinc i hc lo hini
    simpa only [Stmt.uses, Stmt.usesAll, List.append_nil, initialUses] using this

theorem numbers_ifStmt (h : rules.Numbered) (hb : blocks.Numbered) :
    Numbers (ifStmt rules blocks) fun lo hi s => Spread lo hi s.uses := by
  refine .idle (idle_expect _ _) fun _ => .bind (numbers_expression h) fun c => ?_
  refine .idle (idle_expect _ _) fun _ => .bind hb.statement fun yes => ?_
  refine .idle (idle_acceptAny _) fun o => ?_
  cases o with
  | none => exact .pure fun i mid _ hs lo _ hc => hc.append hs
  | some otherwise =>
    refine .bind hb.statement fun no => .pure fun i k _ hn mid _ hs lo _ hc => ?_
    exact hc.append (hs.append hn)

theorem numbers_whileStmt (h : rules.Numbered) (hb : blocks.Numbered) :
    Numbers (whileStmt rules blocks) fun lo hi s => Spread lo hi s.uses := by
  refine .idle (idle_expect _ _) fun _ => .bind (numbers_expression h) fun c => ?_
  refine .idle (idle_expect _ _) fun _ => .bind hb.statement fun body => ?_
  exact .pure fun i mid _ hs lo _ hc => hc.append hs

theorem numbers_returnStmt (h : rules.Numbered) (keyword : Token) :
    Numbers (returnStmt rules keyword) fun lo hi s => Spread lo hi s.uses := by
  refine .idle (idle_check _) fun b => .idle idle_atEnd fun b' => ?_
  refine numbers_optional h (b || b') fun value => .idle (idle_terminator _) fun _ => ?_
  exact .pure fun i lo _ hv => hv

theorem numbers_statement (h : rules.Numbered) (hb : blocks.Numbered) :
    Numbers (statement rules blocks) fun lo hi s => Spread lo hi s.uses := by
  refine .idle (idle_acceptAny _) fun o => ?_
  cases o with
  | none => exact numbers_expressionStmt h
  | some t =>
    dsimp only
    split
    · exact numbers_forStmt h hb
    · exact numbers_ifStmt h hb
    · exact numbers_whileStmt h hb
    · exact numbers_returnStmt h t
    · exact .idle (idle_terminator _) fun _ => .pure fun i => .nil (Nat.le_refl i)
    · exact .idle (idle_terminator _) fun _ => .pure fun i => .nil (Nat.le_refl i)
    · exact .map (numbers_block hb)

theorem numbers_declaration (h : rules.Numbered) (hb : blocks.Numbered) :
    Numbers (declaration rules blocks) fun lo hi s => Spread lo hi s.uses := by
  refine .idle (idle_acceptAny _) fun o => ?_
  cases o with
  | none => exact numbers_statement h hb
  | some t =>
    dsimp only
    split
    · exact numbers_classDecl h hb
    · exact .map (numbers_function h hb .function)
    · exact numbers_varDecl h

theorem Blocks.upTo_numbered (h : rules.Numbered) (depth : Nat) :
    (Blocks.upTo rules depth).Numbered := by
  induction depth with
  | zero => exact ⟨.recovering .refuse, .refuse⟩
  | succ depth ih => exact ⟨.recovering (numbers_declaration h ih), numbers_statement h ih⟩

theorem numbers_program (depth : Nat) :
    Numbers (program depth) fun lo hi ss => Spread lo hi (Stmt.usesAll ss) :=
  numbers_declarations (Blocks.upTo_numbered (Rules.upTo_numbered depth) depth) fun _ => rfl

end Grammar

/-- Reading never takes numbers back. -/
theorem nextId_le_parse (lenient : Bool) (nextId : Nat) (tokens : List Token) :
    nextId ≤ (parse lenient nextId tokens).nextId := by
  have h := (Grammar.numbers_program
    ((Cursor.start lenient nextId tokens).rest.length + 1)).grows (Cursor.start lenient nextId tokens)
  simp only [parse_eq, Cursor.parse]
  split <;> rename_i hp <;> rw [hp] at h <;> exact h

/-- A program's references are numbered apart, from the given number on. -/
theorem parse_spread {lenient : Bool} {nextId : Nat} {tokens : List Token} {ss : List Stmt}
    (h : (parse lenient nextId tokens).result = .ok ss) :
    Spread nextId (parse lenient nextId tokens).nextId (Stmt.usesAll ss) := by
  simp only [parse_eq, Cursor.parse] at h ⊢
  split at h
  · rename_i statements c hp
    split at h <;> cases h
    exact (Grammar.numbers_program _).claim _ _ _ hp
  · cases h

end Scriptling
