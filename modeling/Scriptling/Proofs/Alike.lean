import Scriptling.Proofs.ReadingSteps
import Scriptling.Proofs.Uses

namespace Scriptling

/-- A reference whose number is only seen through `g`. -/
def Use.under (g : ExprId → ExprId) (u : Use) : Use := { u with id := g u.id }

def Expr.under (g : ExprId → ExprId) : Expr → Expr := Expr.turn (Use.under g)

def Param.under (g : ExprId → ExprId) : Param → Param := Param.turn (Use.under g)

def Superclass.under (g : ExprId → ExprId) : Superclass → Superclass :=
  Superclass.turn (Use.under g)

def Stmt.under (g : ExprId → ExprId) : Stmt → Stmt := Stmt.turn (Use.under g)

def FunctionDecl.under (g : ExprId → ExprId) : FunctionDecl → FunctionDecl :=
  FunctionDecl.turn (Use.under g)

/-- Faults in an expression that reading does not stop for. -/
def ParseFault.mild : ParseFault → Bool
  | .tooManyArguments | .assignmentTarget | .updateTarget _ => true
  | .expected _ | .tooManyParameters => false

section Under

variable {g : ExprId → ExprId} {d : Expr}

theorem Expr.under_eq_var {i : ExprId} {name : Token}
    (h : (Expr.var i name).under g = d.under g) : ∃ j, d = .var j name ∧ g i = g j := by
  cases d <;> simp only [Expr.under, Expr.turn, reduceCtorEq] at h
  simp only [Use.under, Expr.var.injEq] at h
  exact ⟨_, by rw [h.2], h.1⟩

/-- Reading twice: whatever looks like a property is one, of an object that looks the same. -/
theorem Expr.under_eq_get {object : Expr} {name : Token}
    (h : (Expr.get object name).under g = d.under g) :
    ∃ o, d = .get o name ∧ object.under g = o.under g := by
  cases d <;> simp only [Expr.under, Expr.turn, reduceCtorEq] at h
  simp only [Expr.get.injEq] at h
  exact ⟨_, by rw [h.2], h.1⟩

end Under

namespace Parse

variable {α β γ δ : Type}

/-- What a step that may take a token answers: none, or the first of those left. -/
def Taken (kinds : List Kind) (n m : Nat) : Option Token → Prop
  | none => m = n
  | some t => t.kind ∈ kinds ∧ n = m + 1

/-- How a step of a chain ends where `n` tokens are left: with nothing more, or past a token. -/
def Goes (I : Nat → α → β → Prop) (n m : Nat) : Option α → Option β → Prop
  | none, none => m = n
  | some a, some b => m < n ∧ I m a b
  | _, _ => False

/-- A token at least is passed, and the results look the same. -/
def Past (n : Nat) (key : α → γ) (m : Nat) (a b : α) : Prop := m < n ∧ key a = key b

/-- The results look the same, whether or not a token is passed. -/
def Perhaps (n : Nat) (key : α → γ) (m : Nat) (a b : α) : Prop := m ≤ n ∧ key a = key b

/-- A token at least is passed if there is one, and the results look the same if there are any. -/
def Recovered (n : Nat) (key : α → γ) (m : Nat) (o o' : Option α) : Prop :=
  m ≤ n ∧ (0 < n → m < n) ∧ o.map key = o'.map key

/-- Two steps put together alike. They start with `n` tokens to take; with `m` of them left, `R m`
holds of the results. The numbers of nodes are the same as far as `g` tells. A reading that is not
`whole` takes no semicolon. -/
inductive Alike {C C' : Type} [Reader C] [Reader C'] (g : ExprId → ExprId) (whole : Bool) :
    {α β : Type} → Nat → Parse C α → Parse C' β → (Nat → α → β → Prop) → Prop
  | pure {α β : Type} {n : Nat} {R : Nat → α → β → Prop} {a : α} {b : β} : R n a b →
      Alike g whole n (pure a) (pure b) R
  | bind {α β γ δ : Type} {n : Nat} {p : Parse C α} {p' : Parse C' β} {q : α → Parse C γ}
      {q' : β → Parse C' δ} {R : Nat → α → β → Prop} {S : Nat → γ → δ → Prop} : Alike g whole n p p' R →
      (∀ m a b, R m a b → Alike g whole m (q a) (q' b) S) →
      Alike g whole n (p >>= q) (p' >>= q') S
  | weaken {α β : Type} {n : Nat} {p : Parse C α} {p' : Parse C' β} {R S : Nat → α → β → Prop} :
      Alike g whole n p p' R → (∀ m a b, R m a b → S m a b) → Alike g whole n p p' S
  | acceptAny {n : Nat} {kinds : List Kind} : whole = true ∨ .semicolon ∉ kinds →
      Alike g whole n (acceptAny kinds) (acceptAny kinds) fun m o o' => o = o' ∧ Taken kinds n m o
  | check {n : Nat} (kind : Kind) :
      Alike g whole n (check kind) (check kind) fun m b b' => m = n ∧ b = b'
  | atEnd {n : Nat} : Alike g whole n atEnd atEnd fun m b b' =>
      m = n ∧ b = b' ∧ (whole = true → (b = true ↔ n = 0))
  | peek {n : Nat} : Alike g whole n peek peek fun m t t' => m = n ∧ t = t'
  | refuse {α β : Type} {n : Nat} {R : Nat → α → β → Prop} (what : Expected) :
      Alike g whole n (refuse what) (refuse what) R
  | note {n : Nat} {fault : ParseFault} (place : Place) : whole = true ∨ fault.mild = true →
      Alike g whole n (note fault place) (note fault place) fun m _ _ => m = n
  | fresh {n : Nat} : Alike g whole n fresh fresh fun m i j => m = n ∧ g i = g j
  | terminator {n : Nat} (what : Expected) : whole = true →
      Alike g whole n (terminator what) (terminator what) fun m _ _ => m ≤ n
  | chain {α β : Type} {n : Nat} {I : Nat → α → β → Prop} {step : α → Parse C (Option α)}
      {step' : β → Parse C' (Option β)} {a : α} {b : β} :
      (∀ k a b, k ≤ n → I k a b → Alike g whole k (step a) (step' b) (Goes I k)) → I n a b →
      Alike g whole n (chain step a) (chain step' b) fun m a b => m ≤ n ∧ I m a b
  | recovering {α γ : Type} {n : Nat} {p : Parse C α} {p' : Parse C' α} {key : α → γ} :
      whole = true →
      Alike g whole n p p' (Past n key) →
      Alike g whole n (recovering p) (recovering p') (Recovered n key)

namespace Alike

variable {C C' : Type} [Reader C] [Reader C'] {g : ExprId → ExprId} {whole : Bool} {n : Nat}
  {R : Nat → α → β → Prop} {S : Nat → γ → δ → Prop} {kinds : List Kind}

/-- A token that may or may not be there. -/
theorem option {q : Option Token → Parse C γ} {q' : Option Token → Parse C' δ}
    (hk : whole = true ∨ .semicolon ∉ kinds) (hn : Alike g whole n (q none) (q' none) S)
    (hs : ∀ t m, t.kind ∈ kinds → n = m + 1 → Alike g whole m (q (some t)) (q' (some t)) S) :
    Alike g whole n (Parse.acceptAny kinds >>= q) (Parse.acceptAny kinds >>= q') S := by
  apply Alike.bind (.acceptAny hk)
  rintro m o _ ⟨rfl, ho⟩
  cases o with
  | none =>
    cases ho
    exact hn
  | some t => exact hs t m ho.1 ho.2

/-- A token that must be of a kind is passed by both readings, or by none. -/
theorem expect {kind : Kind} {what : Expected} {q : Token → Parse C γ} {q' : Token → Parse C' δ}
    (hk : whole = true ∨ .semicolon ≠ kind)
    (hs : ∀ t m, t.kind = kind → n = m + 1 → Alike g whole m (q t) (q' t) S) :
    Alike g whole n (Parse.expect kind what >>= q) (Parse.expect kind what >>= q') S := by
  rw [expect_bind, expect_bind]
  apply option (hk.imp_right fun h => by simpa using h) (.refuse what)
  intro t m ht hm
  exact hs t m (by simpa using ht) hm

/-- Results may be put into a tree behind both readings. -/
theorem map {f : α → β} {p : Parse C α} {p' : Parse C' α} {R : Nat → α → α → Prop}
    {S : Nat → β → β → Prop} (h : Alike g whole n p p' R)
    (hf : ∀ m a b, R m a b → S m (f a) (f b)) : Alike g whole n (f <$> p) (f <$> p') S := by
  rw [map_eq_pure_bind, map_eq_pure_bind]
  apply Alike.bind h
  intro m a b hab
  exact .pure (hf m a b hab)

/-- Items with commas between them, as many in both readings. -/
theorem items {tooMany : ParseFault} {item : Parse C α} {item' : Parse C' α} {key : α → γ} {N : Nat}
    (hmild : whole = true ∨ tooMany.mild = true)
    (h : ∀ k < N, Alike g whole k item item' (Past k key)) (hn : n < N) :
    Alike g whole n (items tooMany item) (items tooMany item') (Past n (List.map key)) := by
  apply Alike.bind (h n hn)
  rintro m first first' ⟨hm, hfirst⟩
  refine .weaken (R := fun k as bs => k ≤ m ∧ as.map key = bs.map key) (.chain ?_ ?_) ?_
  · intro k read read' hk hread
    have hlength : read.length = read'.length := by simpa using congrArg List.length hread
    have hnext : ∀ j, j < k → Alike g whole j (do return some (read ++ [← item]))
        (do return some (read' ++ [← item'])) (Goes (fun _ as bs => as.map key = bs.map key) k) := by
      intro j hj
      apply Alike.bind (h j (by omega))
      rintro i a b ⟨hi, hab⟩
      apply Alike.pure
      exact ⟨by omega, by simp [hread, hab]⟩
    refine option (.inr (by decide)) (.pure rfl) ?_
    rintro comma j - rfl
    dsimp only
    rw [hlength]
    split
    · apply Alike.bind .peek
      rintro _ t _ ⟨rfl, rfl⟩
      apply Alike.bind (.note _ hmild)
      rintro _ _ _ rfl
      exact hnext _ (Nat.lt_succ_self _)
    · exact hnext _ (Nat.lt_succ_self _)
  · simp [hfirst]
  · rintro k as bs ⟨hk, hab⟩
    exact ⟨by omega, hab⟩

end Alike

end Parse

namespace Grammar

open Parse

variable {C C' : Type} [Reader C] [Reader C'] {g : ExprId → ExprId} {whole : Bool} {rules : Rules C}
  {rules' : Rules C'} {n N : Nat}

/-- Rules for expressions that read alike where fewer than `N` tokens are left. -/
structure Rules.Alike (g : ExprId → ExprId) (whole : Bool) (N : Nat) (rules : Rules C)
    (rules' : Rules C') : Prop where
  assignment : ∀ n < N,
    Parse.Alike g whole n rules.assignment rules'.assignment (Past n (Expr.under g))
  ternary : ∀ n < N, Parse.Alike g whole n rules.ternary rules'.ternary (Past n (Expr.under g))
  unary : ∀ n < N, Parse.Alike g whole n rules.unary rules'.unary (Past n (Expr.under g))

theorem alike_expression (h : rules.Alike g whole N rules') (hn : n < N) :
    Alike g whole n (expression rules) (expression rules') (Past n (Expr.under g)) := by
  apply Alike.bind (h.assignment n hn)
  rintro m first first' ⟨hm, hfirst⟩
  refine .bind (R := fun k as bs => k ≤ m ∧ as.map (Expr.under g) = bs.map (Expr.under g))
    (.chain ?_ ?_) ?_
  · intro k read read' hk hread
    refine .option (.inr (by decide)) (.pure rfl) ?_
    rintro comma j - rfl
    apply Alike.bind (h.assignment j (by omega))
    rintro i e e' ⟨hi, he⟩
    apply Alike.pure
    exact ⟨by omega, by simp [hread, he]⟩
  · simp [hfirst]
  · rintro k all all' ⟨hk, hall⟩
    match all, all', hall with
    | [e], [e'], he => exact .pure ⟨by omega, by simpa using he⟩
    | [], [], _ => exact .pure ⟨by omega, rfl⟩
    | [_], _ :: _ :: _, he | _ :: _ :: _, [_], he => simp at he
    | e :: d :: es, e' :: d' :: es', he =>
      apply Alike.pure
      refine ⟨by omega, ?_⟩
      simpa only [Expr.under, Expr.turn, Expr.turnAll_eq_map] using congrArg Expr.comma he

theorem alike_primary (h : rules.Alike g whole N rules') (hn : n ≤ N) :
    Alike g whole n (primary rules) (primary rules') (Past n (Expr.under g)) := by
  refine .option (.inr (by decide)) (.refuse _) ?_
  rintro t m - rfl
  have hname : ∀ (make : ExprId → Expr), (∀ i j, g i = g j → (make i).under g = (make j).under g) →
      ∀ k, k < m + 1 → Alike g whole k (do return make (← fresh) : Parse C Expr)
        (do return make (← fresh) : Parse C' Expr) (Past (m + 1) (Expr.under g)) := by
    intro make hmake k hk
    apply Alike.bind .fresh
    rintro _ i j ⟨rfl, hij⟩
    exact .pure ⟨hk, hmake i j hij⟩
  dsimp only
  split
  · exact .pure ⟨Nat.lt_succ_self m, rfl⟩
  · exact .pure ⟨Nat.lt_succ_self m, rfl⟩
  · exact .pure ⟨Nat.lt_succ_self m, rfl⟩
  · exact .pure ⟨Nat.lt_succ_self m, rfl⟩
  · exact .pure ⟨Nat.lt_succ_self m, rfl⟩
  · refine hname (fun i => .var i t) ?_ m (Nat.lt_succ_self m)
    intro i j hij
    simp only [Expr.under, Expr.turn, Use.under, hij]
  · refine hname (fun i => .this i t) ?_ m (Nat.lt_succ_self m)
    intro i j hij
    simp only [Expr.under, Expr.turn, Use.under, hij]
  · refine .expect (.inr (by decide)) ?_
    rintro dot k - rfl
    refine .expect (.inr (by decide)) ?_
    rintro method k - rfl
    refine hname (fun i => .super i t method) ?_ k (by omega)
    intro i j hij
    simp only [Expr.under, Expr.turn, Use.under, hij]
  · apply Alike.bind (alike_expression h (Nat.lt_of_succ_le hn))
    rintro k e e' ⟨hk, he⟩
    refine .expect (.inr (by decide)) ?_
    rintro paren k - rfl
    apply Alike.pure
    refine ⟨by omega, ?_⟩
    simp only [Expr.under, Expr.turn] at he ⊢
    rw [he]

theorem alike_arguments (h : rules.Alike g whole N rules') (hn : n < N) :
    Alike g whole n (arguments rules) (arguments rules') (Perhaps n (List.map (Expr.under g))) := by
  apply Alike.bind (.check _)
  rintro m absent _ ⟨rfl, rfl⟩
  split
  · exact .pure ⟨Nat.le_refl _, rfl⟩
  · refine .weaken (.items (.inr rfl) h.assignment hn) ?_
    rintro k es es' ⟨hk, hes⟩
    exact ⟨Nat.le_of_lt hk, hes⟩

theorem alike_suffix (h : rules.Alike g whole N rules') (hn : n ≤ N) {e e' : Expr}
    (he : e.under g = e'.under g) :
    Alike g whole n (suffix rules e) (suffix rules' e')
      (Goes (fun _ d d' => d.under g = d'.under g) n) := by
  refine .option (.inr (by decide)) (.pure rfl) ?_
  rintro t m - rfl
  dsimp only
  split
  · apply Alike.bind (alike_arguments h (Nat.lt_of_succ_le hn))
    rintro k args args' ⟨hk, hargs⟩
    refine .expect (.inr (by decide)) ?_
    rintro paren k - rfl
    apply Alike.pure
    refine ⟨by omega, ?_⟩
    simp only [Expr.under, Expr.turn, Expr.turnAll_eq_map] at he hargs ⊢
    rw [he, Expr.call.injEq]
    exact ⟨rfl, rfl, hargs⟩
  · refine .expect (.inr (by decide)) ?_
    rintro name k - rfl
    apply Alike.pure
    refine ⟨by omega, ?_⟩
    simp only [Expr.under, Expr.turn] at he ⊢
    rw [he]

theorem alike_call (h : rules.Alike g whole N rules') (hn : n ≤ N) :
    Alike g whole n (call rules) (call rules') (Past n (Expr.under g)) := by
  apply Alike.bind (alike_primary h hn)
  rintro m e e' ⟨hm, he⟩
  refine .weaken (R := fun k d d' => k ≤ m ∧ d.under g = d'.under g) (.chain ?_ he) ?_
  · intro k d d' hk hd
    exact alike_suffix h (by omega) hd
  · rintro k d d' ⟨hk, hd⟩
    exact ⟨by omega, hd⟩

theorem alike_update {operator : Token} {target target' : Expr} (before : Bool)
    (ht : target.under g = target'.under g) :
    Alike g whole n (update operator target before : Parse C Expr)
      (update operator target' before : Parse C' Expr)
      (Perhaps n (Expr.under g)) := by
  have hsame : (Expr.update operator target before).under g =
      (Expr.update operator target' before).under g := by
    simp only [Expr.under, Expr.turn] at ht ⊢
    rw [ht]
  unfold update
  split
  · obtain ⟨j, rfl, -⟩ := Expr.under_eq_var ht
    exact .pure ⟨Nat.le_refl n, hsame⟩
  · obtain ⟨o, rfl, -⟩ := Expr.under_eq_get ht
    exact .pure ⟨Nat.le_refl n, hsame⟩
  · rename_i hvar hget
    split
    · obtain ⟨j, rfl, -⟩ := Expr.under_eq_var ht.symm
      exact absurd rfl (hvar _ _)
    · obtain ⟨o, rfl, -⟩ := Expr.under_eq_get ht.symm
      exact absurd rfl (hget _ _)
    · apply Alike.bind (.note _ (.inr rfl))
      rintro _ _ _ rfl
      exact .pure ⟨Nat.le_refl _, ht⟩

theorem alike_postfixed (h : rules.Alike g whole N rules') (hn : n ≤ N) :
    Alike g whole n (postfixed rules) (postfixed rules') (Past n (Expr.under g)) := by
  apply Alike.bind (alike_call h hn)
  rintro m e e' ⟨hm, he⟩
  refine .option (.inr (by decide)) (.pure ⟨hm, he⟩) ?_
  rintro operator k - rfl
  refine .weaken (alike_update false he) ?_
  rintro j d d' ⟨hj, hd⟩
  exact ⟨by omega, hd⟩

theorem alike_unary (h : rules.Alike g whole N rules') (hn : n ≤ N) :
    Alike g whole n (unary rules) (unary rules') (Past n (Expr.under g)) := by
  refine .option (.inr (by decide)) (alike_postfixed h hn) ?_
  rintro operator m - rfl
  apply Alike.bind (h.unary m (Nat.lt_of_succ_le hn))
  rintro k e e' ⟨hk, he⟩
  split
  · apply Alike.pure
    refine ⟨by omega, ?_⟩
    simp only [Expr.under, Expr.turn] at he ⊢
    rw [he]
  · refine .weaken (alike_update true he) ?_
    rintro j d d' ⟨hj, hd⟩
    exact ⟨by omega, hd⟩

/-- A level joins operands that look the same to trees that do. -/
theorem under_join {level : Level} {left left' right right' : Expr} (operator : Token)
    (hl : left.under g = left'.under g) (hr : right.under g = right'.under g) :
    (level.join left operator right).under g = (level.join left' operator right').under g := by
  unfold Level.join
  simp only [Expr.under] at hl hr ⊢
  split
  · simp only [Expr.turn, hl, hr]
  · simp only [Expr.turn, hl, hr]

theorem alike_binary {operand : Parse C Expr} {operand' : Parse C' Expr}
    (h : ∀ k ≤ N, Alike g whole k operand operand' (Past k (Expr.under g))) (ls : List Level)
    (hl : ∀ level ∈ ls, .semicolon ∉ level.operators) :
    ∀ n ≤ N, Alike g whole n (binary operand ls) (binary operand' ls) (Past n (Expr.under g)) := by
  induction ls with
  | nil => exact h
  | cons level tighter ih =>
    intro n hn
    have hoperand := ih fun l hmem => hl l (.tail _ hmem)
    apply Alike.bind (hoperand n hn)
    rintro m first first' ⟨hm, hfirst⟩
    refine .weaken (R := fun k d d' => k ≤ m ∧ d.under g = d'.under g) (.chain ?_ hfirst) ?_
    · intro k left left' hk hleft
      refine .option (.inr (hl level (.head _))) (.pure rfl) ?_
      rintro operator j - rfl
      apply Alike.bind (hoperand j (by omega))
      rintro i right right' ⟨hi, hright⟩
      exact .pure ⟨by omega, under_join operator hleft hright⟩
    · rintro k d d' ⟨hk, hd⟩
      exact ⟨by omega, hd⟩

theorem alike_ternary (h : rules.Alike g whole N rules') (hn : n ≤ N) :
    Alike g whole n (ternary rules) (ternary rules') (Past n (Expr.under g)) := by
  apply Alike.bind (alike_binary (fun k => alike_unary h) levels (by decide) n hn)
  rintro m c c' ⟨hm, hc⟩
  refine .option (.inr (by decide)) (.pure ⟨hm, hc⟩) ?_
  rintro question k - rfl
  apply Alike.bind (h.ternary k (by omega))
  rintro j yes yes' ⟨hj, hyes⟩
  refine .expect (.inr (by decide)) ?_
  rintro colon i - rfl
  apply Alike.bind (h.ternary i (by omega))
  rintro l no no' ⟨hl, hno⟩
  apply Alike.pure
  refine ⟨by omega, ?_⟩
  simp only [Expr.under, Expr.turn] at hc hyes hno ⊢
  rw [hc, hyes, hno]

theorem alike_assignTo {target target' value value' : Expr} (operator : Token)
    (ht : target.under g = target'.under g) (hv : value.under g = value'.under g) :
    Alike g whole n (assignTo target operator value : Parse C Expr)
      (assignTo target' operator value' : Parse C' Expr) (Perhaps n (Expr.under g)) := by
  unfold assignTo
  split
  · obtain ⟨j, rfl, -⟩ := Expr.under_eq_var ht
    apply Alike.bind .fresh
    rintro m i j ⟨rfl, hij⟩
    apply Alike.pure
    refine ⟨Nat.le_refl _, ?_⟩
    simp only [Expr.under] at hv ⊢
    split
    · simp only [Expr.turn, Use.under, hij, hv]
    · simp only [Expr.turn, Use.under, hij, hv]
  · obtain ⟨o, rfl, ho⟩ := Expr.under_eq_get ht
    apply Alike.pure
    refine ⟨Nat.le_refl _, ?_⟩
    simp only [Expr.under] at hv ho ⊢
    split
    · simp only [Expr.turn, ho, hv]
    · simp only [Expr.turn, ho, hv]
  · rename_i hvar hget
    split
    · obtain ⟨j, rfl, -⟩ := Expr.under_eq_var ht.symm
      exact absurd rfl (hvar _ _)
    · obtain ⟨o, rfl, -⟩ := Expr.under_eq_get ht.symm
      exact absurd rfl (hget _ _)
    · apply Alike.bind (.note _ (.inr rfl))
      rintro _ _ _ rfl
      exact .pure ⟨Nat.le_refl _, ht⟩

theorem alike_assignment (h : rules.Alike g whole N rules') (hn : n ≤ N) :
    Alike g whole n (assignment rules) (assignment rules') (Past n (Expr.under g)) := by
  apply Alike.bind (alike_ternary h hn)
  rintro m target target' ⟨hm, ht⟩
  refine .option (.inr (by decide)) (.pure ⟨hm, ht⟩) ?_
  rintro operator k - rfl
  apply Alike.bind (h.assignment k (by omega))
  rintro j value value' ⟨hj, hv⟩
  refine .weaken (alike_assignTo operator ht hv) ?_
  rintro i d d' ⟨hi, hd⟩
  exact ⟨by omega, hd⟩

/-- Rules closed alike at the same depth read alike. Where fewer tokens are left than either depth,
so do rules closed at any two depths, over whatever others. -/
theorem Rules.alike_over (g : ExprId → ExprId) (whole : Bool) {base : Rules C} {base' : Rules C'}
    {depth depth' : Nat}
    (hd : depth = depth' ∧ (∀ N, base.Alike g whole N base') ∨ N ≤ depth ∧ N ≤ depth') :
    (Rules.over base depth).Alike g whole N (Rules.over base' depth') := by
  induction depth generalizing depth' N with
  | zero =>
    rcases hd with ⟨rfl, hbase⟩ | ⟨hN, -⟩
    · exact hbase N
    · obtain rfl := Nat.le_zero.1 hN
      constructor <;> intro n hn <;> exact absurd hn (Nat.not_lt_zero n)
  | succ depth ih =>
    cases N with
    | zero => constructor <;> intro n hn <;> exact absurd hn (Nat.not_lt_zero n)
    | succ N =>
      obtain ⟨depth', rfl⟩ : ∃ k, depth' = k + 1 := ⟨depth' - 1, by omega⟩
      have hbelow : (Rules.over base depth).Alike g whole N (Rules.over base' depth') :=
        ih (hd.imp (And.imp_left Nat.succ.inj) fun h =>
          ⟨Nat.le_of_succ_le_succ h.1, Nat.le_of_succ_le_succ h.2⟩)
      constructor
      · intro n hn
        exact alike_assignment hbelow (Nat.le_of_lt_succ hn)
      · intro n hn
        exact alike_ternary hbelow (Nat.le_of_lt_succ hn)
      · intro n hn
        exact alike_unary hbelow (Nat.le_of_lt_succ hn)

theorem Rules.alike_refusing (g : ExprId → ExprId) (whole : Bool) (N : Nat) :
    (Rules.refusing : Rules C).Alike g whole N (Rules.refusing : Rules C') :=
  ⟨fun _ _ => .refuse _, fun _ _ => .refuse _, fun _ _ => .refuse _⟩

theorem Rules.alike_upTo (g : ExprId → ExprId) (whole : Bool) {depth depth' : Nat}
    (hd : depth = depth' ∨ N ≤ depth ∧ N ≤ depth') :
    (Rules.upTo depth : Rules C).Alike g whole N (Rules.upTo depth' : Rules C') :=
  alike_over g whole (hd.imp_left fun h => ⟨h, alike_refusing g whole⟩)

end Grammar

end Scriptling
