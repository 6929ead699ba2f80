import Scriptling.Proofs.Cursor
import Scriptling.Proofs.Uses
import Scriptling.Proofs.Parser

namespace Scriptling

def shiftId (n k id : Nat) : Nat := if id < n then id else id + k

theorem shiftId_of_lt {n k id : Nat} (h : id < n) : shiftId n k id = id := if_pos h

theorem shiftId_of_le {n k id : Nat} (h : n ≤ id) : shiftId n k id = id + k :=
  if_neg (Nat.not_lt.2 h)

theorem shiftId_injective (n k : Nat) : Function.Injective (shiftId n k) := by
  intro i j h
  rcases Nat.lt_or_ge i n with hi | hi
  · rcases Nat.lt_or_ge j n with hj | hj
    · rwa [shiftId_of_lt hi, shiftId_of_lt hj] at h
    · rw [shiftId_of_lt hi, shiftId_of_le hj] at h
      omega
  · rcases Nat.lt_or_ge j n with hj | hj
    · rw [shiftId_of_le hi, shiftId_of_lt hj] at h
      omega
    · rw [shiftId_of_le hi, shiftId_of_le hj] at h
      omega

def Use.shift (n k : ExprId) (u : Use) : Use := { u with id := shiftId n k u.id }

def Cursor.shift (k : ExprId) (c : Cursor) : Cursor := { c with nextId := c.nextId + k }

namespace Parse

/-- Results that differ in what was read by `t`, and in the numbers still to give by `k`. -/
inductive Shifted (n k : ExprId) {α : Type} (t : α → α) :
    EStateM.Result (Located ParseFault) Cursor α → EStateM.Result (Located ParseFault) Cursor α →
      Prop where
  | ok {a : α} {c : Cursor} : n ≤ c.nextId → Shifted n k t (.ok a c) (.ok (t a) (c.shift k))
  | error {e : Located ParseFault} {c : Cursor} : n ≤ c.nextId →
      Shifted n k t (.error e c) (.error e (c.shift k))

/-- Two steps that read the same from numbers apart by `k`. -/
def Shifts (n k : ExprId) {α : Type} (t : α → α) (p p' : Parse Cursor α) : Prop :=
  ∀ c : Cursor, n ≤ c.nextId → Shifted n k t (p c) (p' (c.shift k))

variable {n k : ExprId} {α β : Type} {t : α → α} {u : β → β} {p p' : Parse Cursor α}
  {q q' : α → Parse Cursor β}

theorem Shifts.pure {a a' : α} (h : a' = t a) : Shifts n k t (pure a) (pure a') := by
  subst h
  exact fun c hc => .ok hc

theorem Shifts.refuse (what : Expected) : Shifts n k t (refuse what) (refuse what) :=
  fun _ hc => .error hc

theorem Shifts.bind (hp : Shifts n k t p p') (hq : ∀ a, Shifts n k u (q a) (q' (t a))) :
    Shifts n k u (p >>= q) (p' >>= q') := by
  intro c hc
  have h := hp c hc
  change Shifted n k u (EStateM.bind p q c) (EStateM.bind p' q' (c.shift k))
  unfold EStateM.bind
  generalize p c = r at h ⊢
  generalize p' (c.shift k) = r' at h ⊢
  cases h with
  | ok hc' => exact hq _ _ hc'
  | error hc' => exact .error hc'

theorem Shifts.map {g : α → β} (hp : Shifts n k t p p') (hg : ∀ a, g (t a) = u (g a)) :
    Shifts n k u (g <$> p) (g <$> p') := by
  intro c hc
  have h := hp c hc
  change Shifted n k u (EStateM.map g p c) (EStateM.map g p' (c.shift k))
  unfold EStateM.map
  generalize p c = r at h ⊢
  generalize p' (c.shift k) = r' at h ⊢
  cases h with
  | ok hc' =>
    dsimp only
    rw [hg]
    exact .ok hc'
  | error hc' => exact .error hc'

/-- A step that neither reads a tree nor gives a number. -/
abbrev Steady (n k : ExprId) {α : Type} (p : Parse Cursor α) : Prop := Shifts n k id p p

theorem Shifts.after {q q' : α → Parse Cursor β} (hp : Steady n k p)
    (hq : ∀ a, Shifts n k u (q a) (q' a)) : Shifts n k u (p >>= q) (p >>= q') :=
  .bind hp hq

theorem steady_acceptAny (kinds : List Kind) : Steady n k (acceptAny kinds) := by
  intro c hc
  rw [acceptAny_eq, acceptAny_eq]
  unfold Cursor.shift
  dsimp only
  split
  · exact .ok hc
  · split
    · rename_i ts _ _
      exact .ok (c := { c with rest := ts }) hc
    · exact .ok hc

theorem steady_expect (kind : Kind) (what : Expected) : Steady n k (expect kind what) := by
  refine .bind (steady_acceptAny [kind]) fun o => ?_
  cases o with
  | none => exact .refuse what
  | some t => exact .pure rfl

theorem steady_check (kind : Kind) : Steady n k (check kind) := fun _ hc => .ok hc

theorem steady_atEnd : Steady n k atEnd := fun _ hc => .ok hc

theorem steady_peek : Steady n k peek := fun _ hc => .ok hc

theorem steady_note (fault : ParseFault) (place : Place) : Steady n k (note fault place) :=
  fun c hc => .ok (c := { c with faults := c.faults ++ [⟨fault, place⟩] }) hc

theorem steady_terminator (what : Expected) : Steady n k (terminator what) := by
  intro c hc
  rw [terminator_eq, terminator_eq]
  unfold Cursor.shift
  dsimp only
  split
  · split
    · exact .ok hc
    · exact .error hc
  · split
    · rename_i ts _ _
      exact .ok (c := { c with rest := ts }) hc
    · exact .error hc

/-- A number given out is a later one by `k`. -/
theorem Shifts.fresh {q q' : ExprId → Parse Cursor β}
    (h : ∀ i, n ≤ i → Shifts n k u (q i) (q' (shiftId n k i))) :
    Shifts n k u (fresh >>= q) (fresh >>= q') := by
  intro c hc
  have hnext := h c.nextId hc { c with nextId := c.nextId + 1 } (Nat.le_succ_of_le hc)
  rw [shiftId_of_le hc] at hnext
  have hcursor : ({ c with nextId := c.nextId + 1 } : Cursor).shift k =
      { c.shift k with nextId := (c.shift k).nextId + 1 } := by
    simp only [Cursor.shift, Nat.add_right_comm]
  rw [hcursor] at hnext
  exact hnext

/-- A loop reads the same from numbers further on if its steps do. -/
theorem Shifts.iterate {step step' : α → Parse Cursor (Option α)}
    (h : ∀ a, Shifts n k (Option.map t) (step a) (step' (t a))) (bound : Nat) (a : α) :
    Shifts n k t (iterate step bound a) (iterate step' bound (t a)) := by
  induction bound generalizing a with
  | zero => exact .pure rfl
  | succ bound ih =>
    refine .bind (h a) fun o => ?_
    cases o with
    | none => exact .pure rfl
    | some b => exact ih b

theorem Shifts.chain {step step' : α → Parse Cursor (Option α)}
    (h : ∀ a, Shifts n k (Option.map t) (step a) (step' (t a))) {a a' : α} (ha : a' = t a) :
    Shifts n k t (chain step a) (chain step' a') := by
  subst ha
  exact fun c hc => Shifts.iterate h (c.rest.length + 1) a c hc

theorem Shifts.recovering (h : Shifts n k t p p') :
    Shifts n k (Option.map t) (recovering p) (recovering p') := by
  intro c hc
  have hp := h c hc
  rw [recovering_eq, recovering_eq]
  generalize p c = r at hp ⊢
  generalize p' (c.shift k) = r' at hp ⊢
  cases hp with
  | ok hc' => exact .ok hc'
  | @error e c' hc' =>
    exact .ok (a := none)
      (c := { c' with faults := c'.faults ++ [e], rest := skipStatement c'.rest }) hc'

theorem Shifts.items {tooMany : ParseFault} (h : Shifts n k t p p') :
    Shifts n k (List.map t) (items tooMany p) (items tooMany p') := by
  refine .bind h fun first => .chain (fun read => ?_) rfl
  have hnext : Shifts n k (Option.map (List.map t)) (do return some (read ++ [← p]))
      (do return some (List.map t read ++ [← p'])) :=
    .bind h fun a => .pure (by simp)
  refine .after (steady_acceptAny _) fun o => ?_
  cases o with
  | none => exact .pure rfl
  | some comma =>
    dsimp only
    rw [List.length_map]
    split
    · exact .after steady_peek fun _ => .after (steady_note _ _) fun _ => hnext
    · exact hnext

end Parse

namespace Grammar

open Parse

/-- The rules for expressions read the same from every number on. -/
structure Rules.Shifting (n k : ExprId) (rules : Rules Cursor) : Prop where
  assignment : Shifts n k (Expr.turn (Use.shift n k)) rules.assignment rules.assignment
  ternary : Shifts n k (Expr.turn (Use.shift n k)) rules.ternary rules.ternary
  unary : Shifts n k (Expr.turn (Use.shift n k)) rules.unary rules.unary

variable {n k : ExprId} {rules : Rules Cursor}

theorem shifts_expression (h : rules.Shifting n k) :
    Shifts n k (Expr.turn (Use.shift n k)) (expression rules) (expression rules) := by
  refine .bind h.assignment fun first => ?_
  refine .bind (t := List.map (Expr.turn (Use.shift n k))) (.chain (fun read => ?_) rfl) fun all => ?_
  · refine .after (steady_acceptAny _) fun o => ?_
    cases o with
    | none => exact .pure rfl
    | some comma => exact .bind h.assignment fun e => .pure (by simp)
  · cases all with
    | nil => exact .pure rfl
    | cons e es =>
      cases es with
      | nil => exact .pure rfl
      | cons d es => exact .pure (by simp [Expr.turn])

theorem shifts_primary (h : rules.Shifting n k) :
    Shifts n k (Expr.turn (Use.shift n k)) (primary rules) (primary rules) := by
  refine .after (steady_acceptAny _) fun o => ?_
  cases o with
  | none => exact .refuse _
  | some t =>
    dsimp only
    split
    · exact .pure rfl
    · exact .pure rfl
    · exact .pure rfl
    · exact .pure rfl
    · exact .pure rfl
    · exact .fresh fun i _ => .pure (by simp [Expr.turn, Use.shift])
    · exact .fresh fun i _ => .pure (by simp [Expr.turn, Use.shift])
    · refine .after (steady_expect _ _) fun _ => .after (steady_expect _ _) fun _ => ?_
      exact .fresh fun i _ => .pure (by simp [Expr.turn, Use.shift])
    · refine .bind (shifts_expression h) fun e => .after (steady_expect _ _) fun _ => ?_
      exact .pure (by simp [Expr.turn])

theorem shifts_arguments (h : rules.Shifting n k) :
    Shifts n k (List.map (Expr.turn (Use.shift n k))) (arguments rules) (arguments rules) := by
  refine .after (steady_check _) fun b => ?_
  split
  · exact .pure rfl
  · exact .items h.assignment

theorem shifts_call (h : rules.Shifting n k) :
    Shifts n k (Expr.turn (Use.shift n k)) (call rules) (call rules) := by
  refine .bind (shifts_primary h) fun e => .chain (fun e => ?_) rfl
  refine .after (steady_acceptAny _) fun o => ?_
  cases o with
  | none => exact .pure rfl
  | some t =>
    dsimp only
    split
    · refine .bind (shifts_arguments h) fun args => .after (steady_expect _ _) fun paren => ?_
      exact .pure (by simp [Expr.turn])
    · exact .after (steady_expect _ _) fun name => .pure (by simp [Expr.turn])

theorem shifts_update (operator : Token) (target : Expr) (before : Bool) :
    Shifts n k (Expr.turn (Use.shift n k)) (update operator target before)
      (update operator (target.turn (Use.shift n k)) before) := by
  cases target with
  | var id name => exact .pure rfl
  | get object name => exact .pure (by simp [Expr.turn])
  | _ => exact .after (steady_note _ _) fun _ => .pure rfl

theorem shifts_postfixed (h : rules.Shifting n k) :
    Shifts n k (Expr.turn (Use.shift n k)) (postfixed rules) (postfixed rules) := by
  refine .bind (shifts_call h) fun e => .after (steady_acceptAny _) fun o => ?_
  cases o with
  | none => exact .pure rfl
  | some operator => exact shifts_update operator e false

theorem shifts_unary (h : rules.Shifting n k) :
    Shifts n k (Expr.turn (Use.shift n k)) (unary rules) (unary rules) := by
  refine .after (steady_acceptAny _) fun o => ?_
  cases o with
  | none => exact shifts_postfixed h
  | some operator =>
    refine .bind h.unary fun e => ?_
    split
    · exact .pure (by simp [Expr.turn])
    · exact shifts_update operator e true

/-- Operators are joined to the same trees under other numbers. -/
theorem turn_join (f : Use → Use) (level : Level) (left right : Expr) (operator : Token) :
    (level.join left operator right).turn f = level.join (left.turn f) operator (right.turn f) := by
  unfold Level.join
  split <;> simp only [Expr.turn]

theorem shifts_binary {operand : Parse Cursor Expr}
    (h : Shifts n k (Expr.turn (Use.shift n k)) operand operand) (levels : List Level) :
    Shifts n k (Expr.turn (Use.shift n k)) (binary operand levels) (binary operand levels) := by
  induction levels with
  | nil => exact h
  | cons level levels ih =>
    refine .bind ih fun first => .chain (fun left => ?_) rfl
    refine .after (steady_acceptAny _) fun o => ?_
    cases o with
    | none => exact .pure rfl
    | some operator => exact .bind ih fun right => .pure (by simp [turn_join])

theorem shifts_ternary (h : rules.Shifting n k) :
    Shifts n k (Expr.turn (Use.shift n k)) (ternary rules) (ternary rules) := by
  refine .bind (shifts_binary (shifts_unary h) levels) fun c => .after (steady_acceptAny _) fun o => ?_
  cases o with
  | none => exact .pure rfl
  | some question =>
    refine .bind h.ternary fun yes => .after (steady_expect _ _) fun colon => ?_
    exact .bind h.ternary fun no => .pure (by simp [Expr.turn])

theorem shifts_assignTo (target : Expr) (operator : Token) (value : Expr) :
    Shifts n k (Expr.turn (Use.shift n k)) (assignTo target operator value)
      (assignTo (target.turn (Use.shift n k)) operator (value.turn (Use.shift n k))) := by
  cases target with
  | var id name =>
    refine .fresh fun i _ => .pure ?_
    split <;> simp [Expr.turn, Use.shift]
  | get object name =>
    simp only [Expr.turn, assignTo]
    refine .pure ?_
    split <;> simp [Expr.turn]
  | _ => exact .after (steady_note _ _) fun _ => .pure rfl

theorem shifts_assignment (h : rules.Shifting n k) :
    Shifts n k (Expr.turn (Use.shift n k)) (assignment rules) (assignment rules) := by
  refine .bind (shifts_ternary h) fun target => .after (steady_acceptAny _) fun o => ?_
  cases o with
  | none => exact .pure rfl
  | some operator => exact .bind h.assignment fun value => shifts_assignTo target operator value

theorem Rules.upTo_shifting (n k : ExprId) (depth : Nat) : (Rules.upTo depth).Shifting n k := by
  induction depth with
  | zero => exact ⟨.refuse _, .refuse _, .refuse _⟩
  | succ depth ih => exact ⟨shifts_assignment ih, shifts_ternary ih, shifts_unary ih⟩

structure Blocks.Shifting (n k : ExprId) (blocks : Blocks Cursor) : Prop where
  declaration : Shifts n k (Option.map (Stmt.turn (Use.shift n k))) blocks.declaration
    blocks.declaration
  statement : Shifts n k (Stmt.turn (Use.shift n k)) blocks.statement blocks.statement

variable {blocks : Blocks Cursor}

theorem shifts_declarations (hb : blocks.Shifting n k) {more : Parse Cursor Bool}
    (hm : Steady n k more) :
    Shifts n k (List.map (Stmt.turn (Use.shift n k))) (declarations blocks more)
      (declarations blocks more) := by
  refine .chain (fun read => ?_) rfl
  refine .after hm fun b => ?_
  split
  · refine .bind hb.declaration fun o => .pure ?_
    cases o <;> simp
  · exact .pure rfl

theorem shifts_block (hb : blocks.Shifting n k) :
    Shifts n k (List.map (Stmt.turn (Use.shift n k))) (block blocks) (block blocks) := by
  refine .bind (shifts_declarations hb fun c hc => .ok hc) fun body => ?_
  exact .after (steady_expect _ _) fun _ => .pure rfl

theorem shifts_param (h : rules.Shifting n k) :
    Shifts n k (Param.turn (Use.shift n k)) (param rules) (param rules) := by
  refine .after (steady_expect _ _) fun name => .after (steady_acceptAny _) fun o => ?_
  cases o with
  | none => exact .pure rfl
  | some equal => exact .bind h.assignment fun e => .pure rfl

theorem shifts_params (h : rules.Shifting n k) :
    Shifts n k (List.map (Param.turn (Use.shift n k))) (params rules) (params rules) := by
  refine .after (steady_check _) fun b => ?_
  split
  · exact .pure rfl
  · exact .items (shifts_param h)

theorem shifts_function (h : rules.Shifting n k) (hb : blocks.Shifting n k) (role : Role) :
    Shifts n k (FunctionDecl.turn (Use.shift n k)) (function rules blocks role)
      (function rules blocks role) := by
  refine .after (steady_expect _ _) fun name => .after (steady_expect _ _) fun _ => ?_
  refine .bind (shifts_params h) fun ps => .after (steady_expect _ _) fun _ => ?_
  refine .after (steady_expect _ _) fun _ => .bind (shifts_block hb) fun body => .pure ?_
  simp [FunctionDecl.turn]

theorem shifts_methods (h : rules.Shifting n k) (hb : blocks.Shifting n k) :
    Shifts n k (Prod.map (List.map (FunctionDecl.turn (Use.shift n k)))
      (List.map (FunctionDecl.turn (Use.shift n k)))) (methods rules blocks)
      (methods rules blocks) := by
  refine .chain ?_ rfl
  rintro ⟨ms, ss⟩
  refine .after (steady_check _) fun b => .after steady_atEnd fun b' => ?_
  split
  · exact .pure rfl
  refine .after (steady_acceptAny _) fun o => ?_
  cases o with
  | none => exact .bind (shifts_function h hb .method) fun d => .pure (by simp)
  | some keyword => exact .bind (shifts_function h hb .static) fun d => .pure (by simp)

theorem shifts_superclass :
    Shifts n k (Option.map (Superclass.turn (Use.shift n k))) superclass superclass := by
  refine .after (steady_acceptAny _) fun o => ?_
  cases o with
  | none => exact .pure rfl
  | some sign => exact .after (steady_expect _ _) fun name => .fresh fun i _ => .pure rfl

theorem shifts_classDecl (h : rules.Shifting n k) (hb : blocks.Shifting n k) :
    Shifts n k (Stmt.turn (Use.shift n k)) (classDecl rules blocks) (classDecl rules blocks) := by
  refine .after (steady_expect _ _) fun name => .bind shifts_superclass fun parent => ?_
  refine .after (steady_expect _ _) fun _ => .bind (shifts_methods h hb) fun r => ?_
  exact .after (steady_expect _ _) fun _ => .pure (by simp [Stmt.turn])

theorem shifts_varDecl (h : rules.Shifting n k) :
    Shifts n k (Stmt.turn (Use.shift n k)) (varDecl rules) (varDecl rules) := by
  refine .after (steady_expect _ _) fun name => .after (steady_acceptAny _) fun o => ?_
  have hend : ∀ initial : Option Expr, Shifts n k (Stmt.turn (Use.shift n k))
      (do terminator .variableEnd; pure (Stmt.var name initial))
      (do terminator .variableEnd; pure (Stmt.var name (initial.map (Expr.turn (Use.shift n k))))) :=
    fun initial => .after (steady_terminator _) fun _ => .pure (by simp [Stmt.turn])
  cases o with
  | none => exact hend none
  | some sign =>
    exact .bind (t := Option.map (Expr.turn (Use.shift n k)))
      (.map (shifts_expression h) fun _ => rfl) hend

theorem shifts_expressionStmt (h : rules.Shifting n k) :
    Shifts n k (Stmt.turn (Use.shift n k)) (expressionStmt rules) (expressionStmt rules) := by
  refine .bind (shifts_expression h) fun e => .after (steady_terminator _) fun _ => ?_
  exact .pure (by simp [Stmt.turn])

theorem shifts_forInitial (h : rules.Shifting n k) :
    Shifts n k (Option.map (Stmt.turn (Use.shift n k))) (forInitial rules) (forInitial rules) := by
  refine .after (steady_acceptAny _) fun o => ?_
  cases o with
  | none => exact .map (shifts_expressionStmt h) fun _ => rfl
  | some t =>
    dsimp only
    split
    · exact .pure rfl
    · exact .map (shifts_varDecl h) fun _ => rfl

/-- An expression that may be left out, and what is done with it. -/
theorem shifts_optional {β : Type} {u : β → β} {q q' : Option Expr → Parse Cursor β}
    (h : rules.Shifting n k) (absent : Bool)
    (hq : ∀ o, Shifts n k u (q o) (q' (o.map (Expr.turn (Use.shift n k))))) :
    Shifts n k u (if absent then pure none >>= q else some <$> expression rules >>= q)
      (if absent then pure none >>= q' else some <$> expression rules >>= q') := by
  cases absent with
  | true => exact hq none
  | false => exact .bind (.map (shifts_expression h) fun _ => rfl) hq

theorem shifts_condition {β : Type} {u : β → β} {q q' : Expr → Parse Cursor β}
    (h : rules.Shifting n k) (absent : Bool)
    (hq : ∀ e, Shifts n k u (q e) (q' (e.turn (Use.shift n k)))) :
    Shifts n k u
      (if absent then pure (.literal (.bool true)) >>= q else expression rules >>= q)
      (if absent then pure (.literal (.bool true)) >>= q' else expression rules >>= q') := by
  cases absent with
  | true => exact hq (.literal (.bool true))
  | false => exact .bind (shifts_expression h) hq

theorem shifts_forStmt (h : rules.Shifting n k) (hb : blocks.Shifting n k) :
    Shifts n k (Stmt.turn (Use.shift n k)) (forStmt rules blocks) (forStmt rules blocks) := by
  refine .after (steady_expect _ _) fun _ => .bind (shifts_forInitial h) fun initial => ?_
  refine .after (steady_check _) fun absent => shifts_condition h absent fun c => ?_
  refine .after (steady_expect _ _) fun _ => .after (steady_check _) fun absent' => ?_
  refine shifts_optional h absent' fun increment => .after (steady_expect _ _) fun _ => ?_
  refine .bind hb.statement fun body => ?_
  cases initial with
  | none => exact .pure (by simp [Stmt.turn])
  | some first => exact .pure (by simp [Stmt.turn])

theorem shifts_ifStmt (h : rules.Shifting n k) (hb : blocks.Shifting n k) :
    Shifts n k (Stmt.turn (Use.shift n k)) (ifStmt rules blocks) (ifStmt rules blocks) := by
  refine .after (steady_expect _ _) fun _ => .bind (shifts_expression h) fun c => ?_
  refine .after (steady_expect _ _) fun _ => .bind hb.statement fun yes => ?_
  refine .after (steady_acceptAny _) fun o => ?_
  cases o with
  | none => exact .pure (by simp [Stmt.turn])
  | some otherwise => exact .bind hb.statement fun no => .pure (by simp [Stmt.turn])

theorem shifts_whileStmt (h : rules.Shifting n k) (hb : blocks.Shifting n k) :
    Shifts n k (Stmt.turn (Use.shift n k)) (whileStmt rules blocks) (whileStmt rules blocks) := by
  refine .after (steady_expect _ _) fun _ => .bind (shifts_expression h) fun c => ?_
  refine .after (steady_expect _ _) fun _ => .bind hb.statement fun body => ?_
  exact .pure (by simp [Stmt.turn])

theorem shifts_returnStmt (h : rules.Shifting n k) (keyword : Token) :
    Shifts n k (Stmt.turn (Use.shift n k)) (returnStmt rules keyword)
      (returnStmt rules keyword) := by
  refine .after (steady_check _) fun b => .after steady_atEnd fun b' => ?_
  refine shifts_optional h (b || b') fun value => .after (steady_terminator _) fun _ => ?_
  exact .pure (by simp [Stmt.turn])

theorem shifts_statement (h : rules.Shifting n k) (hb : blocks.Shifting n k) :
    Shifts n k (Stmt.turn (Use.shift n k)) (statement rules blocks) (statement rules blocks) := by
  refine .after (steady_acceptAny _) fun o => ?_
  cases o with
  | none => exact shifts_expressionStmt h
  | some t =>
    dsimp only
    split
    · exact shifts_forStmt h hb
    · exact shifts_ifStmt h hb
    · exact shifts_whileStmt h hb
    · exact shifts_returnStmt h t
    · exact .after (steady_terminator _) fun _ => .pure (by simp [Stmt.turn])
    · exact .after (steady_terminator _) fun _ => .pure (by simp [Stmt.turn])
    · exact .map (shifts_block hb) fun _ => by simp [Stmt.turn]

theorem shifts_declaration (h : rules.Shifting n k) (hb : blocks.Shifting n k) :
    Shifts n k (Stmt.turn (Use.shift n k)) (declaration rules blocks) (declaration rules blocks) := by
  refine .after (steady_acceptAny _) fun o => ?_
  cases o with
  | none => exact shifts_statement h hb
  | some t =>
    dsimp only
    split
    · exact shifts_classDecl h hb
    · exact .map (shifts_function h hb .function) fun _ => by simp [Stmt.turn]
    · exact shifts_varDecl h

theorem Blocks.upTo_shifting (h : rules.Shifting n k) (depth : Nat) :
    (Blocks.upTo rules depth).Shifting n k := by
  induction depth with
  | zero => exact ⟨.recovering (.refuse _), .refuse _⟩
  | succ depth ih => exact ⟨.recovering (shifts_declaration h ih), shifts_statement h ih⟩

theorem shifts_program (n k : ExprId) (depth : Nat) :
    Shifts n k (List.map (Stmt.turn (Use.shift n k))) (program depth) (program depth) :=
  shifts_declarations (Blocks.upTo_shifting (Rules.upTo_shifting n k depth) depth)
    fun _ hc => .ok hc

end Grammar

/-- Read from a later number on, the same tokens give the same faults, or the same tree with later
numbers. -/
theorem parse_shift (lenient : Bool) {n nextId : ExprId} (k : ExprId) (tokens : List Token)
    (h : n ≤ nextId) : parse lenient (nextId + k) tokens =
      ⟨(parse lenient nextId tokens).result.map (List.map (Stmt.turn (Use.shift n k))),
        (parse lenient nextId tokens).nextId + k⟩ := by
  have hshifts := Grammar.shifts_program n k
    ((Cursor.start lenient nextId tokens).rest.length + 1) (Cursor.start lenient nextId tokens) h
  have hstart : (Cursor.start lenient nextId tokens).shift k =
      Cursor.start lenient (nextId + k) tokens := rfl
  have hrest : (Cursor.start lenient (nextId + k) tokens).rest =
      (Cursor.start lenient nextId tokens).rest := rfl
  simp only [parse_eq, Cursor.parse]
  rw [hrest]
  rw [hstart] at hshifts
  generalize Grammar.program _ (Cursor.start lenient nextId tokens) = r at hshifts ⊢
  generalize Grammar.program _ (Cursor.start lenient (nextId + k) tokens) = r' at hshifts ⊢
  cases hshifts with
  | @ok ss c hc =>
    dsimp only [Cursor.shift]
    split <;> rfl
  | error hc => rfl

end Scriptling
