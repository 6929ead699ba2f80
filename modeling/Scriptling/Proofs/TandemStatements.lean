import Scriptling.Proofs.TandemForms

namespace Scriptling

open Machine

variable {P : Pairing} {v w : Overlay} {f f' g g' : FrameId} {ξ : Padding} {m m' : Machine}
  {b b' : Below}

/-- Methods are made in twins. -/
theorem tandem_methodTable (initializer : Token → Bool) {ds ds' : List FunctionDecl}
    {table : Table ClosureId} (htable : v.Methods table) (hds : P.Methods (false :: ξ) ds ds')
    (hξ : ξ.Level) (ha : v.Aligned ξ g g') :
    P.Sim v f f' (Below.methodTable g initializer table ds)
      (Below.methodTable g' initializer table ds') fun w table => w.Methods table := by
  induction ds generalizing v table ds' with
  | nil =>
    cases hds
    exact .pure fun _ hw => htable.mono hw
  | cons d ds ih =>
    cases hds with
    | @cons _ _ d' _ ds' hd hds =>
      have htwins : P.Twins v false ⟨d, g, initializer d.name⟩ ⟨d', g', initializer d'.name⟩ :=
        ⟨congrArg initializer hd.name_eq, ξ, hξ, ha, hd⟩
      simp only [Below.methodTable]
      rw [hd.name_eq] at htwins ⊢
      refine (tandem_newClosure htwins).bind fun w id hw hid => ?_
      refine ih (Table.forall_put (fun name k hk => ?_) hid) hds (ha.mono hw)
      exact hw.kind k false (htable name k hk)

/-- The methods of a class are made in twin frames, with loops written out in them. -/
theorem tandem_fillClass {name : Token} {parent : Option ClassId}
    {methods methods' statics statics' : List FunctionDecl} (hf : v.twin f f') (hξ : ξ.Level)
    (ha : v.Aligned ξ g g') (hm : P.Methods (false :: ξ) methods methods')
    (hs : P.Methods (false :: ξ) statics statics') :
    P.Sim v f f' (Below.fillClass f name parent methods statics g)
      (Below.fillClass f' name parent methods' statics' g') anyEnd := by
  have hnone : ∀ w : Overlay, w.Methods [] := fun _ _ _ hk => by cases hk
  refine (tandem_methodTable _ (hnone v) hm hξ ha).bind fun w ms hw hms => ?_
  refine (tandem_methodTable _ (hnone w) hs hξ (ha.mono hw)).bind fun u ss hu hss => ?_
  have hrecord : u.Record ⟨name.lexeme, parent, ms, ss, []⟩ :=
    ⟨hms.mono hu, hss, fun _ _ hx => by cases hx⟩
  refine (tandem_newClass hrecord).bind fun t c ht _ => ?_
  have hv := Overlay.le_trans hw (Overlay.le_trans hu ht)
  exact tandem_define (hv.twin f f' hf) name.lexeme (x := .classRef c) trivial

/-- So a class is declared alike. -/
theorem tandem_declareClass {name : Token} {parent : Option ClassId}
    {methods methods' statics statics' : List FunctionDecl} (hξ : ξ.Level) (ha : v.Aligned ξ f f')
    (hm : P.Methods (ξ.inClass parent.isSome) methods methods')
    (hs : P.Methods (ξ.inClass parent.isSome) statics statics') :
    P.Sim v f f' (Below.declareClass name parent methods statics)
      (Below.declareClass name parent methods' statics') anyEnd := by
  have hf := ha.twin hξ
  refine tandem_currentFrame ((tandem_define hf name.lexeme (x := .nil) trivial).bind
    fun w _ hw _ => ?_)
  cases parent with
  | none => exact tandem_fillClass (hw.twin f f' hf) hξ (ha.mono hw) hm hs
  | some c =>
    have hsuper : ∀ key x, Table.get? [("super", Value.classRef c)] key = some x → x.Bound w := by
      intro key x hx
      rw [Table.get?] at hx
      split at hx
      · cases hx
        trivial
      · cases hx
    refine tandem_openFrame hsuper fun u g g' hu => ?_
    have hv := Overlay.le_trans (Overlay.le_trans hw hu) (u.le_openFrames g g' f f')
    exact tandem_fillClass (hv.twin f f' hf) (Padding.level_cons ξ)
      ((ha.mono (Overlay.le_trans hw hu)).opened g g') hm hs

/-- A loop goes in tandem with another one if their conditions and their rounds do. -/
theorem tandem_loop {condition : Expr} {increment increment' : Option Expr} {body body' : Stmt}
    (hcondition : P.Sim v f f' (b.evaluate condition) (b'.evaluate condition) boundResult)
    (hround : P.Sim v f f' (b.round increment body) (b'.round increment' body') (leavesAs false))
    {rounds rounds' : Nat} (hfirst : P.first = true → rounds ≤ rounds')
    (hsecond : P.first = false → rounds' ≤ rounds) :
    P.Sim v f f' (b.loop condition increment body rounds)
      (b'.loop condition increment' body' rounds') (leavesAs false) := by
  induction rounds generalizing v rounds' with
  | zero =>
    cases hf : P.first with
    | true => exact fun _ _ _ _ _ => .first hf
    | false =>
      obtain rfl := Nat.le_zero.1 (hsecond hf)
      exact .exhausted
  | succ rounds ih =>
    cases rounds' with
    | zero =>
      cases hf : P.first with
      | true => exact absurd (hfirst hf) (Nat.not_succ_le_zero rounds)
      | false => exact fun _ _ _ _ _ => .second hf
    | succ rounds' =>
      rw [Below.loop_succ, Below.loop_succ]
      refine hcondition.bind fun w x hw _ => ?_
      split
      · refine (hround.mono hw).bind fun u flow hu hflow => ?_
        have hv := Overlay.le_trans hw hu
        have hagain := ih (hcondition.mono hv) (hround.mono hv)
          (fun hf => Nat.le_of_succ_le_succ (hfirst hf))
          fun hf => Nat.le_of_succ_le_succ (hsecond hf)
        cases flow with
        | normal => exact hagain
        | next keyword => exact hagain
        | «break» keyword => exact .pure fun _ _ => trivial
        | «return» x => exact .pure fun _ ht => Value.Bound.mono hflow ht
      · exact .pure fun _ _ => trivial

/-- The second run does in a block what the first does without one. -/
theorem tandem_enclosed {a : Eval Flow} {Q : Overlay → Flow → Prop} {body' : List Stmt}
    (ha : v.Aligned ξ f f') (h : ∀ w g', v ≤ w → w.Aligned (true :: ξ) f g' →
      P.Sim w f g' a (b'.executeAll body') Q) :
    P.Sim v f f' a (b'.executeStep (.block body')) Q := by
  intro w m m' hw hm
  have hframe : P.Sim w f f' a
      (openFrame m'.current [] >>= fun g' => Machine.inFrame g' (b'.executeAll body')) Q := by
    rw [hm.current']
    refine tandem_addFrame fun u g' hu => Pairing.Sim.inFrame_second ?_
    have hv := Overlay.le_trans hw hu
    exact h _ _ (Overlay.le_trans hv (u.le_addFrame g' f')) ((ha.mono hv).beside g')
  exact hframe.on hm

namespace Pairing.Engine

variable (h : P.Engine b b')
include h

/-- What follows the body in a round. -/
theorem advance {increment : Option Expr} {flow : Flow} {skips : Bool}
    (hi : P.MeetsAll ξ (Expr.uses? increment)) (ha : v.Aligned ξ f f') (hl : flow.Leaves v skips) :
    P.Sim v f f'
      (if flow.goesOn then do discard (b.evaluate? increment); pure .normal else pure flow)
      (if flow.goesOn then do discard (b'.evaluate? increment); pure .normal else pure flow)
      (leavesAs false) := by
  have hincrement := (h.evaluate? increment hi ha).discard
  cases flow with
  | normal => exact hincrement.bind fun _ _ _ _ => .pure fun _ _ => trivial
  | next => exact hincrement.bind fun _ _ _ _ => .pure fun _ _ => trivial
  | «break» keyword => exact .pure fun _ _ => trivial
  | «return» x => exact .pure fun _ hw => Value.Bound.mono hl hw

/-- A round, with the increment at its end. -/
theorem round {increment : Option Expr} {body body' : Stmt} (hs : P.Stmts ξ body body')
    (hi : P.MeetsAll ξ (Expr.uses? increment)) (ha : v.Aligned ξ f f') :
    P.Sim v f f' (b.round increment body) (b'.round increment body') (leavesAs false) :=
  (h.execute hs ha).bind fun _ _ hw hflow => h.advance hi (ha.mono hw) hflow

/-- A body with what stands behind it in a block. There is no `next` by which control could pass
that. -/
theorem roundBefore {increment : Option Expr} {body body' : Stmt} {rest' : List Stmt}
    (hskips : body.skips = false) (hs : P.Stmts ξ body body') (ha : v.Aligned ξ f f')
    (hrest : P.Sim v f f' (do discard (b.evaluate? increment); pure .normal)
      (b'.executeAll rest') (leavesAs false)) :
    P.Sim v f f' (b.round increment body) (b'.executeAll (body' :: rest')) (leavesAs false) := by
  refine (h.execute hs ha).bind fun w flow hw hflow => ?_
  rw [hskips] at hflow
  cases flow with
  | normal => exact hrest.mono hw
  | next => cases hflow
  | «break» keyword => exact .pure fun _ _ => trivial
  | «return» x => exact .pure fun _ hu => Value.Bound.mono hflow hu

/-- Loops that are not written out, round by round. -/
theorem loop {condition : Expr} {increment : Option Expr} {body body' : Stmt}
    (hc : P.MeetsAll ξ condition.uses) (hs : P.Stmts ξ body body')
    (hi : P.MeetsAll ξ (Expr.uses? increment)) (ha : v.Aligned ξ f f') :
    P.Sim v f f' (b.loop condition increment body b.rounds)
      (b'.loop condition increment body' b'.rounds) (leavesAs false) :=
  tandem_loop (h.evaluate hc ha) (h.round hs hi ha) h.rounds h.rounds'

/-- A block opens a frame on both sides. -/
theorem executeBlock {body body' : List Stmt} (hs : P.Bodies (false :: ξ) body body')
    (ha : v.Aligned ξ f f') :
    P.Sim v f f' (b.executeStep (.block body)) (b'.executeStep (.block body'))
      (leavesAs (Stmt.skipsAll body)) := by
  refine tandem_currentFrame (tandem_openFrame (fun _ _ hx => by cases hx) fun w g g' hw => ?_)
  exact (h.executeAll hs ((ha.mono hw).opened g g')).inFrame

theorem evaluateSuperclass (superclass : Option Superclass)
    (hu : P.MeetsAll ξ (Superclass.uses? superclass)) (ha : v.Aligned ξ f f') :
    P.Sim v f f' (b.evaluateSuperclass superclass) (b'.evaluateSuperclass superclass)
      fun _ parent => parent.isSome = superclass.isSome := by
  cases superclass with
  | none => exact .pure fun _ _ => rfl
  | some parent =>
    refine (h.evaluate (e := parent.expr) hu ha).bind fun w x _ _ => ?_
    cases x with
    | classRef c => exact .pure fun _ _ => rfl
    | _ => exact .fail _ _

/-- Classes, with their superclass clauses. -/
theorem executeClass {name : Token} {superclass : Option Superclass}
    {methods methods' statics statics' : List FunctionDecl} (hξ : ξ.Level)
    (hu : P.MeetsAll ξ (Superclass.uses? superclass))
    (hm : P.Methods (ξ.inClass superclass.isSome) methods methods')
    (hs : P.Methods (ξ.inClass superclass.isSome) statics statics') (ha : v.Aligned ξ f f') :
    P.Sim v f f' (b.executeClass name superclass methods statics)
      (b'.executeClass name superclass methods' statics') anyEnd := by
  rw [Below.executeClass_eq, Below.executeClass_eq]
  refine (h.evaluateSuperclass superclass hu ha).bind fun w parent hw hparent => ?_
  rw [← hparent] at hm hs
  exact tandem_declareClass hξ (ha.mono hw) hm hs

end Pairing.Engine

/-- The second depth is enough beside the first one, with some to spare, if it is the first run that
may be cut short; else it is not more than the first. A loop that is written out is deeper by up to
three statements. -/
structure Pairing.Enough (P : Pairing) (n k spare : Nat) : Prop where
  first : P.first = true → 4 * n + spare ≤ k
  second : P.first = false → k ≤ n

/-- Evaluation up to all depths that are enough beside the first one. -/
def Pairing.Engines (P : Pairing) (n : Nat) : Prop :=
  ∀ k, P.Enough n k 0 → P.Engine (.upTo n) (.upTo k)

namespace Pairing.Enough

variable {n k spare : Nat}

theorem less (h : P.Enough n k (spare + 1)) : P.Enough n k spare :=
  ⟨fun hf => Nat.le_of_succ_le (h.first hf), h.second⟩

theorem below (h : P.Enough n (k + 1) (spare + 1)) : P.Enough n k spare :=
  ⟨fun hf => Nat.le_of_succ_le_succ (h.first hf), fun hf => Nat.le_of_succ_le (h.second hf)⟩

/-- A statement of the second run, a depth further down. -/
theorem execute {a : Eval Flow} {Q : Overlay → Flow → Prop} {s' : Stmt}
    (h : P.Enough n k (spare + 1))
    (hs : ∀ k, P.Enough n k spare → P.Sim v f f' a ((Below.upTo k).executeStep s') Q) :
    P.Sim v f f' a ((Below.upTo k).execute s') Q := by
  cases k with
  | zero =>
    cases hf : P.first with
    | true => exact absurd (h.first hf) (by omega)
    | false => exact fun _ _ _ _ _ => .second hf
  | succ k => exact hs k h.below

end Pairing.Enough

theorem Below.executeAll_singleton (b : Below) (s : Stmt) : b.executeAll [s] = b.execute s := by
  rw [executeAll]
  conv => rhs; rw [← bind_pure (b.execute s)]
  congr 1
  funext flow
  cases flow <;> rfl

namespace Pairing.Engines

variable {n k : Nat} (h : P.Engines n)
include h

/-- The second run comes to the increment behind the body. -/
theorem increment {e : Expr} (hi : P.MeetsAll ξ e.uses) (ha : v.Aligned ξ f f')
    (hk : P.Enough n k 1) :
    P.Sim v f f' (do discard ((Below.upTo n).evaluate? (some e)); pure Flow.normal)
      ((Below.upTo k).executeAll [.expr e]) (leavesAs false) := by
  rw [Below.executeAll_singleton]
  refine hk.execute fun k hk => ?_
  exact ((h k hk).evaluate hi ha).discard.bind fun _ _ _ _ => .pure fun _ _ => trivial

/-- A round of a loop that is written out. -/
theorem unrolledRound {increment : Option Expr} {body body' : Stmt} (hskips : body.skips = false)
    (hs : P.Stmts (true :: ξ) body body') (hi : P.MeetsAll (true :: ξ) (Expr.uses? increment))
    (ha : v.Aligned ξ f f') (hk : P.Enough n k 2) :
    P.Sim v f f' ((Below.upTo n).round increment body)
      ((Below.upTo k).round none (body'.withIncrement increment)) (leavesAs false) := by
  have hblock : P.Sim v f f' ((Below.upTo n).round increment body)
      ((Below.upTo k).execute (body'.withIncrement increment)) (leavesAs false) := by
    refine hk.execute fun k hk => ?_
    have hengine := h k hk.less
    cases increment with
    | none =>
      exact tandem_enclosed ha fun w g' _ ha =>
        hengine.roundBefore hskips hs ha (.pure fun _ _ => trivial)
    | some e =>
      exact tandem_enclosed ha fun w g' _ ha =>
        hengine.roundBefore hskips hs ha (h.increment hi ha hk)
  refine hblock.idly fun w flow m' _ hflow => ?_
  cases flow with
  | next => cases hflow
  | _ => rfl

/-- A loop that is written out in its place. -/
theorem unrolled {condition : Expr} {increment : Option Expr} {body body' : Stmt}
    (hskips : body.skips = false) (hc : P.MeetsAll ξ condition.uses)
    (hs : P.Stmts (true :: ξ) body body') (hi : P.MeetsAll (true :: ξ) (Expr.uses? increment))
    (ha : v.Aligned ξ f f') (hk : P.Enough n k 2) :
    P.Sim v f f' ((Below.upTo n).executeStep (.for condition increment body))
      ((Below.upTo k).executeStep (.while condition (body'.withIncrement increment)))
      (leavesAs false) := by
  have hengine := h k hk.less.less
  exact tandem_loop (hengine.evaluate hc ha) (h.unrolledRound hskips hs hi ha hk) hengine.rounds
    hengine.rounds'

/-- A loop that is written out in a block of its own. -/
theorem enclosed {condition : Expr} {increment : Option Expr} {body body' : Stmt}
    (hskips : body.skips = false) (hc : P.MeetsAll (true :: ξ) condition.uses)
    (hs : P.Stmts (true :: true :: ξ) body body')
    (hi : P.MeetsAll (true :: true :: ξ) (Expr.uses? increment))
    (ha : v.Aligned ξ f f') (hk : P.Enough n k 3) :
    P.Sim v f f' ((Below.upTo n).executeStep (.for condition increment body))
      ((Below.upTo k).executeStep (.block [.while condition (body'.withIncrement increment)]))
      (leavesAs false) := by
  refine tandem_enclosed ha fun w g' _ ha => ?_
  rw [Below.executeAll_singleton]
  exact hk.execute fun k hk => h.unrolled hskips hc hs hi ha hk

/-- A statement by its parts, with three statements to spare. -/
theorem executeStep {s s' : Stmt} (hs : P.Stmts ξ s s') (ha : v.Aligned ξ f f')
    (hk : P.Enough n k 3) :
    P.Sim v f f' ((Below.upTo n).executeStep s) ((Below.upTo k).executeStep s')
      (leavesAs s.skips) := by
  have hengine := h k hk.less.less.less
  cases hs with
  | @expr _ e hu =>
    exact (hengine.evaluate hu ha).discard.bind fun _ _ _ _ => .pure fun _ _ => trivial
  | @var _ name initial hξ hu =>
    refine (hengine.evaluate? initial hu ha).bind fun w x hw hx => ?_
    refine tandem_currentFrame ((tandem_define ((ha.mono hw).twin hξ) name.lexeme hx).bind
      fun _ _ _ _ => ?_)
    exact .pure fun _ _ => trivial
  | block hs => exact hengine.executeBlock hs ha
  | ifThen hc hs =>
    refine (hengine.evaluate hc ha).bind fun w x hw _ => ?_
    split
    · exact hengine.execute hs (ha.mono hw)
    · exact .pure fun _ _ => trivial
  | @ifElse _ _ whenTrue _ whenFalse _ hc hs₁ hs₂ =>
    refine (hengine.evaluate hc ha).bind fun w x hw _ => ?_
    split
    · exact (hengine.execute hs₁ (ha.mono hw)).weaken fun _ _ _ hflow =>
        hflow.imp fun hs => by rw [Stmt.skips, hs, Bool.true_or]
    · exact (hengine.execute hs₂ (ha.mono hw)).weaken fun _ _ _ hflow =>
        hflow.imp fun hs => by rw [Stmt.skips, hs, Bool.or_true]
  | «while» hc hs =>
    have hnone : P.MeetsAll ξ (Expr.uses? none) := fun _ hu => by cases hu
    exact hengine.loop hc hs hnone ha
  | «for» hc hs hi => exact hengine.loop hc hs hi ha
  | @function _ decl decl' hξ hd =>
    have htwin := ha.twin hξ
    refine tandem_currentFrame ?_
    have htwins : P.Twins v true ⟨decl, f, false⟩ ⟨decl', f', false⟩ := ⟨rfl, ξ, hξ, ha, hd⟩
    refine (tandem_newClosure htwins).bind fun w id hw hid => ?_
    rw [hd.name_eq]
    refine (tandem_define (x := .closure id) (hw.twin f f' htwin) decl.name.lexeme hid).bind
      fun _ _ _ _ => ?_
    exact .pure fun _ _ => trivial
  | @«return» _ keyword value hu =>
    exact (hengine.evaluate? value hu ha).bind fun _ x _ hx => .pure fun _ hw => hx.mono hw
  | «break» keyword => exact .pure fun _ _ => trivial
  | next keyword => exact .pure fun _ _ => rfl
  | @«class» _ name superclass _ _ _ _ hξ hu hm hs =>
    exact (hengine.executeClass hξ hu hm hs ha).bind fun _ _ _ _ => .pure fun _ _ => trivial
  | unrolled hskips hc hs hi => exact h.unrolled hskips hc hs hi ha hk.less
  | enclosed hskips hc hs hi => exact h.enclosed hskips hc hs hi ha hk

end Pairing.Engines

/-- Evaluation goes in tandem up to all depths that are enough for each other. -/
theorem Pairing.engines (P : Pairing) (n : Nat) : P.Engines n := by
  -- one depth more of the first run is four of the second, so three statements are to spare
  induction n with
  | zero =>
    intro k hk
    cases hf : P.first with
    | true =>
      exact ⟨fun _ => Nat.zero_le k, fun h => by simp [hf] at h,
        fun _ _ _ _ _ _ _ => .first hf, fun _ _ _ _ _ _ _ => .first hf⟩
    | false =>
      obtain rfl := Nat.le_zero.1 (hk.second hf)
      exact ⟨fun _ => Nat.le_refl 0, fun _ => Nat.le_refl 0, fun _ _ => .exhausted,
        fun _ _ => .exhausted⟩
  | succ n ih =>
    intro k hk
    cases k with
    | zero =>
      cases hf : P.first with
      | true => exact absurd (hk.first hf) (by omega)
      | false =>
        exact ⟨fun h => by simp [hf] at h, fun _ => Nat.zero_le _,
          fun _ _ _ _ _ _ _ => .second hf, fun _ _ _ _ _ _ _ => .second hf⟩
    | succ k =>
      have hk₃ : P.Enough n k 3 :=
        ⟨fun hf => by have := hk.first hf; omega, fun hf => Nat.le_of_succ_le_succ (hk.second hf)⟩
      have hengine := ih k hk₃.less.less.less
      exact ⟨fun hf => Nat.succ_le_succ (hengine.rounds hf),
        fun hf => Nat.succ_le_succ (hengine.rounds' hf), hengine.evaluateStep,
        fun hs ha => ih.executeStep hs ha hk₃⟩

end Scriptling
