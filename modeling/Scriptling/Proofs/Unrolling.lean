import Scriptling.Proofs.Rounds
import Scriptling.Proofs.Twin

namespace Scriptling

/-- A loop's body with the increment behind it, in a block. -/
def Stmt.withIncrement (body : Stmt) : Option Expr → Stmt
  | none => .block [body]
  | some increment => .block [body, .expr increment]

mutual

/-- The second statement is the first with some loops written out, none of which has a `next` for it
in its body. A loop is written out in its place or in a block of its own. Only where `outside`
allows it are loops written out that no scope is around. -/
inductive Stmt.Unrolls : (outside : Bool) → Stmt → Stmt → Prop
  | expr {outside : Bool} (e : Expr) : Stmt.Unrolls outside (.expr e) (.expr e)
  | var {outside : Bool} (name : Token) (initial : Option Expr) :
      Stmt.Unrolls outside (.var name initial) (.var name initial)
  | block {outside : Bool} {body body' : List Stmt} : Stmt.UnrollsAll true body body' →
      Stmt.Unrolls outside (.block body) (.block body')
  | ifThen {outside : Bool} (condition : Expr) {whenTrue whenTrue' : Stmt} :
      Stmt.Unrolls outside whenTrue whenTrue' →
      Stmt.Unrolls outside (.ifThen condition whenTrue) (.ifThen condition whenTrue')
  | ifElse {outside : Bool} (condition : Expr) {whenTrue whenTrue' whenFalse whenFalse' : Stmt} :
      Stmt.Unrolls outside whenTrue whenTrue' → Stmt.Unrolls outside whenFalse whenFalse' →
      Stmt.Unrolls outside (.ifElse condition whenTrue whenFalse)
        (.ifElse condition whenTrue' whenFalse')
  | while {outside : Bool} (condition : Expr) {body body' : Stmt} :
      Stmt.Unrolls outside body body' →
      Stmt.Unrolls outside (.while condition body) (.while condition body')
  | for {outside : Bool} (condition : Expr) (increment : Option Expr) {body body' : Stmt} :
      Stmt.Unrolls outside body body' →
      Stmt.Unrolls outside (.for condition increment body) (.for condition increment body')
  | function {outside : Bool} {decl decl' : FunctionDecl} : FunctionDecl.Unrolls decl decl' →
      Stmt.Unrolls outside (.function decl) (.function decl')
  | return {outside : Bool} (keyword : Token) (value : Option Expr) :
      Stmt.Unrolls outside (.return keyword value) (.return keyword value)
  | break {outside : Bool} (keyword : Token) :
      Stmt.Unrolls outside (.break keyword) (.break keyword)
  | next {outside : Bool} (keyword : Token) : Stmt.Unrolls outside (.next keyword) (.next keyword)
  | class {outside : Bool} (name : Token) (superclass : Option Superclass)
      {methods methods' statics statics' : List FunctionDecl} :
      FunctionDecl.UnrollsAll methods methods' → FunctionDecl.UnrollsAll statics statics' →
      Stmt.Unrolls outside (.class name superclass methods statics)
        (.class name superclass methods' statics')
  | unrolled (condition : Expr) (increment : Option Expr) {body body' : Stmt} :
      body.skips = false → Stmt.Unrolls true body body' →
      Stmt.Unrolls true (.for condition increment body)
        (.while condition (body'.withIncrement increment))
  | enclosed (condition : Expr) (increment : Option Expr) {body body' : Stmt} :
      body.skips = false → Stmt.Unrolls true body body' →
      Stmt.Unrolls true (.for condition increment body)
        (.block [.while condition (body'.withIncrement increment)])

inductive Stmt.UnrollsAll : (outside : Bool) → List Stmt → List Stmt → Prop
  | nil {outside : Bool} : Stmt.UnrollsAll outside [] []
  | cons {outside : Bool} {s s' : Stmt} {ss ss' : List Stmt} : Stmt.Unrolls outside s s' →
      Stmt.UnrollsAll outside ss ss' → Stmt.UnrollsAll outside (s :: ss) (s' :: ss')

inductive FunctionDecl.Unrolls : FunctionDecl → FunctionDecl → Prop
  | body (name : Token) (params : List Param) {body body' : List Stmt} :
      Stmt.UnrollsAll true body body' →
      FunctionDecl.Unrolls ⟨name, params, body⟩ ⟨name, params, body'⟩

inductive FunctionDecl.UnrollsAll : List FunctionDecl → List FunctionDecl → Prop
  | nil : FunctionDecl.UnrollsAll [] []
  | cons {d d' : FunctionDecl} {ds ds' : List FunctionDecl} : FunctionDecl.Unrolls d d' →
      FunctionDecl.UnrollsAll ds ds' → FunctionDecl.UnrollsAll (d :: ds) (d' :: ds')

end

mutual

/-- No loop has to be written out. -/
theorem Stmt.unrolls_refl : ∀ (s : Stmt) (outside : Bool), s.Unrolls outside s
  | .expr e, _ => .expr e
  | .var name initial, _ => .var name initial
  | .block body, _ => .block (Stmt.unrollsAll_refl body true)
  | .ifThen condition whenTrue, o => .ifThen condition (Stmt.unrolls_refl whenTrue o)
  | .ifElse condition whenTrue whenFalse, o =>
    .ifElse condition (Stmt.unrolls_refl whenTrue o) (Stmt.unrolls_refl whenFalse o)
  | .while condition body, o => .while condition (Stmt.unrolls_refl body o)
  | .for condition increment body, o => .for condition increment (Stmt.unrolls_refl body o)
  | .function decl, _ => .function (FunctionDecl.unrolls_refl decl)
  | .return keyword value, _ => .return keyword value
  | .break keyword, _ => .break keyword
  | .next keyword, _ => .next keyword
  | .class name superclass methods statics, _ =>
    .class name superclass (FunctionDecl.unrollsAll_refl methods)
      (FunctionDecl.unrollsAll_refl statics)

theorem Stmt.unrollsAll_refl : ∀ (ss : List Stmt) (outside : Bool), Stmt.UnrollsAll outside ss ss
  | [], _ => .nil
  | s :: ss, o => .cons (Stmt.unrolls_refl s o) (Stmt.unrollsAll_refl ss o)

theorem FunctionDecl.unrolls_refl : ∀ d : FunctionDecl, d.Unrolls d
  | ⟨name, params, body⟩ => .body name params (Stmt.unrollsAll_refl body true)

theorem FunctionDecl.unrollsAll_refl : ∀ ds : List FunctionDecl, FunctionDecl.UnrollsAll ds ds
  | [] => .nil
  | d :: ds => .cons (FunctionDecl.unrolls_refl d) (FunctionDecl.unrollsAll_refl ds)

end

/-- The loop written out, in a block of its own or in its place. A loop with a `next` for it is left
as it is. -/
def Stmt.asWhile (enclosed : Bool) (condition : Expr) (increment : Option Expr)
    (skips : Bool) (body : Stmt) : Stmt :=
  if skips then .for condition increment body
  else if enclosed then .block [.while condition (body.withIncrement increment)]
  else .while condition (body.withIncrement increment)

mutual

/-- A statement with all its loops written out that can be, except, where `outside` forbids it,
those that no scope is around. The loops of a block are written out in their places, as those are
that have an initializer. All others get blocks of their own. -/
def Stmt.writtenOut (outside enclosed : Bool) : Stmt → Stmt
  | .block body => .block (Stmt.writtenOutAll body)
  | .ifThen condition whenTrue => .ifThen condition (whenTrue.writtenOut outside true)
  | .ifElse condition whenTrue whenFalse =>
    .ifElse condition (whenTrue.writtenOut outside true) (whenFalse.writtenOut outside true)
  | .while condition body => .while condition (body.writtenOut outside true)
  | .for condition increment body =>
    Stmt.asWhile enclosed condition increment (!outside || body.skips)
      (body.writtenOut outside true)
  | .function decl => .function decl.writtenOut
  | .class name superclass methods statics =>
    .class name superclass (FunctionDecl.writtenOutAll methods) (FunctionDecl.writtenOutAll statics)
  | .expr e => .expr e
  | .var name initial => .var name initial
  | .return keyword value => .return keyword value
  | .break keyword => .break keyword
  | .next keyword => .next keyword

def Stmt.writtenOutAll : List Stmt → List Stmt
  | [] => []
  | s :: ss => s.writtenOut true false :: Stmt.writtenOutAll ss

def FunctionDecl.writtenOut : FunctionDecl → FunctionDecl
  | ⟨name, params, body⟩ => ⟨name, params, Stmt.writtenOutAll body⟩

def FunctionDecl.writtenOutAll : List FunctionDecl → List FunctionDecl
  | [] => []
  | d :: ds => d.writtenOut :: FunctionDecl.writtenOutAll ds

end

/-- A loop without a `next` for it may be written out. -/
theorem Stmt.Unrolls.asWhile {outside : Bool} {body body' : Stmt} (h : body.Unrolls outside body')
    (enclosed : Bool) (condition : Expr) (increment : Option Expr) :
    Stmt.Unrolls outside (.for condition increment body)
      (Stmt.asWhile enclosed condition increment (!outside || body.skips) body') := by
  cases outside with
  | false => exact .for condition increment h
  | true =>
    cases hskips : body.skips with
    | true => exact .for condition increment h
    | false =>
      cases enclosed with
      | true => exact .enclosed condition increment hskips h
      | false => exact .unrolled condition increment hskips h

mutual

/-- Writing all loops out is writing out some. -/
theorem Stmt.unrolls_writtenOut (outside : Bool) : ∀ (s : Stmt) (enclosed : Bool),
    s.Unrolls outside (s.writtenOut outside enclosed)
  | .expr e, _ => .expr e
  | .var name initial, _ => .var name initial
  | .block body, _ => .block (Stmt.unrollsAll_writtenOut body)
  | .ifThen condition whenTrue, _ => .ifThen condition (whenTrue.unrolls_writtenOut outside true)
  | .ifElse condition whenTrue whenFalse, _ =>
    .ifElse condition (whenTrue.unrolls_writtenOut outside true)
      (whenFalse.unrolls_writtenOut outside true)
  | .while condition body, _ => .while condition (body.unrolls_writtenOut outside true)
  | .for condition increment body, enclosed =>
    (body.unrolls_writtenOut outside true).asWhile enclosed condition increment
  | .function decl, _ => .function decl.unrolls_writtenOut
  | .return keyword value, _ => .return keyword value
  | .break keyword, _ => .break keyword
  | .next keyword, _ => .next keyword
  | .class name superclass methods statics, _ =>
    .class name superclass (FunctionDecl.unrollsAll_writtenOut methods)
      (FunctionDecl.unrollsAll_writtenOut statics)

theorem Stmt.unrollsAll_writtenOut : ∀ ss : List Stmt,
    Stmt.UnrollsAll true ss (Stmt.writtenOutAll ss)
  | [] => .nil
  | s :: ss => .cons (s.unrolls_writtenOut true false) (Stmt.unrollsAll_writtenOut ss)

theorem FunctionDecl.unrolls_writtenOut : ∀ d : FunctionDecl, d.Unrolls d.writtenOut
  | ⟨name, params, body⟩ => .body name params (Stmt.unrollsAll_writtenOut body)

theorem FunctionDecl.unrollsAll_writtenOut : ∀ ds : List FunctionDecl,
    FunctionDecl.UnrollsAll ds (FunctionDecl.writtenOutAll ds)
  | [] => .nil
  | d :: ds => .cons d.unrolls_writtenOut (FunctionDecl.unrollsAll_writtenOut ds)

end

def Stmt.writtenOutProgram (outside : Bool) (ss : List Stmt) : List Stmt :=
  ss.map (Stmt.writtenOut outside true)

theorem Stmt.unrollsAll_program (outside : Bool) : ∀ ss : List Stmt,
    Stmt.UnrollsAll outside ss (Stmt.writtenOutProgram outside ss)
  | [] => .nil
  | s :: ss => .cons (s.unrolls_writtenOut outside true) (Stmt.unrollsAll_program outside ss)

/-- The references of the increment come behind those of the body. -/
theorem Stmt.uses_withIncrement (body : Stmt) (increment : Option Expr) :
    (body.withIncrement increment).uses = body.uses ++ Expr.uses? increment := by
  cases increment <;> simp [Stmt.withIncrement, Stmt.uses, Stmt.usesAll, Expr.uses?]

mutual

/-- A program refers to its variables in the same order as before. -/
theorem Stmt.Unrolls.uses_eq {outside : Bool} : ∀ {s s' : Stmt}, s.Unrolls outside s' →
    s'.uses = s.uses
  | _, _, .expr _ => rfl
  | _, _, .var _ _ => rfl
  | _, _, .block h => h.uses_eq
  | _, _, .ifThen _ h => by rw [Stmt.uses, Stmt.uses, h.uses_eq]
  | _, _, .ifElse _ h h' => by rw [Stmt.uses, Stmt.uses, h.uses_eq, h'.uses_eq]
  | _, _, .while _ h => by rw [Stmt.uses, Stmt.uses, h.uses_eq]
  | _, _, .for _ _ h => by rw [Stmt.uses, Stmt.uses, h.uses_eq]
  | _, _, .function h => h.uses_eq
  | _, _, .return _ _ => rfl
  | _, _, .break _ => rfl
  | _, _, .next _ => rfl
  | _, _, .class _ _ h h' => by rw [Stmt.uses, Stmt.uses, h.uses_eq, h'.uses_eq]
  | _, _, .unrolled _ increment _ h => by
    rw [Stmt.uses, Stmt.uses_withIncrement, Stmt.uses, h.uses_eq]
  | _, _, .enclosed _ increment _ h => by
    rw [Stmt.uses, Stmt.usesAll, Stmt.usesAll, List.append_nil, Stmt.uses, Stmt.uses_withIncrement,
      Stmt.uses, h.uses_eq]

/-- Written out, a program has the same references in the same order. -/
theorem Stmt.UnrollsAll.uses_eq {outside : Bool} : ∀ {ss ss' : List Stmt},
    Stmt.UnrollsAll outside ss ss' → Stmt.usesAll ss' = Stmt.usesAll ss
  | _, _, .nil => rfl
  | _, _, .cons h h' => by rw [Stmt.usesAll, Stmt.usesAll, h.uses_eq, h'.uses_eq]

theorem FunctionDecl.Unrolls.uses_eq : ∀ {d d' : FunctionDecl}, d.Unrolls d' → d'.uses = d.uses
  | _, _, .body _ _ h => by rw [FunctionDecl.uses, FunctionDecl.uses, h.uses_eq]

theorem FunctionDecl.UnrollsAll.uses_eq : ∀ {ds ds' : List FunctionDecl},
    FunctionDecl.UnrollsAll ds ds' → FunctionDecl.usesAll ds' = FunctionDecl.usesAll ds
  | _, _, .nil => rfl
  | _, _, .cons h h' => by
    rw [FunctionDecl.usesAll, FunctionDecl.usesAll, h.uses_eq, h'.uses_eq]

end

theorem Stmt.Unrolls.declares_eq {outside : Bool} {s s' : Stmt} (h : s.Unrolls outside s') :
    s'.declares = s.declares := by
  cases h <;> rfl

theorem FunctionDecl.Unrolls.name_eq {d d' : FunctionDecl} (h : d.Unrolls d') :
    d'.name = d.name := by
  cases h
  rfl

theorem Stmt.proper_withIncrement {body : Stmt} (h : body.Proper) (increment : Option Expr) :
    (body.withIncrement increment).Proper := by
  cases increment with
  | none => exact ⟨h, trivial⟩
  | some e => exact ⟨h, trivial, trivial⟩

theorem Stmt.declares_withIncrement (body : Stmt) (increment : Option Expr) :
    (body.withIncrement increment).declares = false := by
  cases increment <;> rfl

mutual

theorem Stmt.Unrolls.proper {outside : Bool} : ∀ {s s' : Stmt}, s.Unrolls outside s' → s.Proper →
    s'.Proper
  | _, _, .expr _, hp => hp
  | _, _, .var _ _, hp => hp
  | _, _, .block h, hp => h.proper hp
  | _, _, .ifThen _ h, hp => ⟨h.proper hp.1, h.declares_eq.trans hp.2⟩
  | _, _, .ifElse _ h h', hp => ⟨⟨h.proper hp.1.1, h.declares_eq.trans hp.1.2⟩,
    h'.proper hp.2.1, h'.declares_eq.trans hp.2.2⟩
  | _, _, .while _ h, hp => ⟨h.proper hp.1, h.declares_eq.trans hp.2⟩
  | _, _, .for _ _ h, hp => ⟨h.proper hp.1, h.declares_eq.trans hp.2⟩
  | _, _, .function h, hp => ⟨h.name_eq ▸ hp.1, h.proper hp.2⟩
  | _, _, .return _ _, hp => hp
  | _, _, .break _, hp => hp
  | _, _, .next _, hp => hp
  | _, _, .class _ _ h h', hp => ⟨hp.1, h.proper hp.2.1, h'.proper hp.2.2⟩
  | _, _, .unrolled _ increment _ h, hp =>
    ⟨Stmt.proper_withIncrement (h.proper hp.1) increment, Stmt.declares_withIncrement _ increment⟩
  | _, _, .enclosed _ increment _ h, hp =>
    ⟨⟨Stmt.proper_withIncrement (h.proper hp.1) increment,
      Stmt.declares_withIncrement _ increment⟩, trivial⟩

/-- And it is as properly spelled as before. -/
theorem Stmt.UnrollsAll.proper {outside : Bool} : ∀ {ss ss' : List Stmt},
    Stmt.UnrollsAll outside ss ss' → Stmt.ProperAll ss → Stmt.ProperAll ss'
  | _, _, .nil, hp => hp
  | _, _, .cons h h', hp => ⟨h.proper hp.1, h'.proper hp.2⟩

theorem FunctionDecl.Unrolls.proper : ∀ {d d' : FunctionDecl}, d.Unrolls d' → d.Proper → d'.Proper
  | _, _, .body _ _ h, hp => ⟨hp.1, h.proper hp.2⟩

theorem FunctionDecl.UnrollsAll.proper : ∀ {ds ds' : List FunctionDecl},
    FunctionDecl.UnrollsAll ds ds' → FunctionDecl.ProperAll ds → FunctionDecl.ProperAll ds'
  | _, _, .nil, hp => hp
  | _, _, .cons h h', hp => ⟨h.proper hp.1, h'.proper hp.2⟩

end

end Scriptling
