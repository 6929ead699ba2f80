import Scriptling.Scope
import Scriptling.Proofs.Spelling

namespace Scriptling

/-- What a scope is opened for. The receiver and the superclass of a class have scopes of their
own. -/
inductive Opener where
  | block (body : List Stmt)
  | function (decl : FunctionDecl)
  | this (declaration : Stmt)
  | super (declaration : Stmt)

def Opener.family? : Opener → Option Scope.Family
  | .this (.class _ superclass _ _) => some (if superclass.isSome then .derived else .root)
  | _ => none

/-- Is the function a method of the class that is declared? -/
def Stmt.Owns : Stmt → FunctionDecl → Prop
  | .class _ _ methods statics, decl => decl ∈ methods ∨ decl ∈ statics
  | _, _ => False

/-- A scope, and whether each of its names is defined yet. -/
structure Layer where
  opener : Opener
  names : Table Bool

/-- The scopes around a place, the innermost first. -/
abbrev Context := List Layer

namespace Context

def scopes (Γ : Context) : List (Table Bool) := Γ.map Layer.names

/-- Declares a name in the innermost scope, or defines it. Outside all scopes it is a global. -/
def mark (Γ : Context) (name : String) (defined : Bool) : Context :=
  match Γ with
  | [] => []
  | layer :: outer => { layer with names := layer.names.put name defined } :: outer

def enter (Γ : Context) (name : String) : Context := (Γ.mark name false).mark name true

def inClass (Γ : Context) (declaration : Stmt) (derived : Bool) : Context :=
  ⟨.this declaration, [("this", true)]⟩ ::
    if derived then ⟨.super declaration, [("super", true)]⟩ :: Γ else Γ

def family : Context → Scope.Family
  | [] => .none
  | layer :: outer => layer.opener.family?.getD (family outer)

end Context

/-- A reference and the scopes around it. -/
structure Site where
  context : Context
  use : Use

def sitesOf (Γ : Context) (us : List Use) : List Site := us.map fun u => ⟨Γ, u⟩

def Param.sites (Γ : Context) : List Param → List Site
  | [] => []
  | p :: ps => sitesOf Γ (Expr.uses? p.fallback) ++ Param.sites (Γ.enter p.name.lexeme) ps

def Param.after (Γ : Context) : List Param → Context
  | [] => Γ
  | p :: ps => Param.after (Γ.enter p.name.lexeme) ps

def Stmt.after (Γ : Context) : Stmt → Context
  | .var name _ => Γ.enter name.lexeme
  | .function decl => Γ.enter decl.name.lexeme
  | .class name _ _ _ => Γ.enter name.lexeme
  | _ => Γ

theorem Stmt.after_of_not_declares {s : Stmt} (h : s.declares = false) (Γ : Context) :
    s.after Γ = Γ := by
  cases s <;> first | rfl | cases h

mutual

def Stmt.sites (Γ : Context) : Stmt → List Site
  | .expr e => sitesOf Γ e.uses
  | .var name initial => sitesOf (Γ.mark name.lexeme false) (Expr.uses? initial)
  | .block body => Stmt.sitesAll (⟨.block body, []⟩ :: Γ) body
  | .ifThen condition whenTrue => sitesOf Γ condition.uses ++ whenTrue.sites Γ
  | .ifElse condition whenTrue whenFalse =>
    sitesOf Γ condition.uses ++ (whenTrue.sites Γ ++ whenFalse.sites Γ)
  | .while condition body => sitesOf Γ condition.uses ++ body.sites Γ
  | .for condition increment body =>
    sitesOf Γ condition.uses ++ (body.sites Γ ++ sitesOf Γ (Expr.uses? increment))
  | .function decl => decl.sites (Γ.enter decl.name.lexeme)
  | .return _ value => sitesOf Γ (Expr.uses? value)
  | .break _ => []
  | .next _ => []
  | .class name superclass methods statics =>
    let inside := (Γ.enter name.lexeme).inClass (.class name superclass methods statics)
      superclass.isSome
    sitesOf (Γ.mark name.lexeme false) (Superclass.uses? superclass) ++
      (FunctionDecl.sitesAll inside methods ++ FunctionDecl.sitesAll inside statics)

def Stmt.sitesAll (Γ : Context) : List Stmt → List Site
  | [] => []
  | s :: ss => s.sites Γ ++ Stmt.sitesAll (s.after Γ) ss

def FunctionDecl.sites (Γ : Context) : FunctionDecl → List Site
  | ⟨name, params, body⟩ =>
    let inside : Context := ⟨.function ⟨name, params, body⟩, []⟩ :: Γ
    Param.sites inside params ++ Stmt.sitesAll (Param.after inside params) body

def FunctionDecl.sitesAll (Γ : Context) : List FunctionDecl → List Site
  | [] => []
  | d :: ds => d.sites Γ ++ FunctionDecl.sitesAll Γ ds

end

def Site.distance? (σ : Site) : Option Nat :=
  Scope.distance? σ.context.scopes σ.use.name.lexeme

def Site.note (σ : Site) : List (ExprId × Nat) := (σ.distance?.map (σ.use.id, ·)).toList

/-- A receiver is named inside a class, a superclass inside a class that has one. -/
def Site.Allowed (σ : Site) : Prop :=
  match σ.use.role with
  | .variable => True
  | .this => σ.context.family ≠ .none
  | .super => σ.context.family = .derived

theorem Context.family_mark (Γ : Context) (name : String) (defined : Bool) :
    (Γ.mark name defined).family = Γ.family := by
  cases Γ <;> rfl

theorem Context.family_enter (Γ : Context) (name : String) : (Γ.enter name).family = Γ.family := by
  rw [Context.enter, family_mark, family_mark]

theorem Context.tail_mark (Γ : Context) (name : String) (defined : Bool) :
    (Γ.mark name defined).tail = Γ.tail := by
  cases Γ <;> rfl

theorem Context.tail_enter (Γ : Context) (name : String) : (Γ.enter name).tail = Γ.tail := by
  rw [Context.enter, tail_mark, tail_mark]

theorem Param.tail_after (Γ : Context) (ps : List Param) : (Param.after Γ ps).tail = Γ.tail := by
  induction ps generalizing Γ with
  | nil => rfl
  | cons p ps ih => rw [Param.after, ih, Context.tail_enter]

theorem Param.family_after (Γ : Context) (ps : List Param) :
    (Param.after Γ ps).family = Γ.family := by
  induction ps generalizing Γ with
  | nil => rfl
  | cons p ps ih => rw [Param.after, ih, Context.family_enter]

theorem Stmt.family_after (Γ : Context) (s : Stmt) : (s.after Γ).family = Γ.family := by
  cases s <;> first | rfl | exact Context.family_enter _ _

theorem Stmt.tail_after (Γ : Context) (s : Stmt) : (s.after Γ).tail = Γ.tail := by
  cases s <;> first | rfl | exact Context.tail_enter _ _

theorem uses_sitesOf (Γ : Context) (us : List Use) : (sitesOf Γ us).map Site.use = us := by
  simp [sitesOf, Function.comp_def]

theorem Param.uses_sites (Γ : Context) (ps : List Param) :
    (Param.sites Γ ps).map Site.use = Param.usesAll ps := by
  induction ps generalizing Γ with
  | nil => rfl
  | cons p ps ih => rw [Param.sites, List.map_append, uses_sitesOf, ih, Param.usesAll]

mutual

theorem Stmt.uses_sites : ∀ (s : Stmt) (Γ : Context), (s.sites Γ).map Site.use = s.uses
  | .expr _, Γ => uses_sitesOf Γ _
  | .var _ _, _ => uses_sitesOf _ _
  | .block body, Γ => Stmt.uses_sitesAll body _
  | .ifThen _ whenTrue, Γ => by
    rw [Stmt.sites, List.map_append, uses_sitesOf, Stmt.uses_sites whenTrue, Stmt.uses]
  | .ifElse _ whenTrue whenFalse, Γ => by
    rw [Stmt.sites, List.map_append, List.map_append, uses_sitesOf, Stmt.uses_sites whenTrue,
      Stmt.uses_sites whenFalse, Stmt.uses]
  | .while _ body, Γ => by
    rw [Stmt.sites, List.map_append, uses_sitesOf, Stmt.uses_sites body, Stmt.uses]
  | .for _ _ body, Γ => by
    rw [Stmt.sites, List.map_append, List.map_append, uses_sitesOf, uses_sitesOf,
      Stmt.uses_sites body, Stmt.uses]
  | .function decl, Γ => FunctionDecl.uses_sites decl _
  | .return _ _, Γ => uses_sitesOf Γ _
  | .break _, _ => rfl
  | .next _, _ => rfl
  | .class _ _ methods statics, Γ => by
    simp only [Stmt.sites, List.map_append, uses_sitesOf, FunctionDecl.uses_sitesAll methods,
      FunctionDecl.uses_sitesAll statics, Stmt.uses]

theorem Stmt.uses_sitesAll : ∀ (ss : List Stmt) (Γ : Context),
    (Stmt.sitesAll Γ ss).map Site.use = Stmt.usesAll ss
  | [], _ => rfl
  | s :: ss, Γ => by
    rw [Stmt.sitesAll, List.map_append, Stmt.uses_sites s, Stmt.uses_sitesAll ss, Stmt.usesAll]

theorem FunctionDecl.uses_sites : ∀ (d : FunctionDecl) (Γ : Context),
    (d.sites Γ).map Site.use = d.uses
  | ⟨_, params, body⟩, Γ => by
    simp only [FunctionDecl.sites, List.map_append, Param.uses_sites, Stmt.uses_sitesAll body,
      FunctionDecl.uses]

theorem FunctionDecl.uses_sitesAll : ∀ (ds : List FunctionDecl) (Γ : Context),
    (FunctionDecl.sitesAll Γ ds).map Site.use = FunctionDecl.usesAll ds
  | [], _ => rfl
  | d :: ds, Γ => by
    rw [FunctionDecl.sitesAll, List.map_append, FunctionDecl.uses_sites d,
      FunctionDecl.uses_sitesAll ds, FunctionDecl.usesAll]

end

def Opener.holdsStatements : Opener → Bool
  | .block _ | .function _ => true
  | _ => false

inductive Context.Formed : Context → Prop
  | outside : Formed []
  | scope {layer : Layer} {Γ : Context} : layer.opener.holdsStatements = true →
      layer.names.get? "this" = none → layer.names.get? "super" = none → Formed Γ →
      Formed (layer :: Γ)
  | inClass {Γ : Context} {name : Token} {superclass : Option Superclass}
      {methods statics : List FunctionDecl} : Formed Γ →
      Formed (Γ.inClass (.class name superclass methods statics) superclass.isSome)

/-- Scopes of which statements stand in the innermost. -/
structure Context.Floor (Γ : Context) : Prop where
  formed : Γ.Formed
  ground : ∀ layer, Γ.head? = some layer → layer.opener.holdsStatements = true

theorem Context.Floor.outside : Context.Floor [] := ⟨.outside, by simp⟩

/-- A new scope for statements may be the innermost one. -/
theorem Context.Floor.inside {Γ : Context} (h : Γ.Formed) {opener : Opener}
    (ho : opener.holdsStatements = true) : Context.Floor (⟨opener, []⟩ :: Γ) :=
  ⟨.scope ho rfl rfl h, by simpa using ho⟩

theorem Context.Floor.mark {Γ : Context} (h : Γ.Floor) {name : Token} (hn : name.Plain)
    (defined : Bool) : (Γ.mark name.lexeme defined).Floor := by
  obtain ⟨hformed, hground⟩ := h
  cases Γ with
  | nil => exact .outside
  | cons layer outer =>
    have ho := hground layer rfl
    cases hformed with
    | scope _ ht hs h =>
      refine ⟨.scope ho ?_ ?_ h, by simpa [Context.mark] using ho⟩
      · simp [hn.1, ht]
      · simp [hn.2, hs]
    | inClass => cases ho

/-- A name that is declared there changes nothing about that. -/
theorem Context.Floor.enter {Γ : Context} (h : Γ.Floor) {name : Token} (hn : name.Plain) :
    (Γ.enter name.lexeme).Floor := (h.mark hn false).mark hn true

theorem Param.floor_after {ps : List Param} {Γ : Context} (h : Γ.Floor)
    (hp : ∀ p ∈ ps, p.name.Plain) : (Param.after Γ ps).Floor := by
  induction ps generalizing Γ with
  | nil => exact h
  | cons p ps ih => exact ih (h.enter (hp p (by simp))) fun q hq => hp q (by simp [hq])

theorem Stmt.floor_after {s : Stmt} {Γ : Context} (h : Γ.Floor) (hp : s.Proper) :
    (s.after Γ).Floor := by
  cases s with
  | var => exact h.enter hp
  | function => exact h.enter hp.1
  | «class» => exact h.enter hp.1
  | _ => exact h

theorem formed_sitesOf {Γ : Context} (h : Γ.Formed) (us : List Use) :
    ∀ σ ∈ sitesOf Γ us, σ.context.Formed := by
  intro σ hσ
  obtain ⟨u, -, rfl⟩ := List.mem_map.1 hσ
  exact h

theorem Param.formed_sites {ps : List Param} {Γ : Context} (h : Γ.Floor)
    (hp : ∀ p ∈ ps, p.name.Plain) : ∀ σ ∈ Param.sites Γ ps, σ.context.Formed := by
  induction ps generalizing Γ with
  | nil => simp [Param.sites]
  | cons p ps ih =>
    exact List.forall_mem_append.2 ⟨formed_sitesOf h.formed _,
      ih (h.enter (hp p (by simp))) fun q hq => hp q (by simp [hq])⟩

mutual

theorem Stmt.formed_sites : ∀ (s : Stmt) (Γ : Context), Γ.Floor → s.Proper →
    ∀ σ ∈ s.sites Γ, σ.context.Formed
  | .expr _, _, h, _ => formed_sitesOf h.formed _
  | .var _ _, _, h, hp => formed_sitesOf (h.mark hp false).formed _
  | .block body, _, h, hp => Stmt.formed_sitesAll body _ (.inside h.formed rfl) hp
  | .ifThen _ whenTrue, Γ, h, hp =>
    List.forall_mem_append.2 ⟨formed_sitesOf h.formed _, Stmt.formed_sites whenTrue Γ h hp.1⟩
  | .ifElse _ whenTrue whenFalse, Γ, h, hp =>
    List.forall_mem_append.2 ⟨formed_sitesOf h.formed _, List.forall_mem_append.2
      ⟨Stmt.formed_sites whenTrue Γ h hp.1.1, Stmt.formed_sites whenFalse Γ h hp.2.1⟩⟩
  | .while _ body, Γ, h, hp =>
    List.forall_mem_append.2 ⟨formed_sitesOf h.formed _, Stmt.formed_sites body Γ h hp.1⟩
  | .for _ _ body, Γ, h, hp =>
    List.forall_mem_append.2 ⟨formed_sitesOf h.formed _, List.forall_mem_append.2
      ⟨Stmt.formed_sites body Γ h hp.1, formed_sitesOf h.formed _⟩⟩
  | .function decl, _, h, hp => FunctionDecl.formed_sites decl _ (h.enter hp.1).formed hp.2
  | .return _ _, _, h, _ => formed_sitesOf h.formed _
  | .break _, _, _, _ => by simp [Stmt.sites]
  | .next _, _, _, _ => by simp [Stmt.sites]
  | .class _ _ methods statics, _, h, hp =>
    List.forall_mem_append.2 ⟨formed_sitesOf (h.mark hp.1 false).formed _,
      List.forall_mem_append.2
        ⟨FunctionDecl.formed_sitesAll methods _ (.inClass (h.enter hp.1).formed) hp.2.1,
          FunctionDecl.formed_sitesAll statics _ (.inClass (h.enter hp.1).formed) hp.2.2⟩⟩

theorem Stmt.formed_sitesAll : ∀ (ss : List Stmt) (Γ : Context), Γ.Floor → Stmt.ProperAll ss →
    ∀ σ ∈ Stmt.sitesAll Γ ss, σ.context.Formed
  | [], _, _, _ => by simp [Stmt.sitesAll]
  | s :: ss, Γ, h, hp => List.forall_mem_append.2
    ⟨Stmt.formed_sites s Γ h hp.1, Stmt.formed_sitesAll ss _ (Stmt.floor_after h hp.1) hp.2⟩

theorem FunctionDecl.formed_sites : ∀ (d : FunctionDecl) (Γ : Context), Γ.Formed → d.Proper →
    ∀ σ ∈ d.sites Γ, σ.context.Formed
  | ⟨_, _, body⟩, _, h, hp =>
    have hfloor := Context.Floor.inside h rfl
    List.forall_mem_append.2 ⟨Param.formed_sites hfloor hp.1,
      Stmt.formed_sitesAll body _ (Param.floor_after hfloor hp.1) hp.2⟩

theorem FunctionDecl.formed_sitesAll : ∀ (ds : List FunctionDecl) (Γ : Context), Γ.Formed →
    FunctionDecl.ProperAll ds → ∀ σ ∈ FunctionDecl.sitesAll Γ ds, σ.context.Formed
  | [], _, _, _ => by simp [FunctionDecl.sitesAll]
  | d :: ds, Γ, h, hp => List.forall_mem_append.2
    ⟨FunctionDecl.formed_sites d Γ h hp.1, FunctionDecl.formed_sitesAll ds Γ h hp.2⟩

end

/-- Where the innermost class has a superclass, that one's scope is the next one around the
receiver's. -/
theorem Context.Formed.derived {Γ : Context} (h : Γ.Formed) (hd : Γ.family = .derived) :
    ∃ d declaration names names', Scope.distance? Γ.scopes "this" = some d ∧
      Scope.distance? Γ.scopes "super" = some (d + 1) ∧
      Γ[d]? = some ⟨.this declaration, names⟩ ∧ Γ[d + 1]? = some ⟨.super declaration, names'⟩ ∧
      ∀ i layer, i < d → Γ[i]? = some layer → layer.opener.holdsStatements = true := by
  induction h with
  | outside => cases hd
  | @scope layer Γ ho ht hs _ ih =>
    have hfam : Γ.family = .derived := by
      cases hlayer : layer.opener with
      | this => rw [hlayer] at ho; cases ho
      | super => rw [hlayer] at ho; cases ho
      | _ => simpa [Context.family, hlayer, Opener.family?] using hd
    obtain ⟨d, declaration, names, names', h₁, h₂, h₃, h₄, h₅⟩ := ih hfam
    refine ⟨d + 1, declaration, names, names', ?_, ?_, by simpa using h₃, by simpa using h₄,
      fun i layer' hi hlayer' => ?_⟩
    · simp only [Scope.distance?, Context.scopes, List.map_cons, List.findIdx?_cons, ht] at h₁ ⊢
      simp [h₁]
    · simp only [Scope.distance?, Context.scopes, List.map_cons, List.findIdx?_cons, hs] at h₂ ⊢
      simp [h₂]
    · cases i with
      | zero =>
        cases hlayer'
        exact ho
      | succ i => exact h₅ i layer' (Nat.lt_of_succ_lt_succ hi) (by simpa using hlayer')
  | @inClass Γ name superclass methods statics _ _ =>
    have hsome : superclass.isSome = true := by
      by_contra hne
      simp [Context.inClass, Context.family, Opener.family?, hne] at hd
    refine ⟨0, .class name superclass methods statics, [("this", true)], [("super", true)], ?_, ?_,
      rfl, ?_, fun i _ hi => absurd hi (Nat.not_lt_zero i)⟩
    · rfl
    · simp only [Context.inClass, hsome]
      rfl
    · simp [Context.inClass, hsome]

end Scriptling
