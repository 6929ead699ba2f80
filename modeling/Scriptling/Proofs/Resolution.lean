import Mathlib.Data.List.Nodup
import Std.Data.TreeMap.Lemmas
import Scriptling.Proofs.Sites

namespace Scriptling

namespace Scope

def walked (act : Resolve Unit) (w : Walk) : Walk := (act.run w).2

theorem walked_bind (a : Resolve Unit) (b : Unit → Resolve Unit) (w : Walk) :
    walked (a >>= b) w = walked (b ()) (walked a w) := rfl

/-- The step never takes faults back, and where it finds none it notes what the sites have. `fam` is
the innermost class around the step. -/
structure Visits (fam : Family) (Γ : Context) (act : Resolve Unit) (sites : List Site)
    (Γ' : Context) : Prop where
  clean : ∀ w, (walked act w).faults = [] → w.faults = []
  spec : ∀ w, w.scopes = Γ.scopes → w.family = fam → (walked act w).faults = [] →
    (walked act w).scopes = Γ'.scopes ∧ (walked act w).family = fam ∧
      (walked act w).distances = (sites.flatMap Site.note).reverse ++ w.distances ∧
      ∀ σ ∈ sites, σ.Allowed

variable {fam : Family} {Γ Γ₁ Γ₂ : Context} {a b : Resolve Unit} {sites sites' : List Site}
  {us vs : List Use}

theorem Visits.pure : Visits fam Γ (pure ()) [] Γ :=
  ⟨fun _ h => h, fun _ hs hf _ => ⟨hs, hf, rfl, by simp⟩⟩

theorem Visits.seq (ha : Visits fam Γ a sites Γ₁) (hb : Visits fam Γ₁ b sites' Γ₂) :
    Visits fam Γ (do a; b) (sites ++ sites') Γ₂ := by
  refine ⟨fun w h => ha.clean w (hb.clean _ h), fun w hs hf h => ?_⟩
  rw [walked_bind] at h ⊢
  obtain ⟨hs₁, hf₁, hd₁, hall₁⟩ := ha.spec w hs hf (hb.clean _ h)
  obtain ⟨hs₂, hf₂, hd₂, hall₂⟩ := hb.spec _ hs₁ hf₁ h
  refine ⟨hs₂, hf₂, ?_, List.forall_mem_append.2 ⟨hall₁, hall₂⟩⟩
  rw [hd₂, hd₁, List.flatMap_append, List.reverse_append, List.append_assoc]

/-- A step that begins with a look at the walk. -/
theorem Visits.get {f : Walk → Resolve Unit} (h : ∀ w, Visits fam Γ (f w) sites Γ₁) :
    Visits fam Γ (do f (← get)) sites Γ₁ :=
  ⟨fun w hf => (h w).clean w hf, fun w hs hfam hf => (h w).spec w hs hfam hf⟩

theorem walked_report (token : Token) (fault : ScopeFault) (w : Walk) :
    walked (report token fault) w = { w with faults := w.faults ++ [⟨fault, token.place⟩] } := rfl

theorem faults_report (token : Token) (fault : ScopeFault) (w : Walk) :
    (walked (report token fault) w).faults ≠ [] := by simp [walked_report]

theorem visits_report (token : Token) (fault : ScopeFault) :
    Visits fam Γ (report token fault) sites Γ₁ :=
  ⟨fun w h => absurd h (faults_report token fault w),
    fun w _ _ h => absurd h (faults_report token fault w)⟩

theorem walked_declare (name : Token) (w : Walk) : walked (declare name) w =
    match w.scopes with
    | [] => { w with globals := name.lexeme :: w.globals }
    | scope :: outer =>
      if scope.has name.lexeme then { w with faults := w.faults ++ [⟨.redeclared, name.place⟩] }
      else { w with scopes := scope.put name.lexeme false :: outer } := by
  obtain ⟨scopes, globals, body, family, distances, faults⟩ := w
  cases scopes with
  | nil => rfl
  | cons scope outer =>
    change (StateT.run (if scope.has name.lexeme = true then report name .redeclared else _) _).2 = _
    dsimp only
    split <;> rfl

theorem visits_declare (name : Token) :
    Visits fam Γ (declare name) [] (Γ.mark name.lexeme false) := by
  constructor
  · intro w h
    rw [walked_declare] at h
    split at h
    · exact h
    · split at h
      · simp at h
      · exact h
  · intro w hs hf h
    rw [walked_declare] at h ⊢
    cases Γ with
    | nil =>
      have hs' : w.scopes = [] := hs
      rw [hs']
      exact ⟨rfl, hf, rfl, by simp⟩
    | cons layer outer =>
      have hs' : w.scopes = layer.names :: Context.scopes outer := hs
      rw [hs'] at h ⊢
      dsimp only at h ⊢
      split at h
      · simp at h
      · rw [if_neg ‹_›]
        exact ⟨rfl, hf, rfl, by simp⟩

theorem walked_define (name : Token) (w : Walk) : walked (define name) w =
    match w.scopes with
    | [] => w
    | scope :: outer => { w with scopes := scope.put name.lexeme true :: outer } := rfl

theorem visits_define (name : Token) :
    Visits fam Γ (define name) [] (Γ.mark name.lexeme true) := by
  constructor
  · intro w h
    rw [walked_define] at h
    split at h <;> exact h
  · intro w hs hf h
    rw [walked_define]
    cases Γ with
    | nil =>
      have hs' : w.scopes = [] := hs
      rw [hs']
      exact ⟨hs, hf, rfl, by simp⟩
    | cons layer outer =>
      have hs' : w.scopes = layer.names :: Context.scopes outer := hs
      rw [hs']
      exact ⟨rfl, hf, rfl, by simp⟩

theorem visits_enter (name : Token) :
    Visits fam Γ (do declare name; define name) [] (Γ.enter name.lexeme) :=
  (visits_declare name).seq (visits_define name)

/-- What a step does that only notes a distance. -/
theorem walked_locate (id : ExprId) (name : Token) (w : Walk) :
    (locate id name).run w =
      match Scope.distance? w.scopes name.lexeme with
      | none => (false, w)
      | some d => (true, { w with distances := (id, d) :: w.distances }) := by
  change (StateT.run (match Scope.distance? w.scopes name.lexeme with
    | none => Pure.pure false
    | some d => _) w) = _
  cases Scope.distance? w.scopes name.lexeme <;> rfl

theorem faults_locate (id : ExprId) (name : Token) (w : Walk) :
    ((locate id name).run w).2.faults = w.faults := by
  rw [walked_locate]
  split <;> rfl

/-- Locating a name notes what the site has, and does nothing else. -/
theorem note_eq {w : Walk} (hs : w.scopes = Γ.scopes) (u : Use) :
    ((Scope.locate u.id u.name).run w).2 =
      { w with distances := (Site.note ⟨Γ, u⟩).reverse ++ w.distances } := by
  have hd : Site.distance? ⟨Γ, u⟩ = Scope.distance? w.scopes u.name.lexeme := by rw [hs]; rfl
  rw [walked_locate, Site.note, hd]
  cases Scope.distance? w.scopes u.name.lexeme <;> rfl

theorem visits_locate (u : Use) (hu : ∀ σ : Site, σ = ⟨Γ, u⟩ → σ.Allowed) :
    Visits fam Γ (discard (locate u.id u.name)) [⟨Γ, u⟩] Γ := by
  have hw : ∀ w, walked (discard (locate u.id u.name)) w = ((locate u.id u.name).run w).2 :=
    fun _ => rfl
  constructor
  · intro w hf
    rwa [hw, faults_locate] at hf
  · intro w hs hfam hf
    rw [hw, note_eq hs]
    exact ⟨hs, hfam, by simp, by simpa using hu⟩

theorem walked_read (id : ExprId) (name : Token) (w : Walk) : walked (read id name) w =
    if (Scope.distance? w.scopes name.lexeme).isNone ∧ (!w.globals.contains name.lexeme &&
        initializing w.scopes name.lexeme) then
      { w with faults := w.faults ++ [⟨.ownInitializer, name.place⟩] }
    else ((locate id name).run w).2 := by
  simp only [walked, read, StateT.run_bind, walked_locate]
  cases Scope.distance? w.scopes name.lexeme with
  | some d => rfl
  | none =>
    change (StateT.run (if (!w.globals.contains name.lexeme &&
      initializing w.scopes name.lexeme) = true then report name .ownInitializer
      else Pure.pure ()) w).2 = _
    simp only [Option.isNone_none, true_and]
    split <;> rfl

theorem visits_read (id : ExprId) (name : Token) :
    Visits fam Γ (read id name) [⟨Γ, ⟨.variable, id, name⟩⟩] Γ := by
  constructor
  · intro w hf
    rw [walked_read] at hf
    split at hf
    · simp at hf
    · rwa [faults_locate] at hf
  · intro w hs hfam hf
    rw [walked_read] at hf ⊢
    split at hf
    · simp at hf
    · rw [if_neg ‹_›, note_eq (u := ⟨.variable, id, name⟩) hs]
      exact ⟨hs, hfam, by simp, by simp [Site.Allowed]⟩

theorem walked_write (id : ExprId) (name : Token) (w : Walk) : walked (write id name) w =
    if (Scope.distance? w.scopes name.lexeme).isNone ∧ w.scopes.isEmpty then
      { w with globals := name.lexeme :: w.globals }
    else ((locate id name).run w).2 := by
  simp only [walked, write, StateT.run_bind, walked_locate]
  cases hd : Scope.distance? w.scopes name.lexeme with
  | some d => rfl
  | none =>
    change (StateT.run (if (!false && w.scopes.isEmpty) = true then addGlobal name.lexeme
      else Pure.pure ()) w).2 = _
    simp only [Option.isNone_none, true_and, Bool.not_false, Bool.true_and]
    split <;> rfl

theorem visits_write (id : ExprId) (name : Token) :
    Visits fam Γ (write id name) [⟨Γ, ⟨.variable, id, name⟩⟩] Γ := by
  constructor
  · intro w hf
    rw [walked_write] at hf
    split at hf
    · exact hf
    · rwa [faults_locate] at hf
  · intro w hs hfam hf
    rw [walked_write]
    split
    · rename_i hc
      have hd : Site.note ⟨Γ, ⟨.variable, id, name⟩⟩ = [] := by
        rw [hs] at hc
        simp only [Site.note, Site.distance?, Option.isNone_iff_eq_none.1 hc.1, Option.map_none,
          Option.toList_none]
      exact ⟨hs, hfam, by simp [hd], by simp [Site.Allowed]⟩
    · rw [note_eq (u := ⟨.variable, id, name⟩) hs]
      exact ⟨hs, hfam, by simp, by simp [Site.Allowed]⟩

theorem sitesOf_append (Γ : Context) (us vs : List Use) :
    sitesOf Γ (us ++ vs) = sitesOf Γ us ++ sitesOf Γ vs := List.map_append

/-- References at one place, one step after the other. -/
theorem Visits.also (ha : Visits fam Γ a (sitesOf Γ us) Γ) (hb : Visits fam Γ b (sitesOf Γ vs) Γ) :
    Visits fam Γ (do a; b) (sitesOf Γ (us ++ vs)) Γ := by
  rw [sitesOf_append]
  exact ha.seq hb

theorem walked_this (id : ExprId) (keyword : Token) (w : Walk) :
    walked (expr (.this id keyword)) w =
      if w.family = .none then walked (report keyword .thisOutsideClass) w
      else walked (discard (locate id keyword)) w := by
  rw [expr]
  change (StateT.run (if w.family = .none then report keyword .thisOutsideClass
    else discard (locate id keyword)) w).2 = _
  split <;> rfl

theorem visits_this (hΓ : Γ.family = fam) (id : ExprId) (keyword : Token) :
    Visits fam Γ (expr (.this id keyword)) [⟨Γ, ⟨.this, id, keyword⟩⟩] Γ := by
  constructor
  · intro w hf
    rw [walked_this] at hf
    split at hf
    · exact absurd hf (faults_report _ _ w)
    · exact (faults_locate id keyword w).symm.trans hf
  · intro w hs hfam hf
    rw [walked_this] at hf ⊢
    split at hf
    · exact absurd hf (faults_report _ _ w)
    · rename_i hne
      rw [if_neg hne]
      refine (visits_locate ⟨.this, id, keyword⟩ ?_).spec w hs hfam hf
      rintro σ rfl
      exact fun h => hne (hfam.trans (hΓ.symm.trans h))

theorem walked_super (id : ExprId) (keyword method : Token) (w : Walk) :
    walked (expr (.super id keyword method)) w =
      match w.family with
      | .none => walked (report keyword .superOutsideClass) w
      | .root => walked (report keyword .superWithoutSuperclass) w
      | .derived => walked (discard (locate id keyword)) w := by
  rw [expr]
  obtain ⟨_, _, _, family, _, _⟩ := w
  cases family <;> rfl

theorem visits_super (hΓ : Γ.family = fam) (id : ExprId) (keyword method : Token) :
    Visits fam Γ (expr (.super id keyword method)) [⟨Γ, ⟨.super, id, keyword⟩⟩] Γ := by
  constructor
  · intro w hf
    rw [walked_super] at hf
    split at hf
    · exact absurd hf (faults_report _ _ w)
    · exact absurd hf (faults_report _ _ w)
    · exact (faults_locate id keyword w).symm.trans hf
  · intro w hs hfam hf
    rw [walked_super] at hf ⊢
    split at hf
    · exact absurd hf (faults_report _ _ w)
    · exact absurd hf (faults_report _ _ w)
    · rename_i hd
      refine (visits_locate ⟨.super, id, keyword⟩ ?_).spec w hs hfam hf
      rintro σ rfl
      exact hΓ.trans (hfam.symm.trans hd)

mutual

theorem visits_expr (hΓ : Γ.family = fam) : ∀ e : Expr, Visits fam Γ (expr e) (sitesOf Γ e.uses) Γ
  | .literal _ => .pure
  | .group inner => visits_expr hΓ inner
  | .unary _ operand => visits_expr hΓ operand
  | .binary left _ right => (visits_expr hΓ left).also (visits_expr hΓ right)
  | .logical left _ right => (visits_expr hΓ left).also (visits_expr hΓ right)
  | .ternary condition whenTrue whenFalse =>
    (visits_expr hΓ condition).also ((visits_expr hΓ whenTrue).also (visits_expr hΓ whenFalse))
  | .comma items => visits_exprs hΓ items
  | .var id name => visits_read id name
  | .assign id name value => (visits_expr hΓ value).also (visits_write id name)
  | .compoundAssign id name _ value =>
    (visits_expr hΓ value).also (visits_locate ⟨.variable, id, name⟩ (by rintro _ rfl; trivial))
  | .update _ target _ => visits_expr hΓ target
  | .call callee _ arguments => (visits_expr hΓ callee).also (visits_exprs hΓ arguments)
  | .get object _ => visits_expr hΓ object
  | .set object _ value => (visits_expr hΓ value).also (visits_expr hΓ object)
  | .compoundSet object _ _ value => (visits_expr hΓ value).also (visits_expr hΓ object)
  | .this id keyword => visits_this hΓ id keyword
  | .super id keyword method => visits_super hΓ id keyword method

theorem visits_exprs (hΓ : Γ.family = fam) :
    ∀ es : List Expr, Visits fam Γ (exprs es) (sitesOf Γ (Expr.usesAll es)) Γ
  | [] => .pure
  | e :: es => (visits_expr hΓ e).also (visits_exprs hΓ es)

end

theorem visits_expr? (hΓ : Γ.family = fam) (o : Option Expr) :
    Visits fam Γ (expr? o) (sitesOf Γ (Expr.uses? o)) Γ := by
  cases o with
  | none => exact .pure
  | some e => exact visits_expr hΓ e

theorem visits_params : ∀ (ps : List Param) (Γ : Context), Γ.family = fam →
    Visits fam Γ (params ps) (Param.sites Γ ps) (Param.after Γ ps)
  | [], _, _ => .pure
  | p :: ps, Γ, hΓ => by
    have hps := visits_params ps (Γ.enter p.name.lexeme) ((Context.family_enter _ _).trans hΓ)
    have henter := (visits_declare (Γ := Γ) p.name).seq ((visits_define p.name).seq hps)
    exact (visits_expr? hΓ p.fallback).seq henter

theorem walked_openScope (names : Table Bool) (w : Walk) :
    walked (openScope names) w = { w with scopes := names :: w.scopes } := rfl

theorem walked_closeScope (w : Walk) :
    walked closeScope w = { w with scopes := w.scopes.tail } := rfl

/-- A scope around some steps, closed behind them. -/
theorem Visits.scope (layer : Layer) (h : Visits fam (layer :: Γ) a sites Γ₁) (hΓ : Γ₁.tail = Γ) :
    Visits fam Γ (do openScope layer.names; a; closeScope) sites Γ := by
  have hw : ∀ w, walked (do openScope layer.names; a; closeScope) w =
      walked closeScope (walked a (walked (openScope layer.names) w)) := fun _ => rfl
  constructor
  · intro w hf
    rw [hw] at hf
    exact h.clean { w with scopes := layer.names :: w.scopes } hf
  · intro w hs hfam hf
    rw [hw] at hf ⊢
    obtain ⟨hs₁, hf₁, hd₁, hall⟩ := h.spec (walked (openScope layer.names) w)
      (by rw [walked_openScope, hs]; rfl) hfam hf
    refine ⟨?_, hf₁, hd₁, hall⟩
    rw [walked_closeScope, hs₁, ← hΓ, Context.scopes, Context.scopes, List.map_tail]

/-- A function around some steps, left behind them. -/
theorem visits_setBody (body : Body) (h : Visits fam Γ a sites Γ₁) :
    Visits fam Γ (do
      let outer := (← get).body
      setBody body
      a
      setBody outer) sites Γ₁ :=
  ⟨fun w hf => h.clean { w with body } hf, fun w hs hfam hf => h.spec { w with body } hs hfam hf⟩

theorem visits_returning (hΓ : Γ.family = fam) (keyword : Token) (value : Option Expr) :
    Visits fam Γ (returning keyword value) (sitesOf Γ (Expr.uses? value)) Γ := by
  have hreport : ∀ fault, Visits fam Γ (report keyword fault) [] Γ := fun _ => visits_report _ _
  have hvalue : ∀ (body : Body) (e : Expr), Visits fam Γ (do
      if body = .initializer then report keyword .initializerValue
      expr e) (sitesOf Γ e.uses) Γ := by
    intro body e
    split
    · exact (hreport _).seq (visits_expr hΓ e)
    · exact visits_expr hΓ e
  unfold returning
  refine .get fun w => ?_
  dsimp only
  cases value with
  | none =>
    split
    · exact hreport _
    · exact .pure
  | some e =>
    split
    · exact (hreport _).seq (hvalue w.body e)
    · exact hvalue w.body e

def familyOf (superclass : Option Superclass) : Family :=
  if superclass.isSome then .derived else .root

theorem walked_heading_none (name : Token) (w : Walk) :
    walked (heading name none) w = walked (do declare name; define name) { w with family := .root } :=
  rfl

theorem walked_heading_some (name : Token) (parent : Superclass) (w : Walk) :
    walked (heading name (some parent)) w =
      walked (do
        if parent.name.lexeme = name.lexeme then report parent.name .selfInheritance
        else expr parent.expr
        define name) { walked (declare name) { w with family := .root } with family := .derived } :=
  rfl

theorem visits_parent (name : Token) (parent : Superclass) :
    Visits fam Γ (do
      if parent.name.lexeme = name.lexeme then report parent.name .selfInheritance
      else expr parent.expr
      define name) (sitesOf Γ [parent.use]) (Γ.mark name.lexeme true) := by
  dsimp only
  split
  · have hreport : Visits fam Γ (report parent.name .selfInheritance) (sitesOf Γ [parent.use]) Γ :=
      visits_report _ _
    exact hreport.seq (visits_define name)
  · exact (visits_read parent.id parent.name).seq (visits_define name)

/-- The heading of a class takes no fault back. -/
theorem heading_clean (name : Token) (superclass : Option Superclass) (w : Walk)
    (h : (walked (heading name superclass) w).faults = []) : w.faults = [] := by
  cases superclass with
  | none =>
    have hvisit : Visits .root [] (do declare name; define name) [] _ := visits_enter name
    exact hvisit.clean { w with family := .root } h
  | some parent =>
    rw [walked_heading_some] at h
    have hparent : Visits .derived [] _ _ _ := visits_parent name parent
    have hdeclare : Visits .root [] _ _ _ := visits_declare name
    have h' := hparent.clean _ h
    exact hdeclare.clean { w with family := .root } h'

/-- Where it finds none, the class's name is defined and its family is known. -/
theorem heading_spec (name : Token) (superclass : Option Superclass) (w : Walk)
    (hs : w.scopes = Γ.scopes) (h : (walked (heading name superclass) w).faults = []) :
    (walked (heading name superclass) w).scopes = (Γ.enter name.lexeme).scopes ∧
      (walked (heading name superclass) w).family = familyOf superclass ∧
      (walked (heading name superclass) w).distances =
        ((sitesOf (Γ.mark name.lexeme false) (Superclass.uses? superclass)).flatMap
          Site.note).reverse ++ w.distances ∧
      ∀ σ ∈ sitesOf (Γ.mark name.lexeme false) (Superclass.uses? superclass), σ.Allowed := by
  cases superclass with
  | none =>
    have hvisit : Visits .root Γ (do declare name; define name) [] _ := visits_enter name
    exact hvisit.spec { w with family := .root } hs rfl h
  | some parent =>
    rw [walked_heading_some] at h ⊢
    have hdeclare : Visits .root Γ _ _ _ := visits_declare name
    have hparent : Visits .derived (Γ.mark name.lexeme false) _ _ _ := visits_parent name parent
    have h' := hparent.clean _ h
    obtain ⟨hs₁, -, hd₁, -⟩ := hdeclare.spec { w with family := .root } hs rfl h'
    obtain ⟨hs₂, hf₂, hd₂, hall⟩ := hparent.spec
      { walked (declare name) { w with family := .root } with family := .derived } hs₁ rfl h
    refine ⟨hs₂, hf₂, ?_, hall⟩
    rw [hd₂]
    exact congrArg _ hd₁

/-- A class's own scopes around its methods, closed behind them. -/
theorem visits_inClass {declaration : Stmt} (superclass : Option Superclass)
    (h : Visits fam (Γ.inClass declaration superclass.isSome) a sites
      (Γ.inClass declaration superclass.isSome)) :
    Visits fam Γ (do
      if superclass.isSome then openScope [("super", true)]
      openScope [("this", true)]
      a
      closeScope
      if superclass.isSome then closeScope) sites Γ := by
  cases superclass with
  | none =>
    have hthis := Visits.scope ⟨.this declaration, [("this", true)]⟩ h rfl
    refine ⟨fun w hf => hthis.clean w hf, fun w hs hfam hf => hthis.spec w hs hfam hf⟩
  | some parent =>
    have hthis := Visits.scope ⟨.this declaration, [("this", true)]⟩ h rfl
    have hsuper := Visits.scope ⟨.super declaration, [("super", true)]⟩ hthis rfl
    refine ⟨fun w hf => hsuper.clean w hf, fun w hs hfam hf => hsuper.spec w hs hfam hf⟩

theorem walked_class (name : Token) (superclass : Option Superclass)
    (methods statics : List FunctionDecl) (w : Walk) :
    walked (stmt (.class name superclass methods statics)) w =
      { walked (do
          if superclass.isSome then openScope [("super", true)]
          openScope [("this", true)]
          (do instanceMethods methods; staticMethods statics)
          closeScope
          if superclass.isSome then closeScope) (walked (heading name superclass) w) with
        family := w.family } := by
  rw [stmt]
  cases superclass <;> rfl

mutual

/-- Every statement is visited, and the scopes behind it are known; a branch or a body of a loop
leaves them as they are. -/
theorem visits_stmt : ∀ (s : Stmt) (fam : Family) (Γ : Context), Γ.family = fam → s.Proper →
    Visits fam Γ (stmt s) (s.sites Γ) (s.after Γ)
  | .expr e, _, _, hΓ, _ => visits_expr hΓ e
  | .var name initial, _, Γ, hΓ, _ => by
    have hinitial := visits_expr? ((Context.family_mark Γ name.lexeme false).trans hΓ) initial
    have h := (visits_declare name).seq (hinitial.seq (visits_define name))
    rw [List.nil_append, List.append_nil] at h
    exact h
  | .block body, fam, Γ, hΓ, hp => by
    obtain ⟨Γ₁, h, htail⟩ := visits_stmts body fam (⟨.block body, []⟩ :: Γ) hΓ hp
    exact h.scope _ htail
  | .ifThen condition whenTrue, fam, Γ, hΓ, hp => by
    have hbranch := visits_stmt whenTrue fam Γ hΓ hp.1
    rw [Stmt.after_of_not_declares hp.2] at hbranch
    exact (visits_expr hΓ condition).seq hbranch
  | .ifElse condition whenTrue whenFalse, fam, Γ, hΓ, hp => by
    have hyes := visits_stmt whenTrue fam Γ hΓ hp.1.1
    have hno := visits_stmt whenFalse fam Γ hΓ hp.2.1
    rw [Stmt.after_of_not_declares hp.1.2] at hyes
    rw [Stmt.after_of_not_declares hp.2.2] at hno
    exact (visits_expr hΓ condition).seq (hyes.seq hno)
  | .while condition body, fam, Γ, hΓ, hp => by
    have hbody := visits_stmt body fam Γ hΓ hp.1
    rw [Stmt.after_of_not_declares hp.2] at hbody
    exact (visits_expr hΓ condition).seq hbody
  | .for condition increment body, fam, Γ, hΓ, hp => by
    have hbody := visits_stmt body fam Γ hΓ hp.1
    rw [Stmt.after_of_not_declares hp.2] at hbody
    exact (visits_expr hΓ condition).seq (hbody.seq (visits_expr? hΓ increment))
  | .function decl, fam, Γ, hΓ, hp => by
    have hbody := visits_function decl .function fam (Γ.enter decl.name.lexeme)
      ((Context.family_enter _ _).trans hΓ) hp.2
    exact (visits_declare decl.name).seq ((visits_define decl.name).seq hbody)
  | .return keyword value, _, _, hΓ, _ => visits_returning hΓ keyword value
  | .break _, _, _, _, _ => .pure
  | .next _, _, _, _, _ => .pure
  | .class name superclass methods statics, fam, Γ, hΓ, hp => by
    have hfam : ((Γ.enter name.lexeme).inClass (.class name superclass methods statics)
        superclass.isSome).family = familyOf superclass := rfl
    have hinside := visits_inClass superclass
      ((visits_instanceMethods methods _ _ hfam hp.2.1).seq
        (visits_staticMethods statics _ _ hfam hp.2.2))
    refine ⟨fun w hf => ?_, fun w hs hw hf => ?_⟩
    · rw [walked_class] at hf
      exact heading_clean name superclass w (hinside.clean _ hf)
    · rw [walked_class] at hf ⊢
      obtain ⟨hs₁, hf₁, hd₁, hall₁⟩ := heading_spec name superclass w hs (hinside.clean _ hf)
      obtain ⟨hs₂, -, hd₂, hall₂⟩ := hinside.spec _ hs₁ hf₁ hf
      refine ⟨hs₂, hw, ?_, List.forall_mem_append.2 ⟨hall₁, hall₂⟩⟩
      simp only [Stmt.sites, List.flatMap_append, List.reverse_append, List.append_assoc] at hd₂ ⊢
      rw [hd₂, hd₁]

theorem visits_stmts : ∀ (ss : List Stmt) (fam : Family) (Γ : Context), Γ.family = fam →
    Stmt.ProperAll ss → ∃ Γ', Visits fam Γ (stmts ss) (Stmt.sitesAll Γ ss) Γ' ∧ Γ'.tail = Γ.tail
  | [], _, Γ, _, _ => ⟨Γ, .pure, rfl⟩
  | s :: ss, fam, Γ, hΓ, hp => by
    have hs := visits_stmt s fam Γ hΓ hp.1
    obtain ⟨Γ', hss, htail⟩ := visits_stmts ss fam (s.after Γ)
      ((Stmt.family_after Γ s).trans hΓ) hp.2
    exact ⟨Γ', hs.seq hss, htail.trans (Stmt.tail_after Γ s)⟩

theorem visits_function : ∀ (d : FunctionDecl) (kind : Body) (fam : Family) (Γ : Context),
    Γ.family = fam → d.Proper → Visits fam Γ (function kind d) (d.sites Γ) Γ
  | ⟨name, ps, body⟩, kind, fam, Γ, hΓ, hp => by
    have hps := visits_params ps (⟨.function ⟨name, ps, body⟩, []⟩ :: Γ) hΓ
    obtain ⟨Γ', hbody, htail⟩ := visits_stmts body fam
      (Param.after (⟨.function ⟨name, ps, body⟩, []⟩ :: Γ) ps)
      ((Param.family_after _ _).trans hΓ) hp.2
    exact visits_setBody kind ((hps.seq hbody).scope _ (htail.trans (Param.tail_after _ _)))

theorem visits_instanceMethods : ∀ (ds : List FunctionDecl) (fam : Family) (Γ : Context),
    Γ.family = fam → FunctionDecl.ProperAll ds →
    Visits fam Γ (instanceMethods ds) (FunctionDecl.sitesAll Γ ds) Γ
  | [], _, _, _, _ => .pure
  | d :: ds, fam, Γ, hΓ, hp =>
    (visits_function d (methodBody d.name) fam Γ hΓ hp.1).seq
      (visits_instanceMethods ds fam Γ hΓ hp.2)

theorem visits_staticMethods : ∀ (ds : List FunctionDecl) (fam : Family) (Γ : Context),
    Γ.family = fam → FunctionDecl.ProperAll ds →
    Visits fam Γ (staticMethods ds) (FunctionDecl.sitesAll Γ ds) Γ
  | [], _, _, _, _ => .pure
  | d :: ds, fam, Γ, hΓ, hp =>
    (visits_function d .method fam Γ hΓ hp.1).seq (visits_staticMethods ds fam Γ hΓ hp.2)

end

end Scope

/-- What is noted for a whole program, the last note first. -/
def notesOf (sites : List Site) : List (ExprId × Nat) := (sites.flatMap Site.note).reverse

/-- A program without a fault has the notes of its sites. -/
theorem resolve_notes {globals : List String} {ss : List Stmt} (hp : Stmt.ProperAll ss)
    (h : (resolve globals ss).faults = []) :
    (resolve globals ss).distances = notesOf (Stmt.sitesAll [] ss) ∧
      ∀ σ ∈ Stmt.sitesAll [] ss, σ.Allowed := by
  obtain ⟨Γ, hvisit, -⟩ := Scope.visits_stmts ss .none [] rfl hp
  obtain ⟨-, -, hd, hall⟩ := hvisit.spec (.start globals) rfl rfl h
  refine ⟨?_, hall⟩
  rw [notesOf, ← List.append_nil (List.reverse _)]
  exact hd

/-- The last note under a number is the one that is found. -/
theorem getElem?_notes (notes : List (ExprId × Nat)) (table : Std.TreeMap ExprId Nat)
    (id : ExprId) :
    (notes.foldr (fun (id, d) table => table.insert id d) table)[id]? =
      (notes.lookup id).or table[id]? := by
  induction notes with
  | nil => rfl
  | cons note notes ih =>
    obtain ⟨i, d⟩ := note
    rw [List.foldr_cons, Std.TreeMap.getElem?_insert, List.lookup_cons, ih]
    by_cases hi : i = id
    · simp [hi]
    · simp [hi, beq_false_of_ne (Ne.symm hi)]

theorem note_ids (sites : List Site) :
    ((sites.flatMap Site.note).map Prod.fst).Sublist (sites.map fun σ => σ.use.id) := by
  induction sites with
  | nil => exact List.Sublist.slnil
  | cons σ sites ih =>
    rw [List.flatMap_cons, List.map_append, List.map_cons]
    cases hd : σ.distance? with
    | none => simpa [Site.note, hd] using ih.cons _
    | some d => simpa [Site.note, hd] using ih.cons_cons σ.use.id

/-- Where every number has one note, that is found. -/
theorem lookup_eq_of_mem {notes : List (ExprId × Nat)} (hn : (notes.map Prod.fst).Nodup)
    {id : ExprId} {d : Nat} (h : (id, d) ∈ notes) : notes.lookup id = some d := by
  induction notes with
  | nil => cases h
  | cons note notes ih =>
    obtain ⟨i, k⟩ := note
    rw [List.map_cons, List.nodup_cons] at hn
    rcases List.mem_cons.1 h with heq | hm
    · cases heq
      simp
    · have hne : id ≠ i := by
        rintro rfl
        exact hn.1 (List.mem_map.2 ⟨(id, d), hm, rfl⟩)
      rw [List.lookup_cons, beq_false_of_ne hne]
      exact ih hn.2 hm

/-- Where all numbers differ, the note at a site is the one of its reference. -/
theorem lookup_notesOf {sites : List Site} (hn : (sites.map fun σ => σ.use.id).Nodup) {σ : Site}
    (hσ : σ ∈ sites) : (notesOf sites).lookup σ.use.id = σ.distance? := by
  have hkeys : ((notesOf sites).map Prod.fst).Nodup := by
    rw [notesOf, List.map_reverse, List.nodup_reverse]
    exact (note_ids sites).nodup hn
  cases hd : σ.distance? with
  | some d =>
    refine lookup_eq_of_mem hkeys ?_
    simp only [notesOf, List.mem_reverse, List.mem_flatMap]
    exact ⟨σ, hσ, by simp [Site.note, hd]⟩
  | none =>
    rw [List.lookup_eq_none_iff]
    rintro ⟨id, d⟩ hm
    simp only [notesOf, List.mem_reverse, List.mem_flatMap] at hm
    obtain ⟨τ, hτ, hm⟩ := hm
    simp only [Site.note, Option.mem_toList, Option.map_eq_some_iff, Prod.mk.injEq] at hm
    obtain ⟨k, hk, rfl, -⟩ := hm
    rw [bne_iff_ne]
    intro heq
    have hsame : σ = τ := List.inj_on_of_nodup_map hn hσ hτ heq
    rw [hsame, hk] at hd
    cases hd

end Scriptling
