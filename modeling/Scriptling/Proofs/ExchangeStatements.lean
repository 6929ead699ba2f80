import Scriptling.Proofs.Exchange

namespace Scriptling

namespace Scope

variable {ρ : Renaming} {fam : Family} {Γ Γ₁ : Context} {marks : List Bool}
  {a a' : Resolve Unit} {sites : List Site} {K : Prop}

theorem tracks_enter (h : ρ.Over Γ marks) {name : Token} (hn : name.lexeme ≠ ρ.new) :
    Tracks ρ fam Γ marks (do declare name; define name)
      (do declare (ρ.declared marks name); define (ρ.declared marks name)) []
      (Γ.enter name.lexeme) True :=
  (tracks_define (h.mark hn false) name).after (tracks_declare h name)

/-- Parameters that do not have the new name leave the scopes free of it. -/
theorem over_after {ps : List Param} {Γ : Context} (h : ρ.Over Γ marks)
    (hn : ∀ t ∈ Param.declarations ps, t.lexeme ≠ ρ.new) : ρ.Over (Param.after Γ ps) marks := by
  induction ps generalizing Γ with
  | nil => exact h
  | cons p ps ih =>
    exact ih (h.enter (hn p.name (by simp [Param.declarations]))) fun t ht =>
      hn t (List.mem_cons_of_mem _ ht)

theorem tracks_params : ∀ (ps : List Param) (Γ : Context), ρ.Over Γ marks → Γ.family = fam →
    (∀ t ∈ Param.declarations ps, t.lexeme ≠ ρ.new) → (∀ σ ∈ Param.sites Γ ps, ρ.Knows σ) →
    Tracks ρ fam Γ marks (params ps) (params (ps.map (ρ.param marks))) (Param.sites Γ ps)
      (Param.after Γ ps) True
  | [], _, _, _, _, _ => .pure trivial
  | p :: ps, Γ, h, hΓ, hn, hu => by
    obtain ⟨hfallback, hrest⟩ := List.forall_mem_append.1 hu
    have hname : p.name.lexeme ≠ ρ.new := hn p.name (by simp [Param.declarations])
    have hps := tracks_params ps (Γ.enter p.name.lexeme) (h.enter hname)
      ((Context.family_enter _ _).trans hΓ) (fun t ht => hn t (List.mem_cons_of_mem _ ht)) hrest
    have henter := (hps.after (tracks_define (h.mark hname false) p.name)).after
      (tracks_declare h p.name)
    exact henter.after (tracks_expr? h hΓ p.fallback hfallback)

/-- A scope is opened with its names exchanged. -/
theorem exchange_openScope {names : Table Bool} {mark : Bool}
    (hn : names.relabel (ρ.image mark) = names) (w : Walk) :
    walked (openScope names) (w.exchange ρ marks) =
      (walked (openScope names) w).exchange ρ (mark :: marks) := by
  rw [walked_openScope, walked_openScope]
  dsimp only [Walk.exchange, Renaming.scopes, List.zipWith_cons_cons]
  rw [hn]

theorem exchange_closeScope (mark : Bool) (w : Walk) :
    walked closeScope (w.exchange ρ (mark :: marks)) = (walked closeScope w).exchange ρ marks := by
  rw [walked_closeScope, walked_closeScope]
  dsimp only [Walk.exchange, Renaming.scopes]
  cases w.scopes with
  | nil => rw [List.tail_nil, List.zipWith_nil_right, List.zipWith_nil_right, List.tail_nil]
  | cons scope outer => rw [List.zipWith_cons_cons, List.tail_cons, List.tail_cons]

/-- A scope around some steps. -/
theorem Tracks.scope {layer : Layer} {mark : Bool}
    (h : Tracks ρ fam (layer :: Γ) (mark :: marks) a a' sites Γ₁ K) (hΓ : Γ₁.tail = Γ)
    (hn : layer.names.relabel (ρ.image mark) = layer.names) :
    Tracks ρ fam Γ marks (do openScope layer.names; a; closeScope)
      (do openScope layer.names; a'; closeScope) sites Γ K := by
  refine ⟨h.toVisits.scope layer hΓ, fun w hs hf hclean => ?_⟩
  have hw : ∀ (b : Resolve Unit) w, walked (do openScope layer.names; b; closeScope) w =
      walked closeScope (walked b (walked (openScope layer.names) w)) := fun _ _ => rfl
  rw [hw] at hclean
  obtain ⟨hK, ha⟩ := h.tracks (walked (openScope layer.names) w)
    (by rw [walked_openScope, hs]; rfl) hf hclean
  rw [hw, hw, exchange_openScope hn, ha, exchange_closeScope]
  exact ⟨hK, rfl⟩

theorem tracks_setBody (body : Body) (h : Tracks ρ fam Γ marks a a' sites Γ₁ K) :
    Tracks ρ fam Γ marks
      (do
        let outer := (← get).body
        setBody body
        a
        setBody outer)
      (do
        let outer := (← get).body
        setBody body
        a'
        setBody outer) sites Γ₁ K := by
  refine ⟨visits_setBody body h.toVisits, fun w hs hf hclean => ?_⟩
  obtain ⟨hK, ha⟩ := h.tracks { w with body } hs hf hclean
  exact ⟨hK, congrArg (fun w' : Walk => { w' with body := w.body }) ha⟩

theorem tracks_returning (h : ρ.Over Γ marks) (hΓ : Γ.family = fam) (keyword : Token)
    (value : Option Expr) (hu : ∀ σ ∈ sitesOf Γ (Expr.uses? value), ρ.Knows σ) :
    Tracks ρ fam Γ marks (returning keyword value)
      (returning keyword (value.map (Expr.turn (ρ.use marks)))) (sitesOf Γ (Expr.uses? value)) Γ
      True := by
  have hreport : ∀ fault, Tracks ρ fam Γ marks (report keyword fault) (report keyword fault) [] Γ
      True := fun _ => tracks_report _ _ _
  unfold returning
  refine .get fun w => ?_
  rw [show (w.exchange ρ marks).body = w.body from rfl]
  dsimp only
  cases value with
  | none =>
    rw [Option.map_none]
    split
    · exact (hreport _).seq (.pure trivial) |>.mono fun _ => trivial
    · exact .pure trivial
  | some e =>
    have hvalue : Tracks ρ fam Γ marks
        (do
          if w.body = .initializer then report keyword .initializerValue
          expr e)
        (do
          if w.body = .initializer then report keyword .initializerValue
          expr (e.turn (ρ.use marks))) (sitesOf Γ e.uses) Γ True := by
      have he := tracks_expr h hΓ e (knows_uses hu)
      dsimp only
      split
      · exact he.after (hreport _)
      · exact he
    rw [Option.map_some]
    split
    · exact hvalue.after (hreport _)
    · exact hvalue

/-- A name that is neither of the two is declared as it is. -/
theorem declared_eq {name : Token} (hnew : name.lexeme ≠ ρ.new)
    (hold : marks.headD false = true → name.lexeme ≠ ρ.old) : ρ.declared marks name = name := by
  unfold Renaming.declared
  cases hmark : marks.headD false with
  | false => rfl
  | true => rw [Renaming.token, Renaming.image_of_ne (hold hmark) hnew]

theorem tracks_parent (h : ρ.Over Γ marks) {name : Token}
    (hname : ρ.declared marks name = name) (hnew : name.lexeme ≠ ρ.new) (parent : Superclass)
    (hu : ρ.Knows ⟨Γ, parent.use⟩) :
    Tracks ρ fam Γ marks
      (do
        if parent.name.lexeme = name.lexeme then report parent.name .selfInheritance
        else expr parent.expr
        define name)
      (do
        if (parent.turn (ρ.use marks)).name.lexeme = name.lexeme then
          report (parent.turn (ρ.use marks)).name .selfInheritance
        else expr (parent.turn (ρ.use marks)).expr
        define name) (sitesOf Γ [parent.use]) (Γ.mark name.lexeme true) True := by
  have hvisit : Visits fam Γ _ _ _ := visits_parent name parent
  dsimp only at hvisit ⊢
  by_cases hself : parent.name.lexeme = name.lexeme
  · refine ⟨hvisit, fun w _ _ hclean => ?_⟩
    have hdefine : Visits fam Γ (define name) [] _ := visits_define name
    rw [if_pos hself, walked_bind] at hclean
    exact absurd (hdefine.clean _ hclean) (faults_report _ _ _)
  · have hother : (parent.turn (ρ.use marks)).name.lexeme ≠ name.lexeme := by
      change ρ.image (ρ.marked marks parent.id) parent.name.lexeme ≠ name.lexeme
      cases ρ.marked marks parent.id with
      | false => exact hself
      | true =>
        by_cases hold : parent.name.lexeme = ρ.old
        · rw [hold]
          exact fun heq => hnew (heq.symm.trans Renaming.word_old)
        · rw [Renaming.image_of_ne hold hu.other]
          exact hself
    have hdefine : Tracks ρ fam Γ marks _ _ _ _ _ := tracks_define h name
    rw [hname] at hdefine
    rw [if_neg hself, if_neg hother]
    exact hdefine.after (tracks_read h parent.id parent.name hu)

/-- A class's name and superclass are found alike. -/
theorem exchange_heading (h : ρ.Over Γ marks) {name : Token}
    (hname : ρ.declared marks name = name) (hnew : name.lexeme ≠ ρ.new)
    (superclass : Option Superclass)
    (hu : ∀ σ ∈ sitesOf (Γ.mark name.lexeme false) (Superclass.uses? superclass), ρ.Knows σ)
    {w : Walk} (hs : w.scopes = Γ.scopes)
    (hclean : (walked (heading name superclass) w).faults = []) :
    walked (heading name (superclass.map (Superclass.turn (ρ.use marks)))) (w.exchange ρ marks) =
      (walked (heading name superclass) w).exchange ρ marks := by
  cases superclass with
  | none =>
    have henter : Tracks ρ .root Γ marks _ _ _ _ _ := tracks_enter h hnew
    rw [hname] at henter
    exact (henter.tracks { w with family := .root } hs rfl hclean).2
  | some parent =>
    have hdeclare : Tracks ρ .root Γ marks _ _ _ _ _ := tracks_declare h name
    rw [hname] at hdeclare
    have hparent : Tracks ρ .derived (Γ.mark name.lexeme false) marks _ _ _ _ _ :=
      tracks_parent (h.mark hnew false) hname hnew parent (hu _ (List.mem_singleton_self _))
    rw [walked_heading_some] at hclean
    have hdeclared := hparent.clean _ hclean
    obtain ⟨hs₁, -⟩ := hdeclare.spec { w with family := .root } hs rfl hdeclared
    have hstep := (hdeclare.tracks { w with family := .root } hs rfl hdeclared).2
    have hrest := (hparent.tracks { walked (declare name) { w with family := .root } with
      family := .derived } hs₁ rfl hclean).2
    rw [Option.map_some, walked_heading_some, walked_heading_some, ← hrest]
    exact congrArg (fun v : Walk => walked _ { v with family := .derived }) hstep

/-- A class's own scopes have no name that changes. -/
theorem tracks_inClass {declaration : Stmt} (superclass : Option Superclass)
    {f : Superclass → Superclass}
    (h : Tracks ρ fam (Γ.inClass declaration superclass.isSome)
      (Renaming.inClass superclass.isSome marks) a a' sites
      (Γ.inClass declaration superclass.isSome) K) :
    Tracks ρ fam Γ marks
      (do
        if superclass.isSome then openScope [("super", true)]
        openScope [("this", true)]
        a
        closeScope
        if superclass.isSome then closeScope)
      (do
        if (superclass.map f).isSome then openScope [("super", true)]
        openScope [("this", true)]
        a'
        closeScope
        if (superclass.map f).isSome then closeScope) sites Γ K := by
  have hvisit := visits_inClass superclass h.toVisits
  cases superclass with
  | none =>
    have hthis := Tracks.scope h rfl rfl
    exact ⟨hvisit, fun w hs hf hclean => hthis.tracks w hs hf hclean⟩
  | some parent =>
    have hsuper := Tracks.scope (Tracks.scope h rfl rfl) rfl rfl
    exact ⟨hvisit, fun w hs hf hclean => hsuper.tracks w hs hf hclean⟩

/-- A name that was declared without a fault is new in its scope. -/
theorem get?_of_declare {w : Walk} {scope : Table Bool} {outer : List (Table Bool)} {name : Token}
    (hs : w.scopes = scope :: outer) (h : (walked (declare name) w).faults = []) :
    scope.get? name.lexeme = none := by
  rw [walked_declare, hs] at h
  dsimp only at h
  by_cases hhas : scope.has name.lexeme = true
  · rw [if_pos hhas] at h
    simp at h
  · simpa [Table.has] using hhas

/-- A statement without a fault declares a name that its scope did not have. -/
theorem get?_of_declared {s : Stmt} (hp : s.Proper) {w : Walk} {scope : Table Bool}
    {outer : List (Table Bool)} (hs : w.scopes = scope :: outer)
    (h : (walked (stmt s) w).faults = []) {name : String} (hname : s.declared? = some name) :
    scope.get? name = none := by
  have hdefine : ∀ name : Token, Visits .none [] (define name) [] [] := fun name =>
    visits_define name
  cases s with
  | var name initial =>
    cases hname
    have hinitial : Visits (Context.family []) [] _ _ _ := visits_expr? rfl initial
    have hrest := hinitial.seq (hdefine name)
    exact get?_of_declare hs (hrest.clean _ h)
  | function decl =>
    cases hname
    have hrest : Visits .none [] (do define decl.name; function .function decl) _ _ :=
      (hdefine decl.name).seq (visits_function decl .function .none [] rfl hp.2)
    exact get?_of_declare hs (hrest.clean _ h)
  | «class» name superclass methods statics =>
    cases hname
    have hfam : (Context.inClass [] (.class name superclass methods statics)
        superclass.isSome).family = familyOf superclass := rfl
    have hinside := visits_inClass superclass
      ((visits_instanceMethods methods _ _ hfam hp.2.1).seq
        (visits_staticMethods statics _ _ hfam hp.2.2))
    rw [walked_class] at h
    have hheading := hinside.clean _ h
    have hdeclare : (walked (declare name) { w with family := .root }).faults = [] := by
      cases superclass with
      | none => exact (hdefine name).clean _ hheading
      | some parent =>
        have hparent : Visits .derived [] _ _ _ := visits_parent name parent
        exact hparent.clean { walked (declare name) { w with family := .root } with
          family := .derived } hheading
    exact get?_of_declare (w := { w with family := .root }) hs hdeclare
  | _ => cases hname

/-- A statement declares at most its own name in the innermost scope. -/
theorem after_layer (s : Stmt) (layer : Layer) (outer : Context) :
    ∃ names, s.after (layer :: outer) = ⟨layer.opener, names⟩ :: outer ∧
      (∀ name, names.get? name = none → layer.names.get? name = none) ∧
      ∀ name, s.declared? = some name → names.get? name = some true := by
  have henter : ∀ name : String, ∃ names, Context.enter (layer :: outer) name =
      ⟨layer.opener, names⟩ :: outer ∧
      (∀ key, names.get? key = none → layer.names.get? key = none) ∧
      names.get? name = some true := by
    intro name
    refine ⟨(layer.names.put name false).put name true, rfl, fun key hkey => ?_, by simp⟩
    by_cases hk : name = key
    · simp [hk] at hkey
    · simpa [hk] using hkey
  cases s with
  | var name _ =>
    obtain ⟨names, heq, hkeep, htrue⟩ := henter name.lexeme
    exact ⟨names, heq, hkeep, fun n hn => by cases hn; exact htrue⟩
  | function decl =>
    obtain ⟨names, heq, hkeep, htrue⟩ := henter decl.name.lexeme
    exact ⟨names, heq, hkeep, fun n hn => by cases hn; exact htrue⟩
  | «class» name _ _ _ =>
    obtain ⟨names, heq, hkeep, htrue⟩ := henter name.lexeme
    exact ⟨names, heq, hkeep, fun n hn => by cases hn; exact htrue⟩
  | _ => exact ⟨layer.names, rfl, fun _ h => h, fun _ hn => by cases hn⟩

/-- Statements of one scope without a fault: none declares a name the scope had, and beside a
variable there is no function and no class of its name. -/
theorem stmts_distinct : ∀ (ss : List Stmt) (layer : Layer) (outer : Context),
    Context.family (layer :: outer) = fam → Stmt.ProperAll ss → ∀ w : Walk,
    w.scopes = Context.scopes (layer :: outer) → w.family = fam →
    (walked (stmts ss) w).faults = [] →
    (∀ s ∈ ss, ∀ name, s.declared? = some name → layer.names.get? name = none) ∧
      ∀ token initial, Stmt.var token initial ∈ ss → ∀ s ∈ ss, s.Spares token.lexeme
  | [], _, _, _, _, _, _, _, _ => ⟨by simp, by simp⟩
  | s :: ss, layer, outer, hΓ, hp, w, hs, hf, h => by
    have hvisit := visits_stmt s fam (layer :: outer) hΓ hp.1
    obtain ⟨_, hrest, -⟩ := visits_stmts ss fam (s.after (layer :: outer))
      ((Stmt.family_after _ s).trans hΓ) hp.2
    have hclean := hrest.clean _ h
    obtain ⟨hs₁, hf₁, -⟩ := hvisit.spec w hs hf hclean
    obtain ⟨names, hafter, hkeep, htrue⟩ := after_layer s layer outer
    have hfamily := (Stmt.family_after (layer :: outer) s).trans hΓ
    rw [hafter] at hs₁ hfamily
    obtain ⟨hnone, hspares⟩ := stmts_distinct ss ⟨layer.opener, names⟩ outer hfamily hp.2 _ hs₁ hf₁ h
    have hhead : ∀ name, s.declared? = some name → layer.names.get? name = none :=
      fun name hname => get?_of_declared hp.1 hs hclean hname
    refine ⟨fun s' hs' name hname => ?_, fun token initial hvar s' hs' => ?_⟩
    · rcases List.mem_cons.1 hs' with rfl | hs'
      · exact hhead name hname
      · exact hkeep name (hnone s' hs' name hname)
    · -- a variable and a later declaration, or the other way round, cannot share a name
      have hapart : ∀ s' ∈ ss, ∀ name, s.declared? = some name → s'.declared? ≠ some name := by
        intro s' hs' name hname hname'
        have hget := hnone s' hs' name hname'
        rw [show Table.get? names name = some true from htrue name hname] at hget
        cases hget
      rcases List.mem_cons.1 hvar with rfl | hlater
      · rcases List.mem_cons.1 hs' with rfl | hs'
        · trivial
        · exact Stmt.spares_of_ne (hapart s' hs' _ rfl)
      · rcases List.mem_cons.1 hs' with rfl | hs'
        · exact Stmt.spares_of_ne fun hname => hapart (.var token initial) hlater _ hname rfl
        · exact hspares token initial hlater s' hs'

/-- Parameters are all declared in the innermost scope, and nothing is lost there. -/
theorem params_layer : ∀ (ps : List Param) (layer : Layer) (outer : Context),
    ∃ names, Param.after (layer :: outer) ps = ⟨layer.opener, names⟩ :: outer ∧
      (∀ name, layer.names.get? name = some true → names.get? name = some true) ∧
      ∀ p ∈ ps, names.get? p.name.lexeme = some true
  | [], layer, _ => ⟨layer.names, rfl, fun _ h => h, by simp⟩
  | p :: ps, layer, outer => by
    obtain ⟨names, heq, hkeep, hps⟩ := params_layer ps
      ⟨layer.opener, (layer.names.put p.name.lexeme false).put p.name.lexeme true⟩ outer
    refine ⟨names, heq, fun name hname => hkeep name ?_, fun q hq => ?_⟩
    · by_cases hk : p.name.lexeme = name
      · simp [hk]
      · simpa [hk] using hname
    · rcases List.mem_cons.1 hq with rfl | hq
      · exact hkeep _ (by simp)
      · exact hps q hq

variable {pick : Opener → Bool}

/-- What is asked of a statement whose names are exchanged: its references are known, it declares
nothing of the new name, and in a marked scope it is no function and no class of the old one. -/
structure Fresh (ρ : Renaming) (Γ : Context) (marks : List Bool) (s : Stmt) : Prop where
  proper : s.Proper
  known : ∀ σ ∈ s.sites Γ, ρ.Knows σ
  new : ∀ t ∈ s.declarations, t.lexeme ≠ ρ.new
  spares : marks.headD false = true → s.Spares ρ.old

/-- Behind a statement the new name is no more in use than before it. -/
theorem Fresh.over_after {s : Stmt} (hs : Fresh ρ Γ marks s) (h : ρ.Over Γ marks) :
    ρ.Over (s.after Γ) marks := by
  cases s with
  | var name => exact h.enter (hs.new name (List.mem_singleton_self _))
  | function decl => exact h.enter (hs.new decl.name (List.mem_cons_self ..))
  | «class» name => exact h.enter (hs.new name (List.mem_cons_self ..))
  | _ => exact h

mutual

/-- A statement with exchanged names is walked as before, and its functions and classes keep their
names. -/
theorem tracks_stmt (hpick : ∀ o, pick o = true → o.Binds ρ.old) : ∀ (s : Stmt) (fam : Family)
    (Γ : Context) (marks : List Bool), ρ.Over Γ marks → Γ.family = fam → Fresh ρ Γ marks s →
    Tracks ρ fam Γ marks (stmt s) (stmt (s.rename ρ pick marks)) (s.sites Γ) (s.after Γ)
      (s.Keeps ρ pick marks)
  | .expr e, _, _, _, h, hΓ, hs => by
    rw [Stmt.rename]
    exact tracks_expr h hΓ e (knows_uses hs.known)
  | .var name initial, _, Γ, _, h, hΓ, hs => by
    have hnew : name.lexeme ≠ ρ.new := hs.new name (List.mem_singleton_self _)
    have hmarked := h.mark hnew false
    have hinitial := tracks_expr? hmarked ((Context.family_mark Γ name.lexeme false).trans hΓ)
      initial hs.known
    have hall := ((tracks_define hmarked name).after hinitial).after (tracks_declare h name)
    rw [List.nil_append, List.append_nil] at hall
    rw [Stmt.rename]
    exact hall
  | .block body, fam, Γ, marks, h, hΓ, hs => by
    obtain ⟨Γ₁, hvisit, htail⟩ := visits_stmts body fam (⟨.block body, []⟩ :: Γ) hΓ hs.proper
    have hbody : Tracks ρ fam (⟨.block body, []⟩ :: Γ) (pick (.block body) :: marks) (stmts body)
        (stmts (Stmt.renameAll ρ pick (pick (.block body) :: marks) body))
        (Stmt.sitesAll (⟨.block body, []⟩ :: Γ) body) Γ₁
        (Stmt.KeepsAll ρ pick (pick (.block body) :: marks) body) := by
      refine ⟨hvisit, fun w hw hf hclean => ?_⟩
      have hspares : pick (.block body) = true → ∀ s ∈ body, s.Spares ρ.old := by
        intro hpicked s hmem
        obtain ⟨token, initial, hvar, htoken⟩ := hpick _ hpicked
        rw [← htoken]
        exact (stmts_distinct body ⟨.block body, []⟩ Γ hΓ hs.proper w hw hf hclean).2 token initial
          hvar s hmem
      obtain ⟨_, htracks⟩ := tracks_stmts hpick body fam (⟨.block body, []⟩ :: Γ) _
        (h.inside _ rfl) hΓ hs.proper hs.known hs.new hspares
      exact htracks.tracks w hw hf hclean
    rw [Stmt.rename]
    exact hbody.scope htail rfl
  | .ifThen condition whenTrue, fam, Γ, marks, h, hΓ, hs => by
    obtain ⟨hc, ht⟩ := List.forall_mem_append.1 hs.known
    have hbranch := tracks_stmt hpick whenTrue fam Γ marks h hΓ
      ⟨hs.proper.1, ht, hs.new, fun _ => Stmt.spares_of_not_declares hs.proper.2 _⟩
    rw [Stmt.after_of_not_declares hs.proper.2] at hbranch
    rw [Stmt.rename]
    exact hbranch.after (tracks_expr h hΓ condition (knows_uses hc))
  | .ifElse condition whenTrue whenFalse, fam, Γ, marks, h, hΓ, hs => by
    obtain ⟨hc, hk⟩ := List.forall_mem_append.1 hs.known
    obtain ⟨ht, hf⟩ := List.forall_mem_append.1 hk
    obtain ⟨hnt, hnf⟩ := List.forall_mem_append.1 hs.new
    have hyes := tracks_stmt hpick whenTrue fam Γ marks h hΓ
      ⟨hs.proper.1.1, ht, hnt, fun _ => Stmt.spares_of_not_declares hs.proper.1.2 _⟩
    have hno := tracks_stmt hpick whenFalse fam Γ marks h hΓ
      ⟨hs.proper.2.1, hf, hnf, fun _ => Stmt.spares_of_not_declares hs.proper.2.2 _⟩
    rw [Stmt.after_of_not_declares hs.proper.1.2] at hyes
    rw [Stmt.after_of_not_declares hs.proper.2.2] at hno
    rw [Stmt.rename]
    exact (hyes.seq hno).after (tracks_expr h hΓ condition (knows_uses hc))
  | .while condition body, fam, Γ, marks, h, hΓ, hs => by
    obtain ⟨hc, hb⟩ := List.forall_mem_append.1 hs.known
    have hbody := tracks_stmt hpick body fam Γ marks h hΓ
      ⟨hs.proper.1, hb, hs.new, fun _ => Stmt.spares_of_not_declares hs.proper.2 _⟩
    rw [Stmt.after_of_not_declares hs.proper.2] at hbody
    rw [Stmt.rename]
    exact hbody.after (tracks_expr h hΓ condition (knows_uses hc))
  | .for condition increment body, fam, Γ, marks, h, hΓ, hs => by
    obtain ⟨hc, hk⟩ := List.forall_mem_append.1 hs.known
    obtain ⟨hb, hi⟩ := List.forall_mem_append.1 hk
    have hbody := tracks_stmt hpick body fam Γ marks h hΓ
      ⟨hs.proper.1, hb, hs.new, fun _ => Stmt.spares_of_not_declares hs.proper.2 _⟩
    rw [Stmt.after_of_not_declares hs.proper.2] at hbody
    rw [Stmt.rename]
    exact (hbody.before (tracks_expr? h hΓ increment hi)).after
      (tracks_expr h hΓ condition (knows_uses hc))
  | .function decl, fam, Γ, marks, h, hΓ, hs => by
    have hnew : decl.name.lexeme ≠ ρ.new := hs.new decl.name (List.mem_cons_self ..)
    have hname := declared_eq hnew hs.spares
    have hbody := tracks_function hpick decl .function fam (Γ.enter decl.name.lexeme) marks
      (h.enter hnew) ((Context.family_enter _ _).trans hΓ) hs.proper.2 hs.known
      fun t ht => hs.new t (List.mem_cons_of_mem _ ht)
    have hdeclare : Tracks ρ fam Γ marks _ _ _ _ _ := tracks_declare h decl.name
    have hdefine : Tracks ρ fam (Γ.mark decl.name.lexeme false) marks _ _ _ _ _ :=
      tracks_define (h.mark hnew false) decl.name
    rw [hname] at hdeclare hdefine
    have hall := ((hbody.after hdefine).after hdeclare).mono fun hkeeps =>
      (⟨hname, hkeeps⟩ : ρ.declared marks decl.name = decl.name ∧ decl.Keeps ρ pick marks)
    rw [Stmt.rename, stmt, stmt, FunctionDecl.name_rename]
    exact hall
  | .return keyword value, _, _, _, h, hΓ, hs => by
    rw [Stmt.rename]
    exact tracks_returning h hΓ keyword value hs.known
  | .break _, _, _, _, _, _, _ => .pure trivial
  | .next _, _, _, _, _, _, _ => .pure trivial
  | .class name superclass methods statics, fam, Γ, marks, h, hΓ, hs => by
    obtain ⟨hsuper, hk⟩ := List.forall_mem_append.1 hs.known
    obtain ⟨hkm, hks⟩ := List.forall_mem_append.1 hk
    have hnew : name.lexeme ≠ ρ.new := hs.new name (List.mem_cons_self ..)
    obtain ⟨hnm, hns⟩ := List.forall_mem_append.1 fun t ht =>
      hs.new t (List.mem_cons_of_mem _ ht)
    have hname := declared_eq hnew hs.spares
    have hfam : ((Γ.enter name.lexeme).inClass (.class name superclass methods statics)
        superclass.isSome).family = familyOf superclass := rfl
    have hover := (h.enter hnew).inClass (.class name superclass methods statics)
      superclass.isSome
    have hinside := tracks_inClass (f := Superclass.turn (ρ.use marks)) superclass
      ((tracks_instanceMethods hpick methods _ _ _ hover hfam hs.proper.2.1 hkm hnm).seq
        (tracks_staticMethods hpick statics _ _ _ hover hfam hs.proper.2.2 hks hns))
    refine ⟨visits_stmt _ fam Γ hΓ hs.proper, fun w hw hf hclean => ?_⟩
    rw [walked_class] at hclean
    have hheading := hinside.clean _ hclean
    obtain ⟨hw₁, hf₁, -⟩ := heading_spec name superclass w hw hheading
    obtain ⟨hkeeps, hstep⟩ := hinside.tracks _ hw₁ hf₁ hclean
    refine ⟨⟨hname, hkeeps⟩, ?_⟩
    rw [Stmt.rename, walked_class, walked_class,
      exchange_heading h hname hnew superclass hsuper hw hheading, hstep]
    rfl

theorem tracks_stmts (hpick : ∀ o, pick o = true → o.Binds ρ.old) : ∀ (ss : List Stmt)
    (fam : Family) (Γ : Context) (marks : List Bool), ρ.Over Γ marks → Γ.family = fam →
    Stmt.ProperAll ss → (∀ σ ∈ Stmt.sitesAll Γ ss, ρ.Knows σ) →
    (∀ t ∈ Stmt.declarationsAll ss, t.lexeme ≠ ρ.new) →
    (marks.headD false = true → ∀ s ∈ ss, s.Spares ρ.old) →
    ∃ Γ', Tracks ρ fam Γ marks (stmts ss) (stmts (Stmt.renameAll ρ pick marks ss))
      (Stmt.sitesAll Γ ss) Γ' (Stmt.KeepsAll ρ pick marks ss)
  | [], _, Γ, _, _, _, _, _, _, _ => ⟨Γ, .pure trivial⟩
  | s :: ss, fam, Γ, marks, h, hΓ, hp, hk, hn, hspares => by
    obtain ⟨hks, hkss⟩ := List.forall_mem_append.1 hk
    obtain ⟨hns, hnss⟩ := List.forall_mem_append.1 hn
    have hfresh : Fresh ρ Γ marks s :=
      ⟨hp.1, hks, hns, fun hmark => hspares hmark s (List.mem_cons_self ..)⟩
    have hhead := tracks_stmt hpick s fam Γ marks h hΓ hfresh
    obtain ⟨Γ', htail⟩ := tracks_stmts hpick ss fam (s.after Γ) marks (hfresh.over_after h)
      ((Stmt.family_after Γ s).trans hΓ) hp.2 hkss hnss
      fun hmark s' hs' => hspares hmark s' (List.mem_cons_of_mem _ hs')
    rw [Stmt.renameAll]
    exact ⟨Γ', hhead.seq htail⟩

theorem tracks_function (hpick : ∀ o, pick o = true → o.Binds ρ.old) : ∀ (d : FunctionDecl)
    (kind : Body) (fam : Family) (Γ : Context) (marks : List Bool), ρ.Over Γ marks →
    Γ.family = fam → d.Proper → (∀ σ ∈ d.sites Γ, ρ.Knows σ) →
    (∀ t ∈ d.declarations, t.lexeme ≠ ρ.new) →
    Tracks ρ fam Γ marks (function kind d) (function kind (d.rename ρ pick marks)) (d.sites Γ) Γ
      (d.Keeps ρ pick marks)
  | ⟨name, ps, body⟩, kind, fam, Γ, marks, h, hΓ, hp, hk, hn => by
    obtain ⟨hkp, hkb⟩ := List.forall_mem_append.1 hk
    obtain ⟨hnp, hnb⟩ := List.forall_mem_append.1 hn
    have hover : ρ.Over (⟨.function ⟨name, ps, body⟩, []⟩ :: Γ)
        (pick (.function ⟨name, ps, body⟩) :: marks) := h.inside _ rfl
    have hps := tracks_params ps _ hover hΓ hnp hkp
    obtain ⟨names, hlayer, -, hnames⟩ := params_layer ps ⟨.function ⟨name, ps, body⟩, []⟩ Γ
    have hfamily := (Param.family_after (⟨.function ⟨name, ps, body⟩, []⟩ :: Γ) ps).trans hΓ
    obtain ⟨Γ₁, hvisit, htail⟩ := visits_stmts body fam _ hfamily hp.2
    have hbody : Tracks ρ fam (Param.after (⟨.function ⟨name, ps, body⟩, []⟩ :: Γ) ps)
        (pick (.function ⟨name, ps, body⟩) :: marks) (stmts body)
        (stmts (Stmt.renameAll ρ pick (pick (.function ⟨name, ps, body⟩) :: marks) body))
        (Stmt.sitesAll (Param.after (⟨.function ⟨name, ps, body⟩, []⟩ :: Γ) ps) body) Γ₁
        (Stmt.KeepsAll ρ pick (pick (.function ⟨name, ps, body⟩) :: marks) body) := by
      refine ⟨hvisit, fun w hw hf hclean => ?_⟩
      have hspares : pick (.function ⟨name, ps, body⟩) = true → ∀ s ∈ body, s.Spares ρ.old := by
        intro hpicked s hmem
        rw [hlayer] at hw hfamily
        obtain ⟨hnone, hdistinct⟩ := stmts_distinct body _ Γ hfamily hp.2 w hw hf hclean
        rcases hpick _ hpicked with ⟨p, hpmem, hname⟩ | ⟨token, initial, hvar, htoken⟩
        · refine Stmt.spares_of_ne fun hold => ?_
          have hget := hnone s hmem _ hold
          rw [← hname, show Table.get? names p.name.lexeme = some true from hnames p hpmem] at hget
          cases hget
        · rw [← htoken]
          exact hdistinct token initial hvar s hmem
      obtain ⟨_, htracks⟩ := tracks_stmts hpick body fam _ _ (over_after hover hnp) hfamily hp.2 hkb
        hnb hspares
      exact htracks.tracks w hw hf hclean
    rw [FunctionDecl.rename]
    exact tracks_setBody kind
      ((hbody.after hps).scope (htail.trans (Param.tail_after _ _)) rfl)

theorem tracks_instanceMethods (hpick : ∀ o, pick o = true → o.Binds ρ.old) :
    ∀ (ds : List FunctionDecl) (fam : Family) (Γ : Context) (marks : List Bool), ρ.Over Γ marks →
    Γ.family = fam → FunctionDecl.ProperAll ds → (∀ σ ∈ FunctionDecl.sitesAll Γ ds, ρ.Knows σ) →
    (∀ t ∈ FunctionDecl.declarationsAll ds, t.lexeme ≠ ρ.new) →
    Tracks ρ fam Γ marks (instanceMethods ds)
      (instanceMethods (FunctionDecl.renameAll ρ pick marks ds)) (FunctionDecl.sitesAll Γ ds) Γ
      (FunctionDecl.KeepsAll ρ pick marks ds)
  | [], _, _, _, _, _, _, _, _ => .pure trivial
  | d :: ds, fam, Γ, marks, h, hΓ, hp, hk, hn => by
    obtain ⟨hkd, hkds⟩ := List.forall_mem_append.1 hk
    obtain ⟨hnd, hnds⟩ := List.forall_mem_append.1 hn
    rw [FunctionDecl.renameAll, instanceMethods, instanceMethods, FunctionDecl.name_rename]
    exact (tracks_function hpick d (methodBody d.name) fam Γ marks h hΓ hp.1 hkd hnd).seq
      (tracks_instanceMethods hpick ds fam Γ marks h hΓ hp.2 hkds hnds)

theorem tracks_staticMethods (hpick : ∀ o, pick o = true → o.Binds ρ.old) :
    ∀ (ds : List FunctionDecl) (fam : Family) (Γ : Context) (marks : List Bool), ρ.Over Γ marks →
    Γ.family = fam → FunctionDecl.ProperAll ds → (∀ σ ∈ FunctionDecl.sitesAll Γ ds, ρ.Knows σ) →
    (∀ t ∈ FunctionDecl.declarationsAll ds, t.lexeme ≠ ρ.new) →
    Tracks ρ fam Γ marks (staticMethods ds)
      (staticMethods (FunctionDecl.renameAll ρ pick marks ds)) (FunctionDecl.sitesAll Γ ds) Γ
      (FunctionDecl.KeepsAll ρ pick marks ds)
  | [], _, _, _, _, _, _, _, _ => .pure trivial
  | d :: ds, fam, Γ, marks, h, hΓ, hp, hk, hn => by
    obtain ⟨hkd, hkds⟩ := List.forall_mem_append.1 hk
    obtain ⟨hnd, hnds⟩ := List.forall_mem_append.1 hn
    rw [FunctionDecl.renameAll, staticMethods, staticMethods]
    exact (tracks_function hpick d .method fam Γ marks h hΓ hp.1 hkd hnd).seq
      (tracks_staticMethods hpick ds fam Γ marks h hΓ hp.2 hkds hnds)

end

end Scope

/-- A program without a fault has none under the other names either, and the same notes. Its functions
and classes keep their names. -/
theorem resolve_rename {ρ : Renaming} {pick : Opener → Bool} {globals : List String}
    {ss : List Stmt} (hpick : ∀ o, pick o = true → o.Binds ρ.old) (hp : Stmt.ProperAll ss)
    (hk : ∀ σ ∈ Stmt.sitesAll [] ss, ρ.Knows σ)
    (hn : ∀ t ∈ Stmt.declarationsAll ss, t.lexeme ≠ ρ.new)
    (h : (resolve globals ss).faults = []) :
    Stmt.KeepsAll ρ pick [] ss ∧
      (resolve globals (Stmt.renameAll ρ pick [] ss)).faults = [] ∧
      (resolve globals (Stmt.renameAll ρ pick [] ss)).distances = (resolve globals ss).distances := by
  obtain ⟨_, htracks⟩ := Scope.tracks_stmts hpick ss .none [] [] .outside rfl hp hk hn
    fun hmark => by cases hmark
  obtain ⟨hkeeps, hwalk⟩ := htracks.tracks (.start globals) rfl rfl h
  have hsame : resolve globals (Stmt.renameAll ρ pick [] ss) =
      (resolve globals ss).exchange ρ [] := hwalk
  rw [hsame]
  exact ⟨hkeeps, h, rfl⟩

end Scriptling
