import Scriptling.Proofs.LockstepCalls
import Scriptling.Proofs.Watch

namespace Scriptling

open Machine

variable {S : Setting} {w : World} {f g : FrameId} {Γ : Context} {marks : List Bool}
  {pick : Opener → Bool} {s s' : Store} {m : Machine} {b : Below} {b' : World → Below}

theorem Table.put_put {α : Type} (t : Table α) (name : String) (u v : α) :
    (t.put name u).put name v = t.put name v := by
  induction t with
  | nil => simp [put]
  | cons entry rest ih =>
    obtain ⟨key, old⟩ := entry
    by_cases hk : key = name
    · simp [put, hk]
    · simp [put, hk, ih]

theorem Store.define_define (s : Store) (f : FrameId) (name : String) (u v : Value) :
    (s.define f name u).define f name v = s.define f name v := by
  have hframes : ((s.define f name u).define f name v).frames = (s.define f name v).frames := by
    refine Array.ext_getElem? fun i => ?_
    simp only [Store.define, Array.getElem?_modify]
    split
    · cases s.frames[i]? <;> simp [Table.put_put]
    · rfl
  simpa [Store.define] using hframes

/-- A function is made and gets its name. Its scopes have the name as well, so it is as if the name
had been there before. -/
theorem Setting.Twins.declareFunction (h : S.Twins w s s') {c : Closure} {t : Typing}
    {name : Token} (hn : name.Plain) (hf : f < s.frames.size)
    (ht : S.Typed (w.bind f name.lexeme) t c) (hb : t.bound = true)
    (hstill : ¬ S.Moves → t.pick = pickNone ∧ Unmarked t.marks) :
    S.Twins (((w.bind f name.lexeme).newClosure s.closures.size t).bind f name.lexeme)
      ((s.newClosure c).2.define f name.lexeme (.closure s.closures.size))
      ((s'.newClosure { c with decl := c.decl.rename S.toRenaming t.pick t.marks }).2.define f
        (S.image (w.exchanged f) name.lexeme) (.closure s.closures.size)) := by
  have h₁ := h.define hf hn.2 (v := .nil) trivial
  have h₂ := h₁.newClosure ht hstill
  have hknown : (Value.closure s.closures.size).Known
      ((w.bind f name.lexeme).newClosure s.closures.size t) :=
    ⟨t, World.typing_newClosure _ _ _, hb⟩
  have h₃ : S.Twins (((w.bind f name.lexeme).newClosure s.closures.size t).bind f name.lexeme)
      (((s.define f name.lexeme .nil).newClosure c).2.define f name.lexeme
        (.closure s.closures.size))
      (((s'.define f (S.image (w.exchanged f) name.lexeme) .nil).newClosure
        { c with decl := c.decl.rename S.toRenaming t.pick t.marks }).2.define f
          (S.image (w.exchanged f) name.lexeme) (.closure s.closures.size)) :=
    h₂.define (by simpa [Store.newClosure] using hf) hn.2 hknown
  have hcommute : ∀ (s : Store) (c : Closure) (key : String) (v : Value),
      ((s.define f key .nil).newClosure c).2.define f key v = (s.newClosure c).2.define f key v :=
    fun s c key v => Store.define_define (s.newClosure c).2 f key .nil v
  rwa [hcommute, hcommute] at h₃

theorem sim_newClosure {c : Closure} {t : Typing} (ht : S.Typed w t c)
    (hstill : ¬ S.Moves → t.pick = pickNone ∧ Unmarked t.marks) :
    S.Sim w f (newClosure c)
      (fun _ => newClosure { c with decl := c.decl.rename S.toRenaming t.pick t.marks })
      fun w id => w.typing id = some t := by
  intro w₁ m s' hw hm
  have htwins := hm.twins.newClosure (ht.mono hw) hstill
  have hw₁ := World.le_newClosure hm.twins.unborn_typing t
  refine Setting.SimAt.congr
    (.ok hw₁ (hm.withStore htwins) (World.typing_newClosure w₁ m.store.closures.size t)) fun L _ => ?_
  change EStateM.Result.ok s'.closures.size _ = _
  rw [hm.twins.closures.size]
  rfl

theorem sim_newClass {r : ClassRecord} (hsuper : ∀ p, r.superclass = some p → p < w.classes)
    (hmethods : w.Methods r.methods) (hstatics : w.Methods r.statics) (hfields : r.fields = []) :
    S.Sim w f (newClass r) (fun _ => newClass r) fun w c => c < w.classes := by
  intro w₁ m s' hw hm
  have hcount := hm.twins.classes.count
  have hrecorded : w₁.Recorded m.store.classes.size r := by
    refine ⟨fun p hp => ?_, hmethods.mono hw, hstatics.mono hw, fun name v hv => ?_⟩
    · have hlt := Nat.lt_of_lt_of_le (hsuper p hp) hw.classes
      rwa [hcount] at hlt
    · rw [hfields] at hv
      cases hv
  refine Setting.SimAt.congr (.ok w₁.le_newClass (hm.withStore (hm.twins.newClass hrecorded)) ?_)
    fun L _ => ?_
  · rw [← hcount]
    exact Nat.lt_succ_self _
  · have hsize : s'.classes.size = m.store.classes.size := by rw [hm.twins.classes.classes]
    change EStateM.Result.ok s'.classes.size _ = _
    rw [hsize]
    rfl

/-- Methods are made in the frame of the scopes around the receiver's. -/
theorem sim_methodTable (initializer : Token → Bool) {ds : List FunctionDecl}
    {table : Table ClosureId} {declaration : Stmt} (htable : w.Methods table)
    (howns : ∀ d ∈ ds, declaration.Owns d)
    (hgood : ∀ σ ∈ FunctionDecl.sitesAll (⟨.this declaration, [("this", true)]⟩ :: Γ) ds, S.Good σ)
    (hproper : FunctionDecl.ProperAll ds)
    (hformed : Context.Formed (⟨.this declaration, [("this", true)]⟩ :: Γ))
    (hkeeps : FunctionDecl.KeepsAll S.toRenaming pick (false :: marks) ds)
    (hstill : ¬ S.Moves → pick = pickNone ∧ Unmarked (false :: marks))
    (hc : w.Chain g Γ marks) :
    S.Sim w f (Below.methodTable g initializer table ds)
      (fun _ => Below.methodTable g initializer table
        (FunctionDecl.renameAll S.toRenaming pick (false :: marks) ds))
      fun w table => w.Methods table := by
  induction ds generalizing w table with
  | nil => exact .pure fun _ hw => htable.mono hw
  | cons d ds ih =>
    let t : Typing :=
      ⟨d, ⟨.this declaration, [("this", true)]⟩ :: Γ, false :: marks, pick, false⟩
    have htyped : S.Typed w t ⟨d, g, initializer d.name⟩ :=
      ⟨rfl, fun σ hσ => hgood σ (List.mem_append_left _ hσ), hproper.1, hformed, hkeeps.1,
        fun h => (by cases h),
        fun _ => ⟨declaration, Γ, marks, howns d (by simp), rfl, rfl, hc⟩⟩
    rw [FunctionDecl.renameAll]
    simp only [Below.methodTable, FunctionDecl.name_rename]
    refine (sim_newClosure htyped hstill).bind fun w₁ id hw hid => ?_
    exact ih (Table.forall_put (htable.mono hw) ⟨t, hid, rfl⟩) (fun d hd => howns d (by simp [hd]))
      (fun σ hσ => hgood σ (List.mem_append_right _ hσ)) hproper.2 hkeeps.2 (hc.mono hw)

theorem Setting.Engine.sim_evaluateSuperclass (h : S.Engine b b') (superclass : Option Superclass)
    (hs : S.Sees Γ (Superclass.uses? superclass)) (hc : w.Chain f Γ marks) :
    S.Sim w f (b.evaluateSuperclass superclass)
      (fun L => (b' L).evaluateSuperclass (superclass.map (Superclass.turn (S.use marks))))
      fun w parent => ∀ c, parent = some c → c < w.classes := by
  cases superclass with
  | none =>
    refine .pure fun _ _ c hc => ?_
    cases hc
  | some parent =>
    have hexpr := h.evaluate (e := parent.expr) hs hc
    simp only [← Superclass.expr_turn] at hexpr
    refine hexpr.bind fun w₁ v hw hv => ?_
    cases v with
    | classRef c =>
      refine .pure fun w₂ hw₂ k hk => ?_
      cases hk
      exact Nat.lt_of_lt_of_le hv hw₂.classes
    | _ => exact .fail _ _

namespace Below

/-- The part of a class declaration that follows when the methods' frame is there. -/
def fillClass (f : FrameId) (name : Token) (parent : Option ClassId)
    (methods statics : List FunctionDecl) (scope : FrameId) : Eval Unit := do
  let ms ← methodTable scope (·.lexeme == "init") [] methods
  let ss ← methodTable scope (fun _ => false) [] statics
  let c ← newClass ⟨name.lexeme, parent, ms, ss, []⟩
  define f name.lexeme (.classRef c)

/-- The part of a class declaration that follows when the superclass is known. -/
def declareClass (name : Token) (parent : Option ClassId) (methods statics : List FunctionDecl) :
    Eval Unit := do
  let f ← currentFrame
  define f name.lexeme .nil
  match parent with
  | none => fillClass f name none methods statics f
  | some c => openFrame f [("super", .classRef c)] >>= fillClass f name (some c) methods statics

/-- The superclass is evaluated first, and then the class is declared. -/
theorem executeClass_eq (below : Below) (name : Token) (superclass : Option Superclass)
    (methods statics : List FunctionDecl) :
    below.executeClass name superclass methods statics =
      below.evaluateSuperclass superclass >>= fun parent =>
        declareClass name parent methods statics := by
  unfold executeClass
  congr 1
  funext parent
  cases parent <;> rfl

end Below

/-- A class of an accepted program and the scopes inside it. -/
structure Setting.FitsClass (S : Setting) (Γ : Context) (pick : Opener → Bool) (marks : List Bool)
    (declaration : Stmt) (derived : Bool) (methods statics : List FunctionDecl) : Prop where
  owns : (∀ d ∈ methods, declaration.Owns d) ∧ ∀ d ∈ statics, declaration.Owns d
  good : ∀ σ ∈ FunctionDecl.sitesAll (Γ.inClass declaration derived) methods ++
    FunctionDecl.sitesAll (Γ.inClass declaration derived) statics, S.Good σ
  proper : FunctionDecl.ProperAll methods ∧ FunctionDecl.ProperAll statics
  formed : (Γ.inClass declaration derived).Formed
  keeps : FunctionDecl.KeepsAll S.toRenaming pick (Renaming.inClass derived marks) methods ∧
    FunctionDecl.KeepsAll S.toRenaming pick (Renaming.inClass derived marks) statics
  still : ¬ S.Moves → pick = pickNone ∧ Unmarked (Renaming.inClass derived marks)

theorem sim_fillClass {declaration : Stmt} {derived : Bool} {methods statics : List FunctionDecl}
    (hfits : S.FitsClass Γ pick marks declaration derived methods statics) {name : Token}
    (hn : name.Plain) (hkeeps : S.declared marks name = name) {parent : Option ClassId}
    (hparent : ∀ p, parent = some p → p < w.classes) (hc : w.Chain f Γ marks)
    (hscope : w.Chain g (Γ.inClass declaration derived).tail (Renaming.inClass derived marks).tail) :
    S.Sim w f (Below.fillClass f name parent methods statics g)
      (fun _ => Below.fillClass f name parent
        (FunctionDecl.renameAll S.toRenaming pick (Renaming.inClass derived marks) methods)
        (FunctionDecl.renameAll S.toRenaming pick (Renaming.inClass derived marks) statics) g)
      anyResult := by
  have hgood := List.forall_mem_append.1 hfits.good
  refine (sim_methodTable _ (fun _ _ h => by cases h) hfits.owns.1 hgood.1 hfits.proper.1
    hfits.formed hfits.keeps.1 hfits.still hscope).bind fun w₁ ms hw₁ hms => ?_
  refine (sim_methodTable _ (fun _ _ h => by cases h) hfits.owns.2 hgood.2 hfits.proper.2
    hfits.formed hfits.keeps.2 hfits.still (hscope.mono hw₁)).bind fun w₂ ss hw₂ hss => ?_
  have hw := World.le_trans hw₁ hw₂
  refine (sim_newClass (fun p hp => ?_) (hms.mono hw₂) hss rfl).bind fun w₃ c hw₃ hclass => ?_
  · exact Nat.lt_of_lt_of_le (hparent p hp) hw.classes
  · have hdefine := sim_define (S := S) (f := f) (hc.mono (World.le_trans hw hw₃)) hn
      (v := .classRef c) hclass
    rw [hkeeps] at hdefine
    exact hdefine.weaken fun _ _ _ _ => trivial

/-- A class with a superclass has a frame for it, in which the superclass is the one that is
given. -/
theorem sim_declareClass {declaration : Stmt} {name : Token} {methods statics : List FunctionDecl}
    {parent : Option ClassId} (hfits : S.FitsClass (Γ.enter name.lexeme) pick marks declaration
      parent.isSome methods statics)
    (hn : name.Plain) (hkeeps : S.declared marks name = name)
    (hparent : ∀ p, parent = some p → p < w.classes) (hc : w.Chain f Γ marks)
    (hm : S.Beside w f m s') :
    S.SimAt w f
      (fun L => ∀ c, parent = some c → L.layout m.store.frames.size = some (.super declaration) ∧
        L.heritage m.store.frames.size = some c)
      ((Below.declareClass name parent methods statics).run m)
      (fun _ => (Below.declareClass name parent
        (FunctionDecl.renameAll S.toRenaming pick (Renaming.inClass parent.isSome marks) methods)
        (FunctionDecl.renameAll S.toRenaming pick (Renaming.inClass parent.isSome marks)
          statics)).run { m with store := s' })
      fun w _ => w.Chain f (Γ.enter name.lexeme) marks := by
  obtain rfl := hm.current
  refine (sim_currentFrame.on hm).bind (fun w₁ cf m₁ t' hw₁ hr₁ hm₁ hcf => ?_)
    fun _ _ h => by cases h
  cases hr₁
  have hdefine := sim_define (S := S) (f := m.current) (hc.mono hw₁) hn (v := .nil) trivial
  rw [hkeeps] at hdefine
  refine (hdefine.on hm₁).bind (fun w₂ _ m₂ t₂ hw₂ hr₂ hm₂ hbound => ?_) fun _ _ h => by cases h
  cases hr₂
  have hw := World.le_trans hw₁ hw₂
  have hchain := (hc.mono hw).enter hbound
  have hparent₂ : ∀ p, parent = some p → p < w₂.classes :=
    fun p hp => Nat.lt_of_lt_of_le (hparent p hp) hw.classes
  cases parent with
  | none =>
    refine (((sim_fillClass hfits hn hkeeps hparent₂ hchain hchain).on hm₂).weaken
      fun w₃ _ hw₃ _ => hchain.mono hw₃).pin fun _ _ _ c h => by cases h
  | some c =>
    let l : Label := ⟨.super declaration, m.current, some c, false⟩
    let F := (m.store.define m.current name.lexeme .nil).frames.size
    let w₃ := (w₂.openFrame F l).bind F "super"
    have hw₃ : w₂ ≤ w₃ :=
      World.le_trans (World.le_openFrame hm₂.twins.unborn_label l) (World.le_bind _ _ _)
    have hl : w₃.label F = some l := World.label_openFrame _ _ _
    have hknown : (Value.classRef c).Known w₂ := hparent₂ c rfl
    have htwins := hm₂.twins.openKeyword l hknown (fun mark => S.image_super mark) rfl
      (fun k hk => by cases hk; exact ⟨rfl, rfl⟩) (fun _ _ => rfl)
    have hscope : w₃.Chain F ((Γ.enter name.lexeme).inClass declaration true).tail
        (Renaming.inClass true marks).tail := by
      refine .inside (l := l) hl rfl (fun key hk => ?_) (hchain.mono hw₃)
      simp only [Table.get?] at hk
      split at hk
      · subst key
        exact World.bound_bind _ _ _
      · cases hk
    have hfill := (sim_fillClass hfits hn hkeeps
      (fun p hp => Nat.lt_of_lt_of_le (hparent₂ p hp) hw₃.classes) (hchain.mono hw₃) hscope).on
      (hm₂.withStore htwins)
    have hsize : F = m.store.frames.size := Store.size_define _ _ _ _
    refine ((hfill.weaken fun w₄ _ hw₄ _ => hchain.mono (World.le_trans hw₃ hw₄)).congr
      fun L _ => ?_).pin (fun L hL _ k hk => ?_) |>.from_later hw₃
    · have hsize' : t₂.frames.size = F := hm₂.twins.frames.size_eq
      rw [← hsize']
      rfl
    · cases hk
      have hlabel := hL.label _ l hl
      rw [hsize] at hlabel
      exact ⟨World.layout_of_label hlabel, by simp [World.heritage, hlabel, l]⟩

/-- An accepted class has methods that fit the scopes inside it. -/
theorem Setting.Fits.inClass {name : Token} {superclass : Option Superclass}
    {methods statics : List FunctionDecl}
    (h : S.Fits Γ pick marks (.class name superclass methods statics)) :
    S.FitsClass (Γ.enter name.lexeme) pick marks (.class name superclass methods statics)
      superclass.isSome methods statics := by
  refine ⟨⟨fun _ hd => .inl hd, fun _ hd => .inr hd⟩,
    fun σ hσ => h.good σ (List.mem_append_right _ hσ), h.proper.2,
    .inClass (h.floor.enter h.proper.1).formed, h.keeps.2, fun hmoves => ?_⟩
  obtain ⟨hpick, hmarks⟩ := h.still hmoves
  exact ⟨hpick, hmarks.inClass _⟩

theorem sim_function {decl : FunctionDecl} (hfits : S.Fits Γ pick marks (.function decl))
    (hc : w.Chain f Γ marks) :
    S.Sim w f (b.executeStep (.function decl))
      (fun L => (b' L).executeStep ((Stmt.function decl).rename S.toRenaming pick marks))
      fun w flow => flow.Settles w f (Γ.enter decl.name.lexeme) marks := by
  intro w₁ m s' hw hm
  obtain rfl := hm.current
  have hc₁ := hc.mono hw
  let t : Typing := ⟨decl, Γ.enter decl.name.lexeme, marks, pick, true⟩
  have hbound := (hc₁.mono (w₁.le_bind m.current decl.name.lexeme)).enter
    (w₁.bound_bind m.current decl.name.lexeme)
  have htyped : S.Typed (w₁.bind m.current decl.name.lexeme) t ⟨decl, m.current, false⟩ :=
    ⟨rfl, hfits.good, hfits.proper.2, (hfits.floor.enter hfits.proper.1).formed, hfits.keeps.2,
      fun _ => hbound, fun h => by cases h⟩
  have htwins := hm.twins.declareFunction hfits.proper.1 (hm.twins.frames.chain_lt hc₁) htyped rfl
    hfits.still
  have hunborn : (w₁.bind m.current decl.name.lexeme).typing m.store.closures.size = none :=
    hm.twins.unborn_typing
  have hw₂ := World.le_trans (w₁.le_bind m.current decl.name.lexeme)
    (World.le_trans (World.le_newClosure hunborn t) (World.le_bind _ m.current decl.name.lexeme))
  have hname : S.image (w₁.exchanged m.current) decl.name.lexeme = decl.name.lexeme := by
    rw [hc₁.exchanged_eq hm.twins.frames.globals]
    exact congrArg Token.lexeme hfits.keeps.1
  rw [hname] at htwins
  refine Setting.SimAt.congr (.ok hw₂ (hm.withStore htwins) ((hc₁.mono hw₂).enter
    (World.bound_bind _ _ _))) fun L _ => ?_
  change EStateM.Result.ok Flow.normal { m with
    store := ((s'.newClosure ⟨decl.rename S.toRenaming pick marks, m.current, false⟩).2.define
      m.current (decl.rename S.toRenaming pick marks).name.lexeme
      (.closure s'.closures.size)) } = _
  rw [FunctionDecl.name_rename, hm.twins.closures.size]

/-- What a clause yields as a class is the superclass. -/
theorem Below.run_evaluateSuperclass (below : Below) {parent : Superclass} {c : ClassId}
    {m₁ : Machine} (h : (below.evaluate parent.expr).run m = .ok (.classRef c) m₁) :
    (below.evaluateSuperclass (some parent)).run m = .ok (some c) m₁ :=
  Eval.run_bind_ok h

namespace Setting.Engine

variable (h : S.Engine b b')
include h

theorem sim_class {name : Token} {superclass : Option Superclass}
    {methods statics : List FunctionDecl}
    (hfits : S.Fits Γ pick marks (.class name superclass methods statics))
    (hc : w.Chain f Γ marks) (hm : S.Beside w f m s') :
    S.SimAt w f
      (fun L => (Stmt.class name superclass methods statics).Opens L.layout L.heritage b m)
      ((b.executeStep (.class name superclass methods statics)).run m)
      (fun L => ((b' L).executeStep ((Stmt.class name superclass methods statics).rename
        S.toRenaming pick marks)).run { m with store := s' })
      fun w flow => flow.Settles w f (Γ.enter name.lexeme) marks := by
  have hsees : S.Sees (Γ.mark name.lexeme false) (Superclass.uses? superclass) := fun u hu =>
    hfits.good _ (List.mem_append_left _ (List.mem_map.2 ⟨u, hu, rfl⟩))
  have hsuper := (h.sim_evaluateSuperclass superclass hsees (hc.mark_false name.lexeme)).on hm
  -- what a clause yields decides whether there is a superclass
  have hkind : ∀ parent m₁, (b.evaluateSuperclass superclass).run m = .ok parent m₁ →
      parent.isSome = superclass.isSome := by
    intro parent m₁ hr
    cases superclass with
    | none =>
      cases hr
      rfl
    | some p =>
      cases hv : (b.evaluate p.expr).run m with
      | error e m₂ =>
        have hr' := hr
        rw [Below.evaluateSuperclass, Eval.run_bind_error hv] at hr'
        cases hr'
      | ok v m₂ =>
        have hr' := hr
        rw [Below.evaluateSuperclass, Eval.run_bind_ok hv] at hr'
        cases v with
        | classRef c =>
          cases hr'
          rfl
        | _ => cases hr'
  have hdeclare : S.SimAt w f
      (fun L => (Stmt.class name superclass methods statics).Opens L.layout L.heritage b m)
      ((b.executeClass name superclass methods statics).run m)
      (fun L => ((b' L).executeClass name (superclass.map (Superclass.turn (S.use marks)))
        (FunctionDecl.renameAll S.toRenaming pick (Renaming.inClass superclass.isSome marks) methods)
        (FunctionDecl.renameAll S.toRenaming pick (Renaming.inClass superclass.isSome marks)
          statics)).run { m with store := s' })
      fun w _ => w.Chain f (Γ.enter name.lexeme) marks := by
    simp only [Below.executeClass_eq]
    refine hsuper.bind (fun w₁ parent m₁ t' hw hr hm₁ hparent => ?_) fun e m₁ he L => ?_
    · have hk := hkind parent m₁ hr
      have hin := hfits.inClass
      rw [← hk] at hin ⊢
      refine (sim_declareClass hin hfits.proper.1 hfits.keeps.1 hparent (hc.mono hw) hm₁).pin
        fun L _ hL => ?_
      cases superclass with
      | none => trivial
      | some p =>
        intro c m₂ hv
        rw [Below.run_evaluateSuperclass b hv] at hr
        cases hr
        exact hL c rfl
    · cases superclass with
      | none => trivial
      | some p =>
        intro c m₂ hv
        rw [Below.run_evaluateSuperclass b hv] at he
        cases he
  exact hdeclare.map fun _ _ _ hchain => hchain

theorem sim_block {body : List Stmt} (hfits : S.Fits Γ pick marks (.block body))
    (hc : w.Chain f Γ marks) (hm : S.Beside w f m s') :
    S.SimAt w f (fun L => (Stmt.block body).Opens L.layout L.heritage b m)
      ((b.executeStep (.block body)).run m)
      (fun L => ((b' L).executeStep ((Stmt.block body).rename S.toRenaming pick marks)).run
        { m with store := s' })
      fun w flow => flow.Settles w f Γ marks := by
  obtain rfl := hm.current
  let l : Label := ⟨.block body, m.current, none, pick (.block body)⟩
  let w₁ := w.openFrame m.store.frames.size l
  have hw₁ : w ≤ w₁ := World.le_openFrame hm.twins.unborn_label l
  have hl : w₁.label m.store.frames.size = some l := World.label_openFrame _ _ _
  have hchain := World.Chain.fresh hl (hc.mono hw₁)
  have hbody : S.FitsAll (⟨.block body, []⟩ :: Γ) pick (pick (.block body) :: marks) body :=
    ⟨hfits.good, hfits.proper, hfits.keeps, .inside hfits.floor.formed rfl,
      still_cons hfits.still _⟩
  have hrun := (h.sim_executeAll hbody hchain).inFrame.on
    (hm.openScope l rfl rfl (moves_of_picked hfits.still))
  refine (((hrun.weaken fun w₂ flow hw₂ hflow => ?_).congr fun L _ => ?_).pin fun L hL _ => ?_
    ).from_later hw₁
  · cases flow with
    | normal => exact hc.mono (World.le_trans hw₁ hw₂)
    | «return» v => exact hflow v rfl
    | _ => trivial
  · rw [← hm.twins.frames.size_eq]
    rfl
  · exact World.layout_of_label (hL.label _ l hl)

/-- Rounds of a loop. The scopes are the same before every round. -/
theorem sim_loop {condition : Expr} (increment : Option Expr) {body : Stmt}
    (hcondition : S.Sees Γ condition.uses) (hincrement : S.Sees Γ (Expr.uses? increment))
    (hbody : S.Fits Γ pick marks body) (rounds : Nat)
    (hc : w.Chain f Γ marks) :
    S.Sim w f (b.loop condition increment body rounds)
      (fun L => (b' L).loop (condition.turn (S.use marks))
        (increment.map (Expr.turn (S.use marks))) (body.rename S.toRenaming pick marks) rounds)
      fun w flow => flow.Settles w f Γ marks := by
  induction rounds generalizing w with
  | zero => exact .throw _
  | succ rounds ih =>
    refine (h.evaluate hcondition hc).bind fun w₁ v hw₁ _ => ?_
    have hc₁ := hc.mono hw₁
    split
    · refine (h.execute hbody hc₁).bind fun w₂ flow hw₂ hflow => ?_
      have hc₂ := hc₁.mono hw₂
      have hnext : S.Sim w₂ f
          (do discard (b.evaluate? increment); b.loop condition increment body rounds)
          (fun L => do
            discard ((b' L).evaluate? (increment.map (Expr.turn (S.use marks))))
            (b' L).loop (condition.turn (S.use marks)) (increment.map (Expr.turn (S.use marks)))
              (body.rename S.toRenaming pick marks) rounds)
          fun w flow => flow.Settles w f Γ marks :=
        (h.sim_evaluate? increment hincrement hc₂).discard.bind fun w₃ _ hw₃ _ => ih (hc₂.mono hw₃)
      cases flow with
      | normal => exact hnext
      | next keyword => exact hnext
      | «break» keyword => exact .pure fun w₃ hw₃ => hc₂.mono hw₃
      | «return» u => exact .pure fun w₃ hw₃ => hflow.mono hw₃
    · exact .pure fun w₂ hw₂ => hc₁.mono hw₂

theorem sim_evaluateStep {e : Expr} (hs : S.Sees Γ e.uses) (hc : w.Chain f Γ marks)
    (hm : S.Beside w f m s') :
    S.SimAt w f (fun L => e.Opens L.layout b m) ((b.evaluateStep e).run m)
      (fun L => ((b' L).evaluateStep (e.turn (S.use marks))).run { m with store := s' })
      knownResult := by
  cases e with
  | literal value =>
    exact (Setting.SimAt.ok w.le_refl hm (Value.known_ofLiteral w value)).pin fun _ _ _ => trivial
  | group inner => exact ((h.evaluate (e := inner) hs hc).on hm).pin fun _ _ _ => trivial
  | unary operator operand =>
    have hsim := (h.evaluate (e := operand) hs hc).bind fun _ v _ _ =>
      sim_applyUnary operator v
    exact (hsim.on hm).pin fun _ _ _ => trivial
  | binary left operator right =>
    have hsim := (h.evaluate hs.left hc).bind fun _ l hw _ =>
      (h.evaluate hs.right (hc.mono hw)).bind fun _ r _ _ => sim_applyBinary operator l r
    exact (hsim.on hm).pin fun _ _ _ => trivial
  | logical left operator right =>
    exact ((h.sim_evaluateLogical operator hs hc).on hm).pin fun _ _ _ => trivial
  | ternary condition whenTrue whenFalse =>
    exact ((h.sim_evaluateTernary hs hc).on hm).pin fun _ _ _ => trivial
  | comma items =>
    simp only [Expr.turn, Expr.turnAll_eq_map]
    exact ((h.sim_evaluateLast .nil items trivial hs hc).on hm).pin fun _ _ _ => trivial
  | var id name => exact ((sim_lookUp hs.good hc).on hm).pin fun _ _ _ => trivial
  | assign id name value => exact ((h.sim_assignment hs hc).on hm).pin fun _ _ _ => trivial
  | compoundAssign id name operator value =>
    exact ((h.sim_evaluateCompoundAssign operator hs hc).on hm).pin fun _ _ _ => trivial
  | update operator target before =>
    exact h.sim_evaluateUpdate operator target before hs hc hm
  | call callee paren arguments =>
    simp only [Expr.turn, Expr.turnAll_eq_map]
    refine ((h.evaluate hs.left hc).on hm).bind (fun w₁ v m₁ t₁ hw₁ hr₁ hm₁ hv => ?_) ?_
    · refine ((h.sim_evaluateAll arguments hs.right (hc.mono hw₁)).on hm₁).bind
        (fun w₂ vs m₂ t₂ hw₂ hr₂ hm₂ hvs => ?_) ?_
      · refine (h.sim_call (hv.mono hw₂) hvs paren hm₂).pin fun L _ hL => ?_
        intro u us m₃ m₄ hcallee hargs
        rw [hr₁] at hcallee
        cases hcallee
        rw [hr₂] at hargs
        cases hargs
        exact hL
      · intro e m₂ he L u us m₃ m₄ hcallee hargs
        rw [hr₁] at hcallee
        cases hcallee
        rw [he] at hargs
        cases hargs
    · intro e m₁ he L u us m₃ m₄ hcallee
      rw [he] at hcallee
      cases hcallee
  | get object name =>
    refine ((h.evaluate (e := object) hs hc).on hm).bind (fun w₁ o m₁ t₁ hw₁ hr₁ hm₁ ho => ?_) ?_
    · refine (sim_readProperty ho name hm₁).pin fun L _ hL => ?_
      intro o' m₂ id hobject hproperty
      rw [hr₁] at hobject
      cases hobject
      exact hL id hproperty
    · intro e m₁ he L o m₂ id hobject
      rw [he] at hobject
      cases hobject
  | set object name value =>
    exact ((h.sim_evaluateSet name hs hc).on hm).pin fun _ _ _ => trivial
  | compoundSet object name operator value =>
    exact h.sim_evaluateCompoundSet name operator hs hc hm
  | this id keyword => exact ((sim_lookUp hs.good hc).on hm).pin fun _ _ _ => trivial
  | super id keyword method => exact sim_evaluateSuper id keyword _ method rfl hm

theorem sim_executeStep {s : Stmt} (hfits : S.Fits Γ pick marks s) (hc : w.Chain f Γ marks)
    (hm : S.Beside w f m s') :
    S.SimAt w f (fun L => s.Opens L.layout L.heritage b m) ((b.executeStep s).run m)
      (fun L => ((b' L).executeStep (s.rename S.toRenaming pick marks)).run { m with store := s' })
      fun w flow => flow.Settles w f (s.after Γ) marks := by
  have hsees : ∀ {us : List Use} {Γ' : Context}, (∀ σ ∈ sitesOf Γ' us, S.Good σ) → S.Sees Γ' us :=
    fun h u hu => h _ (List.mem_map.2 ⟨u, hu, rfl⟩)
  have hsub : ∀ {t : Stmt}, (∀ σ ∈ t.sites Γ, S.Good σ) → t.Proper →
      t.Keeps S.toRenaming pick marks → S.Fits Γ pick marks t :=
    fun hg hp hk => ⟨hg, hp, hk, hfits.floor, hfits.still⟩
  have hgood := hfits.good
  cases s with
  | expr e =>
    have hsim : S.Sim w f (do discard (b.evaluate e); pure Flow.normal) (fun L => do
        discard ((b' L).evaluate (e.turn (S.use marks)))
        pure Flow.normal) fun w flow => flow.Settles w f Γ marks :=
      (h.evaluate (hsees hgood) hc).discard.bind fun _ _ hw _ =>
        .pure fun _ hw₁ => hc.mono (World.le_trans hw hw₁)
    exact (hsim.on hm).pin fun _ _ _ => trivial
  | var name initial =>
    refine ((Setting.Sim.bind (h.sim_evaluate? initial (hsees hgood) (hc.mark_false name.lexeme))
      fun w₁ v hw₁ hv => ?_).on hm).pin fun _ _ _ => trivial
    refine sim_currentFrame.bind fun w₂ cf hw₂ hcf => ?_
    subst hcf
    have hw := World.le_trans hw₁ hw₂
    refine (sim_define (hc.mono hw) hfits.proper (hv.mono hw₂)).bind fun w₃ _ hw₃ hbound => ?_
    exact .pure fun w₄ hw₄ => ((hc.mono (World.le_trans hw hw₃)).enter hbound).mono hw₄
  | block body => exact h.sim_block hfits hc hm
  | ifThen condition whenTrue =>
    obtain ⟨hcondition, htrue⟩ := List.forall_mem_append.1 hgood
    refine (((h.evaluate (hsees hcondition) hc).bind fun w₁ v hw₁ _ => ?_).on hm).pin
      fun _ _ _ => trivial
    split
    · refine (h.execute (hsub htrue hfits.proper.1 hfits.keeps) (hc.mono hw₁)).weaken
        fun w₂ flow _ hflow => ?_
      rwa [Stmt.after_of_not_declares hfits.proper.2] at hflow
    · exact .pure fun w₂ hw₂ => hc.mono (World.le_trans hw₁ hw₂)
  | ifElse condition whenTrue whenFalse =>
    obtain ⟨hcondition, hbranches⟩ := List.forall_mem_append.1 hgood
    obtain ⟨htrue, hfalse⟩ := List.forall_mem_append.1 hbranches
    refine (((h.evaluate (hsees hcondition) hc).bind fun w₁ v hw₁ _ => ?_).on hm).pin
      fun _ _ _ => trivial
    split
    · refine (h.execute (hsub htrue hfits.proper.1.1 hfits.keeps.1) (hc.mono hw₁)).weaken
        fun w₂ flow _ hflow => ?_
      rwa [Stmt.after_of_not_declares hfits.proper.1.2] at hflow
    · refine (h.execute (hsub hfalse hfits.proper.2.1 hfits.keeps.2) (hc.mono hw₁)).weaken
        fun w₂ flow _ hflow => ?_
      rwa [Stmt.after_of_not_declares hfits.proper.2.2] at hflow
  | «while» condition body =>
    obtain ⟨hcondition, hbody⟩ := List.forall_mem_append.1 hgood
    have hloop := h.sim_loop none (hsees hcondition) (fun _ hu => by cases hu)
      (hsub hbody hfits.proper.1 hfits.keeps) b.rounds hc
    refine ((hloop.congr fun L => ?_).on hm).pin fun _ _ _ => trivial
    rw [Stmt.rename, Below.executeStep, h.rounds]
    rfl
  | «for» condition increment body =>
    obtain ⟨hcondition, hrest⟩ := List.forall_mem_append.1 hgood
    obtain ⟨hbody, hincrement⟩ := List.forall_mem_append.1 hrest
    have hloop := h.sim_loop increment (hsees hcondition) (hsees hincrement)
      (hsub hbody hfits.proper.1 hfits.keeps) b.rounds hc
    refine ((hloop.congr fun L => ?_).on hm).pin fun _ _ _ => trivial
    rw [Stmt.rename, Below.executeStep, h.rounds]
  | function decl => exact ((sim_function hfits hc).on hm).pin fun _ _ _ => trivial
  | «return» keyword value =>
    refine (((h.sim_evaluate? value (hsees hgood) hc).bind fun w₁ v _ hv => ?_).on hm).pin
      fun _ _ _ => trivial
    exact .pure fun w₂ hw₂ => hv.mono hw₂
  | «break» keyword => exact (Setting.SimAt.ok w.le_refl hm trivial).pin fun _ _ _ => trivial
  | next keyword => exact (Setting.SimAt.ok w.le_refl hm trivial).pin fun _ _ _ => trivial
  | «class» name superclass methods statics => exact h.sim_class hfits hc hm

end Setting.Engine

end Scriptling
