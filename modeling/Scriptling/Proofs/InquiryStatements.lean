import Scriptling.Proofs.InquiryForms

namespace Scriptling

open Machine

/-- The functions of a class, the methods first and then the static ones, come after all those that
were there before. -/
structure Store.Declares (s s' : Store) (origin : ClosureId → Option Origin)
    (methods statics : List FunctionDecl) : Prop where
  made : ∀ (i : Nat) d, methods[i]? = some d →
    (∃ c, s'.closures[s.closures.size + i]? = some c ∧ c.decl = d) ∧
      origin (s.closures.size + i) = some (.method s.classes.size false)
  madeStatic : ∀ (i : Nat) d, statics[i]? = some d →
    (∃ c, s'.closures[s.closures.size + methods.length + i]? = some c ∧ c.decl = d) ∧
      origin (s.closures.size + methods.length + i) = some (.method s.classes.size true)

def Stmt.Makes (origin : ClosureId → Option Origin) (below : Below) (m : Machine) : Stmt → Prop
  | .function _ => origin m.store.closures.size = some .function
  | .class name superclass methods statics => ∀ parent m₁ flow m₂,
    (below.evaluateSuperclass superclass).run m = .ok parent m₁ →
    (below.executeStep (.class name superclass methods statics)).run m = .ok flow m₂ →
    m₁.store.Declares m₂.store origin methods statics
  | _ => True

/-- What is declared when a statement is run. A new class has the superclass that was found for it, and
no fields. -/
def Stmt.Enters (declared : ClassId → Bool → List FunctionDecl) (below : Below) (m : Machine) :
    Stmt → Prop
  | .class name superclass methods statics => ∀ parent m₁ flow m₂,
    (below.evaluateSuperclass superclass).run m = .ok parent m₁ →
    (below.executeStep (.class name superclass methods statics)).run m = .ok flow m₂ →
    declared m₁.store.classes.size false = methods ∧
      declared m₁.store.classes.size true = statics ∧
      ∃ record, m₂.store.classes[m₁.store.classes.size]? = some record ∧
        record.superclass = parent ∧ record.fields = []
  | _ => True

/-- Methods are made one after the other. For each name the table has the last one, or what it had
before. -/
theorem Machine.run_methodTable (scope : FrameId) (initializer : Token → Bool)
    (ds : List FunctionDecl) (table : Table ClosureId) (m : Machine) :
    ∃ table', (Below.methodTable scope initializer table ds).run m = .ok table' { m with store :=
        { m.store with closures := m.store.closures ++
          (ds.map fun d => (⟨d, scope, initializer d.name⟩ : Closure)).toArray } } ∧
      ∀ name, (∃ i d, ds[i]? = some d ∧ table'.get? name = some (m.store.closures.size + i) ∧
          FunctionDecl.last? ds name = some d) ∨
        table'.get? name = table.get? name ∧ FunctionDecl.last? ds name = none := by
  induction ds generalizing table m with
  | nil => exact ⟨table, by simp [Below.methodTable], fun _ => .inr ⟨rfl, rfl⟩⟩
  | cons d ds ih =>
    have hrun : (newClosure ⟨d, scope, initializer d.name⟩).run m =
        .ok m.store.closures.size { m with store :=
          { m.store with closures := m.store.closures.push ⟨d, scope, initializer d.name⟩ } } := rfl
    obtain ⟨table', hrest, hget⟩ := ih (table.put d.name.lexeme m.store.closures.size) _
    refine ⟨table', (Eval.run_bind_ok hrun).trans (hrest.trans ?_), fun name => ?_⟩
    · rw [List.map_cons, List.toArray_cons, ← Array.append_assoc, Array.append_singleton]
    · rw [FunctionDecl.last?_cons]
      rcases hget name with ⟨i, d', hd, hi, hlast⟩ | ⟨hkept, hlast⟩
      · refine .inl ⟨i + 1, d', hd, ?_, by rw [hlast, Option.some_or]⟩
        rw [hi, Array.size_push, Nat.add_assoc, Nat.add_comm 1 i]
      · rw [Table.get?_put] at hkept
        rw [hlast, Option.none_or]
        split at hkept
        · exact .inl ⟨0, d, rfl, hkept, if_pos ‹_›⟩
        · exact .inr ⟨hkept, if_neg ‹_›⟩

variable {I : Inquiry} {t : Terms} {r r₁ r₂ : Register} {f g : FrameId} {m : Machine}

/-- A class has been entered, with its functions and its superclass. -/
structure Register.Declares (r r₁ : Register) (parent : Option ClassId)
    (methods statics : List FunctionDecl) : Prop where
  functions : r.store.Declares r₁.store r₁.origin methods statics
  methods : r₁.declared r.store.classes.size false = methods
  statics : r₁.declared r.store.classes.size true = statics
  record : ∃ record, r₁.store.classes[r.store.classes.size]? = some record ∧
    record.superclass = parent ∧ record.fields = []

namespace Register.Declares

variable {parent : Option ClassId} {methods statics : List FunctionDecl}

/-- Neither functions nor classes were made before. -/
theorem from_earlier (h : r₁.Declares r₂ parent methods statics)
    (hclosures : r₁.store.closures = r.store.closures)
    (hclasses : r₁.store.classes = r.store.classes) : r.Declares r₂ parent methods statics := by
  obtain ⟨⟨hmade, hmadeStatic⟩, hmethods, hstatics, hrecord⟩ := h
  rw [hclosures, hclasses] at hmade hmadeStatic
  rw [hclasses] at hmethods hstatics hrecord
  exact ⟨⟨hmade, hmadeStatic⟩, hmethods, hstatics, hrecord⟩

/-- The functions stay those of the class. -/
theorem origins (h : r.Declares r₁ parent methods statics) (hr : r₁ ≤ r₂) :
    r.store.Declares r₁.store r₂.origin methods statics :=
  ⟨fun i d hd => ⟨(h.functions.made i d hd).1, hr.origin _ _ (h.functions.made i d hd).2⟩,
    fun i d hd => ⟨(h.functions.madeStatic i d hd).1, hr.origin _ _ (h.functions.madeStatic i d hd).2⟩⟩

/-- The declarations stay those of the class. -/
theorem declared (h : r.Declares r₁ parent methods statics) (hr : r₁ ≤ r₂) :
    r₂.declared r.store.classes.size false = methods ∧
      r₂.declared r.store.classes.size true = statics := by
  obtain ⟨record, hrecord, -⟩ := h.record
  rw [hr.declared _ (Array.getElem?_eq_some_iff.1 hrecord).1]
  exact ⟨h.methods, h.statics⟩

end Register.Declares

/-- What is made of the methods of a class and of its static methods. -/
def FunctionDecl.asMethod (p : FrameId) (d : FunctionDecl) : Closure :=
  ⟨d, p, d.name.lexeme == "init"⟩

def FunctionDecl.asStatic (p : FrameId) (d : FunctionDecl) : Closure := ⟨d, p, false⟩

theorem FunctionDecl.decl_asMethod (p : FrameId) (ds : List FunctionDecl) :
    (ds.map (asMethod p)).map (·.decl) = ds := by
  rw [List.map_map]
  exact List.map_id ds

theorem FunctionDecl.decl_asStatic (p : FrameId) (ds : List FunctionDecl) :
    (ds.map (asStatic p)).map (·.decl) = ds := by
  rw [List.map_map]
  exact List.map_id ds

def Register.addClass (r : Register) (p : FrameId) (methods statics : List FunctionDecl)
    (record : ClassRecord) : Register :=
  r.newClass (methods.map (FunctionDecl.asMethod p)) (statics.map (FunctionDecl.asStatic p)) record

/-- A class that is entered declares what its statement says. -/
theorem Register.addClass_declares (r : Register) (p : FrameId)
    (methods statics : List FunctionDecl) {record : ClassRecord} (hfields : record.fields = []) :
    r.Declares (r.addClass p methods statics record) record.superclass methods statics := by
  refine ⟨⟨fun i d hd => ?_, fun i d hd => ?_⟩,
    (if_pos rfl).trans (FunctionDecl.decl_asMethod p methods),
    (if_pos rfl).trans (FunctionDecl.decl_asStatic p statics),
    record, Array.getElem?_push_size, rfl, hfields⟩
  · obtain ⟨hlt, -⟩ := List.getElem?_eq_some_iff.1 hd
    refine ⟨⟨d.asMethod p, r.newClass_method ?_, rfl⟩,
      r.newClass_origin_method (by omega) (by simpa using hlt)⟩
    rw [List.getElem?_map, hd, Option.map_some]
  · obtain ⟨hlt, -⟩ := List.getElem?_eq_some_iff.1 hd
    have hlength : (methods.map (FunctionDecl.asMethod p)).length = methods.length :=
      List.length_map _
    rw [← hlength]
    refine ⟨⟨d.asStatic p, r.newClass_static ?_, rfl⟩,
      r.newClass_origin_static (by omega) (by simpa using hlt)⟩
    rw [List.getElem?_map, hd, Option.map_some]

/-- Entering a class keeps the register sound, its methods being made before it. -/
theorem Register.Sound.addClass (h : r.Sound t) {p : FrameId} (hp : p < r.store.frames.size)
    (hthis : r.store.local? p "this" = none) {record : ClassRecord}
    (hsuper : r.store.local? p "super" = record.superclass.map .classRef)
    (hparent : ∀ c, record.superclass = some c → c < r.store.classes.size)
    {methods statics : List FunctionDecl} (hmethods : FunctionDecl.WithinAll t.token methods)
    (hstatics : FunctionDecl.WithinAll t.token statics)
    (hms : record.methods.KeepsLast r.store.closures.size methods)
    (hss : record.statics.KeepsLast (r.store.closures.size + methods.length) statics)
    (hfields : record.fields = []) : (r.addClass p methods statics record).Sound t := by
  rw [FunctionDecl.withinAll_iff] at hmethods hstatics
  refine h.newClass hp hthis hsuper hparent (fun c hc => ?_) (fun c hc => ?_) (fun c hc => ?_)
    (by rwa [FunctionDecl.decl_asMethod]) ?_ hfields
  · rcases List.mem_append.1 hc with hc | hc
    · obtain ⟨d, hd, rfl⟩ := List.mem_map.1 hc
      exact ⟨rfl, hmethods d hd⟩
    · obtain ⟨d, hd, rfl⟩ := List.mem_map.1 hc
      exact ⟨rfl, hstatics d hd⟩
  · obtain ⟨d, -, rfl⟩ := List.mem_map.1 hc
    exact beq_iff_eq
  · obtain ⟨d, -, rfl⟩ := List.mem_map.1 hc
    rfl
  · rwa [FunctionDecl.decl_asStatic, List.length_map]

/-- The methods and the class itself are made, and the class gets its name. -/
theorem Register.At.fillClass (hm : r.At t f m) {name : Token} (hname : name.Plain) {p : FrameId}
    (parent : Option ClassId) (hp : p < r.store.frames.size)
    (hthis : r.store.local? p "this" = none)
    (hsuper : r.store.local? p "super" = parent.map .classRef)
    (hparent : ∀ c, parent = some c → c < r.store.classes.size)
    {methods statics : List FunctionDecl} (hmethods : FunctionDecl.WithinAll t.token methods)
    (hstatics : FunctionDecl.WithinAll t.token statics) :
    ∃ r₁ m₁, r ≤ r₁ ∧ (Below.fillClass f name parent methods statics p).run m = .ok () m₁ ∧
      r₁.At t f m₁ ∧ r.Declares r₁ parent methods statics := by
  obtain ⟨ms, hrunMethods, hms⟩ :=
    Machine.run_methodTable p (fun name => name.lexeme == "init") methods [] m
  obtain ⟨ss, hrunStatics, hss⟩ := Machine.run_methodTable p (fun _ => false) statics []
    { m with store := { m.store with
        closures := m.store.closures ++ (methods.map (FunctionDecl.asMethod p)).toArray } }
  have hr : r ≤ r.addClass p methods statics ⟨name.lexeme, parent, ms, ss, []⟩ :=
    hm.sound.le_newClass _ _ _
  have hmade : (r.addClass p methods statics ⟨name.lexeme, parent, ms, ss, []⟩).Sound t := by
    have hsize : (m.store.closures ++ (methods.map (FunctionDecl.asMethod p)).toArray).size =
        r.store.closures.size + methods.length := by simp [hm.store]
    rw [hm.store] at hms
    rw [hsize] at hss
    exact hm.sound.addClass hp hthis hsuper hparent hmethods hstatics hms hss rfl
  have hclass : (Value.classRef r.store.classes.size).Rightful
      (r.addClass p methods statics ⟨name.lexeme, parent, ms, ss, []⟩).origin
      (r.addClass p methods statics ⟨name.lexeme, parent, ms, ss, []⟩).store := by
    refine ⟨?_, fun _ h => by cases h⟩
    change r.store.classes.size < (r.store.classes.push _).size
    rw [Array.size_push]
    exact Nat.lt_succ_self _
  have hground := hm.ground.mono hr.store
  have hr₁ := Register.le_define (v := .classRef r.store.classes.size) hground.size hname
  have hnamed := hmade.define hground.size hname hground.receiver hclass
  have hdeclares : r.Declares (r.addClass p methods statics ⟨name.lexeme, parent, ms, ss, []⟩)
      parent methods statics := r.addClass_declares p methods statics rfl
  refine ⟨_, _, Register.le_trans hr hr₁, ?_, hm.enter (Register.le_trans hr hr₁) hnamed,
    ⟨hdeclares.functions.made, hdeclares.functions.madeStatic⟩, hdeclares.methods,
    hdeclares.statics, hdeclares.record⟩
  refine (Eval.run_bind_ok hrunMethods).trans ((Eval.run_bind_ok hrunStatics).trans ?_)
  have hclosures : r.store.closures ++ (methods.map (FunctionDecl.asMethod p)).toArray ++
      (statics.map (FunctionDecl.asStatic p)).toArray = r.store.closures ++
        (methods.map (FunctionDecl.asMethod p) ++ statics.map (FunctionDecl.asStatic p)).toArray := by
    simp [Array.append_assoc]
  rw [Register.addClass, Register.newClass, ← hclosures, ← hm.store]
  rfl

/-- A class with a superclass has a frame for it. -/
theorem Register.At.declareClass (hm : r.At t f m) {name : Token} (hname : name.Plain)
    {parent : Option ClassId} (hparent : ∀ c, parent = some c → c < r.store.classes.size)
    {methods statics : List FunctionDecl} (hmethods : FunctionDecl.WithinAll t.token methods)
    (hstatics : FunctionDecl.WithinAll t.token statics) :
    ∃ r₁ m₁, r ≤ r₁ ∧ (Below.declareClass name parent methods statics).run m = .ok () m₁ ∧
      r₁.At t f m₁ ∧ r.Declares r₁ parent methods statics := by
  have hr := Register.le_define (v := .nil) hm.ground.size hname
  have hnamed := hm.sound.define hm.ground.size hname hm.ground.receiver
    (Value.Constant.rightful (v := .nil) trivial _ _)
  have hm₁ := hm.enter hr hnamed
  have hcurrent : currentFrame.run m = .ok f m := by
    rw [← hm.current]
    rfl
  have hdefine : (define f name.lexeme .nil).run m =
      .ok () { m with store := r.store.define f name.lexeme .nil } := by
    rw [← hm.store]
    rfl
  have hground := hm.ground.mono hr.store
  cases parent with
  | none =>
    obtain ⟨r₁, m₁, hr₁, hfill, hm₂, hdeclares⟩ := hm₁.fillClass hname none hground.size
      hground.receiver hground.superclass (fun _ h => by cases h) hmethods hstatics
    exact ⟨r₁, m₁, Register.le_trans hr hr₁,
      (Eval.run_bind_ok hcurrent).trans ((Eval.run_bind_ok hdefine).trans hfill), hm₂,
      hdeclares.from_earlier rfl rfl⟩
  | some c =>
    have hclass : (Value.classRef c).Rightful r.origin (r.store.define f name.lexeme .nil) :=
      ⟨hparent c rfl, fun _ h => by cases h⟩
    have hopen := hnamed.openFrame [("super", .classRef c)] none hground.size
      (fun key v hv => (Table.eq_of_get?_single hv).2 ▸ hclass)
      (fun v hv => absurd (Table.eq_of_get?_single hv).1 (by decide))
      (fun h => by rw [hground.receiver] at h; cases h) fun _ h => by cases h
    have hr₂ := hnamed.le_openFrame f [("super", .classRef c)] none
    have hlocal := fun key => (Store.local?_openFrame (r.store.define f name.lexeme .nil) (some f)
      [("super", .classRef c)] (r.store.define f name.lexeme .nil).frames.size key).trans
        (if_pos rfl)
    obtain ⟨r₁, m₁, hr₁, hfill, hm₂, hdeclares⟩ := (hm₁.enter hr₂ hopen).fillClass hname (some c)
      (Store.lt_of_local? (hlocal "super")) (hlocal "this") (hlocal "super")
      (fun k hk => hparent k hk) hmethods hstatics
    have hopened := Machine.run_openFrame { m with store := r.store.define f name.lexeme .nil } f
      [("super", .classRef c)]
    exact ⟨r₁, m₁, Register.le_trans hr (Register.le_trans hr₂ hr₁),
      (Eval.run_bind_ok hcurrent).trans ((Eval.run_bind_ok hdefine).trans
        ((Eval.run_bind_ok hopened).trans hfill)), hm₂, hdeclares.from_earlier rfl rfl⟩

namespace Inquiry.Engine

variable (h : I.Engine t)
include h

/-- The superclass is a class that is there already. -/
theorem sim_evaluateSuperclass {superclass : Option Superclass}
    (hsuperclass : ∀ s ∈ superclass, s.Within t.token) :
    I.Sim t r f (fun b => b.evaluateSuperclass superclass)
      fun r parent => ∀ c, parent = some c → c < r.store.classes.size := by
  cases superclass with
  | none => exact .pure fun _ _ _ hc => by cases hc
  | some parent =>
    have hparent := hsuperclass parent rfl
    have hexpr : parent.expr.Within t.token := hparent
    refine (h.evaluate hexpr).bind fun r₁ v _ hv => ?_
    cases v with
    | classRef c =>
      refine .pure fun r₂ hr₂ k hk => ?_
      cases hk
      exact hv.allocated.mono hr₂.store.grows
    | _ => exact .fail hparent.token

/-- A class declaration enters the class with its methods. -/
theorem simAt_class {name : Token} {superclass : Option Superclass}
    {methods statics : List FunctionDecl}
    (hs : (Stmt.class name superclass methods statics).Within t.token) (hm : r.At t f m) :
    I.SimAt t r f
      (fun L => (Stmt.class name superclass methods statics).Makes L.origin I.plain m ∧
        (Stmt.class name superclass methods statics).Enters L.declared I.plain m)
      (fun b => b.executeStep (.class name superclass methods statics)) m
      fun r flow => flow.Rightful t r := by
  obtain ⟨hname, hsuperclass, hmethods, hstatics⟩ := hs
  have hclass : I.SimAt t r f
      (fun L => ∀ parent m₁ u m₂, (I.plain.evaluateSuperclass superclass).run m = .ok parent m₁ →
        (I.plain.executeClass name superclass methods statics).run m = .ok u m₂ →
        ∃ r₁ r₂ : Register, m₁.store = r₁.store ∧ m₂.store = r₂.store ∧
          r₁.Declares r₂ parent methods statics ∧ r₂ ≤ L)
      (fun b => b.executeClass name superclass methods statics) m anything := by
    simp only [Below.executeClass_eq]
    refine ((h.sim_evaluateSuperclass hsuperclass).on hm).bind
      (fun r₁ parent m₁ _ hrun hm₁ hparent => ?_) fun e m₁ he L parent m₂ u m₃ hparent => ?_
    · obtain ⟨r₂, m₂, hr₂, hdeclare, hm₂, hdeclares⟩ :=
        hm₁.declareClass hname.plain hparent hmethods hstatics
      refine .inr ⟨rfl, r₂, hr₂, ?_, fun L hL => ⟨fun parent' m₁' u m₂' hparent' hrun' => ?_, rfl⟩⟩
      · rw [hdeclare]
        exact .ok hm₂ trivial
      · rw [hrun] at hparent'
        cases hparent'
        rw [Eval.run_bind_ok hrun, hdeclare] at hrun'
        cases hrun'
        exact ⟨r₁, r₂, hm₁.store, hm₂.store, hdeclares, hL⟩
    · rw [he] at hparent
      cases hparent
  refine (hclass.map fun _ _ _ _ => trivial).pin fun L _ hL => ?_
  -- the class is declared by a step that gives a result
  have hdeclares : ∀ parent m₁ flow m₂, (I.plain.evaluateSuperclass superclass).run m =
      .ok parent m₁ → (I.plain.executeStep (.class name superclass methods statics)).run m =
      .ok flow m₂ → ∃ r₁ r₂ : Register, m₁.store = r₁.store ∧ m₂.store = r₂.store ∧
        r₁.Declares r₂ parent methods statics ∧ r₂ ≤ L := by
    intro parent m₁ flow m₂ hparent hrun
    cases hexecute : (I.plain.executeClass name superclass methods statics).run m with
    | ok u m₃ =>
      have hstep : (I.plain.executeStep (.class name superclass methods statics)).run m =
          .ok .normal m₃ := Eval.run_bind_ok hexecute
      rw [hstep] at hrun
      cases hrun
      exact hL parent m₁ u m₂ hparent hexecute
    | error e m₃ =>
      have hstep : (I.plain.executeStep (.class name superclass methods statics)).run m =
          .error e m₃ := Eval.run_bind_error hexecute
      rw [hstep] at hrun
      cases hrun
  refine ⟨fun parent m₁ flow m₂ hparent hrun => ?_, fun parent m₁ flow m₂ hparent hrun => ?_⟩
  · obtain ⟨r₁, r₂, hm₁, hm₂, hdeclares, hr⟩ := hdeclares parent m₁ flow m₂ hparent hrun
    rw [hm₁, hm₂]
    exact hdeclares.origins hr
  · obtain ⟨r₁, r₂, hm₁, hm₂, hdeclares, hr⟩ := hdeclares parent m₁ flow m₂ hparent hrun
    rw [hm₁, hm₂]
    exact ⟨(hdeclares.declared hr).1, (hdeclares.declared hr).2, hdeclares.record⟩

/-- A variable is given a value that programs may see. -/
theorem sim_var {name : Token} {initial : Option Expr} (hname : name.NameIn t.token)
    (hinitial : ∀ e ∈ initial, e.Within t.token) :
    I.Sim t r f (fun b => b.executeStep (.var name initial)) fun r flow => flow.Rightful t r := by
  intro r₁ m hr hm
  refine ((h.sim_evaluate? hinitial).on hm).bind (fun r₂ v m₂ _ _ hm₂ hv => ?_) fun _ _ _ _ => trivial
  refine (sim_currentFrame.on hm₂).bind (fun r₃ g m₃ hr₃ _ hm₃ hg => ?_) fun _ _ _ _ => trivial
  subst hg
  refine ((sim_define hm₃.ground hname.plain (hv.mono hr₃)).on hm₃).map fun _ _ _ _ => trivial

omit h in
/-- A function is made in the current frame, which gets its name. -/
theorem simAt_function {decl : FunctionDecl} (hdecl : decl.Within t.token) (hm : r.At t f m) :
    I.SimAt t r f (fun L => (Stmt.function decl).Makes L.origin I.plain m)
      (fun b => b.executeStep (.function decl)) m fun r flow => flow.Rightful t r := by
  have hmade := hm.sound.newClosure (c := ⟨decl, f, false⟩) (o := .function) hm.ground.size hdecl
    hm.ground.receiver trivial ⟨nofun, fun h => h.1.elim⟩
  have hr := hm.sound.le_newClosure ⟨decl, f, false⟩ .function
  have horigin : (r.newClosure ⟨decl, f, false⟩ .function).origin r.store.closures.size =
      some .function := if_pos rfl
  have hrightful : rightful (r.newClosure ⟨decl, f, false⟩ .function)
      (.closure r.store.closures.size) :=
    ⟨hmade.unborn _ _ horigin, fun id hid => by cases hid; exact ⟨_, horigin, trivial⟩⟩
  have hnamed := (simAt_define (I := I) (hm.enter hr hmade) hdecl.parts.1.plain hrightful
    (hm.ground.mono hr.store).size (hm.ground.mono hr.store).receiver).map
      (R := fun r flow => flow.Rightful t r) (k := fun _ => Flow.normal) fun _ _ _ _ => trivial
  refine (hnamed.congr fun b _ => ?_).pin (fun L hL _ => ?_) |>.from_later hr
  · have hcurrent : currentFrame.run m = .ok f m := by
      rw [← hm.current]
      rfl
    refine (Eval.run_bind_ok hcurrent).trans ?_
    rw [Register.newClosure, ← hm.store]
    rfl
  · change L.origin m.store.closures.size = _
    rw [hm.store]
    exact hL.origin _ _ horigin

/-- A block has a frame of its own. -/
theorem sim_block {body : List Stmt} (hbody : Stmt.WithinAll t.token body) :
    I.Sim t r f (fun b => b.executeStep (.block body)) fun r flow => flow.Rightful t r := by
  intro r₁ m _ hm
  have hr := hm.sound.le_openFrame f [] none
  have hopen := hm.sound.openFrame [] none hm.ground.size
    (fun _ _ hv => by cases hv) (fun _ hv => by cases hv)
    (fun hthis => by rw [hm.ground.receiver] at hthis; cases hthis) fun _ hk => by cases hk
  have hinside := Sim.inFrame (f := f) (h.sim_executeAll hbody) (r₁.ground_openFrame f none)
  refine ((hinside.on (hm.enter hr hopen)).congr fun b _ => ?_).from_later hr
  have hcurrent : currentFrame.run m = .ok f m := by
    rw [← hm.current]
    rfl
  refine (Eval.run_bind_ok hcurrent).trans ((Eval.run_bind_ok (Machine.run_openFrame m f [])).trans ?_)
  rw [Register.openFrame, ← hm.store]

/-- Any number of rounds. -/
theorem sim_loop {condition : Expr} {increment : Option Expr} {body : Stmt}
    (hcondition : condition.Within t.token) (hincrement : ∀ e ∈ increment, e.Within t.token)
    (hbody : body.Within t.token) (rounds : Nat) :
    I.Sim t r f (fun b => b.loop condition increment body rounds)
      fun r flow => flow.Rightful t r := by
  induction rounds generalizing r with
  | zero => exact .throw trivial
  | succ rounds ih =>
    refine (h.evaluate hcondition).bind fun r₁ v _ _ => ?_
    split
    · refine (h.execute hbody).bind fun r₂ flow _ hflow => ?_
      have hnext : I.Sim t r₂ f (fun b => do
          discard (b.evaluate? increment)
          b.loop condition increment body rounds) fun r flow => flow.Rightful t r :=
        (h.sim_evaluate? hincrement).discard.bind fun _ _ _ _ => ih
      cases flow with
      | normal => exact hnext
      | next keyword => exact hnext
      | «break» keyword => exact .pure fun _ _ => trivial
      | «return» v => exact .pure fun _ hr => Value.Rightful.mono hflow hr
    · exact .pure fun _ _ => trivial

/-- One step of running a statement. -/
theorem simAt_executeStep {s : Stmt} (hs : s.Within t.token) (hm : r.At t f m) :
    I.SimAt t r f (fun L => s.Makes L.origin I.plain m ∧ s.Enters L.declared I.plain m)
      (fun b => b.executeStep s) m fun r flow => flow.Rightful t r := by
  cases s with
  | expr e =>
    have hsim : I.Sim t r f (fun b => b.executeStep (.expr e)) fun r flow => flow.Rightful t r :=
      (h.evaluate (e := e) hs).discard.bind fun _ _ _ _ => .pure fun _ _ => trivial
    exact (hsim.on hm).pin fun _ _ _ => ⟨trivial, trivial⟩
  | var name initial => exact ((h.sim_var hs.1 hs.2).on hm).pin fun _ _ _ => ⟨trivial, trivial⟩
  | block body =>
    have hbody : Stmt.WithinAll t.token body := hs
    exact ((h.sim_block hbody).on hm).pin fun _ _ _ => ⟨trivial, trivial⟩
  | ifThen condition whenTrue =>
    have hsim : I.Sim t r f (fun b => b.executeStep (.ifThen condition whenTrue))
        fun r flow => flow.Rightful t r := by
      refine (h.evaluate hs.1).bind fun _ v _ _ => ?_
      split
      · exact h.execute hs.2
      · exact .pure fun _ _ => trivial
    exact (hsim.on hm).pin fun _ _ _ => ⟨trivial, trivial⟩
  | ifElse condition whenTrue whenFalse =>
    have hsim : I.Sim t r f (fun b => b.executeStep (.ifElse condition whenTrue whenFalse))
        fun r flow => flow.Rightful t r := by
      refine (h.evaluate hs.1).bind fun _ v _ _ => ?_
      split
      · exact h.execute hs.2.1
      · exact h.execute hs.2.2
    exact (hsim.on hm).pin fun _ _ _ => ⟨trivial, trivial⟩
  | «while» condition body =>
    have hloop : I.Sim t r f (fun b => b.executeStep (.while condition body))
        fun r flow => flow.Rightful t r :=
      (h.sim_loop hs.1 (fun _ (he : _ ∈ (none : Option Expr)) => by cases he) hs.2
        I.plain.rounds).congr fun b hb => by rw [Below.executeStep, h.rounds b hb]
    exact (hloop.on hm).pin fun _ _ _ => ⟨trivial, trivial⟩
  | «for» condition increment body =>
    have hloop : I.Sim t r f (fun b => b.executeStep (.for condition increment body))
        fun r flow => flow.Rightful t r :=
      (h.sim_loop hs.1 hs.2.1 hs.2.2 I.plain.rounds).congr fun b hb => by
        rw [Below.executeStep, h.rounds b hb]
    exact (hloop.on hm).pin fun _ _ _ => ⟨trivial, trivial⟩
  | function decl => exact (simAt_function hs hm).pin fun _ _ hmakes => ⟨hmakes, trivial⟩
  | «return» keyword value =>
    refine (((h.sim_evaluate? hs.2).on hm).map (R := fun r flow => flow.Rightful t r)
      (k := Flow.return) fun _ _ _ hv => hv).pin fun _ _ _ => ?_
    exact ⟨trivial, trivial⟩
  | «break» keyword => exact SimAt.pin (.pure hm hs) fun _ _ _ => ⟨trivial, trivial⟩
  | next keyword => exact SimAt.pin (.pure hm hs) fun _ _ _ => ⟨trivial, trivial⟩
  | «class» name superclass methods statics => exact h.simAt_class hs hm

end Inquiry.Engine

end Scriptling
