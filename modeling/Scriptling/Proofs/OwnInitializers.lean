import Scriptling.Tree.Printer
import Scriptling.Proofs.Alpha
import Scriptling.Proofs.Mentions

namespace Scriptling

namespace Scope

def Walk.ownReads (w : Walk) : List (Located ScopeFault) :=
  w.faults.filter (·.fault = .ownInitializer)

/-- The walk knows what is known at a place. Only the innermost scope can have a name that is not
defined. -/
structure Shows (S : Scene) (w : Walk) : Prop where
  scopes : List.Forall₂ (fun names table => ∀ name : String,
    names.contains name = (table.get? name == some true)) S.scopes w.scopes
  globals : w.globals = S.known
  family : w.family = S.family
  pending : ∀ name, initializing w.scopes name = true ↔ S.pending = some name ∧
    ∃ names outer, S.scopes = names :: outer ∧ names.contains name = false
  outside : S.scopes = [] → S.pending = none
  settled : ∀ name, initializing w.scopes.tail name = false

/-- The walk has come to a place, and on the way it noted and reported what the mentions have. -/
structure Surveyed (ms : List Mention) (S : Scene) (w w' : Walk) : Prop where
  shows : Shows S w'
  notes : w'.distances = (ms.flatMap Mention.note).reverse ++ w.distances
  reads : w'.ownReads = w.ownReads ++ (ms.filter Mention.unready).map Mention.report

def Surveys (S : Scene) (act : Resolve Unit) (ms : List Mention) (S' : Scene) : Prop :=
  ∀ w, Shows S w → Surveyed ms S' w (walked act w)

variable {S S₁ S₂ : Scene} {a b : Resolve Unit} {ms ms' : List Mention} {w w₁ w₂ : Walk}

/-- Nothing is noted or reported. -/
theorem Shows.still (h : Shows S w₁) (hd : w₁.distances = w.distances) (hf : w₁.faults = w.faults) :
    Surveyed [] S w w₁ :=
  ⟨h, hd, by rw [Walk.ownReads, hf]; exact (List.append_nil _).symm⟩

theorem Surveyed.trans (h : Surveyed ms S₁ w w₁) (h' : Surveyed ms' S₂ w₁ w₂) :
    Surveyed (ms ++ ms') S₂ w w₂ where
  shows := h'.shows
  notes := by
    rw [h'.notes, h.notes, List.flatMap_append, List.reverse_append, List.append_assoc]
  reads := by rw [h'.reads, h.reads, List.filter_append, List.map_append, List.append_assoc]

theorem Surveys.pure : Surveys S (pure ()) [] S := fun _ h => h.still rfl rfl

theorem Surveys.seq (ha : Surveys S a ms S₁) (hb : Surveys S₁ b ms' S₂) :
    Surveys S (do a; b) (ms ++ ms') S₂ := fun w hw =>
  have h := ha w hw
  h.trans (hb _ h.shows)

theorem Surveys.get {f : Walk → Resolve Unit} (h : ∀ w, Surveys S (f w) ms S₁) :
    Surveys S (do f (← get)) ms S₁ := fun w hw => h w w hw

/-- A report of something else. -/
theorem surveys_report (token : Token) {fault : ScopeFault} (h : fault ≠ .ownInitializer) :
    Surveys S (report token fault) [] S := by
  intro w hw
  rw [walked_report]
  refine ⟨⟨hw.scopes, hw.globals, hw.family, hw.pending, hw.outside, hw.settled⟩, rfl, ?_⟩
  simp [Walk.ownReads, h]

theorem Shows.distance?_eq {w : Walk} (h : Shows S w) (name : String) :
    Scope.distance? w.scopes name = S.distance? name := by
  have hscopes := h.scopes
  unfold Scope.distance? Scene.distance?
  generalize S.scopes = scopes at hscopes
  generalize w.scopes = tables at hscopes
  induction hscopes with
  | nil => rfl
  | cons hhead _ ih => rw [List.findIdx?_cons, List.findIdx?_cons, hhead name, ih]

theorem Shows.isEmpty_eq {w : Walk} (h : Shows S w) : w.scopes.isEmpty = S.scopes.isEmpty := by
  have hlength := h.scopes.length_eq
  cases hs : S.scopes <;> cases hw : w.scopes <;> simp_all

/-- Where no scope defines the name, it is declared just in its own initial value. -/
theorem Shows.initializing_iff {w : Walk} (h : Shows S w) {name : String}
    (hd : S.distance? name = none) : initializing w.scopes name = true ↔ S.pending = some name := by
  rw [h.pending, and_iff_left_iff_imp]
  intro hp
  cases hs : S.scopes with
  | nil =>
    rw [h.outside hs] at hp
    cases hp
  | cons names outer =>
    rw [Scene.distance?, hs, List.findIdx?_eq_none_iff] at hd
    exact ⟨names, outer, rfl, hd names (List.mem_cons_self ..)⟩

/-- One mention: its note is made, and it is reported if it comes too early. -/
theorem Surveyed.single {x : Mention} (hw : Shows S w₁)
    (hd : w₁.distances = x.note.reverse ++ w.distances)
    (hr : w₁.ownReads = w.ownReads ++ if x.unready then [x.report] else []) :
    Surveyed [x] S w w₁ := by
  refine ⟨hw, by rw [hd, List.flatMap_singleton], ?_⟩
  rw [hr, List.filter_singleton]
  cases x.unready <;> rfl

/-- A distance is noted if there is one. -/
theorem Shows.located (hw : Shows S w) {n : Naming} (hp : Mention.placed ⟨n, S⟩ = true)
    (hu : Mention.unready ⟨n, S⟩ = false) :
    Surveyed [⟨n, S⟩] S w ((locate n.id n.name).run w).2 := by
  have hnote : Mention.note ⟨n, S⟩ = ((S.distance? n.name.lexeme).map (n.id, ·)).toList := if_pos hp
  rw [walked_locate, hw.distance?_eq]
  refine .single ?_ ?_ ?_
  · cases S.distance? n.name.lexeme with
    | none => exact hw
    | some d => exact ⟨hw.scopes, hw.globals, hw.family, hw.pending, hw.outside, hw.settled⟩
  · rw [hnote]
    cases S.distance? n.name.lexeme <;> rfl
  · rw [hu, if_neg Bool.false_ne_true, List.append_nil]
    cases S.distance? n.name.lexeme <;> rfl

theorem surveys_locate {n : Naming} (hn : n.manner ≠ .read)
    (hp : Mention.placed ⟨n, S⟩ = true) :
    Surveys S (discard (locate n.id n.name)) [⟨n, S⟩] S := fun _ hw =>
  hw.located hp (Mention.unready_of_manner hn S)

/-- A read is reported where it is not ready, and noted otherwise. -/
theorem surveys_read (id : ExprId) (name : Token) :
    Surveys S (read id name) [⟨⟨.read, id, name⟩, S⟩] S := by
  intro w hw
  have hiff : ((Scope.distance? w.scopes name.lexeme).isNone ∧
      (!w.globals.contains name.lexeme && initializing w.scopes name.lexeme) = true) ↔
        Mention.unready ⟨⟨.read, id, name⟩, S⟩ = true := by
    rw [Mention.unready_read, hw.distance?_eq, hw.globals, Option.isNone_iff_eq_none,
      Bool.and_eq_true]
    constructor
    · rintro ⟨hd, hk, hi⟩
      exact ⟨(hw.initializing_iff hd).1 hi, hd, by simpa using hk⟩
    · rintro ⟨hp, hd, hk⟩
      exact ⟨hd, by simpa using hk, (hw.initializing_iff hd).2 hp⟩
  rw [walked_read]
  split
  · rename_i hreport
    have hu := hiff.1 hreport
    have hd := ((Mention.unready_read S id name).1 hu).2.1
    refine .single ⟨hw.scopes, hw.globals, hw.family, hw.pending, hw.outside, hw.settled⟩ ?_ ?_
    · simp [Mention.note, hd]
    · rw [hu]
      simp [Walk.ownReads, Mention.report]
  · rename_i hquiet
    exact hw.located (n := ⟨.read, id, name⟩) rfl (Bool.eq_false_iff.2 (mt hiff.2 hquiet))

theorem surveys_write (id : ExprId) (name : Token) :
    Surveys S (write id name) [⟨⟨.assigned, id, name⟩, S⟩] (S.past ⟨.assigned, id, name⟩) := by
  intro w hw
  rw [walked_write]
  by_cases hs : S.scopes = []
  · have hd : S.distance? name.lexeme = none := by rw [Scene.distance?, hs]; rfl
    have hpast : S.past ⟨.assigned, id, name⟩ = { S with known := name.lexeme :: S.known } :=
      if_pos ⟨rfl, hs⟩
    rw [if_pos ⟨by rw [hw.distance?_eq, hd]; rfl, by rw [hw.isEmpty_eq, hs]; rfl⟩, hpast]
    refine .single ⟨hw.scopes, congrArg (name.lexeme :: ·) hw.globals, hw.family, hw.pending,
      hw.outside, hw.settled⟩ ?_ (List.append_nil _).symm
    simp [Mention.note, hd]
  · have hempty : w.scopes.isEmpty = false := by
      rw [hw.isEmpty_eq]
      exact List.isEmpty_eq_false_iff.2 hs
    rw [Scene.past_of_scopes hs, if_neg (by simp [hempty])]
    exact hw.located (n := ⟨.assigned, id, name⟩) rfl rfl

theorem Surveyed.unplaced {x : Mention} (h : Surveyed [] S w w₁) (hp : x.placed = false)
    (hn : x.naming.manner ≠ .read) : Surveyed [x] S w w₁ := by
  refine .single h.shows ?_ ?_
  · rw [Mention.note, hp]
    exact h.notes
  · rw [show x.unready = false from Mention.unready_of_manner hn x.scene]
    exact h.reads

theorem surveys_this (id : ExprId) (keyword : Token) :
    Surveys S (expr (.this id keyword)) [⟨⟨.this, id, keyword⟩, S⟩] S := by
  intro w hw
  rw [walked_this, hw.family]
  split
  · rename_i hfam
    have hreport : Surveys S (report keyword .thisOutsideClass) [] S := surveys_report keyword nofun
    exact (hreport w hw).unplaced (by simp [Mention.placed, hfam]) nofun
  · rename_i hfam
    exact surveys_locate (n := ⟨.this, id, keyword⟩) nofun (by simp [Mention.placed, hfam]) w hw

theorem surveys_super (id : ExprId) (keyword method : Token) :
    Surveys S (expr (.super id keyword method)) [⟨⟨.super, id, keyword⟩, S⟩] S := by
  intro w hw
  have hreport : ∀ fault : ScopeFault, fault ≠ .ownInitializer → S.family ≠ .derived →
      Surveyed [⟨⟨.super, id, keyword⟩, S⟩] S w (walked (report keyword fault) w) :=
    fun fault hf hfam => (surveys_report keyword hf w hw).unplaced
      (by simp [Mention.placed, hfam]) nofun
  rw [walked_super, hw.family]
  cases hfam : S.family with
  | none => exact hreport .superOutsideClass nofun (by simp [hfam])
  | root => exact hreport .superWithoutSuperclass nofun (by simp [hfam])
  | derived =>
    exact surveys_locate (n := ⟨.super, id, keyword⟩) nofun (by simp [Mention.placed, hfam]) w hw

/-- Mentions at one place, one step after the other. -/
theorem Surveys.also {ns ns' : List Naming} (ha : Surveys S a (S.mentions ns) (S.pastAll ns))
    (hb : ∀ S, Surveys S b (S.mentions ns') (S.pastAll ns')) :
    Surveys S (do a; b) (S.mentions (ns ++ ns')) (S.pastAll (ns ++ ns')) := by
  rw [Scene.mentions_append, Scene.pastAll_append]
  exact ha.seq (hb _)

mutual

theorem surveys_expr : ∀ (e : Expr) (S : Scene),
    Surveys S (expr e) (S.mentions e.namings) (S.pastAll e.namings)
  | .literal _, _ => .pure
  | .group inner, S => surveys_expr inner S
  | .unary _ operand, S => surveys_expr operand S
  | .binary left _ right, S => (surveys_expr left S).also (surveys_expr right)
  | .logical left _ right, S => (surveys_expr left S).also (surveys_expr right)
  | .ternary condition whenTrue whenFalse, S =>
    (surveys_expr condition S).also fun S => (surveys_expr whenTrue S).also (surveys_expr whenFalse)
  | .comma items, S => surveys_exprs items S
  | .var id name, _ => surveys_read id name
  | .assign id name value, S => (surveys_expr value S).also fun _ => surveys_write id name
  | .compoundAssign id name _ value, S =>
    (surveys_expr value S).also fun _ => surveys_locate (n := ⟨.compound, id, name⟩) nofun rfl
  | .update _ target _, S => surveys_expr target S
  | .call callee _ arguments, S => (surveys_expr callee S).also (surveys_exprs arguments)
  | .get object _, S => surveys_expr object S
  | .set object _ value, S => (surveys_expr value S).also (surveys_expr object)
  | .compoundSet object _ _ value, S => (surveys_expr value S).also (surveys_expr object)
  | .this id keyword, _ => surveys_this id keyword
  | .super id keyword method, _ => surveys_super id keyword method

theorem surveys_exprs : ∀ (es : List Expr) (S : Scene),
    Surveys S (exprs es) (S.mentions (Expr.namingsAll es)) (S.pastAll (Expr.namingsAll es))
  | [], _ => .pure
  | e :: es, S => (surveys_expr e S).also (surveys_exprs es)

end

theorem surveys_expr? (e : Option Expr) (S : Scene) :
    Surveys S (expr? e) (S.mentions (Expr.namings? e)) (S.pastAll (Expr.namings? e)) := by
  cases e with
  | none => exact .pure
  | some e => exact surveys_expr e S

/-- A name is pending in some scope if it is in the innermost one, or further out. -/
theorem initializing_cons (table : Table Bool) (tables : List (Table Bool)) (name : String) :
    initializing (table :: tables) name =
      (table.get? name == some false || initializing tables name) := rfl

theorem Shows.not_initializing {w : Walk} (h : Shows S w) (hp : S.pending = none) (name : String) :
    initializing w.scopes name = false := by
  rw [Bool.eq_false_iff, Ne, h.pending, hp]
  exact fun h => nomatch h.1

theorem surveys_declare (hp : S.pending = none) (name : Token) :
    Surveys S (declare name) [] (S.starting name.lexeme) := by
  intro w hw
  obtain ⟨scopes, known, pending, family⟩ := S
  obtain ⟨tables, globals, body, family', distances, faults⟩ := w
  have hquiet := hw.not_initializing hp
  obtain ⟨hscopes, hglobals, hfamily, hpending, houtside, hsettled⟩ := hw
  cases hp
  rw [walked_declare]
  cases hscopes with
  | nil =>
    refine ⟨⟨.nil, congrArg (name.lexeme :: ·) hglobals, hfamily, fun x => ?_, fun _ => rfl,
      hsettled⟩, rfl, (List.append_nil _).symm⟩
    exact ⟨nofun, fun h => nomatch h.1⟩
  | @cons names table outer tables hhead htail =>
    have hhere : ∀ x, table.get? x ≠ some false := fun x hx => by
      have h := hquiet x
      rw [initializing_cons, hx] at h
      cases h
    dsimp only
    split
    · rename_i hhas
      have hdefined : names.contains name.lexeme = true := by
        obtain ⟨value, hvalue⟩ := Option.isSome_iff_exists.1 hhas
        cases value with
        | true => rw [hhead, hvalue]; rfl
        | false => exact absurd hvalue (hhere _)
      refine ⟨⟨.cons hhead htail, hglobals, hfamily, fun x => ?_, nofun, hsettled⟩, rfl, ?_⟩
      · constructor
        · intro h
          rw [hquiet x] at h
          cases h
        · rintro ⟨hx, _, _, hnames, hx'⟩
          cases hx
          cases hnames
          rw [hdefined] at hx'
          cases hx'
      · simp [Walk.ownReads]
    · rename_i hhas
      have hnone : table.get? name.lexeme = none := by simpa [Table.has] using hhas
      refine ⟨⟨.cons (fun x => ?_) htail, hglobals, hfamily, fun x => ?_, nofun, hsettled⟩, rfl,
        (List.append_nil _).symm⟩
      · rw [hhead, Table.get?_put]
        split
        · rename_i hx
          rw [← hx, hnone]
          rfl
        · rfl
      · rw [initializing_cons, show initializing tables x = false from hsettled x, Table.get?_put,
          Bool.or_false]
        split
        · rename_i hx
          subst hx
          refine ⟨fun _ => ⟨rfl, names, outer, rfl, ?_⟩, fun _ => rfl⟩
          rw [hhead, hnone]
          rfl
        · rename_i hx
          refine ⟨fun h => absurd (by simpa using h) (hhere x), fun h => ?_⟩
          exact absurd (Option.some.inj h.1) hx

theorem surveys_define {name : Token} (hp : S.pending = none ∨ S.pending = some name.lexeme) :
    Surveys S (define name) [] (S.defined name.lexeme) := by
  intro w hw
  obtain ⟨scopes, known, pending, family⟩ := S
  obtain ⟨tables, globals, body, family', distances, faults⟩ := w
  obtain ⟨hscopes, hglobals, hfamily, hpending, houtside, hsettled⟩ := hw
  rw [walked_define]
  cases hscopes with
  | nil =>
    exact ⟨⟨.nil, hglobals, hfamily, hpending, houtside, hsettled⟩, rfl, (List.append_nil _).symm⟩
  | @cons names table outer tables hhead htail =>
    refine ⟨⟨.cons (fun x => ?_) htail, hglobals, hfamily, fun x => ?_, nofun, hsettled⟩, rfl,
      (List.append_nil _).symm⟩
    · rw [List.contains_cons, hhead, Table.get?_put]
      split
      · rename_i hx
        simp [hx]
      · rename_i hx
        simp [Ne.symm hx]
    · rw [initializing_cons, show initializing tables x = false from hsettled x, Table.get?_put,
        Bool.or_false]
      refine ⟨fun h => ?_, fun h => nomatch h.1⟩
      split at h
      · cases h
      · rename_i hx
        have hinit : initializing (table :: tables) x = true := by
          rw [initializing_cons, h]
          rfl
        rcases hp with hp | hp
        · exact absurd (hp.symm.trans ((hpending x).1 hinit).1) nofun
        · exact absurd (Option.some.inj (hp.symm.trans ((hpending x).1 hinit).1)) hx

theorem surveys_declared (hp : S.pending = none) (name : Token) :
    Surveys S (do declare name; define name) [] (S.declared name.lexeme) :=
  (surveys_declare hp name).seq (surveys_define (Scene.pending_starting hp name.lexeme))

theorem surveys_params (hp : S.pending = none) (ps : List Param) :
    Surveys S (params ps) (Param.mentions S ps) (Param.behind S ps) := by
  induction ps generalizing S with
  | nil => exact .pure
  | cons p ps ih =>
    have hp₁ := (Scene.pending_pastAll (Expr.namings? p.fallback)).trans hp
    have hdeclared := (surveys_declared hp₁ p.name).seq (ih (Scene.pending_declared hp₁ _))
    exact (surveys_expr? p.fallback S).seq hdeclared

/-- A scope around some steps, closed behind them. -/
theorem Surveys.scope {table : Table Bool} {names names' : List String} (hp : S.pending = none)
    (ht : ∀ x, names.contains x = (table.get? x == some true))
    (hf : ∀ x, table.get? x ≠ some false) (h : Surveys (S.inside names) a ms (S.inside names')) :
    Surveys S (do openScope table; a; closeScope) ms S := by
  intro w hw
  have hquiet := hw.not_initializing hp
  have hopen : Shows (S.inside names) (walked (openScope table) w) := by
    refine ⟨.cons ht hw.scopes, hw.globals, hw.family, fun x => ?_, nofun, hquiet⟩
    rw [walked_openScope, initializing_cons, hquiet x, Bool.or_false]
    refine ⟨fun h => absurd (by simpa using h) (hf x), fun h => ?_⟩
    exact absurd (hp.symm.trans h.1) nofun
  obtain ⟨hinside, hd, hreads⟩ := h _ hopen
  have hsettled := hinside.settled
  refine ⟨⟨?_, hinside.globals, hinside.family, fun x => ?_, fun _ => hp, fun x => ?_⟩, hd, hreads⟩
  · have hscopes := hinside.scopes
    change List.Forall₂ _ S.scopes (walked a (walked (openScope table) w)).scopes.tail
    generalize (walked a (walked (openScope table) w)).scopes = tables at hscopes
    cases hscopes with
    | cons _ htail => exact htail
  · change initializing (walked a (walked (openScope table) w)).scopes.tail x = true ↔ _
    rw [hsettled x]
    exact ⟨nofun, fun h => absurd (hp.symm.trans h.1) nofun⟩
  · change initializing (walked a (walked (openScope table) w)).scopes.tail.tail x = false
    rw [Bool.eq_false_iff]
    intro h
    obtain ⟨scope, hmem, hscope⟩ := List.any_eq_true.1 h
    have htail : initializing (walked a (walked (openScope table) w)).scopes.tail x = true :=
      List.any_eq_true.2 ⟨scope, List.mem_of_mem_tail hmem, hscope⟩
    rw [hsettled x] at htail
    cases htail

/-- A function around some steps, left behind them. -/
theorem surveys_setBody (body : Body) (h : Surveys S a ms S₁) :
    Surveys S (do
      let outer := (← get).body
      setBody body
      a
      setBody outer) ms S₁ := by
  intro w hw
  obtain ⟨hw₁, hd, hreads⟩ := h { w with body }
    ⟨hw.scopes, hw.globals, hw.family, hw.pending, hw.outside, hw.settled⟩
  exact ⟨⟨hw₁.scopes, hw₁.globals, hw₁.family, hw₁.pending, hw₁.outside, hw₁.settled⟩, hd, hreads⟩

theorem surveys_returning (keyword : Token) (value : Option Expr) :
    Surveys S (returning keyword value) (S.mentions (Expr.namings? value))
      (S.pastAll (Expr.namings? value)) := by
  have htop : Surveys S (report keyword .topLevelReturn) [] S := surveys_report keyword nofun
  have hinitial : Surveys S (report keyword .initializerValue) [] S := surveys_report keyword nofun
  have hvalue : ∀ (body : Body) (e : Expr), Surveys S (do
      if body = .initializer then report keyword .initializerValue
      expr e) (S.mentions e.namings) (S.pastAll e.namings) := by
    intro body e
    split
    · exact hinitial.seq (surveys_expr e S)
    · exact surveys_expr e S
  unfold returning
  refine .get fun w => ?_
  dsimp only
  cases value with
  | none =>
    split
    · exact htop
    · exact .pure
  | some e =>
    split
    · exact htop.seq (hvalue w.body e)
    · exact hvalue w.body e

/-- The family does not matter to what is declared. -/
theorem Shows.setFamily (h : Shows S w) (family : Family) :
    Shows { S with family } { w with family } :=
  ⟨h.scopes, h.globals, rfl, h.pending, h.outside, h.settled⟩

theorem Surveyed.setFamily (h : Surveyed ms S w w₁) (family : Family) :
    Surveyed ms { S with family } w { w₁ with family } :=
  ⟨h.shows.setFamily family, h.notes, h.reads⟩

/-- What is declared does not depend on the class around a place. -/
theorem declared_family (S : Scene) (name : String) (family : Family) :
    ({ S with family } : Scene).declared name = { S.declared name with family } := by
  obtain ⟨scopes, known, pending, family'⟩ := S
  cases scopes <;> rfl

theorem starting_family (S : Scene) (name : String) (family : Family) :
    ({ S with family } : Scene).starting name = { S.starting name with family } := by
  obtain ⟨scopes, known, pending, family'⟩ := S
  cases scopes <;> rfl

theorem family_declared (S : Scene) (name : String) : (S.declared name).family = S.family := by
  obtain ⟨scopes, known, pending, family⟩ := S
  cases scopes <;> rfl

/-- What the heading of a class mentions is its superclass. A name that is its own superclass is not
looked up, so the class itself is never read before it is defined. -/
theorem surveys_parent (hp : S.pending = none) (name : Token) (parent : Superclass)
    (family : Family) :
    Surveys { S.starting name.lexeme with family } (do
      if parent.name.lexeme = name.lexeme then report parent.name .selfInheritance
      else expr parent.expr
      define name) (Superclass.mentions (S.named name.lexeme) name (some parent))
      { S.declared name.lexeme with family } := by
  have hdefine : Surveys { S.starting name.lexeme with family } (define name) []
      { S.declared name.lexeme with family } := by
    have h := surveys_define (S := { S.starting name.lexeme with family })
      (Scene.pending_starting hp name.lexeme)
    obtain ⟨scopes, known, pending, family'⟩ := S
    cases scopes <;> exact h
  have hself : Surveys { S.starting name.lexeme with family }
      (report parent.name .selfInheritance) [] { S.starting name.lexeme with family } :=
    surveys_report parent.name nofun
  dsimp only
  by_cases hname : parent.name.lexeme = name.lexeme
  · rw [if_pos hname, Superclass.mentions, if_pos hname]
    exact hself.seq hdefine
  · have hread : Surveys { S.starting name.lexeme with family } (expr parent.expr)
        [⟨⟨.read, parent.id, parent.name⟩, S.named name.lexeme⟩]
        { S.starting name.lexeme with family } := by
      intro w hw
      obtain ⟨hshows, hnotes, hreads⟩ := surveys_read parent.id parent.name w hw
      obtain ⟨scopes, known, pending, family'⟩ := S
      cases hp
      cases scopes with
      | nil => exact ⟨hshows, hnotes, hreads⟩
      | cons names outer =>
        refine ⟨hshows, hnotes, hreads.trans ?_⟩
        simp [Mention.unready, Mention.bare, Scene.starting, Scene.named, Ne.symm hname]
    rw [if_neg hname, Superclass.mentions, if_neg hname]
    exact hread.seq hdefine

/-- The heading of a class, after which the family is the class's. -/
theorem heading_surveyed (hw : Shows S w) (hp : S.pending = none) (name : Token)
    (superclass : Option Superclass) :
    Surveyed (Superclass.mentions (S.named name.lexeme) name superclass)
      { S.declared name.lexeme with family := familyOf superclass } w
      (walked (heading name superclass) w) := by
  have hroot := (hw.setFamily .root).still (w := w) rfl rfl
  cases superclass with
  | none =>
    have hdeclared := surveys_declared (S := { S with family := .root }) hp name _ hroot.shows
    rw [declared_family] at hdeclared
    exact hroot.trans hdeclared
  | some parent =>
    have hdeclare := surveys_declare (S := { S with family := .root }) hp name _ hroot.shows
    rw [starting_family] at hdeclare
    have hderived := (hroot.trans hdeclare).setFamily .derived
    exact hderived.trans (surveys_parent hp name parent .derived _ hderived.shows)

theorem surveys_inClass {superclass : Option Superclass} {methods : Resolve Unit}
    (hp : S.pending = none)
    (h : Surveys (S.inClass superclass.isSome) methods ms (S.inClass superclass.isSome)) :
    Surveys { S with family := familyOf superclass } (do
      if superclass.isSome then openScope [("super", true)]
      openScope [("this", true)]
      methods
      closeScope
      if superclass.isSome then closeScope) ms { S with family := familyOf superclass } := by
  have hone : ∀ (key : String) (x : String),
      [key].contains x = (Table.get? [(key, true)] x == some true) := by
    intro key x
    by_cases hx : key = x
    · simp [Table.get?, hx]
    · simp [Table.get?, hx, Ne.symm hx]
  have hquiet : ∀ (key : String) (x : String), Table.get? [(key, true)] x ≠ some false := by
    intro key x
    by_cases hx : key = x <;> simp [Table.get?, hx]
  cases superclass with
  | none => exact Surveys.scope (S := { S with family := .root }) hp (hone _) (hquiet _) h
  | some parent =>
    have hthis := Surveys.scope (S := ({ S with family := .derived } : Scene).inside ["super"]) hp
      (hone "this") (hquiet _) h
    exact Surveys.scope (S := { S with family := .derived }) hp (hone _) (hquiet _) hthis

mutual

theorem surveys_stmt : ∀ (s : Stmt) (S : Scene), S.pending = none →
    Surveys S (stmt s) (s.mentions S) (s.behind S)
  | .expr e, S, _ => surveys_expr e S
  | .var name initial, S, hp => by
    have hpending := Scene.pending_starting hp name.lexeme
    rw [← Scene.pending_pastAll (Expr.namings? initial)] at hpending
    have h := (surveys_declare hp name).seq
      ((surveys_expr? initial _).seq (surveys_define hpending))
    rw [List.nil_append, List.append_nil] at h
    exact h
  | .block body, S, hp => by
    obtain ⟨names, hnames⟩ := Stmt.behindAll_inside hp body []
    have h := surveys_stmts body (S.inside []) hp
    rw [hnames] at h
    exact h.scope hp (fun _ => rfl) nofun
  | .ifThen condition whenTrue, S, hp =>
    (surveys_expr condition S).seq
      (surveys_stmt whenTrue _ ((Scene.pending_pastAll _).trans hp))
  | .ifElse condition whenTrue whenFalse, S, hp =>
    have hcondition := (Scene.pending_pastAll condition.namings).trans hp
    (surveys_expr condition S).seq ((surveys_stmt whenTrue _ hcondition).seq
      (surveys_stmt whenFalse _ (whenTrue.pending_behind hcondition)))
  | .while condition body, S, hp =>
    (surveys_expr condition S).seq (surveys_stmt body _ ((Scene.pending_pastAll _).trans hp))
  | .for condition increment body, S, hp =>
    (surveys_expr condition S).seq
      ((surveys_stmt body _ ((Scene.pending_pastAll _).trans hp)).seq (surveys_expr? increment _))
  | .function decl, S, hp => by
    have h := (surveys_declare hp decl.name).seq
      ((surveys_define (Scene.pending_starting hp decl.name.lexeme)).seq
        (surveys_function decl .function _ (Scene.pending_declared hp _)))
    exact h
  | .return keyword value, S, _ => surveys_returning keyword value
  | .break _, _, _ => .pure
  | .next _, _, _ => .pure
  | .class name superclass methods statics, S, hp => by
    intro w hw
    have hheading := heading_surveyed hw hp name superclass
    have hinside : ((S.declared name.lexeme).inClass superclass.isSome).pending = none := by
      cases superclass <;> exact Scene.pending_declared hp _
    have hmethods := surveys_inClass (Scene.pending_declared hp name.lexeme)
      ((surveys_instanceMethods methods _ hinside).seq (surveys_staticMethods statics _ hinside))
    have hfamily := hw.family.trans (family_declared S name.lexeme).symm
    rw [walked_class, hfamily]
    exact (hheading.trans (hmethods _ hheading.shows)).setFamily (S.declared name.lexeme).family

theorem surveys_stmts : ∀ (ss : List Stmt) (S : Scene), S.pending = none →
    Surveys S (stmts ss) (Stmt.mentionsAll S ss) (Stmt.behindAll S ss)
  | [], _, _ => .pure
  | s :: ss, S, hp =>
    (surveys_stmt s S hp).seq (surveys_stmts ss _ (s.pending_behind hp))

theorem surveys_function : ∀ (d : FunctionDecl) (kind : Body) (S : Scene), S.pending = none →
    Surveys S (function kind d) (d.mentions S) S
  | ⟨name, ps, body⟩, kind, S, hp => by
    obtain ⟨names, hnames⟩ := Param.behind_inside hp ps []
    obtain ⟨names', hnames'⟩ := Stmt.behindAll_inside hp body names
    have hbody := surveys_stmts body (S.inside names) hp
    have hps := surveys_params (S := S.inside []) hp ps
    rw [hnames'] at hbody
    rw [hnames] at hps
    have h : Surveys S (do openScope []; (do params ps; stmts body); closeScope) _ S :=
      (hps.seq hbody).scope hp (fun _ => rfl) nofun
    rw [← hnames] at h
    exact surveys_setBody kind h

theorem surveys_instanceMethods : ∀ (ds : List FunctionDecl) (S : Scene), S.pending = none →
    Surveys S (instanceMethods ds) (FunctionDecl.mentionsAll S ds) S
  | [], _, _ => .pure
  | d :: ds, S, hp =>
    (surveys_function d (methodBody d.name) S hp).seq (surveys_instanceMethods ds S hp)

theorem surveys_staticMethods : ∀ (ds : List FunctionDecl) (S : Scene), S.pending = none →
    Surveys S (staticMethods ds) (FunctionDecl.mentionsAll S ds) S
  | [], _, _ => .pure
  | d :: ds, S, hp =>
    (surveys_function d .method S hp).seq (surveys_staticMethods ds S hp)

end

end Scope

/-- **Reads in an own initial value.** For every program and all known globals, such a read is
reported exactly where a variable is read, or counted up or down, in the initial value of a local
variable of that name, no scope defines the name so far and it is no known global. Whatever else is
read or written is bound to the innermost scope that defines its name, or else to the globals. The
reading that a compound assignment implies is never reported. -/
theorem own_initializer_reads (globals : List String) (program : List Stmt) :
    let mentions := Stmt.mentionsAll (.outside globals) program
    (resolve globals program).faults.filter (·.fault = .ownInitializer) =
      (mentions.filter Mention.unready).map Mention.report ∧
    (resolve globals program).distances = (mentions.flatMap Mention.note).reverse := by
  have hstart : Scope.Shows (.outside globals) (.start globals) :=
    ⟨.nil, rfl, rfl, fun _ => ⟨nofun, fun h => nomatch h.1⟩, fun _ => rfl, fun _ => rfl⟩
  have h := Scope.surveys_stmts program (.outside globals) rfl _ hstart
  exact ⟨h.reads, h.notes.trans (List.append_nil _)⟩

/-- A local variable whose initial value adds one to it. -/
def ownSum : String := "\x7b var a = a += 1; \x7d"

def ownSumTree : List Stmt := (blankSession.accepted? ownSum).getD []

/-- The sum reads the variable before it has a value, and yet the program is accepted. -/
theorem ownSum_unreported :
    blankSession.accepted? ownSum = some ownSumTree ∧
    ownSumTree.map Stmt.print = ["(block (var a (+= a 1.0)))"] ∧
    (resolve blankSession.globalNames ownSumTree).faults = [] ∧
    ∃ x ∈ Stmt.mentionsAll (.outside blankSession.globalNames) ownSumTree,
      x.naming.manner = .compound ∧ x.bare = true := by
  have haccepted : (blankSession.accepted? ownSum).isSome = true := by decide +kernel
  obtain ⟨ss, hss⟩ := Option.isSome_iff_exists.1 haccepted
  refine ⟨by rw [ownSumTree, hss, Option.getD_some], by decide +kernel, by decide +kernel, ?_⟩
  decide +kernel

end Scriptling
