import Scriptling.Proofs.Placement
import Scriptling.Proofs.Resolution

namespace Scriptling

namespace Scope

def Walk.misplaced (w : Walk) : List (Located ScopeFault) :=
  w.faults.filter (·.fault ≠ .ownInitializer)

/-- The walk is where it was before, but the innermost scope has these names in addition. -/
structure Walk.Back (names : List String) (w w' : Walk) : Prop where
  body : w'.body = w.body
  family : w'.family = w.family
  outer : w'.scopes.tail = w.scopes.tail
  inner : ∀ x, w'.scopes.head?.map (·.has x) =
    w.scopes.head?.map fun scope => scope.has x || names.contains x

/-- What the walk knows of a place. -/
structure View where
  body : Body
  family : Family
  earlier : Option (List String)

def View.declaring (V : View) (names : List String) : View :=
  { V with earlier := V.earlier.map (· ++ names) }

structure View.Of (V : View) (w : Walk) : Prop where
  body : w.body = V.body
  family : w.family = V.family
  names : ∀ x, w.scopes.head?.map (·.has x) = V.earlier.map (·.contains x)

/-- The step comes back with these names declared. Taken at the place it reports these items. -/
structure Places (V : View) (act : Resolve Unit) (es : List (Located ScopeFault))
    (names : List String) : Prop where
  back : ∀ w : Walk, w.Back names (walked act w)
  reports : ∀ w : Walk, V.Of w → (walked act w).misplaced = w.misplaced ++ es

variable {V : View} {S : Spot} {a b : Resolve Unit} {es es' : List (Located ScopeFault)}
  {names names' : List String} {w w₁ w₂ : Walk}

theorem Walk.Back.refl (w : Walk) : w.Back [] w := ⟨rfl, rfl, rfl, by simp⟩

theorem Walk.Back.trans (h : w.Back names w₁) (h' : w₁.Back names' w₂) :
    w.Back (names ++ names') w₂ where
  body := h'.body.trans h.body
  family := h'.family.trans h.family
  outer := h'.outer.trans h.outer
  inner x := by
    have hinner := congrArg (Option.map (· || names'.contains x)) (h.inner x)
    rw [Option.map_map, Option.map_map] at hinner
    refine (h'.inner x).trans (hinner.trans ?_)
    cases w.scopes.head? <;> simp [Bool.or_assoc]

theorem View.Of.back (h : V.Of w) (hw : w.Back names w₁) : (V.declaring names).Of w₁ where
  body := hw.body.trans h.body
  family := hw.family.trans h.family
  names x := by
    have hnames := congrArg (Option.map (· || names.contains x)) (h.names x)
    rw [Option.map_map, Option.map_map] at hnames
    refine (hw.inner x).trans (hnames.trans ?_)
    cases hV : V.earlier <;> simp [View.declaring, hV]

theorem View.declaring_nil (V : View) : V.declaring [] = V := by
  obtain ⟨body, family, earlier⟩ := V
  cases earlier <;> simp [declaring]

namespace Places

/-- Reports of one step, and then of another one at the place behind it. -/
theorem seq (ha : Places V a es names) (hb : Places (V.declaring names) b es' names') :
    Places V (do a; b) (es ++ es') (names ++ names') where
  back w := (ha.back w).trans (hb.back _)
  reports w hw := by
    rw [walked_bind, hb.reports _ (hw.back (ha.back w)), ha.reports w hw, List.append_assoc]

/-- Behind a step that declares nothing the place is the same. -/
theorem also (ha : Places V a es []) (hb : Places V b es' names) :
    Places V (do a; b) (es ++ es') names := by
  rw [← View.declaring_nil V] at hb
  exact ha.seq hb

/-- Which names are declared counts, not how often. -/
theorem congr (h : Places V a es names) (hn : ∀ x, x ∈ names ↔ x ∈ names') :
    Places V a es names' where
  back w := by
    obtain ⟨hbody, hfamily, houter, hinner⟩ := h.back w
    refine ⟨hbody, hfamily, houter, fun x => ?_⟩
    rw [hinner, show names.contains x = names'.contains x by simp [hn x]]
  reports := h.reports

theorem pure : Places V (pure ()) [] [] :=
  ⟨fun w => .refl w, fun _ _ => (List.append_nil _).symm⟩

/-- A step that depends on what is known at the place. -/
theorem known {β : Type} {look : Walk → β} {v : β} {k : β → Resolve Unit}
    {f : β → List (Located ScopeFault)} (hlook : ∀ w, V.Of w → look w = v)
    (ha : ∀ w, walked a w = walked (k (look w)) w) (h : ∀ v, Places V (k v) (f v) names) :
    Places V a (f v) names where
  back w := by
    rw [ha]
    exact (h _).back w
  reports w hw := by
    rw [ha, ← hlook w hw]
    exact (h _).reports w hw

end Places

/-- A step that only makes notes, or reports what is not misplaced. -/
theorem places_still (hscopes : ∀ w, (walked a w).scopes = w.scopes)
    (hbody : ∀ w, (walked a w).body = w.body) (hfamily : ∀ w, (walked a w).family = w.family)
    (hfaults : ∀ w, (walked a w).misplaced = w.misplaced) : Places V a [] [] where
  back w := ⟨hbody w, hfamily w, by rw [hscopes], by simp [hscopes]⟩
  reports w _ := by rw [hfaults, List.append_nil]

theorem places_report (token : Token) {fault : ScopeFault} (h : fault ≠ .ownInitializer) :
    Places V (report token fault) [⟨fault, token.place⟩] [] where
  back w := ⟨rfl, rfl, rfl, (Walk.Back.refl w).inner⟩
  reports w _ := by simp [walked_report, Walk.misplaced, h]

theorem places_locate (id : ExprId) (name : Token) :
    Places V (discard (locate id name)) [] [] := by
  apply places_still
  all_goals
    intro w
    have hwalked := congrArg Prod.snd (walked_locate id name w)
    change walked (discard (locate id name)) w = _ at hwalked
    rw [hwalked]
    split <;> rfl

theorem places_read (id : ExprId) (name : Token) : Places V (read id name) [] [] := by
  apply places_still
  all_goals
    intro w
    rw [walked_read, walked_locate]
    split
    · simp [Walk.misplaced]
    · split <;> rfl

theorem places_write (id : ExprId) (name : Token) : Places V (write id name) [] [] := by
  apply places_still
  all_goals
    intro w
    rw [walked_write, walked_locate]
    split
    · rfl
    · split <;> rfl

theorem places_define (name : Token) : Places V (define name) [] [name.lexeme] where
  back w := by
    rw [walked_define]
    cases hs : w.scopes with
    | nil => exact ⟨rfl, rfl, rfl, by simp [hs]⟩
    | cons scope outer =>
      refine ⟨rfl, rfl, by simp [hs], fun x => ?_⟩
      by_cases hx : name.lexeme = x
      · simp [hs, Table.has, hx]
      · simp [hs, Table.has, hx, Ne.symm hx]
  reports w _ := by
    rw [walked_define, List.append_nil]
    cases w.scopes <;> rfl

def View.repeated (V : View) (name : Token) : List (Located ScopeFault) :=
  if V.earlier.any (·.contains name.lexeme) then [⟨.redeclared, name.place⟩] else []

theorem places_declare (name : Token) :
    Places V (declare name) (V.repeated name) [name.lexeme] where
  back w := by
    rw [walked_declare]
    cases hs : w.scopes with
    | nil => exact ⟨rfl, rfl, by simp [hs], by simp [hs]⟩
    | cons scope outer =>
      dsimp only
      split
      · rename_i hhas
        refine ⟨rfl, rfl, by simp [hs], fun x => ?_⟩
        by_cases hx : x = name.lexeme
        · simp [hs, hx, hhas]
        · simp [hs, hx]
      · refine ⟨rfl, rfl, by simp [hs], fun x => ?_⟩
        by_cases hx : name.lexeme = x
        · simp [hs, Table.has, hx]
        · simp [hs, Table.has, hx, Ne.symm hx]
  reports w hw := by
    have hnames := hw.names name.lexeme
    rw [walked_declare]
    unfold View.repeated
    cases hs : w.scopes with
    | nil =>
      rw [hs] at hnames
      cases hearlier : V.earlier with
      | none => exact (List.append_nil _).symm
      | some earlier =>
        rw [hearlier] at hnames
        cases hnames
    | cons scope outer =>
      rw [hs] at hnames
      cases hearlier : V.earlier with
      | none =>
        rw [hearlier] at hnames
        cases hnames
      | some earlier =>
        rw [hearlier] at hnames
        have hhas : scope.has name.lexeme = earlier.contains name.lexeme :=
          Option.some.inj hnames
        dsimp only
        rw [hhas, Option.any_some]
        split
        · simp [Walk.misplaced]
        · exact (List.append_nil _).symm

/-- A name is declared, and it is defined after some other step. -/
theorem places_declared (name : Token) (h : Places (V.declaring [name.lexeme]) a es []) :
    Places V (do declare name; a; define name) (V.repeated name ++ es) [name.lexeme] := by
  have hdefined := h.also (places_define name)
  rw [List.append_nil] at hdefined
  exact ((places_declare name).seq hdefined).congr (by simp)

def kindOf (S : Spot) : Body :=
  match S.around with
  | [] => S.body
  | .function :: _ => .function
  | .method name static derived :: _ =>
    if (Enclosure.method name static derived).initializes then .initializer else .method

def classOf (S : Spot) : Family :=
  match S.derived? with
  | none => .none
  | some derived => if derived then .derived else .root

def viewOf (S : Spot) : View := ⟨kindOf S, classOf S, S.earlier⟩

def reportsOf (S : Spot) (us : List Use) : List (Located ScopeFault) :=
  (S.references us).filterMap Placement.report?

theorem reportsOf_append (S : Spot) (us vs : List Use) :
    reportsOf S (us ++ vs) = reportsOf S us ++ reportsOf S vs := by
  simp [reportsOf, Spot.references]

theorem classOf_eq_none {S : Spot} : classOf S = .none ↔ S.derived? = none := by
  unfold classOf
  cases S.derived? with
  | none => simp
  | some derived => cases derived <;> simp

theorem places_this (id : ExprId) (keyword : Token) :
    Places (viewOf S) (expr (.this id keyword)) (reportsOf S [⟨.this, id, keyword⟩]) [] := by
  have hes : reportsOf S [⟨.this, id, keyword⟩] =
      if classOf S = .none then [⟨.thisOutsideClass, keyword.place⟩] else [] := by
    simp only [classOf_eq_none]
    cases hS : S.derived? <;>
      simp [reportsOf, Spot.references, Use.item?, Placement.report?, Item.fault?, Item.token, hS]
  have hlook : ∀ w, (viewOf S).Of w → w.family = classOf S := fun w hw => hw.family
  rw [hes]
  refine Places.known (k := fun family =>
      if family = .none then report keyword .thisOutsideClass else discard (locate id keyword))
    (f := fun family => if family = .none then [⟨.thisOutsideClass, keyword.place⟩] else [])
    hlook (fun w => ?_) fun family => ?_
  · rw [walked_this]
    split <;> rfl
  · split
    · exact places_report keyword nofun
    · exact places_locate id keyword

theorem places_super (id : ExprId) (keyword method : Token) :
    Places (viewOf S) (expr (.super id keyword method)) (reportsOf S [⟨.super, id, keyword⟩]) [] := by
  have hes : reportsOf S [⟨.super, id, keyword⟩] =
      if classOf S = .none then [⟨.superOutsideClass, keyword.place⟩]
      else if classOf S = .root then [⟨.superWithoutSuperclass, keyword.place⟩] else [] := by
    unfold classOf
    cases hS : S.derived? with
    | none => simp [reportsOf, Spot.references, Use.item?, Placement.report?, Item.fault?,
        Item.token, hS]
    | some derived =>
      cases derived <;> simp [reportsOf, Spot.references, Use.item?, Placement.report?, Item.fault?,
        Item.token, hS]
  have hlook : ∀ w, (viewOf S).Of w → w.family = classOf S := fun w hw => hw.family
  rw [hes]
  refine Places.known (k := fun family =>
      if family = .none then report keyword .superOutsideClass
      else if family = .root then report keyword .superWithoutSuperclass
      else discard (locate id keyword))
    (f := fun family =>
      if family = .none then [⟨.superOutsideClass, keyword.place⟩]
      else if family = .root then [⟨.superWithoutSuperclass, keyword.place⟩] else [])
    hlook (fun w => ?_) fun family => ?_
  · rw [walked_super]
    cases w.family <;> rfl
  · split
    · exact places_report keyword nofun
    · split
      · exact places_report keyword nofun
      · exact places_locate id keyword

/-- References of an expression and of the next one. -/
theorem Places.joined {us vs : List Use} (ha : Places (viewOf S) a (reportsOf S us) [])
    (hb : Places (viewOf S) b (reportsOf S vs) []) :
    Places (viewOf S) (do a; b) (reportsOf S (us ++ vs)) [] := by
  rw [reportsOf_append]
  exact ha.also hb

mutual

theorem places_expr : ∀ e : Expr, Places (viewOf S) (expr e) (reportsOf S e.uses) []
  | .literal _ => .pure
  | .group inner => places_expr inner
  | .unary _ operand => places_expr operand
  | .binary left _ right => (places_expr left).joined (places_expr right)
  | .logical left _ right => (places_expr left).joined (places_expr right)
  | .ternary condition whenTrue whenFalse =>
    (places_expr condition).joined ((places_expr whenTrue).joined (places_expr whenFalse))
  | .comma items => places_exprs items
  | .var id name => places_read id name
  | .assign id name value => by
    have hwrite : Places (viewOf S) (write id name) (reportsOf S [⟨.variable, id, name⟩]) [] :=
      places_write id name
    exact (places_expr value).joined hwrite
  | .compoundAssign id name _ value => by
    have hlocate : Places (viewOf S) (discard (locate id name))
      (reportsOf S [⟨.variable, id, name⟩]) [] := places_locate id name
    exact (places_expr value).joined hlocate
  | .update _ target _ => places_expr target
  | .call callee _ arguments => (places_expr callee).joined (places_exprs arguments)
  | .get object _ => places_expr object
  | .set object _ value => (places_expr value).joined (places_expr object)
  | .compoundSet object _ _ value => (places_expr value).joined (places_expr object)
  | .this id keyword => places_this id keyword
  | .super id keyword method => places_super id keyword method

theorem places_exprs : ∀ es : List Expr, Places (viewOf S) (exprs es) (reportsOf S (Expr.usesAll es)) []
  | [] => .pure
  | e :: es => (places_expr e).joined (places_exprs es)

end

theorem places_expr? (o : Option Expr) :
    Places (viewOf S) (expr? o) (reportsOf S (Expr.uses? o)) [] := by
  cases o with
  | none => exact .pure
  | some e => exact places_expr e

def reported (ps : List Placement) : List (Located ScopeFault) := ps.filterMap Placement.report?

theorem reported_append (ps qs : List Placement) :
    reported (ps ++ qs) = reported ps ++ reported qs := List.filterMap_append

theorem reported_cons (p : Placement) (ps : List Placement) :
    reported (p :: ps) = p.report?.toList ++ reported ps := by
  rw [reported, List.filterMap_cons]
  cases p.report? <;> rfl

/-- A declaration is reported if its name was declared before. -/
theorem reported_declaration (S : Spot) (name : Token) (ps : List Placement) :
    reported (⟨S, .declaration name⟩ :: ps) = (viewOf S).repeated name ++ reported ps := by
  have hrepeated : (viewOf S).repeated name =
      if S.earlier.any (·.contains name.lexeme) then [⟨.redeclared, name.place⟩] else [] := rfl
  rw [reported_cons, hrepeated, Placement.report?, Item.fault?]
  split <;> rfl

theorem places_params (ps : List Param) (S : Spot) :
    Places (viewOf S) (params ps) (reported (Param.placements S ps))
      (ps.map fun p => p.name.lexeme) := by
  induction ps generalizing S with
  | nil => exact .pure
  | cons p ps ih =>
    have hrest : Places ((viewOf S).declaring [p.name.lexeme]) (params ps)
        (reported (Param.placements (S.declaring [p.name.lexeme]) ps))
        (ps.map fun p => p.name.lexeme) := ih (S.declaring [p.name.lexeme])
    have hdeclared := (places_declared p.name .pure).seq hrest
    rw [List.append_nil, ← reported_declaration] at hdeclared
    rw [Param.placements, reported_append]
    exact (places_expr? p.fallback).also hdeclared

/-- A scope around some steps, closed behind them. -/
theorem Places.scope {table : Table Bool} (ht : ∀ x, table.has x = names.contains x)
    (h : Places { V with earlier := some names } a es names') :
    Places V (do openScope table; a; closeScope) es [] where
  back w := by
    obtain ⟨hbody, hfamily, houter, -⟩ := h.back (walked (openScope table) w)
    have hscopes : (walked (do openScope table; a; closeScope) w).scopes = w.scopes := houter
    exact ⟨hbody, hfamily, by rw [hscopes], by simp [hscopes]⟩
  reports w hw :=
    h.reports (walked (openScope table) w)
      ⟨hw.body, hw.family, fun x => congrArg some (ht x)⟩

/-- A function around some steps, left behind them. -/
theorem Places.inBody (kind : Body) (h : Places { V with body := kind } a es names) :
    Places V (do
      let outer := (← get).body
      setBody kind
      a
      setBody outer) es names where
  back w := by
    obtain ⟨-, hfamily, houter, hinner⟩ := h.back { w with body := kind }
    exact ⟨rfl, hfamily, houter, hinner⟩
  reports w hw := h.reports { w with body := kind } ⟨rfl, hw.family, hw.names⟩

/-- A class around some steps, left behind them. -/
theorem Places.inFamily (family : Family)
    (ha : ∀ w, walked a w = { walked b { w with family } with family := w.family })
    (h : Places { V with family } b es names) : Places V a es names where
  back w := by
    obtain ⟨hbody, -, houter, hinner⟩ := h.back { w with family }
    rw [ha]
    exact ⟨hbody, rfl, houter, hinner⟩
  reports w hw := by
    rw [ha]
    exact h.reports { w with family } ⟨hw.body, rfl, hw.names⟩

/-- A report that is made under a condition. -/
theorem places_report_if (token : Token) (p : Prop) [Decidable p] {fault : ScopeFault}
    (h : fault ≠ .ownInitializer) : Places V (if p then report token fault else pure ())
      (if p then [⟨fault, token.place⟩] else []) [] := by
  split
  · exact places_report token h
  · exact .pure

/-- What is reported of a `return`: it stands outside all functions, or it has a value and stands in
an initializer. -/
theorem report_return (S : Spot) (keyword : Token) (valued : Bool) :
    (Placement.report? ⟨S, .return keyword valued⟩).toList =
      (if kindOf S = .none then [⟨.topLevelReturn, keyword.place⟩] else []) ++
        if kindOf S = .initializer ∧ valued then [⟨.initializerValue, keyword.place⟩] else [] := by
  obtain ⟨around, earlier, body, family⟩ := S
  unfold Placement.report? Item.fault? kindOf Spot.initializes?
  cases around with
  | nil => cases body <;> cases valued <;> simp [Body.initializes?, Item.token]
  | cons e around =>
    cases e with
    | function => simp [Enclosure.initializes]
    | method name static derived =>
      cases hinit : (Enclosure.method name static derived).initializes <;>
        cases valued <;> simp [hinit, Item.token]

theorem places_returning (keyword : Token) (value : Option Expr) :
    Places (viewOf S) (returning keyword value)
      (reported (⟨S, .return keyword value.isSome⟩ :: S.references (Expr.uses? value))) [] := by
  have hlook : ∀ w, (viewOf S).Of w → w.body = kindOf S := fun w hw => hw.body
  have htop : ScopeFault.topLevelReturn ≠ .ownInitializer := nofun
  have hinitial : ScopeFault.initializerValue ≠ .ownInitializer := nofun
  rw [reported_cons, report_return]
  cases value with
  | none =>
    simp only [Option.isSome_none, Bool.false_eq_true, and_false, if_false, List.append_nil]
    refine Places.known (k := fun body =>
        if body = .none then report keyword .topLevelReturn else pure ())
      (f := fun body => (if body = .none then [⟨.topLevelReturn, keyword.place⟩] else []) ++
        reported (S.references (Expr.uses? none))) hlook (fun w => ?_) fun body => ?_
    · obtain ⟨_, _, body, _, _, _⟩ := w
      cases body <;> rfl
    · simpa [Expr.uses?, Spot.references, reported] using
        places_report_if keyword (body = .none) htop
  | some e =>
    simp only [Option.isSome_some, and_true]
    refine Places.known (k := fun body => do
        (if body = .none then report keyword .topLevelReturn else pure ())
        (if body = .initializer then report keyword .initializerValue else pure ())
        expr e)
      (f := fun body => ((if body = .none then [⟨.topLevelReturn, keyword.place⟩] else []) ++
        if body = .initializer then [⟨.initializerValue, keyword.place⟩] else []) ++
          reported (S.references (Expr.uses? (some e)))) hlook (fun w => ?_) fun body => ?_
    · obtain ⟨_, _, body, _, _, _⟩ := w
      cases body <;> rfl
    · rw [List.append_assoc]
      exact (places_report_if keyword (body = .none) htop).also
        ((places_report_if keyword (body = .initializer) hinitial).also (places_expr e))

def inherit (name : Token) : Option Superclass → Resolve Unit
  | none => pure ()
  | some parent =>
    if parent.name.lexeme = name.lexeme then report parent.name .selfInheritance
    else expr parent.expr

theorem places_inherit (S : Spot) (name : Token) (superclass : Option Superclass) :
    Places V (inherit name superclass) (reported (Superclass.placements S name superclass)) [] := by
  cases superclass with
  | none => exact .pure
  | some parent =>
    have hself : ScopeFault.selfInheritance ≠ .ownInitializer := nofun
    unfold inherit
    rw [Superclass.placements, reported_cons, Placement.report?, Item.fault?]
    dsimp only
    split
    · exact places_report parent.name hself
    · exact places_read parent.id parent.name

/-- A declaration does not depend on the class around it. -/
theorem walked_declare_family (name : Token) (w : Walk) (family : Family) :
    walked (declare name) { w with family } = { walked (declare name) w with family } := by
  rw [walked_declare, walked_declare]
  cases w.scopes with
  | nil => rfl
  | cons scope outer =>
    dsimp only
    split <;> rfl

/-- The name of a class is declared, then its superclass is looked up, then the name is defined. -/
theorem walked_heading (name : Token) (superclass : Option Superclass) (w : Walk) :
    walked (heading name superclass) w =
      walked (do declare name; inherit name superclass; define name)
        { w with family := familyOf superclass } := by
  cases superclass with
  | none => rfl
  | some parent =>
    rw [walked_heading_some, walked_declare_family name w .root, walked_bind (declare name),
      walked_declare_family name w (familyOf (some parent))]
    by_cases hname : parent.name.lexeme = name.lexeme
    · simp only [inherit, if_pos hname]
      rfl
    · simp only [inherit, if_neg hname]
      rfl

/-- A class changes the family for its name, its superclass and its methods. -/
theorem walked_class_eq (name : Token) (superclass : Option Superclass)
    (methods statics : List FunctionDecl) (w : Walk) :
    walked (stmt (.class name superclass methods statics)) w =
      { walked (do
          (do declare name; inherit name superclass; define name)
          if superclass.isSome then openScope [("super", true)]
          openScope [("this", true)]
          (do instanceMethods methods; staticMethods statics)
          closeScope
          if superclass.isSome then closeScope) { w with family := familyOf superclass } with
        family := w.family } := by
  rw [walked_class, walked_heading]
  rfl

/-- The scopes of a class around its methods. -/
theorem places_inClass (superclass : Option Superclass)
    (h : ∀ earlier, Places { V with earlier := some earlier } a es []) :
    Places V (do
      if superclass.isSome then openScope [("super", true)]
      openScope [("this", true)]
      a
      closeScope
      if superclass.isSome then closeScope) es [] := by
  have hone : ∀ key x : String, Table.has [(key, true)] x = [key].contains x := by
    intro key x
    by_cases hx : key = x
    · simp [Table.has, Table.get?, hx]
    · simp [Table.has, Table.get?, hx, Ne.symm hx]
  cases superclass with
  | none => exact Places.scope (hone "this") (h ["this"])
  | some parent =>
    have hthis := Places.scope (V := { V with earlier := some ["super"] }) (hone "this") (h ["this"])
    exact Places.scope (hone "super") hthis

mutual

theorem places_stmt : ∀ (s : Stmt) (S : Spot),
    Places (viewOf S) (stmt s) (reported (s.placements S)) s.introduced
  | .expr e, _ => places_expr e
  | .var name initial, S => by
    rw [Stmt.placements, reported_declaration]
    exact places_declared name (places_expr? (S := S.declaring [name.lexeme]) initial)
  | .block body, S => by
    have hbody := places_stmts body S.opened
    exact hbody.scope fun _ => rfl
  | .ifThen condition whenTrue, S => by
    rw [Stmt.placements, reported_append]
    exact (places_expr condition).also (places_stmt whenTrue S)
  | .ifElse condition whenTrue whenFalse, S => by
    rw [Stmt.placements, reported_append, reported_append]
    exact (places_expr condition).also
      ((places_stmt whenTrue S).seq (places_stmt whenFalse (S.declaring whenTrue.introduced)))
  | .while condition body, S => by
    rw [Stmt.placements, reported_append]
    exact (places_expr condition).also (places_stmt body S)
  | .for condition increment body, S => by
    have hloop := (places_stmt body S).seq
      (places_expr? (S := S.declaring body.introduced) increment)
    rw [List.append_nil] at hloop
    rw [Stmt.placements, reported_append, reported_append]
    exact (places_expr condition).also hloop
  | .function decl, S => by
    have hdeclared := places_declared (V := viewOf S) decl.name .pure
    have hbody : Places ((viewOf S).declaring [decl.name.lexeme]) (function .function decl)
        (reported (decl.placements (S.inside .function))) [] :=
      places_function decl S .function rfl
    have h := hdeclared.seq hbody
    rw [List.append_nil] at h
    rw [Stmt.placements, reported_declaration]
    exact h
  | .return keyword value, _ => places_returning keyword value
  | .break _, _ => .pure
  | .next _, _ => .pure
  | .class name superclass methods statics, S => by
    have hfamily : ∀ (name : String) (static : Bool),
        classOf (S.inside (.method name static superclass.isSome)) = familyOf superclass := by
      intro name static
      cases superclass <;> rfl
    have hname := places_declared (V := { viewOf S with family := familyOf superclass }) name
      (places_inherit (S.declaring [name.lexeme]) name superclass)
    have hmembers := hname.seq (places_inClass superclass fun earlier =>
      (places_instanceMethods methods S superclass.isSome fun name => hfamily name false).also
        (places_staticMethods statics S superclass.isSome fun name => hfamily name true))
    rw [List.append_nil] at hmembers
    rw [Stmt.placements, reported_declaration, reported_append, reported_append, ← List.append_assoc]
    exact hmembers.inFamily (familyOf superclass) (walked_class_eq name superclass methods statics)

theorem places_stmts : ∀ (ss : List Stmt) (S : Spot),
    Places (viewOf S) (stmts ss) (reported (Stmt.placementsAll S ss)) (Stmt.introducedAll ss)
  | [], _ => .pure
  | s :: ss, S => by
    rw [Stmt.placementsAll, reported_append]
    exact (places_stmt s S).seq (places_stmts ss (S.declaring s.introduced))

/-- A function is walked over as what it is. -/
theorem places_function : ∀ (d : FunctionDecl) (S : Spot) (e : Enclosure) {V : View},
    classOf (S.inside e) = V.family →
    Places V (function (kindOf (S.inside e)) d) (reported (d.placements (S.inside e))) []
  | ⟨_, ps, body⟩, S, e, V, h => by
    have hps := places_params ps (S.inside e)
    have hbody := places_stmts body ((S.inside e).declaring (ps.map fun p => p.name.lexeme))
    have hinside : viewOf (S.inside e) =
        { ({ V with body := kindOf (S.inside e) } : View) with earlier := some [] } := by
      rw [viewOf, h]
      rfl
    have hboth := hps.seq hbody
    rw [hinside] at hboth
    rw [FunctionDecl.placements, reported_append]
    exact Places.inBody _ (hboth.scope fun _ => rfl)

theorem places_instanceMethods : ∀ (ds : List FunctionDecl) (S : Spot) (derived : Bool) {V : View},
    (∀ name, classOf (S.inside (.method name false derived)) = V.family) →
    Places V (instanceMethods ds) (reported (FunctionDecl.placementsAll S derived false ds)) []
  | [], _, _, _, _ => .pure
  | d :: ds, S, derived, V, h => by
    have hkind : kindOf (S.inside (.method d.name.lexeme false derived)) = methodBody d.name := by
      simp [kindOf, Spot.inside, Enclosure.initializes, methodBody]
    have hd := places_function d S (.method d.name.lexeme false derived) (h d.name.lexeme)
    rw [hkind] at hd
    rw [FunctionDecl.placementsAll, reported_append]
    exact hd.also (places_instanceMethods ds S derived h)

theorem places_staticMethods : ∀ (ds : List FunctionDecl) (S : Spot) (derived : Bool) {V : View},
    (∀ name, classOf (S.inside (.method name true derived)) = V.family) →
    Places V (staticMethods ds) (reported (FunctionDecl.placementsAll S derived true ds)) []
  | [], _, _, _, _ => .pure
  | d :: ds, S, derived, V, h => by
    rw [FunctionDecl.placementsAll, reported_append]
    exact (places_function d S (.method d.name.lexeme true derived) (h d.name.lexeme)).also
      (places_staticMethods ds S derived h)

end

def Walk.spot (w : Walk) : Spot := ⟨[], w.scopes.head?.map Table.names, w.body, w.family⟩

theorem view_spot (w : Walk) : (viewOf w.spot).Of w where
  body := rfl
  family := by
    change w.family = classOf w.spot
    unfold classOf Spot.derived? Walk.spot
    cases w.family <;> rfl
  names x := by
    change w.scopes.head?.map (·.has x) = (w.scopes.head?.map Table.names).map (·.contains x)
    cases w.scopes.head? with
    | none => rfl
    | some scope =>
      have hhas : scope.has x = scope.names.contains x :=
        Bool.eq_iff_iff.2 (Table.has_iff.trans List.contains_iff_mem.symm)
      exact congrArg some hhas

/-- Wherever the walk begins, what is misplaced from there on is reported. -/
theorem misplaced_stmts (ss : List Stmt) (w : Walk) :
    (walked (stmts ss) w).misplaced = w.misplaced ++ reported (Stmt.placementsAll w.spot ss) :=
  (places_stmts ss w.spot).reports w (view_spot w)

end Scope

end Scriptling
