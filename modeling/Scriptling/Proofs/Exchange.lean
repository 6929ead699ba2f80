import Scriptling.Proofs.Renaming
import Scriptling.Proofs.Resolution

namespace Scriptling

def Param.declarations (ps : List Param) : List Token := ps.map Param.name

mutual

/-- The tokens by which variables, parameters, functions and classes are declared. -/
def Stmt.declarations : Stmt → List Token
  | .var name _ => [name]
  | .block body => Stmt.declarationsAll body
  | .ifThen _ whenTrue => whenTrue.declarations
  | .ifElse _ whenTrue whenFalse => whenTrue.declarations ++ whenFalse.declarations
  | .while _ body => body.declarations
  | .for _ _ body => body.declarations
  | .function decl => decl.name :: decl.declarations
  | .class name _ methods statics =>
    name :: (FunctionDecl.declarationsAll methods ++ FunctionDecl.declarationsAll statics)
  | .expr _ | .return _ _ | .break _ | .next _ => []

def Stmt.declarationsAll : List Stmt → List Token
  | [] => []
  | s :: ss => s.declarations ++ Stmt.declarationsAll ss

/-- A method's own name is no variable. -/
def FunctionDecl.declarations : FunctionDecl → List Token
  | ⟨_, params, body⟩ => Param.declarations params ++ Stmt.declarationsAll body

def FunctionDecl.declarationsAll : List FunctionDecl → List Token
  | [] => []
  | d :: ds => d.declarations ++ FunctionDecl.declarationsAll ds

end

/-- The statement is no function and no class of the name. -/
def Stmt.Spares (name : String) : Stmt → Prop
  | .function decl => decl.name.lexeme ≠ name
  | .class token _ _ _ => token.lexeme ≠ name
  | _ => True

/-- The name that a statement declares in the scope it stands in. -/
def Stmt.declared? : Stmt → Option String
  | .var name _ => some name.lexeme
  | .function decl => some decl.name.lexeme
  | .class name _ _ _ => some name.lexeme
  | _ => none

theorem Stmt.spares_of_ne {s : Stmt} {name : String} (h : s.declared? ≠ some name) :
    s.Spares name := by
  cases s with
  | function => exact fun heq => h (congrArg some heq)
  | «class» => exact fun heq => h (congrArg some heq)
  | _ => trivial

theorem Stmt.spares_of_not_declares {s : Stmt} (h : s.declares = false) (name : String) :
    s.Spares name := by
  cases s with
  | function => cases h
  | «class» => cases h
  | _ => trivial

/-- A variable of the name is declared in the scope itself. -/
def Opener.Binds (name : String) : Opener → Prop
  | .block body => ∃ token initial, Stmt.var token initial ∈ body ∧ token.lexeme = name
  | .function decl => (∃ p ∈ decl.params, p.name.lexeme = name) ∨
      ∃ token initial, Stmt.var token initial ∈ decl.body ∧ token.lexeme = name
  | .this _ => False
  | .super _ => False

namespace Renaming

variable (ρ : Renaming)

/-- The scopes around a place with names exchanged in those that are marked. -/
def scopes (marks : List Bool) (scopes : List (Table Bool)) : List (Table Bool) :=
  List.zipWith (fun mark scope => scope.relabel (ρ.image mark)) marks scopes

variable {ρ} {marks : List Bool} {scopes : List (Table Bool)} {name : String}

theorem word_old : ρ.word ρ.old = ρ.new := if_pos rfl

theorem word_new : ρ.word ρ.new = ρ.old := by
  rw [← word_old, word_word]

/-- In a scope without the new name, another name has its own value or none. -/
theorem get?_exchanged {scope : Table Bool} (hnew : scope.get? ρ.new = none) (hname : name ≠ ρ.new)
    (mark m : Bool) :
    (scope.relabel (ρ.image mark)).get? (ρ.image m name) =
      if mark = m ∨ name ≠ ρ.old then scope.get? name else none := by
  by_cases hmark : mark = m
  · subst hmark
    rw [if_pos (.inl rfl), Table.get?_relabel (image_injective _)]
  · by_cases hold : name = ρ.old
    · have hother : ρ.image m ρ.old = ρ.image mark ρ.new := by
        cases mark with
        | true =>
          obtain rfl : m = false := by simpa using hmark
          exact word_new.symm
        | false =>
          obtain rfl : m = true := by simpa using hmark
          exact word_old
      rw [if_neg (by simp [hmark, hold]), hold, hother, Table.get?_relabel (image_injective mark),
        hnew]
    · rw [if_pos (.inr hold), image_of_ne hold hname, ← image_of_ne hold hname mark,
        Table.get?_relabel (image_injective _), image_of_ne hold hname]

/-- A name is found where it was, if the scope it is in is marked as the name is. -/
theorem distance?_scopes {m : Bool} (hlen : marks.length = scopes.length)
    (hnew : ∀ scope ∈ scopes, scope.get? ρ.new = none) (hname : name ≠ ρ.new)
    (hm : ∀ d, Scope.distance? scopes name = some d → marks[d]? = some m) :
    Scope.distance? (ρ.scopes marks scopes) (ρ.image m name) = Scope.distance? scopes name := by
  induction scopes generalizing marks with
  | nil =>
    rw [Renaming.scopes, List.zipWith_nil_right]
    rfl
  | cons scope outer ih =>
    obtain ⟨mark, rest, rfl⟩ := List.exists_cons_of_length_eq_add_one hlen
    have hget := get?_exchanged (hnew scope (by simp)) hname mark m
    have htail : ∀ d, Scope.distance? outer name = some d → scope.get? name ≠ some true →
        rest[d]? = some m := by
      intro d hd hne
      have := hm (d + 1) (by simpa [Scope.distance?, List.findIdx?_cons, hne] using hd)
      simpa using this
    rw [Renaming.scopes, List.zipWith_cons_cons]
    simp only [Scope.distance?, List.findIdx?_cons] at hm ih htail ⊢
    by_cases hhere : scope.get? name = some true
    · have hmark : mark = m := by
        simpa using hm 0 (by simp [hhere])
      rw [if_pos (Or.inl hmark), hhere] at hget
      rw [hget, hhere]
      rfl
    · have hnone : ((scope.relabel (ρ.image mark)).get? (ρ.image m name) == some true) = false := by
        rw [hget]
        split
        · simpa using hhere
        · rfl
      have hnot : (scope.get? name == some true) = false := by simpa using hhere
      rw [hnone, hnot]
      simp only [Bool.false_eq_true, if_false]
      rw [← ih (by simpa using hlen) (fun s hs => hnew s (by simp [hs]))
        fun d hd => htail d hd hhere]
      rfl

/-- A name that is found nowhere is not more often under way. -/
theorem initializing_scopes (hlen : marks.length = scopes.length)
    (hnew : ∀ scope ∈ scopes, scope.get? ρ.new = none) (hname : name ≠ ρ.new)
    (h : Scope.initializing scopes name = false) :
    Scope.initializing (ρ.scopes marks scopes) name = false := by
  induction scopes generalizing marks with
  | nil =>
    rw [Renaming.scopes, List.zipWith_nil_right]
    rfl
  | cons scope outer ih =>
    obtain ⟨mark, rest, rfl⟩ := List.exists_cons_of_length_eq_add_one hlen
    have hget := get?_exchanged (hnew scope (by simp)) hname mark false
    rw [image_false] at hget
    simp only [Scope.initializing, List.any_cons, Bool.or_eq_false_iff] at h
    have hrest : Scope.initializing (ρ.scopes rest outer) name = false :=
      ih (by simpa using hlen) (fun s hs => hnew s (by simp [hs])) h.2
    rw [Renaming.scopes, List.zipWith_cons_cons]
    simp only [Scope.initializing, List.any_cons, Bool.or_eq_false_iff]
    refine ⟨?_, hrest⟩
    rw [hget]
    split
    · exact h.1
    · rfl

end Renaming

/-- The distance of a reference is noted, and its name is not the new one. -/
structure Renaming.Knows (ρ : Renaming) (σ : Site) : Prop where
  noted : ρ.notes σ.use.id = σ.distance?
  other : σ.use.name.lexeme ≠ ρ.new

/-- Marks of the scopes around a place, none of which has the new name. -/
structure Renaming.Over (ρ : Renaming) (Γ : Context) (marks : List Bool) : Prop where
  length : marks.length = Γ.length
  new : ∀ layer ∈ Γ, layer.names.get? ρ.new = none

namespace Renaming.Over

variable {ρ : Renaming} {Γ : Context} {marks : List Bool}

theorem outside : ρ.Over [] [] := ⟨rfl, fun _ h => by cases h⟩

theorem mark (h : ρ.Over Γ marks) {name : String} (hn : name ≠ ρ.new) (defined : Bool) :
    ρ.Over (Γ.mark name defined) marks := by
  cases Γ with
  | nil => exact h
  | cons layer outer =>
    refine ⟨h.length, fun l hl => ?_⟩
    rcases List.mem_cons.1 hl with rfl | hl
    · simp [hn, h.new layer (by simp)]
    · exact h.new l (by simp [hl])

theorem enter (h : ρ.Over Γ marks) {name : String} (hn : name ≠ ρ.new) :
    ρ.Over (Γ.enter name) marks := (h.mark hn false).mark hn true

theorem inside (h : ρ.Over Γ marks) (mark : Bool) {layer : Layer}
    (hl : layer.names.get? ρ.new = none) : ρ.Over (layer :: Γ) (mark :: marks) := by
  refine ⟨congrArg (· + 1) h.length, fun l hmem => ?_⟩
  rcases List.mem_cons.1 hmem with rfl | hmem
  · exact hl
  · exact h.new l hmem

/-- A class has none of the names that are exchanged, so its scopes may have marks of their own. -/
theorem inClass (h : ρ.Over Γ marks) (declaration : Stmt) (derived : Bool) :
    ρ.Over (Γ.inClass declaration derived) (Renaming.inClass derived marks) := by
  have hthis : Table.get? [("this", true)] ρ.new = none := by
    simp [Table.get?, Ne.symm ρ.new_plain.1]
  have hsuper : Table.get? [("super", true)] ρ.new = none := by
    simp [Table.get?, Ne.symm ρ.new_plain.2]
  cases derived with
  | false => exact h.inside false hthis
  | true =>
    have hinner : ρ.Over (⟨.super declaration, [("super", true)]⟩ :: Γ) (false :: marks) :=
      h.inside false hsuper
    exact hinner.inside false hthis

theorem length_scopes (h : ρ.Over Γ marks) : marks.length = Γ.scopes.length := by
  rw [Context.scopes, List.length_map, h.length]

theorem new_scopes (h : ρ.Over Γ marks) : ∀ scope ∈ Γ.scopes, scope.get? ρ.new = none := by
  intro scope hscope
  obtain ⟨layer, hlayer, rfl⟩ := List.mem_map.1 hscope
  exact h.new layer hlayer

/-- A reference with its new name is as far from its variable as before. -/
theorem distance? (h : ρ.Over Γ marks) {u : Use} (hu : ρ.Knows ⟨Γ, u⟩) :
    Scope.distance? (ρ.scopes marks Γ.scopes) (ρ.use marks u).name.lexeme =
      Scope.distance? Γ.scopes u.name.lexeme := by
  refine distance?_scopes h.length_scopes h.new_scopes hu.other fun d hd => ?_
  have hlt : d < marks.length := by
    rw [h.length_scopes]
    exact (List.findIdx?_eq_some_iff_getElem.1 hd).1
  have hnoted : ρ.notes u.id = some d := hu.noted.trans hd
  rw [List.getElem?_eq_getElem hlt, marked, hnoted, Option.bind_some,
    List.getElem?_eq_getElem hlt, Option.getD_some]

/-- A name that is not found stays. -/
theorem lexeme_of_distance? {u : Use} (hu : ρ.Knows ⟨Γ, u⟩)
    (hd : Scope.distance? Γ.scopes u.name.lexeme = none) : (ρ.use marks u).name = u.name := by
  have hnoted : ρ.notes u.id = none := hu.noted.trans hd
  rw [Renaming.use, marked, hnoted]
  rfl

end Renaming.Over

namespace Scope

def Walk.exchange (ρ : Renaming) (marks : List Bool) (w : Walk) : Walk :=
  { w with scopes := ρ.scopes marks w.scopes }

/-- Where a step finds no fault, the other step does the same with exchanged names, and `K` holds. -/
structure Tracks (ρ : Renaming) (fam : Family) (Γ : Context) (marks : List Bool)
    (act act' : Resolve Unit) (sites : List Site) (Γ' : Context) (K : Prop) : Prop
    extends Visits fam Γ act sites Γ' where
  tracks : ∀ w, w.scopes = Γ.scopes → w.family = fam → (walked act w).faults = [] →
    K ∧ walked act' (w.exchange ρ marks) = (walked act w).exchange ρ marks

variable {ρ : Renaming} {fam : Family} {Γ Γ₁ Γ₂ : Context} {marks : List Bool}
  {a a' b b' : Resolve Unit} {sites sites' : List Site} {us vs : List Use} {K K' : Prop}

namespace Tracks

theorem pure (hK : K) : Tracks ρ fam Γ marks (pure ()) (pure ()) [] Γ K :=
  ⟨.pure, fun _ _ _ _ => ⟨hK, rfl⟩⟩

/-- Two steps that find the same under exchanged names, one after the other. -/
theorem seq (ha : Tracks ρ fam Γ marks a a' sites Γ₁ K)
    (hb : Tracks ρ fam Γ₁ marks b b' sites' Γ₂ K') :
    Tracks ρ fam Γ marks (do a; b) (do a'; b') (sites ++ sites') Γ₂ (K ∧ K') := by
  refine ⟨ha.toVisits.seq hb.toVisits, fun w hs hf h => ?_⟩
  rw [walked_bind] at h ⊢
  have hclean := hb.clean _ h
  obtain ⟨hs₁, hf₁, -⟩ := ha.spec w hs hf hclean
  obtain ⟨hK, ha'⟩ := ha.tracks w hs hf hclean
  obtain ⟨hK', hb'⟩ := hb.tracks _ hs₁ hf₁ h
  rw [walked_bind, ha', hb']
  exact ⟨⟨hK, hK'⟩, rfl⟩

theorem mono (h : Tracks ρ fam Γ marks a a' sites Γ₁ K) (hK : K → K') :
    Tracks ρ fam Γ marks a a' sites Γ₁ K' :=
  ⟨h.toVisits, fun w hs hf hc => (h.tracks w hs hf hc).imp_left hK⟩

/-- The last step has all the say. -/
theorem after (hb : Tracks ρ fam Γ₁ marks b b' sites' Γ₂ K)
    (ha : Tracks ρ fam Γ marks a a' sites Γ₁ True) :
    Tracks ρ fam Γ marks (do a; b) (do a'; b') (sites ++ sites') Γ₂ K :=
  (ha.seq hb).mono And.right

/-- A step that finds the same in front of one that needs to find no fault. -/
theorem before (ha : Tracks ρ fam Γ marks a a' sites Γ₁ K)
    (hb : Tracks ρ fam Γ₁ marks b b' sites' Γ₂ True) :
    Tracks ρ fam Γ marks (do a; b) (do a'; b') (sites ++ sites') Γ₂ K :=
  (ha.seq hb).mono And.left

theorem get {f f' : Walk → Resolve Unit}
    (h : ∀ w, Tracks ρ fam Γ marks (f w) (f' (w.exchange ρ marks)) sites Γ₁ K) :
    Tracks ρ fam Γ marks (do f (← get)) (do f' (← get)) sites Γ₁ K :=
  ⟨.get fun w => (h w).toVisits, fun w hs hf hc => (h w).tracks w hs hf hc⟩

/-- References of both steps at one place. -/
theorem also (ha : Tracks ρ fam Γ marks a a' (sitesOf Γ us) Γ True)
    (hb : Tracks ρ fam Γ marks b b' (sitesOf Γ vs) Γ True) :
    Tracks ρ fam Γ marks (do a; b) (do a'; b') (sitesOf Γ (us ++ vs)) Γ True := by
  rw [sitesOf_append]
  exact hb.after ha

end Tracks

/-- A step that reports is never without a fault. -/
theorem tracks_report (token token' : Token) (fault : ScopeFault) :
    Tracks ρ fam Γ marks (report token fault) (report token' fault) sites Γ₁ K :=
  ⟨visits_report token fault, fun w _ _ h => absurd h (faults_report token fault w)⟩

theorem tracks_declare (h : ρ.Over Γ marks) (name : Token) :
    Tracks ρ fam Γ marks (declare name) (declare (ρ.declared marks name)) []
      (Γ.mark name.lexeme false) True := by
  refine ⟨visits_declare name, fun w hs _ hclean => ⟨trivial, ?_⟩⟩
  rw [walked_declare] at hclean ⊢
  cases Γ with
  | nil =>
    obtain rfl : marks = [] := List.eq_nil_of_length_eq_zero h.length
    have hs' : w.scopes = [] := hs
    rw [walked_declare, hs', Walk.exchange, hs']
    rfl
  | cons layer outer =>
    obtain ⟨mark, rest, rfl⟩ := List.exists_cons_of_length_eq_add_one h.length
    have hs' : w.scopes = layer.names :: Context.scopes outer := hs
    have hget : (layer.names.relabel (ρ.image mark)).has (ρ.image mark name.lexeme) =
        layer.names.has name.lexeme := by
      rw [Table.has, Table.has, Table.get?_relabel (Renaming.image_injective mark)]
    rw [hs'] at hclean
    rw [walked_declare, hs', Walk.exchange, hs']
    dsimp only [Renaming.scopes, List.zipWith_cons_cons] at hclean ⊢
    have hnew : ¬ layer.names.has name.lexeme = true := by
      intro hhas
      rw [if_pos hhas] at hclean
      simp at hclean
    have hnew' : ¬ (layer.names.relabel (ρ.image mark)).has
        (ρ.declared (mark :: rest) name).lexeme = true := by
      rw [show (ρ.declared (mark :: rest) name).lexeme = ρ.image mark name.lexeme from rfl, hget]
      exact hnew
    rw [if_neg hnew, if_neg hnew']
    dsimp only [Walk.exchange, Renaming.scopes, List.zipWith_cons_cons]
    rw [← Table.put_relabel (Renaming.image_injective mark)]
    rfl

theorem tracks_define (h : ρ.Over Γ marks) (name : Token) :
    Tracks ρ fam Γ marks (define name) (define (ρ.declared marks name)) []
      (Γ.mark name.lexeme true) True := by
  refine ⟨visits_define name, fun w hs _ _ => ⟨trivial, ?_⟩⟩
  rw [walked_define, walked_define]
  cases Γ with
  | nil =>
    have hs' : w.scopes = [] := hs
    rw [hs', Walk.exchange, hs', Renaming.scopes, List.zipWith_nil_right]
  | cons layer outer =>
    obtain ⟨mark, rest, rfl⟩ := List.exists_cons_of_length_eq_add_one h.length
    have hs' : w.scopes = layer.names :: Context.scopes outer := hs
    rw [hs', Walk.exchange, hs']
    dsimp only [Walk.exchange, Renaming.scopes, List.zipWith_cons_cons]
    rw [← Table.put_relabel (Renaming.image_injective mark)]
    rfl

/-- A reference that is known finds its variable at the same distance under its other name. -/
theorem distance?_exchange (h : ρ.Over Γ marks) {u : Use} (hu : ρ.Knows ⟨Γ, u⟩) {w : Walk}
    (hs : w.scopes = Γ.scopes) :
    distance? (w.exchange ρ marks).scopes (ρ.use marks u).name.lexeme =
      distance? w.scopes u.name.lexeme := by
  rw [Walk.exchange, hs]
  exact h.distance? hu

/-- So the same note is made for it. -/
theorem located_exchange (h : ρ.Over Γ marks) {u : Use} (hu : ρ.Knows ⟨Γ, u⟩) {w : Walk}
    (hs : w.scopes = Γ.scopes) :
    ((locate (ρ.use marks u).id (ρ.use marks u).name).run (w.exchange ρ marks)).2 =
      ((locate u.id u.name).run w).2.exchange ρ marks := by
  rw [walked_locate, walked_locate, distance?_exchange h hu hs]
  cases distance? w.scopes u.name.lexeme <;> rfl

theorem tracks_locate (h : ρ.Over Γ marks) {u : Use} (hu : ρ.Knows ⟨Γ, u⟩)
    (hallowed : ∀ σ : Site, σ = ⟨Γ, u⟩ → σ.Allowed) :
    Tracks ρ fam Γ marks (discard (locate u.id u.name))
      (discard (locate (ρ.use marks u).id (ρ.use marks u).name)) [⟨Γ, u⟩] Γ True :=
  ⟨visits_locate u hallowed, fun _ hs _ _ => ⟨trivial, located_exchange h hu hs⟩⟩

theorem tracks_read (h : ρ.Over Γ marks) (id : ExprId) (name : Token)
    (hu : ρ.Knows ⟨Γ, ⟨.variable, id, name⟩⟩) :
    Tracks ρ fam Γ marks (read id name)
      (read (ρ.use marks ⟨.variable, id, name⟩).id (ρ.use marks ⟨.variable, id, name⟩).name)
      [⟨Γ, ⟨.variable, id, name⟩⟩] Γ True := by
  refine ⟨visits_read id name, fun w hs _ hclean => ⟨trivial, ?_⟩⟩
  rw [walked_read] at hclean ⊢
  have hfine : ¬ ((distance? w.scopes name.lexeme).isNone ∧
      (!w.globals.contains name.lexeme && initializing w.scopes name.lexeme) = true) := by
    intro hbad
    rw [if_pos hbad] at hclean
    simp at hclean
  have hfine' : ¬ ((distance? w.scopes name.lexeme).isNone ∧
      (!w.globals.contains (ρ.use marks ⟨.variable, id, name⟩).name.lexeme &&
        initializing (w.exchange ρ marks).scopes
          (ρ.use marks ⟨.variable, id, name⟩).name.lexeme) = true) := by
    rintro ⟨hnone, hbad⟩
    have hnone' := Option.isNone_iff_eq_none.1 hnone
    rw [hs] at hnone'
    rw [Renaming.Over.lexeme_of_distance? hu hnone', Bool.and_eq_true] at hbad
    refine hfine ⟨hnone, ?_⟩
    rw [Bool.and_eq_true]
    refine ⟨hbad.1, ?_⟩
    by_contra hnot
    rw [Bool.not_eq_true, hs] at hnot
    have hoff := Renaming.initializing_scopes h.length_scopes h.new_scopes hu.other hnot
    rw [Walk.exchange, hs] at hbad
    exact Bool.false_ne_true (hoff.symm.trans hbad.2)
  rw [walked_read, if_neg hfine, distance?_exchange h hu hs]
  refine (if_neg hfine').trans ?_
  exact located_exchange h hu hs

theorem tracks_write (h : ρ.Over Γ marks) (id : ExprId) (name : Token)
    (hu : ρ.Knows ⟨Γ, ⟨.variable, id, name⟩⟩) :
    Tracks ρ fam Γ marks (write id name)
      (write (ρ.use marks ⟨.variable, id, name⟩).id (ρ.use marks ⟨.variable, id, name⟩).name)
      [⟨Γ, ⟨.variable, id, name⟩⟩] Γ True := by
  refine ⟨visits_write id name, fun w hs _ _ => ⟨trivial, ?_⟩⟩
  have hempty : (w.exchange ρ marks).scopes.isEmpty = w.scopes.isEmpty := by
    have hlen : (w.exchange ρ marks).scopes.length = w.scopes.length := by
      rw [Walk.exchange, Renaming.scopes, List.length_zipWith, hs, ← h.length_scopes, Nat.min_self]
    rw [Bool.eq_iff_iff, List.isEmpty_iff_length_eq_zero, List.isEmpty_iff_length_eq_zero, hlen]
  rw [walked_write, walked_write, distance?_exchange h hu hs, hempty]
  by_cases hglobal : (distance? w.scopes name.lexeme).isNone ∧ w.scopes.isEmpty
  · have hnone := Option.isNone_iff_eq_none.1 hglobal.1
    rw [hs] at hnone
    rw [if_pos hglobal, if_pos hglobal, Renaming.Over.lexeme_of_distance? hu hnone]
    rfl
  · rw [if_neg hglobal, if_neg hglobal]
    exact located_exchange h hu hs

theorem tracks_this (h : ρ.Over Γ marks) (hΓ : Γ.family = fam) (id : ExprId) (keyword : Token)
    (hu : ρ.Knows ⟨Γ, ⟨.this, id, keyword⟩⟩) :
    Tracks ρ fam Γ marks (expr (.this id keyword))
      (expr ((Expr.this id keyword).turn (ρ.use marks))) [⟨Γ, ⟨.this, id, keyword⟩⟩] Γ True := by
  refine ⟨visits_this hΓ id keyword, fun w hs _ hclean => ⟨trivial, ?_⟩⟩
  rw [Expr.turn, walked_this]
  rw [walked_this] at hclean ⊢
  by_cases hnone : w.family = .none
  · rw [if_pos hnone] at hclean
    exact absurd hclean (faults_report _ _ w)
  · have hnone' : ¬ (w.exchange ρ marks).family = .none := hnone
    rw [if_neg hnone, if_neg hnone']
    exact located_exchange h hu hs

theorem tracks_super (h : ρ.Over Γ marks) (hΓ : Γ.family = fam) (id : ExprId)
    (keyword method : Token) (hu : ρ.Knows ⟨Γ, ⟨.super, id, keyword⟩⟩) :
    Tracks ρ fam Γ marks (expr (.super id keyword method))
      (expr ((Expr.super id keyword method).turn (ρ.use marks))) [⟨Γ, ⟨.super, id, keyword⟩⟩] Γ
      True := by
  refine ⟨visits_super hΓ id keyword method, fun w hs _ hclean => ⟨trivial, ?_⟩⟩
  rw [Expr.turn, walked_super]
  rw [walked_super] at hclean ⊢
  rw [show (w.exchange ρ marks).family = w.family from rfl]
  cases hfamily : w.family with
  | none =>
    rw [hfamily] at hclean
    exact absurd hclean (faults_report _ _ w)
  | root =>
    rw [hfamily] at hclean
    exact absurd hclean (faults_report _ _ w)
  | derived => exact located_exchange h hu hs

mutual

theorem tracks_expr (h : ρ.Over Γ marks) (hΓ : Γ.family = fam) :
    ∀ e : Expr, (∀ u ∈ e.uses, ρ.Knows ⟨Γ, u⟩) →
      Tracks ρ fam Γ marks (expr e) (expr (e.turn (ρ.use marks))) (sitesOf Γ e.uses) Γ True
  | .literal _, _ => .pure trivial
  | .group inner, hu => by
    rw [Expr.turn]
    exact tracks_expr h hΓ inner hu
  | .unary _ operand, hu => by
    rw [Expr.turn]
    exact tracks_expr h hΓ operand hu
  | .binary left _ right, hu => by
    obtain ⟨hl, hr⟩ := List.forall_mem_append.1 hu
    rw [Expr.turn]
    exact (tracks_expr h hΓ left hl).also (tracks_expr h hΓ right hr)
  | .logical left _ right, hu => by
    obtain ⟨hl, hr⟩ := List.forall_mem_append.1 hu
    rw [Expr.turn]
    exact (tracks_expr h hΓ left hl).also (tracks_expr h hΓ right hr)
  | .ternary condition whenTrue whenFalse, hu => by
    obtain ⟨hc, hu⟩ := List.forall_mem_append.1 hu
    obtain ⟨ht, hf⟩ := List.forall_mem_append.1 hu
    rw [Expr.turn]
    exact (tracks_expr h hΓ condition hc).also
      ((tracks_expr h hΓ whenTrue ht).also (tracks_expr h hΓ whenFalse hf))
  | .comma items, hu => by
    rw [Expr.turn]
    exact tracks_exprs h hΓ items hu
  | .var id name, hu => by
    rw [Expr.turn]
    exact tracks_read h id name (hu _ (List.mem_singleton_self _))
  | .assign id name value, hu => by
    obtain ⟨hv, hu⟩ := List.forall_mem_append.1 hu
    rw [Expr.turn]
    exact (tracks_expr h hΓ value hv).also
      (tracks_write h id name (hu _ (List.mem_singleton_self _)))
  | .compoundAssign id name _ value, hu => by
    obtain ⟨hv, hu⟩ := List.forall_mem_append.1 hu
    rw [Expr.turn]
    exact (tracks_expr h hΓ value hv).also
      (tracks_locate h (hu ⟨.variable, id, name⟩ (List.mem_singleton_self _))
        (by rintro _ rfl; trivial))
  | .update _ target _, hu => by
    rw [Expr.turn]
    exact tracks_expr h hΓ target hu
  | .call callee _ arguments, hu => by
    obtain ⟨hc, ha⟩ := List.forall_mem_append.1 hu
    rw [Expr.turn]
    exact (tracks_expr h hΓ callee hc).also (tracks_exprs h hΓ arguments ha)
  | .get object _, hu => by
    rw [Expr.turn]
    exact tracks_expr h hΓ object hu
  | .set object _ value, hu => by
    obtain ⟨hv, ho⟩ := List.forall_mem_append.1 hu
    rw [Expr.turn]
    exact (tracks_expr h hΓ value hv).also (tracks_expr h hΓ object ho)
  | .compoundSet object _ _ value, hu => by
    obtain ⟨hv, ho⟩ := List.forall_mem_append.1 hu
    rw [Expr.turn]
    exact (tracks_expr h hΓ value hv).also (tracks_expr h hΓ object ho)
  | .this id keyword, hu => tracks_this h hΓ id keyword (hu _ (List.mem_singleton_self _))
  | .super id keyword method, hu =>
    tracks_super h hΓ id keyword method (hu _ (List.mem_singleton_self _))

theorem tracks_exprs (h : ρ.Over Γ marks) (hΓ : Γ.family = fam) :
    ∀ es : List Expr, (∀ u ∈ Expr.usesAll es, ρ.Knows ⟨Γ, u⟩) →
      Tracks ρ fam Γ marks (exprs es) (exprs (Expr.turnAll (ρ.use marks) es))
        (sitesOf Γ (Expr.usesAll es)) Γ True
  | [], _ => .pure trivial
  | e :: es, hu => by
    obtain ⟨he, hes⟩ := List.forall_mem_append.1 hu
    rw [Expr.turnAll]
    exact (tracks_expr h hΓ e he).also (tracks_exprs h hΓ es hes)

end

/-- References that stand inside the same scopes. -/
theorem knows_uses (h : ∀ σ ∈ sitesOf Γ us, ρ.Knows σ) : ∀ u ∈ us, ρ.Knows ⟨Γ, u⟩ :=
  fun _ hu => h _ (List.mem_map_of_mem hu)

theorem tracks_expr? (h : ρ.Over Γ marks) (hΓ : Γ.family = fam) (o : Option Expr)
    (hu : ∀ σ ∈ sitesOf Γ (Expr.uses? o), ρ.Knows σ) :
    Tracks ρ fam Γ marks (expr? o) (expr? (o.map (Expr.turn (ρ.use marks))))
      (sitesOf Γ (Expr.uses? o)) Γ True := by
  cases o with
  | none => exact .pure trivial
  | some e => exact tracks_expr h hΓ e (knows_uses hu)

end Scope

end Scriptling
