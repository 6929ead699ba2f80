import Scriptling.Proofs.ExchangeStatements
import Scriptling.Proofs.Refusal

namespace Scriptling

variable {ρ : Renaming} {s : Session} {source : String} {ss : List Stmt}

/-- The same word at the same place. -/
def Token.isAt (t u : Token) : Bool := t.lexeme == u.lexeme && decide (t.place = u.place)

def Stmt.isVarAt (t : Token) : Stmt → Bool
  | .var name _ => name.isAt t
  | _ => false

/-- Is a variable or a parameter declared by the token in the scope itself? -/
def Opener.declares (t : Token) : Opener → Bool
  | .block body => body.any (Stmt.isVarAt t)
  | .function decl => decl.params.any (fun p => p.name.isAt t) || decl.body.any (Stmt.isVarAt t)
  | .this _ => false
  | .super _ => false

theorem Token.lexeme_of_isAt {t u : Token} (h : t.isAt u = true) : t.lexeme = u.lexeme := by
  rw [isAt, Bool.and_eq_true, beq_iff_eq] at h
  exact h.1

/-- A variable that is found by its token is declared by a statement of the list. -/
theorem Stmt.exists_var_of_isVarAt {t : Token} (h : ss.any (Stmt.isVarAt t) = true) :
    ∃ token initial, Stmt.var token initial ∈ ss ∧ token.lexeme = t.lexeme := by
  obtain ⟨s, hs, hat⟩ := List.any_eq_true.1 h
  cases s with
  | var token initial => exact ⟨token, initial, hs, Token.lexeme_of_isAt hat⟩
  | _ => cases hat

theorem Opener.binds_of_declares {t : Token} : ∀ o : Opener, o.declares t = true → o.Binds t.lexeme
  | .block _, h => Stmt.exists_var_of_isVarAt h
  | .function _, h => by
    rcases Bool.or_eq_true_iff.1 h with h | h
    · obtain ⟨p, hp, hat⟩ := List.any_eq_true.1 h
      exact .inl ⟨p, hp, Token.lexeme_of_isAt hat⟩
    · exact .inr (Stmt.exists_var_of_isVarAt h)

mutual

/-- What a program declares is spelled as a name. -/
theorem Stmt.plain_declarations : ∀ s : Stmt, s.Proper → ∀ t ∈ s.declarations, t.Plain
  | .expr _, _, _, ht => by cases ht
  | .var _ _, hp, _, ht => by
    rw [List.mem_singleton.1 ht]
    exact hp
  | .block body, hp, t, ht => Stmt.plain_declarationsAll body hp t ht
  | .ifThen _ whenTrue, hp, t, ht => Stmt.plain_declarations whenTrue hp.1 t ht
  | .ifElse _ whenTrue whenFalse, hp, t, ht => by
    rcases List.mem_append.1 ht with ht | ht
    · exact Stmt.plain_declarations whenTrue hp.1.1 t ht
    · exact Stmt.plain_declarations whenFalse hp.2.1 t ht
  | .while _ body, hp, t, ht => Stmt.plain_declarations body hp.1 t ht
  | .for _ _ body, hp, t, ht => Stmt.plain_declarations body hp.1 t ht
  | .function decl, hp, t, ht => by
    rcases List.mem_cons.1 ht with rfl | ht
    · exact hp.1
    · exact FunctionDecl.plain_declarations decl hp.2 t ht
  | .return _ _, _, _, ht => by cases ht
  | .break _, _, _, ht => by cases ht
  | .next _, _, _, ht => by cases ht
  | .class _ _ methods statics, hp, t, ht => by
    rcases List.mem_cons.1 ht with rfl | ht
    · exact hp.1
    · rcases List.mem_append.1 ht with ht | ht
      · exact FunctionDecl.plain_declarationsAll methods hp.2.1 t ht
      · exact FunctionDecl.plain_declarationsAll statics hp.2.2 t ht

theorem Stmt.plain_declarationsAll : ∀ ss : List Stmt, Stmt.ProperAll ss →
    ∀ t ∈ Stmt.declarationsAll ss, t.Plain
  | [], _, _, ht => by cases ht
  | s :: ss, hp, t, ht => by
    rcases List.mem_append.1 ht with ht | ht
    · exact Stmt.plain_declarations s hp.1 t ht
    · exact Stmt.plain_declarationsAll ss hp.2 t ht

theorem FunctionDecl.plain_declarations : ∀ d : FunctionDecl, d.Proper →
    ∀ t ∈ d.declarations, t.Plain
  | ⟨_, params, body⟩, hp, t, ht => by
    rcases List.mem_append.1 ht with ht | ht
    · obtain ⟨p, hmem, rfl⟩ := List.mem_map.1 ht
      exact hp.1 p hmem
    · exact Stmt.plain_declarationsAll body hp.2 t ht

/-- What methods declare has plain names. -/
theorem FunctionDecl.plain_declarationsAll : ∀ ds : List FunctionDecl, FunctionDecl.ProperAll ds →
    ∀ t ∈ FunctionDecl.declarationsAll ds, t.Plain
  | [], _, _, ht => by cases ht
  | d :: ds, hp, t, ht => by
    rcases List.mem_append.1 ht with ht | ht
    · exact FunctionDecl.plain_declarations d hp.1 t ht
    · exact FunctionDecl.plain_declarationsAll ds hp.2 t ht

end

/-- Stores with the same globals, classes and objects. In other frames two names may have changed
places, and in the bodies of functions. -/
structure Store.Renamed (ρ : Renaming) (s s' : Store) : Prop where
  globals : s'.frames[FrameId.globals]? = s.frames[FrameId.globals]?
  frames : ∀ f : FrameId, ∃ mark, s'.frames[f]? = s.frames[f]?.map fun frame : Frame =>
    { frame with bindings := frame.bindings.relabel (ρ.image mark) }
  closures : ∀ id : ClosureId, ∃ pick marks, s'.closures[id]? = s.closures[id]?.map fun c : Closure =>
    { c with decl := c.decl.rename ρ pick marks }
  classes : s'.classes = s.classes
  objects : s'.objects = s.objects

theorem Setting.Twins.renamed {S : Setting} {w : World} {s s' : Store} (h : S.Twins w s s') :
    s.Renamed S.toRenaming s' := by
  refine ⟨?_, fun f => ⟨_, h.frames.paired f⟩, fun id => ?_, h.classes.classes, h.classes.objects⟩
  · have hmark : w.exchanged .globals = false := by
      rw [World.exchanged, h.frames.globals]
      rfl
    rw [h.frames.paired, hmark, S.frame_false, Option.map_id, id]
  · cases hc : s.closures[id]? with
    | some c =>
      obtain ⟨t, -, -, hc'⟩ := h.closures.paired id c hc
      exact ⟨t.pick, t.marks, hc'⟩
    | none =>
      refine ⟨pickNone, [], Array.getElem?_eq_none ?_⟩
      rw [h.closures.size]
      exact Array.getElem?_eq_none_iff.1 hc

def Outcome.withStore (o : Outcome) (store : Store) : Outcome :=
  { o with session := { o.session with machine := { o.session.machine with store } } }

/-- The name `y` for the variable that the token declares. -/
def Setting.naming (t : Token) (ht : t.Plain) (y : String) (hy : y ≠ "this" ∧ y ≠ "super")
    (notes : ExprId → Option Nat) : Setting where
  old := t.lexeme
  new := y
  old_plain := ht
  new_plain := hy
  notes
  sites := fun _ => True

/-- A program that comes to run is accepted under the other name as well, and both runs end in
stores that differ in that name only. -/
theorem Session.Settled.renamed {P : Site → Prop} {w : World} (h : s.Settled P w)
    (hss : s.accepted? source = some ss) {t : Token} (ht : t ∈ Stmt.declarationsAll ss)
    {S : Setting} (hS : ∀ σ, S.sites σ) (hold : S.old = t.lexeme)
    (hnotes : ∀ id, S.notes id = (s.entered source ss).distances[id]?)
    (huses : ∀ u ∈ Stmt.usesAll ss, u.name.lexeme ≠ S.new)
    (hdeclarations : ∀ d ∈ Stmt.declarationsAll ss, d.lexeme ≠ S.new) (depth : Nat) :
    (resolve s.globalNames (Stmt.renameAll S.toRenaming (Opener.declares t) [] ss)).faults = [] ∧
    ∃ store, (s.read source).session.perform (.upTo depth)
        (Stmt.renameAll S.toRenaming (Opener.declares t) [] ss) =
          (s.run depth source).withStore store ∧
      (s.run depth source).session.machine.store.Renamed S.toRenaming store := by
  obtain ⟨hd, hclean⟩ := Session.accepted_delivered hss
  have hnoted := h.noteDistances hd.spread.le (resolve s.globalNames ss).distances
    fun id hid => hd.lookup_outside hid
  have hgood : ∀ σ ∈ Stmt.sitesAll [] ss, S.Good σ := by
    refine hd.good hclean (fun σ hσ => ?_) fun σ _ => hS σ
    refine (hnotes _).trans ((getElem?_notes _ s.machine.distances _).trans ?_)
    rw [h.unnoted _ (hd.site_within hσ).1, Option.or_none]
  have hknows : ∀ σ ∈ Stmt.sitesAll [] ss, S.toRenaming.Knows σ := fun σ hσ =>
    ⟨(hgood σ hσ).noted, huses _ (Stmt.uses_sitesAll ss [] ▸ List.mem_map_of_mem hσ)⟩
  obtain ⟨hkeeps, hfaults, hdistances⟩ := resolve_rename
    (fun o ho => hold ▸ Opener.binds_of_declares o ho) hd.proper hknows hdeclarations hclean
  have hmoves : S.Moves := fun heq => hdeclarations t ht (hold.symm.trans heq)
  have htwins : S.Twins w (s.entered source ss).store (s.entered source ss).store :=
    hnoted.twins.transport (Setting.idle_still _ _) fun σ hσ =>
      ⟨hS σ, (hnotes _).trans hσ.noted, hσ.spelled, hσ.formed, hσ.allowed⟩
  have hfits : S.FitsAll [] (Opener.declares t) [] ss :=
    ⟨hgood, hd.proper, hkeeps, .outside, fun hstill => absurd hmoves hstill⟩
  obtain ⟨w₁, store, -, hbeside, hran⟩ := (engine_upTo S depth).interpret_beside s.interactive hfits
    ⟨htwins, hnoted.current, fun id => (hnotes id).symm⟩
  have hrun : s.run depth source = _ := Session.runBy_accepted hss (.upTo depth)
  refine ⟨hfaults, store, ?_, ?_⟩
  · have hperform := Session.perform_clean (s := (s.read source).session) (.upTo depth) hfaults
    rw [show (s.read source).session.globalNames = s.globalNames from rfl, hdistances] at hperform
    rw [hperform, hrun]
    exact congrArg (Session.outcomeOf _) (hran w₁ w₁.le_refl)
  · rw [hrun]
    exact hbeside.twins.renamed

/-- Another name for a local variable or a parameter, one that the program does not have, makes no
difference. The program with it is accepted, and run from the same session it ends in the same way,
with the same reports and the same output, and leaves the same globals, classes and objects. -/
theorem name_immaterial (interactive : Bool) (input : List UInt8) (output : Output)
    (clock : Supply Int) (chances : Supply Nat) (depth : Nat) (before : List Ask)
    (source : String) {s : Session} {ss : List Stmt} {t : Token} {y : String}
    (hs : s = (Session.start interactive (.start input output clock chances)).asked (.upTo depth)
      before)
    (hss : s.accepted? source = some ss) (ht : t ∈ Stmt.declarationsAll ss)
    (hword : y ≠ "this" ∧ y ≠ "super") (huses : ∀ u ∈ Stmt.usesAll ss, u.name.lexeme ≠ y)
    (hdeclarations : ∀ d ∈ Stmt.declarationsAll ss, d.lexeme ≠ y) :
    ∃ ρ : Renaming, ρ.old = t.lexeme ∧ ρ.new = y ∧
      (∀ id, ρ.notes id = (s.entered source ss).distances[id]?) ∧
      (resolve s.globalNames (Stmt.renameAll ρ (Opener.declares t) [] ss)).faults = [] ∧
      ∃ store, (s.read source).session.perform (.upTo depth)
          (Stmt.renameAll ρ (Opener.declares t) [] ss) = (s.run depth source).withStore store ∧
        (s.run depth source).session.machine.store.Renamed ρ store := by
  obtain ⟨w, hsettled⟩ := Session.exists_settled interactive input output clock chances depth before
  rw [← hs] at hsettled
  obtain ⟨hd, -⟩ := Session.accepted_delivered hss
  have hplain := Stmt.plain_declarationsAll ss hd.proper t ht
  exact ⟨(Setting.naming t hplain y hword fun id => (s.entered source ss).distances[id]?).toRenaming,
    rfl, rfl, fun _ => rfl, hsettled.renamed hss ht (fun _ => trivial) rfl (fun _ => rfl) huses
      hdeclarations depth⟩

def blankSession : Session := .start false (.start [] .unlimited 0 0)

/-- A global, and in a block a variable of the same name whose initial value is the global's. -/
def shadowing : String :=
  "var x = 1; \x7b var x = x; func f() \x7b x = x + 1; return x; \x7d print(f()); \x7d"

def shadowingTree : List Stmt := (blankSession.accepted? shadowing).getD []

def innerVariable : Token := (Stmt.declarationsAll shadowingTree).getD 1 default

theorem innerVariable_plain : innerVariable.Plain := by
  unfold Token.Plain
  decide +kernel

def innerNaming : Renaming :=
  (Setting.naming innerVariable innerVariable_plain "y" (by decide) fun id =>
    (blankSession.entered shadowing shadowingTree).distances[id]?).toRenaming

/-- The references to the variable of the block follow it, the one to the global does not. -/
theorem name_immaterial_shadowing : ∃ ρ : Renaming,
    (Stmt.declarationsAll (Stmt.renameAll ρ (Opener.declares innerVariable) [] shadowingTree)).map
      Token.lexeme = ["x", "y", "f"] ∧
    (Stmt.usesAll (Stmt.renameAll ρ (Opener.declares innerVariable) [] shadowingTree)).map
      (fun u => u.name.lexeme) = ["x", "y", "y", "y", "print", "f"] ∧
    ∃ store, (blankSession.read shadowing).session.perform (.upTo 9)
        (Stmt.renameAll ρ (Opener.declares innerVariable) [] shadowingTree) =
          (blankSession.run 9 shadowing).withStore store := by
  have haccepted : (blankSession.accepted? shadowing).isSome = true := by decide +kernel
  have hss : blankSession.accepted? shadowing = some shadowingTree := by
    obtain ⟨ss, hss⟩ := Option.isSome_iff_exists.1 haccepted
    rw [shadowingTree, hss, Option.getD_some]
  have hinner : innerVariable ∈ Stmt.declarationsAll shadowingTree := by
    have hlength : 1 < (Stmt.declarationsAll shadowingTree).length := by decide +kernel
    rw [innerVariable, List.getD_eq_getElem?_getD, List.getElem?_eq_getElem hlength]
    exact List.getElem_mem hlength
  have hword : "y" ≠ "this" ∧ "y" ≠ "super" := by decide
  obtain ⟨ρ, hold, hnew, hnotes, -, store, hperform, -⟩ := name_immaterial false [] .unlimited 0 0 9
    [] shadowing rfl hss hinner hword (by decide +kernel) (by decide +kernel)
  have hρ : ρ = innerNaming := by
    obtain ⟨old, new, _, _, notes⟩ := ρ
    obtain rfl : old = innerVariable.lexeme := hold
    obtain rfl : new = "y" := hnew
    obtain rfl : notes = fun id => (blankSession.entered shadowing shadowingTree).distances[id]? :=
      funext hnotes
    rfl
  subst hρ
  exact ⟨_, by decide +kernel, by decide +kernel, store, hperform⟩

end Scriptling
