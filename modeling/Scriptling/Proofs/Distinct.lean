import Scriptling.Proofs.Exits
import Scriptling.Proofs.Misplaced
import Scriptling.Proofs.Sessions

namespace Scriptling

open Scope

mutual

/-- No scope inside the statement declares a name twice. The body of a loop declares none in the
scope around it, where every round would declare it again. -/
def Stmt.Distinct : Stmt → Prop
  | .expr _ | .var _ _ | .return _ _ | .break _ | .next _ => True
  | .block body => (Stmt.introducedAll body).Nodup ∧ Stmt.DistinctAll body
  | .ifThen _ whenTrue => whenTrue.Distinct
  | .ifElse _ whenTrue whenFalse => whenTrue.Distinct ∧ whenFalse.Distinct
  | .while _ body => body.introduced = [] ∧ body.Distinct
  | .for _ _ body => body.introduced = [] ∧ body.Distinct
  | .function decl => decl.Distinct
  | .class _ _ methods statics =>
    FunctionDecl.DistinctAll methods ∧ FunctionDecl.DistinctAll statics

def Stmt.DistinctAll : List Stmt → Prop
  | [] => True
  | s :: ss => s.Distinct ∧ Stmt.DistinctAll ss

/-- The parameters and the body of a function are one scope. -/
def FunctionDecl.Distinct : FunctionDecl → Prop
  | ⟨_, params, body⟩ =>
    (params.map (fun p => p.name.lexeme) ++ Stmt.introducedAll body).Nodup ∧ Stmt.DistinctAll body

def FunctionDecl.DistinctAll : List FunctionDecl → Prop
  | [] => True
  | d :: ds => d.Distinct ∧ FunctionDecl.DistinctAll ds

end

theorem FunctionDecl.distinctAll_iff {ds : List FunctionDecl} :
    FunctionDecl.DistinctAll ds ↔ ∀ d ∈ ds, d.Distinct := by
  induction ds with
  | nil => simp [FunctionDecl.DistinctAll]
  | cons d ds ih => simp [FunctionDecl.DistinctAll, ih]

theorem FunctionDecl.Distinct.body {d : FunctionDecl} (h : d.Distinct) :
    Stmt.DistinctAll d.body := by
  obtain ⟨name, params, body⟩ := d
  exact h.2

/-- Parameters and what the body declares have names of their own. -/
theorem FunctionDecl.Distinct.nodup {d : FunctionDecl} (h : d.Distinct) :
    (d.params.map (fun p => p.name.lexeme) ++ Stmt.introducedAll d.body).Nodup := by
  obtain ⟨name, params, body⟩ := d
  exact h.1

mutual

theorem Stmt.Distinct.decls {s : Stmt} (h : s.Distinct) : ∀ d ∈ s.decls, d.Distinct := by
  cases s with
  | block body => exact Stmt.distinct_declsAll h.2
  | ifThen condition whenTrue => exact Stmt.Distinct.decls (s := whenTrue) h
  | ifElse condition whenTrue whenFalse => exact List.forall_mem_append.2 ⟨h.1.decls, h.2.decls⟩
  | «while» condition body => exact h.2.decls
  | «for» condition increment body => exact h.2.decls
  | function decl =>
    intro d hd
    rw [List.mem_singleton.1 hd]
    exact h
  | «class» name superclass methods statics =>
    exact List.forall_mem_append.2
      ⟨FunctionDecl.distinctAll_iff.1 h.1, FunctionDecl.distinctAll_iff.1 h.2⟩
  | _ => nofun

theorem Stmt.distinct_declsAll {ss : List Stmt} (h : Stmt.DistinctAll ss) :
    ∀ d ∈ Stmt.declsAll ss, d.Distinct := by
  cases ss with
  | nil => nofun
  | cons s ss => exact List.forall_mem_append.2 ⟨h.1.decls, Stmt.distinct_declsAll h.2⟩

end

/-- What is not a declaration declares nothing in the scope around it. -/
theorem Stmt.introduced_eq_nil {s : Stmt} (hp : s.Proper) (hd : s.declares = false) :
    s.introduced = [] := by
  cases s with
  | ifThen condition whenTrue => exact Stmt.introduced_eq_nil (s := whenTrue) hp.1 hp.2
  | ifElse condition whenTrue whenFalse =>
    exact List.append_eq_nil_iff.2
      ⟨Stmt.introduced_eq_nil hp.1.1 hp.1.2, Stmt.introduced_eq_nil hp.2.1 hp.2.2⟩
  | «while» condition body => exact Stmt.introduced_eq_nil (s := body) hp.1 hp.2
  | «for» condition increment body => exact Stmt.introduced_eq_nil (s := body) hp.1 hp.2
  | var name initial => cases hd
  | function decl => cases hd
  | «class» name superclass methods statics => cases hd
  | _ => rfl

/-- With the names declared before them, names are declared once each. -/
def Spot.Once (S : Spot) (names : List String) : Prop :=
  ∀ earlier, S.earlier = some earlier → earlier.Nodup → (earlier ++ names).Nodup

namespace Spot.Once

variable {S : Spot} {names names' : List String}

theorem nil (S : Spot) : S.Once [] := by
  intro earlier _ hn
  rwa [List.append_nil]

theorem append (h : S.Once names) (h' : (S.declaring names).Once names') :
    S.Once (names ++ names') := by
  intro earlier hearlier hn
  rw [← List.append_assoc]
  exact h' _ (by rw [Spot.declaring, hearlier]; rfl) (h earlier hearlier hn)

/-- Nothing is declared before the first names of a scope. -/
theorem nodup (h : S.Once names) (hS : S.earlier = some []) : names.Nodup := h [] hS .nil

end Spot.Once

/-- A declaration of which nothing is reported is the first one of its name. -/
theorem Spot.once_declaration {S : Spot} {name : Token} {ps : List Placement}
    (h : reported (⟨S, .declaration name⟩ :: ps) = []) : S.Once [name.lexeme] := by
  intro earlier hearlier hn
  rw [reported_declaration, List.append_eq_nil_iff, View.repeated] at h
  have hnew : name.lexeme ∉ earlier := by
    intro hmem
    have hany : (viewOf S).earlier.any (·.contains name.lexeme) = true := by
      simp [viewOf, hearlier, hmem]
    rw [if_pos hany] at h
    cases h.1
  rw [List.nodup_append]
  refine ⟨hn, List.nodup_singleton _, fun x hx y hy heq => hnew ?_⟩
  rwa [← List.mem_singleton.1 hy, ← heq]

theorem Param.once {ps : List Param} {S : Spot} (h : reported (Param.placements S ps) = []) :
    S.Once (ps.map fun p => p.name.lexeme) := by
  induction ps generalizing S with
  | nil => exact .nil S
  | cons p ps ih =>
    rw [Param.placements, reported_append, List.append_eq_nil_iff] at h
    have hrest := h.2
    rw [reported_cons, List.append_eq_nil_iff] at hrest
    exact (Spot.once_declaration h.2).append (ih hrest.2)

mutual

/-- Where nothing is reported of a statement, no scope in it declares a name twice, and neither does
the scope that it stands in. -/
theorem Stmt.distinct_of_unreported : ∀ {s : Stmt} {S : Spot}, s.Proper →
    reported (s.placements S) = [] → s.Distinct ∧ S.Once s.introduced
  | .expr _, S, _, _ => ⟨trivial, .nil S⟩
  | .var _ _, S, _, h => ⟨trivial, Spot.once_declaration h⟩
  | .block body, S, hp, h => by
    have hproper : Stmt.ProperAll body := hp
    obtain ⟨hbody, honce⟩ := Stmt.distinctAll_of_unreported hproper h
    exact ⟨⟨honce.nodup rfl, hbody⟩, .nil S⟩
  | .ifThen _ whenTrue, S, hp, h => by
    rw [Stmt.placements, reported_append, List.append_eq_nil_iff] at h
    exact Stmt.distinct_of_unreported (s := whenTrue) hp.1 h.2
  | .ifElse _ _ _, S, hp, h => by
    rw [Stmt.placements, reported_append, reported_append, List.append_eq_nil_iff,
      List.append_eq_nil_iff] at h
    obtain ⟨htrue, honce⟩ := Stmt.distinct_of_unreported hp.1.1 h.2.1
    obtain ⟨hfalse, honce'⟩ := Stmt.distinct_of_unreported hp.2.1 h.2.2
    exact ⟨⟨htrue, hfalse⟩, honce.append honce'⟩
  | .while _ body, S, hp, h => by
    rw [Stmt.placements, reported_append, List.append_eq_nil_iff] at h
    obtain ⟨hbody, honce⟩ := Stmt.distinct_of_unreported hp.1 h.2
    exact ⟨⟨Stmt.introduced_eq_nil hp.1 hp.2, hbody⟩, honce⟩
  | .for _ _ body, S, hp, h => by
    rw [Stmt.placements, reported_append, reported_append, List.append_eq_nil_iff,
      List.append_eq_nil_iff] at h
    obtain ⟨hbody, honce⟩ := Stmt.distinct_of_unreported hp.1 h.2.1
    exact ⟨⟨Stmt.introduced_eq_nil hp.1 hp.2, hbody⟩, honce⟩
  | .function decl, S, hp, h => by
    have hdecl := h
    rw [Stmt.placements, reported_cons, List.append_eq_nil_iff] at hdecl
    exact ⟨FunctionDecl.distinct_of_unreported hp.2 rfl hdecl.2, Spot.once_declaration h⟩
  | .return _ _, S, _, _ => ⟨trivial, .nil S⟩
  | .break _, S, _, _ => ⟨trivial, .nil S⟩
  | .next _, S, _, _ => ⟨trivial, .nil S⟩
  | .class name superclass methods statics, S, hp, h => by
    have hmembers := h
    rw [Stmt.placements, reported_cons, reported_append, reported_append, List.append_eq_nil_iff,
      List.append_eq_nil_iff, List.append_eq_nil_iff] at hmembers
    obtain ⟨-, -, hmethods, hstatics⟩ := hmembers
    exact ⟨⟨FunctionDecl.distinctAll_of_unreported hp.2.1 hmethods,
      FunctionDecl.distinctAll_of_unreported hp.2.2 hstatics⟩, Spot.once_declaration h⟩

/-- Statements of which nothing is reported declare every name once in its scope. -/
theorem Stmt.distinctAll_of_unreported : ∀ {ss : List Stmt} {S : Spot}, Stmt.ProperAll ss →
    reported (Stmt.placementsAll S ss) = [] → Stmt.DistinctAll ss ∧ S.Once (Stmt.introducedAll ss)
  | [], S, _, _ => ⟨trivial, .nil S⟩
  | s :: ss, S, hp, h => by
    rw [Stmt.placementsAll, reported_append, List.append_eq_nil_iff] at h
    obtain ⟨hs, honce⟩ := Stmt.distinct_of_unreported hp.1 h.1
    obtain ⟨hss, honce'⟩ := Stmt.distinctAll_of_unreported hp.2 h.2
    exact ⟨⟨hs, hss⟩, honce.append honce'⟩

/-- So do functions, parameters included. -/
theorem FunctionDecl.distinct_of_unreported : ∀ {d : FunctionDecl} {S : Spot}, d.Proper →
    S.earlier = some [] → reported (d.placements S) = [] → d.Distinct
  | ⟨_, params, body⟩, S, hp, hS, h => by
    rw [FunctionDecl.placements, reported_append, List.append_eq_nil_iff] at h
    obtain ⟨hbody, honce⟩ := Stmt.distinctAll_of_unreported hp.2 h.2
    exact ⟨((Param.once h.1).append honce).nodup hS, hbody⟩

theorem FunctionDecl.distinctAll_of_unreported : ∀ {ds : List FunctionDecl} {S : Spot}
    {derived static : Bool}, FunctionDecl.ProperAll ds →
    reported (FunctionDecl.placementsAll S derived static ds) = [] → FunctionDecl.DistinctAll ds
  | [], _, _, _, _, _ => trivial
  | d :: ds, S, derived, static, hp, h => by
    rw [FunctionDecl.placementsAll, reported_append, List.append_eq_nil_iff] at h
    exact ⟨FunctionDecl.distinct_of_unreported hp.1 rfl h.1,
      FunctionDecl.distinctAll_of_unreported hp.2 h.2⟩

end

/-- A program that is accepted declares a name once in every local scope. -/
theorem Session.distinct_of_accepted {s : Session} {source : String} {ss : List Stmt}
    (h : s.accepted? source = some ss) : Stmt.DistinctAll ss := by
  obtain ⟨hparsed, -, hfaults⟩ := accepted?_eq_some_iff.1 h
  have hreports : (resolve s.globalNames ss).misplaced =
      reported (Stmt.placementsAll .outside ss) := misplaced_stmts ss (.start s.globalNames)
  rw [Walk.misplaced, hfaults] at hreports
  exact (Stmt.distinctAll_of_unreported (read_delivered hparsed).proper hreports.symm).1

end Scriptling
