import Scriptling.Proofs.References

namespace Scriptling

variable {P : Site → Prop} {w : World} {s : Session} {source : String}

/-- A program whose names are resolved, and the session that its distances are noted in. -/
structure Resolved where
  session : Session
  statements : List Stmt

namespace Resolved

def walk (p : Resolved) : Scope.Walk := resolve p.session.globalNames p.statements

def visited (p : Resolved) : List Use := (tour p.session.globalNames p.statements).1

/-- The walk comes to no reference twice, and to each of them if it finds nothing to report. It notes
at most one distance for each that it comes to, under a number that nothing was noted under. -/
structure Orderly (p : Resolved) : Prop where
  recorded : (tour p.session.globalNames p.statements).2 = p.walk
  once : (p.visited.map Use.id).Nodup
  sublist : p.visited.Sublist (Stmt.usesAll p.statements)
  all : p.walk.faults = [] → p.visited = Stmt.usesAll p.statements
  noted : (p.walk.distances.map Prod.fst).reverse.Sublist (p.visited.map Use.id)
  unnoted : ∀ later id d earlier, p.walk.distances = later ++ (id, d) :: earlier →
    (p.session.noteDistances earlier).machine.distances[id]? = none

end Resolved

namespace Delivered

variable {lo hi : ExprId} {ss : List Stmt} (h : Delivered lo hi ss)
include h

theorem visited_nodup (globals : List String) : ((tour globals ss).1.map Use.id).Nodup :=
  ((tour_sublist globals ss).map Use.id).nodup h.spread.nodup

/-- At most one distance is noted under each number. -/
theorem noted_nodup (globals : List String) :
    ((resolve globals ss).distances.map Prod.fst).Nodup :=
  List.nodup_reverse.1 ((resolve_noted_sublist globals ss).nodup (h.visited_nodup globals))

end Delivered

namespace Session

/-- The source texts of a session, each with the session as it is before. -/
def moments (below : Below) : Session → List Turn → List (Session × String)
  | _, [] => []
  | s, t :: ts =>
    (s.supply t, t.source) :: moments below ((s.supply t).runBy below t.source).session ts

/-- The statements of the source texts that can be read, whether or not they come to run. -/
def trees (below : Below) (s : Session) (turns : List Turn) : List (List Stmt) :=
  (s.moments below turns).filterMap fun (s, source) => (s.read source).parsed.toOption

/-- The program of a source text in which scanning and reading find nothing to report. -/
def resolved? (s : Session) (source : String) : Option Resolved :=
  match (s.read source).parsed with
  | .error _ => none
  | .ok statements =>
    if (s.read source).lexReports.isEmpty then some ⟨(s.read source).session, statements⟩ else none

/-- The programs whose names are resolved, whether or not they are accepted. -/
def resolved (below : Below) (s : Session) (turns : List Turn) : List Resolved :=
  (s.moments below turns).filterMap fun (s, source) => s.resolved? source

variable {p : Resolved} {ss : List Stmt} {b : Below} {turns : List Turn}

/-- A source text is resolved exactly if it can be read without a lexical fault. -/
theorem resolved?_eq_some_iff : s.resolved? source = some p ↔
    (s.read source).parsed = .ok p.statements ∧ (s.read source).lexReports = [] ∧
      (s.read source).session = p.session := by
  obtain ⟨session, statements⟩ := p
  unfold resolved?
  cases (s.read source).parsed with
  | error reports => simp
  | ok ss =>
    dsimp only
    rw [Option.ite_none_right_eq_some, List.isEmpty_iff, Option.some_inj, Resolved.mk.injEq,
      Except.ok.injEq]
    tauto

theorem resolved?_of_accepted (h : s.accepted? source = some ss) :
    ∃ p, s.resolved? source = some p ∧ p.statements = ss ∧ p.walk.faults = [] := by
  obtain ⟨hparsed, hlex, hclean⟩ := accepted?_eq_some_iff.1 h
  exact ⟨⟨(s.read source).session, ss⟩, resolved?_eq_some_iff.2 ⟨hparsed, hlex, rfl⟩, rfl, hclean⟩

/-- The programs that come to run are those accepted at their moments. -/
theorem programs_eq (b : Below) (s : Session) (turns : List Turn) :
    s.programs b turns = (s.moments b turns).filterMap fun (s, source) => s.accepted? source := by
  induction turns generalizing s with
  | nil => rfl
  | cons t ts ih =>
    rw [programs, moments, List.filterMap_cons, ih]
    dsimp only
    cases (s.supply t).accepted? t.source <;> rfl

/-- The programs that come to run are those that are accepted of the resolved ones. -/
theorem resolved_of_programs (h : ss ∈ s.programs b turns) :
    ∃ p ∈ s.resolved b turns, p.statements = ss ∧ p.walk.faults = [] := by
  rw [programs_eq, List.mem_filterMap] at h
  obtain ⟨moment, hmoment, hss⟩ := h
  obtain ⟨p, hp, hss⟩ := resolved?_of_accepted hss
  exact ⟨p, List.mem_filterMap.2 ⟨moment, hmoment, hp⟩, hss⟩

theorem mem_trees (h : p ∈ s.resolved b turns) : p.statements ∈ s.trees b turns := by
  obtain ⟨moment, hmoment, hp⟩ := List.mem_filterMap.1 h
  refine List.mem_filterMap.2 ⟨moment, hmoment, ?_⟩
  dsimp only
  rw [(resolved?_eq_some_iff.1 hp).1]
  rfl

/-- Running a program takes no numbers beyond those that reading it took. -/
theorem nextId_runBy (b : Below) (s : Session) (source : String) :
    (s.runBy b source).session.nextId = (s.read source).session.nextId := by
  cases hparsed : (s.read source).parsed with
  | error reports => rw [runBy_unread b hparsed]
  | ok ss =>
    by_cases hlex : (s.read source).lexReports = []
    · rw [runBy_read b hparsed hlex]
      by_cases hclean : (resolve (s.read source).session.globalNames ss).faults = []
      · rw [perform_clean b hclean]
        rfl
      · rw [perform_faulty b hclean]
        rfl
    · rw [runBy_unscanned b hparsed hlex]

/-- All that is read in a session is numbered apart. -/
theorem spread_trees (b : Below) (s : Session) (turns : List Turn) :
    ∃ hi, Spread s.nextId hi ((s.trees b turns).flatMap Stmt.usesAll) := by
  induction turns generalizing s with
  | nil => exact ⟨s.nextId, .nil (Nat.le_refl _)⟩
  | cons t ts ih =>
    obtain ⟨hi, h⟩ := ih ((s.supply t).runBy b t.source).session
    rw [nextId_runBy] at h
    refine ⟨hi, ?_⟩
    rw [trees, moments, List.filterMap_cons]
    dsimp only
    cases hparsed : ((s.supply t).read t.source).parsed with
    | error reports => exact .skip (nextId_le_read (s.supply t) t.source) h
    | ok ss => exact (read_delivered hparsed).spread.append h

theorem resolved?_delivered (h : s.resolved? source = some p) :
    Delivered s.nextId p.session.nextId p.statements := by
  obtain ⟨hparsed, -, hsession⟩ := resolved?_eq_some_iff.1 h
  exact hsession ▸ read_delivered hparsed

/-- At every moment what is known of the session is settled. -/
theorem Settled.moments (h : s.Settled P w) (hP : ∀ σ, P σ) (depth : Nat) (turns : List Turn) :
    ∀ moment ∈ s.moments (.upTo depth) turns, ∃ w₁, moment.1.Settled P w₁ := by
  induction turns generalizing s w with
  | nil => exact nofun
  | cons t ts ih =>
    obtain ⟨w₁, -, hs, -⟩ := (h.supply t).runBy (fun S _ _ => engine_upTo S depth) t.source
      fun _ _ σ _ => hP σ
    exact List.forall_mem_cons.2 ⟨⟨w, h.supply t⟩, ih hs⟩

/-- A distance is noted under a number that nothing was noted under, in the session or before in the
same program. -/
theorem Settled.unnoted_before (h : s.Settled P w) (hp : s.resolved? source = some p)
    {later earlier : List (ExprId × Nat)} {id : ExprId} {d : Nat}
    (heq : p.walk.distances = later ++ (id, d) :: earlier) :
    (p.session.noteDistances earlier).machine.distances[id]? = none := by
  have hd := resolved?_delivered hp
  have hkeys : (p.walk.distances.map Prod.fst).Nodup := hd.noted_nodup _
  have hin : (id, d) ∈ p.walk.distances := by simp [heq]
  have hearlier : earlier.lookup id = none := by
    rw [heq, List.map_append, List.map_cons, List.nodup_append, List.nodup_cons] at hkeys
    rw [List.lookup_eq_none_iff]
    rintro ⟨i, k⟩ hm
    rw [bne_iff_ne]
    rintro rfl
    exact hkeys.2.1.1 (List.mem_map.2 ⟨(id, k), hm, rfl⟩)
  have hmachine : p.session.machine = s.machine := by
    rw [← (resolved?_eq_some_iff.1 hp).2.2]
    rfl
  refine (getElem?_notes earlier p.session.machine.distances id).trans ?_
  rw [hearlier, Option.none_or, hmachine]
  exact h.unnoted id (hd.note_within hin).1

theorem Settled.orderly (h : s.Settled P w) (hp : s.resolved? source = some p) : p.Orderly where
  recorded := tour_walk _ _
  once := (resolved?_delivered hp).visited_nodup _
  sublist := tour_sublist _ _
  all := tour_of_clean
  noted := resolve_noted_sublist _ _
  unnoted _ _ _ _ heq := h.unnoted_before hp heq

end Session

/-- The reference whose number an expression itself looks up. -/
def Expr.node? : Expr → Option Use
  | .super id keyword _ => some ⟨.super, id, keyword⟩
  | e => e.reference?

theorem Expr.node_mem {e : Expr} {u : Use} (h : e.node? = some u) : u ∈ e.uses := by
  unfold Expr.node? at h
  split at h
  · cases h
    exact List.mem_singleton_self _
  · exact Expr.reference_mem h

/-- From the moment it is evaluated, an expression of a program finds under its number the distance
that was noted for it when the program was resolved, and none if none was. -/
def Expr.FindsOwn (programs : List Resolved) (m : Machine) (e : Expr) : Prop :=
  ∀ u, e.node? = some u → ∃ p ∈ programs, p.walk.faults = [] ∧
    ∃ σ ∈ Stmt.sitesAll [] p.statements, σ.use = u ∧
      p.walk.distances.lookup u.id = σ.distance? ∧
      ∀ m₁, m.Reaches m₁ → m₁.distances[u.id]? = σ.distance?

/-- A node that is evaluated finds the note of its own site. -/
theorem Setting.findsOwn {S : Setting} {Γ : Context} {f : FrameId} {m : Machine} {e : Expr}
    {programs : List Resolved} {s' : Store}
    (hsites : ∀ σ, S.sites σ → ∃ p ∈ programs, p.walk.faults = [] ∧
      σ ∈ Stmt.sitesAll [] p.statements ∧ p.walk.distances.lookup σ.use.id = σ.distance?)
    (hs : S.Sees Γ e.uses) (hm : S.Beside w f m s') : e.FindsOwn programs m := by
  intro u hu
  have hgood : S.Good ⟨Γ, u⟩ := hs u (Expr.node_mem hu)
  obtain ⟨p, hp, hclean, hσ, hlookup⟩ := hsites _ hgood.member
  refine ⟨p, hp, hclean, _, hσ, rfl, hlookup, fun m₁ hreaches => ?_⟩
  rw [hreaches.distances_eq, hm.noted u.id]
  exact hgood.noted

/-- Node numbers are unique. In every session all nodes that refer to a variable, a receiver or a
superclass have different numbers, in all programs that were read, whether they came to run or not.
The scope walk comes to no node twice and over an accepted program to each of them, and never notes a
distance under a number that has one. Whenever such a node is evaluated, it finds its own distance or
none. -/
theorem node_numbers_unique (interactive : Bool) (input : List UInt8) (output : Output)
    (clock : Supply Int) (chances : Supply Nat) (depth : Nat) (turns : List Turn) :
    let s := Session.start interactive (.start input output clock chances)
    let trees := s.trees (.upTo depth) turns
    let programs := s.resolved (.upTo depth) turns
    ((trees.flatMap Stmt.usesAll).map Use.id).Nodup ∧
    (∀ p ∈ programs, p.statements ∈ trees ∧ p.Orderly) ∧
    Watch.Holds ⟨fun _ e m => e.FindsOwn programs m, fun _ _ _ => True⟩ depth s turns := by
  intro s trees programs
  have hstart : s.Settled (fun _ => True) .blank :=
    Session.settled_start _ interactive input output clock chances
  have hresolved : ∀ p ∈ programs, p.Orderly ∧ ∀ σ ∈ Stmt.sitesAll [] p.statements,
      p.walk.faults = [] → p.walk.distances.lookup σ.use.id = σ.distance? := by
    intro p hp
    obtain ⟨moment, hmoment, hp⟩ := List.mem_filterMap.1 hp
    obtain ⟨w, hsettled⟩ := hstart.moments (fun _ => trivial) depth turns moment hmoment
    exact ⟨hsettled.orderly hp, fun σ hσ hclean =>
      (Session.resolved?_delivered hp).lookup_site hclean hσ⟩
  have hfound : ∀ ss ∈ s.programs (.upTo depth) turns, ∀ σ ∈ Stmt.sitesAll [] ss,
      ∃ p ∈ programs, p.walk.faults = [] ∧ σ ∈ Stmt.sitesAll [] p.statements ∧
        p.walk.distances.lookup σ.use.id = σ.distance? := by
    intro ss hss σ hσ
    obtain ⟨p, hp, rfl, hclean⟩ := Session.resolved_of_programs hss
    exact ⟨p, hp, hclean, hσ, (hresolved p hp).2 σ hσ hclean⟩
  refine ⟨?_, fun p hp => ⟨Session.mem_trees hp, (hresolved p hp).1⟩, ?_⟩
  · obtain ⟨hi, hspread⟩ := Session.spread_trees (.upTo depth) s turns
    exact hspread.nodup
  · obtain ⟨-, hholds⟩ := Watch.exists_holds
      (W := fun _ => ⟨fun _ e m => e.FindsOwn programs m, fun _ _ _ => True⟩)
      interactive input output clock chances depth turns rfl fun S _ hsites =>
        ⟨fun hs _ hm _ _ => S.findsOwn (fun σ hσ => by
          obtain ⟨ss, hss, hmem⟩ := hsites σ hσ
          exact hfound ss hss σ hmem) hs hm, fun _ => trivial⟩
    exact hholds

/-- The numbers of targets that are dropped, of a program that cannot be read and of one that is not
accepted are not given again. -/
example : ((Session.start false (.start [] .unlimited 0 0)).trees (.upTo 9)
    (["a = b = 1; a += a;", "b = (a;", "this;", "print(a);"].map fun source =>
      ⟨source, false, [], .unlimited, 0, 0⟩)).map (fun ss => (Stmt.usesAll ss).map Use.id) =
    [[2, 3, 5, 6], [9], [10, 11]] := by decide +kernel

end Scriptling
