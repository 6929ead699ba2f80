import Scriptling.Tree.Printer
import Scriptling.Proofs.Alpha
import Scriptling.Proofs.Statuses
import Scriptling.Proofs.TandemPrograms
import Scriptling.Proofs.UnrolledScopes

namespace Scriptling

variable {P : Pairing} {v : Overlay} {m m' : Machine} {s : Session} {source : String}
  {ss ss' : List Stmt}

/-- The same function but for loops that are written out in its body. It was made in a frame with
the same variables. -/
structure Closure.Unrolled (s s' : Store) (c c' : Closure) : Prop where
  decl : c.decl.Unrolls c'.decl
  initializer : c'.initializer = c.initializer
  scope : s'.bindings? c'.scope = s.bindings? c.scope

/-- Stores with the same globals, classes and objects, and the same functions but for loops that are
written out in their bodies. -/
structure Store.Unrolled (s s' : Store) : Prop where
  globals : s'.bindings? .globals = s.bindings? .globals
  count : s'.closures.size = s.closures.size
  closures : ∀ (id : ClosureId) (c : Closure), s.closures[id]? = some c →
    ∃ c', s'.closures[id]? = some c' ∧ c.Unrolled s s' c'
  classes : s'.classes = s.classes
  objects : s'.objects = s.objects

/-- Two programs have ended in the same way, with the same reports, output and globals. -/
structure Outcome.Unrolled (o o' : Outcome) : Prop where
  status : o'.status = o.status
  reports : o'.reports = o.reports
  machine : o.session.machine.Alike o'.session.machine
  store : o.session.machine.store.Unrolled o'.session.machine.store

/-- A frame's twin has the same variables. -/
theorem Pairing.Overlaid.bindings?_eq {s s' : Store} (h : P.Overlaid v s s') {f f' : FrameId}
    (ht : v.twin f f') : s'.bindings? f' = s.bindings? f := by
  obtain ⟨b, hb, hb'⟩ := h.frames.twins f f' ht
  rw [hb, hb']

theorem Pairing.Overlaid.unrolled {s s' : Store} (h : P.Overlaid v s s') : s.Unrolled s' := by
  refine ⟨h.bindings?_eq h.frames.globals, h.closures.size, fun id c hc => ?_, h.classes.classes,
    h.classes.objects⟩
  obtain ⟨c', bound, hc', -, hinitializer, ξ, hξ, ha, hd⟩ := h.closures.paired id c hc
  exact ⟨c', hc', hd.unrolls, hinitializer, h.bindings?_eq (ha.twin hξ)⟩

/-- Runs that come to their ends together have outcomes that differ in written-out loops only. -/
theorem Pairing.Done.unrolled {ran ran' : Session.Ran} (h : P.Done v ran ran') (s s' : Session) :
    (s.outcomeOf ran).Unrolled (s'.outcomeOf ran') := by
  obtain ⟨hc, hc', hf, w, -, hend⟩ := h
  refine ⟨?_, ?_, hend.alike, hend.stores.unrolled⟩
  · simp only [Session.outcomeOf, hc, hc', hf]
  · simp only [Session.outcomeOf, hf]

def Session.noting (s : Session) (nextId : ExprId) (ss : List Stmt) : Session :=
  { s with nextId }.noteDistances (resolve s.globalNames ss).distances

/-- Two programs that are given to one session, and which of their runs may be cut short. -/
def Session.pair (s : Session) (nextId : ExprId) (ss ss' : List Stmt) (first : Bool) : Pairing :=
  ((s.noting nextId ss).setting fun _ => True).pair ((s.noting nextId ss').setting fun _ => True)
    first

/-- Writing loops out changes neither numbers nor spellings. -/
theorem Delivered.unrolled {lo hi : ExprId} {outside : Bool} (h : Delivered lo hi ss)
    (hu : Stmt.UnrollsAll outside ss ss') : Delivered lo hi ss' := by
  obtain ⟨hspread, hfair, hproper⟩ := h
  rw [← hu.uses_eq] at hspread hfair
  exact ⟨hspread, hfair, hu.proper hproper⟩

/-- What a program does that is not cut short, the other one does as well if its depth is enough. -/
theorem Session.Settled.unrolled {w : World} (h : s.Settled (fun _ => True) w)
    (hss : s.accepted? source = some ss) {outside : Bool} (hu : Stmt.UnrollsAll outside ss ss')
    (hclean' : (resolve s.globalNames ss').faults = []) (first : Bool) {depth depth' : Nat}
    (henough : (s.pair (s.read source).session.nextId ss ss' first).Enough depth depth' 0)
    (hdone : if first then (s.run depth source).status ≠ .exhausted
      else ((s.read source).session.perform (.upTo depth') ss').status ≠ .exhausted) :
    (s.run depth source).Unrolled ((s.read source).session.perform (.upTo depth') ss') := by
  obtain ⟨hd, hclean⟩ := Session.accepted_delivered hss
  have hd' := hd.unrolled hu
  have hnoted := h.noteDistances hd.spread.le (resolve s.globalNames ss).distances
    fun id hid => hd.lookup_outside hid
  have hnoted' := h.noteDistances hd'.spread.le (resolve s.globalNames ss').distances
    fun id hid => hd'.lookup_outside hid
  have hscopes : Padded [] (Context.scopes []) (Context.scopes []) := .outside
  have hbodies : (s.pair (s.read source).session.nextId ss ss' first).Bodies [] ss ss' :=
    hu.pairs hd.proper Padding.level_nil hscopes (h.good hd hclean fun _ _ => trivial)
      (h.good hd' hclean' fun _ _ => trivial)
  have habreast : (s.pair (s.read source).session.nextId ss ss' first).Abreast
      (w.overlay s.machine.store) (s.entered source ss) (s.entered source ss') :=
    ⟨hnoted.twins.overlaid hnoted'.twins, hnoted.current, hnoted'.current, fun _ => rfl,
      fun _ => rfl, ⟨rfl, rfl, rfl, rfl⟩⟩
  have hengine := Pairing.engines _ depth depth' henough
  have hrun : s.run depth source = _ := Session.runBy_accepted hss (.upTo depth)
  have hperform := Session.perform_clean (s := (s.read source).session) (.upTo depth') hclean'
  rw [hrun, hperform] at hdone ⊢
  refine (hengine.interpret s.interactive hbodies habreast ?_).unrolled _ _
  cases first with
  | true => exact (Bool.not_eq_false _).mp (mt (Session.exhausted_outcomeOf _ _).2 hdone)
  | false => exact (Bool.not_eq_false _).mp (mt (Session.exhausted_outcomeOf _ _).2 hdone)

/-- A program in which `for` loops are written out as `while` loops is accepted if all of them have
scopes around them, and otherwise unless a variable is then found to be read in its own initial
value. When it is accepted it ends in the same way as before, wherever in a session it is given, with
the same reports and the same output, and leaves the same globals, classes and objects. Either
program comes to an end if the other one does, the second at a depth of up to four times the first.
Any loop, also one with a `next` for it, goes through whole rounds, in each of which the increment is
evaluated once, and ends in the first that is not whole. -/
theorem for_as_while (interactive : Bool) (input : List UInt8) (output : Output)
    (clock : Supply Int) (chances : Supply Nat) (depth₀ : Nat) (before : List Ask)
    (source : String) {s : Session} {ss ss' : List Stmt} {outside : Bool}
    (hs : s = (Session.start interactive (.start input output clock chances)).asked (.upTo depth₀)
      before)
    (hss : s.accepted? source = some ss) (hu : Stmt.UnrollsAll outside ss ss') :
    ((∀ fault ∈ (resolve s.globalNames ss').faults, fault.fault = .ownInitializer) ∧
      (outside = false → (resolve s.globalNames ss').faults = [])) ∧
    ((resolve s.globalNames ss').faults = [] →
      (∀ depth depth', 4 * depth ≤ depth' → (s.run depth source).status ≠ .exhausted →
        (s.run depth source).Unrolled ((s.read source).session.perform (.upTo depth') ss')) ∧
      (∀ depth depth', depth' ≤ depth →
        ((s.read source).session.perform (.upTo depth') ss').status ≠ .exhausted →
        (s.run depth source).Unrolled ((s.read source).session.perform (.upTo depth') ss'))) ∧
    (∀ depth condition increment body m r,
      (execute (depth + 1) (.for condition increment body)).run m = r ↔
        ∃ n m₁, (Below.upTo depth).Rounds condition increment body n m m₁ ∧
          (n < depth ∧ (Below.upTo depth).Leaves condition increment body m₁ r ∨
            n = depth ∧ r = .error .exhausted m₁)) := by
  obtain ⟨w, hsettled⟩ := Session.exists_settled interactive input output clock chances depth₀ before
  rw [← hs] at hsettled
  obtain ⟨hd, hclean⟩ := Session.accepted_delivered hss
  refine ⟨resolve_unrolled hu hd.proper hclean, fun hclean' => ⟨fun depth depth' hle hdone => ?_,
    fun depth depth' hle hdone => ?_⟩, fun depth condition increment body m r =>
      (Below.upTo depth).run_loop_eq_iff condition increment body depth m r⟩
  · exact hsettled.unrolled hss hu hclean' true ⟨fun _ => hle, nofun⟩ hdone
  · exact hsettled.unrolled hss hu hclean' false ⟨nofun, fun _ => hle⟩ hdone

/-- The statements of a program that is given to a session in which nothing has run. -/
def blankTree (source : String) : List Stmt := (blankSession.accepted? source).getD []

theorem blankTree_eq (h : (blankSession.accepted? source).isSome = true) :
    blankSession.accepted? source = some (blankTree source) := by
  obtain ⟨ss, hss⟩ := Option.isSome_iff_exists.1 h
  rw [blankTree, hss, Option.getD_some]

/-- A loop in whose body functions are made that read its variable. -/
def keptVariable : String :=
  "var last; for (var s = \"\"; s != \"aa\"; s = s + \"a\") \x7b func f() \x7b return s; \x7d " ++
    "last = f; \x7d print(last());"

/-- The last function sees what the increment did after it was made, also where the loop is written
out. -/
theorem for_as_while_kept :
    (Stmt.writtenOutProgram false (blankTree keptVariable)).map Stmt.print =
      ["(var last)",
        "(block (var s ) (while (!= s aa) " ++
          "(block (block (func f () (return s)) (; (= last f))) (; (= s (+ s a))))))",
        "(; (call print (call last)))"] ∧
    (blankSession.run 14 keptVariable).status = .ok ∧
    (blankSession.run 14 keptVariable).session.machine.output.written = "aa\n".toByteArray ∧
    (blankSession.run 14 keptVariable).Unrolled
      ((blankSession.read keptVariable).session.perform (.upTo 56)
        (Stmt.writtenOutProgram false (blankTree keptVariable))) := by
  have hss : blankSession.accepted? keptVariable = some (blankTree keptVariable) :=
    blankTree_eq (by decide +kernel)
  have hdone : (blankSession.run 14 keptVariable).status = .ok := by decide +kernel
  obtain ⟨⟨-, haccepted⟩, hruns, -⟩ := for_as_while (s := blankSession) false [] .unlimited 0 0 14
    [] keptVariable rfl hss (Stmt.unrollsAll_program false _)
  have hrun := (hruns (haccepted rfl)).1 14 56 (by decide) (by rw [hdone]; decide)
  exact ⟨by decide +kernel, hdone, by decide +kernel, hrun⟩

/-- A loop that no scope is around, in which a global is made, and a variable of the same name whose
initial value is the global's. -/
def freshGlobal : String :=
  "var go = true; for (; go; go = false) x = true; \x7b var x = x; print(x); \x7d"

/-- Where the loop is written out the assignment stands in a block and does not make the global
known, so the program is refused. -/
theorem for_as_while_refused : ∃ ss ss' : List Stmt,
    blankSession.accepted? freshGlobal = some ss ∧ Stmt.UnrollsAll true ss ss' ∧
    ss.map Stmt.print = ["(var go true)", "(for go (= go false) (; (= x true)))",
      "(block (var x x) (; (call print x)))"] ∧
    ss'.map Stmt.print = ["(var go true)",
      "(block (while go (block (; (= x true)) (; (= go false)))))",
      "(block (var x x) (; (call print x)))"] ∧
    (blankSession.run 14 freshGlobal).status = .ok ∧
    (blankSession.run 14 freshGlobal).session.machine.output.written = "true\n".toByteArray ∧
    ∀ depth, ((blankSession.read freshGlobal).session.perform (.upTo depth) ss').status =
      .compileError := by
  have hfaults : (resolve blankSession.globalNames
      (Stmt.writtenOutProgram true (blankTree freshGlobal))).faults ≠ [] :=
    List.isEmpty_eq_false_iff.1 (by decide +kernel)
  refine ⟨_, _, blankTree_eq (by decide +kernel), Stmt.unrollsAll_program true _, by decide +kernel,
    by decide +kernel, by decide +kernel, by decide +kernel, fun depth => ?_⟩
  rw [Session.perform_faulty (s := (blankSession.read freshGlobal).session) (.upTo depth) hfaults]

end Scriptling
