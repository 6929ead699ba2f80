import Scriptling.Proofs.Readings
import Scriptling.Proofs.RealmSessions

namespace Scriptling

open Machine

/-- A program to run, whose output may be exchanged all the while, or a line to read. -/
inductive Session.Request where
  | run (source : String) (interactive : Bool) (depth : Nat) (swap : Machine → Output)
  | readLine (output : Output)

namespace Session

def exchange (s : Session) (output : Output) : Session :=
  { s with machine := { s.machine with output } }

def handle (s : Session) : Request → Session
  | .run source interactive depth swap =>
    ({ s with interactive }.runBy (.unsteady swap depth) source).session
  | .readLine output => (s.exchange output).readLine.session

/-- The readings of statements run one after the other; a failure only ends its own statement. -/
inductive ReadsAll (swap : Machine → Output) (b : Below) (interactive : Bool) :
    List Stmt → Machine → List Reading → Prop
  | nil (m : Machine) : ReadsAll swap b interactive [] m []
  | done {s : Stmt} {ss : List Stmt} {m m₁ : Machine} {rs rs' : List Reading} :
    Eval.Reads swap (runTopLevel b interactive s) m rs →
    (runTopLevel b interactive s).run m = .ok () m₁ → ReadsAll swap b interactive ss m₁ rs' →
    ReadsAll swap b interactive (s :: ss) m (rs ++ rs')
  | failed {s : Stmt} {ss : List Stmt} {m m₁ : Machine} {failure : Failure}
    {rs rs' : List Reading} : Eval.Reads swap (runTopLevel b interactive s) m rs →
    (runTopLevel b interactive s).run m = .error (.failed failure) m₁ →
    ReadsAll swap b interactive ss { m₁ with current := .globals } rs' →
    ReadsAll swap b interactive (s :: ss) m (rs ++ rs')
  | exhausted {s : Stmt} {ss : List Stmt} {m m₁ : Machine} {rs : List Reading} :
    Eval.Reads swap (runTopLevel b interactive s) m rs →
    (runTopLevel b interactive s).run m = .error .exhausted m₁ →
    ReadsAll swap b interactive (s :: ss) m rs

/-- The readings of one request. A program that is refused makes none. -/
inductive Serves (s : Session) : Request → List Reading → Prop
  | refused {source : String} {interactive : Bool} (depth : Nat) (swap : Machine → Output) :
    { s with interactive }.accepted? source = none →
    Serves s (.run source interactive depth swap) []
  | accepted {source : String} {interactive : Bool} {depth : Nat} {swap : Machine → Output}
    {ss : List Stmt} {rs : List Reading} : { s with interactive }.accepted? source = some ss →
    ReadsAll swap (.unsteady swap depth) interactive ss
      ({ s with interactive }.entered source ss) rs →
    Serves s (.run source interactive depth swap) rs
  | readLine {site : Token} {r : Reading} {output : Output} : r.prompt = none →
    r.before = (s.exchange output).machine → r.Made site → Serves s (.readLine output) [r]

/-- The readings of requests that are made one after the other. -/
inductive Reads : Session → List Request → List Reading → Prop
  | nil (s : Session) : Reads s [] []
  | cons {s : Session} {q : Request} {qs : List Request} {rs rs' : List Reading} :
    s.Serves q rs → Reads (s.handle q) qs rs' → Reads s (q :: qs) (rs ++ rs')

end Session

/-- A program gets the line, or nil, or fails. -/
theorem Reading.Made.run_readInput {r : Reading} {site : Token} (h : r.Made site) :
    (Builtin.readInput site r.prompt).run r.before =
      match r.answer with
      | .ok (some line) => .ok (.string line) r.after
      | .ok none => .ok .nil r.after
      | .error failure => .error (.failed failure) r.after := by
  rw [Builtin.readInput_eq]
  unfold Made at h
  cases hanswer : r.answer with
  | ok line =>
    rw [hanswer] at h
    rw [Eval.run_bind_ok h]
    cases line <;> rfl
  | error failure =>
    rw [hanswer] at h
    rw [Eval.run_bind_error h]

/-- Those who run the programs get the line, or none, or a report. -/
theorem Reading.Made.readLine {r : Reading} {site : Token} {s : Session} (h : r.Made site)
    (hprompt : r.prompt = none) (hbefore : r.before = s.machine) :
    s.readLine =
      match r.answer with
      | .ok line => ⟨line, [], { s with machine := r.after }⟩
      | .error failure => ⟨none, [.failure failure], { s with machine := r.after }⟩ := by
  unfold Made at h
  rw [hprompt, hbefore] at h
  change Machine.readLine s.machine = _ at h
  unfold Session.readLine
  rw [h]
  cases r.answer <;> rfl

namespace Session

/-- Statements run one after the other have their readings. -/
theorem exists_readsAll (swap : Machine → Output) (depth : Nat) (interactive : Bool)
    (ss : List Stmt) (m : Machine) :
    ∃ rs, ReadsAll swap (.unsteady swap depth) interactive ss m rs := by
  have hb := Realm.any.governs_unsteady swap depth
  have htraced := Below.traced_unsteady swap depth
  induction ss generalizing m with
  | nil => exact ⟨[], .nil m⟩
  | cons s ss ih =>
    obtain ⟨rs, hrs⟩ := htraced.composed hb
      (Realm.composed_runTopLevel interactive (s := s) trivial (fun _ _ => trivial) Realm.strays_any)
      m rfl
    cases hr : (runTopLevel (.unsteady swap depth) interactive s).run m with
    | ok u m₁ =>
      obtain ⟨rs', hrs'⟩ := ih m₁
      exact ⟨rs ++ rs', .done hrs hr hrs'⟩
    | error e m₁ =>
      cases e with
      | exhausted => exact ⟨rs, .exhausted hrs hr⟩
      | failed failure =>
        obtain ⟨rs', hrs'⟩ := ih { m₁ with current := .globals }
        exact ⟨rs ++ rs', .failed hrs hr hrs'⟩

theorem exists_serves (s : Session) (q : Request) : ∃ rs, s.Serves q rs := by
  cases q with
  | run source interactive depth swap =>
    cases hss : { s with interactive }.accepted? source with
    | none => exact ⟨[], .refused depth swap hss⟩
    | some ss =>
      obtain ⟨rs, hrs⟩ :=
        exists_readsAll swap depth interactive ss ({ s with interactive }.entered source ss)
      exact ⟨rs, .accepted hss hrs⟩
  | readLine output =>
    obtain ⟨answer, m₁, hr⟩ := Reading.exists_made default none (s.exchange output).machine
    exact ⟨[_], .readLine rfl rfl hr⟩

theorem exists_reads (s : Session) (qs : List Request) : ∃ rs, s.Reads qs rs := by
  induction qs generalizing s with
  | nil => exact ⟨[], .nil s⟩
  | cons q qs ih =>
    obtain ⟨rs, hrs⟩ := s.exists_serves q
    obtain ⟨rs', hrs'⟩ := ih (s.handle q)
    exact ⟨rs ++ rs', .cons hrs hrs'⟩

variable {s : Session}

/-- And these follow each other without a gap. -/
theorem ReadsAll.linked {swap : Machine → Output} {b : Below} {interactive : Bool}
    {ss : List Stmt} {m : Machine} {rs : List Reading} (h : ReadsAll swap b interactive ss m rs) :
    Reading.Linked m.input rs (runAll b interactive ss m).machine.input := by
  induction h with
  | nil m => exact .nil _
  | done hrs hrun _ ih =>
    have hlinked := hrs.linked
    rw [after_ok hrun] at hlinked
    rw [runAll_cons, hrun]
    exact hlinked.append ih
  | failed hrs hrun _ ih =>
    have hlinked := hrs.linked
    rw [after_error hrun] at hlinked
    rw [runAll_cons, hrun]
    exact hlinked.append ih
  | exhausted hrs hrun =>
    have hlinked := hrs.linked
    rw [after_error hrun] at hlinked
    rw [runAll_cons, hrun]
    exact hlinked

theorem Serves.linked {q : Request} {rs : List Reading} (h : s.Serves q rs) :
    Reading.Linked s.machine.input rs (s.handle q).machine.input := by
  cases h with
  | refused depth swap hss =>
    obtain ⟨distances, hmachine⟩ := machine_runBy_refused hss (.unsteady swap depth)
    rw [handle, hmachine]
    exact .nil _
  | @accepted source interactive depth swap ss rs hss hrs =>
    rw [handle, runBy_accepted hss]
    obtain ⟨output, hmachine⟩ := machine_interpret (.unsteady swap depth) interactive ss
      ({ s with interactive }.entered source ss)
    change Reading.Linked _ _ (interpret _ _ _ _).machine.input
    rw [hmachine]
    exact hrs.linked
  | @readLine site r output hprompt hbefore hr =>
    have hline := hr.readLine hprompt hbefore
    have hafter : (s.exchange output).readLine.session.machine = r.after := by
      rw [hline]
      cases r.answer <;> rfl
    have hinput : r.before.input = s.machine.input := by rw [hbefore]; rfl
    rw [handle, hafter, ← hinput]
    exact .cons hr (.nil _)

/-- The readings of a session lead from its input to what is left of it. -/
theorem Reads.linked {qs : List Request} {rs : List Reading} (h : s.Reads qs rs) :
    Reading.Linked s.machine.input rs (qs.foldl handle s).machine.input := by
  induction h with
  | nil s => exact .nil _
  | cons hq _ ih => exact hq.linked.append ih

end Session

/-- The reading takes the first of the pieces that `k` readings left, if it gets past its prompt and
the flush and there is one, and otherwise nothing. -/
structure Reading.Takes (ps : List (List UInt8)) (k : Nat) (r : Reading) : Prop where
  before : r.before.input = (ps.drop k).flatten
  refused : r.passes = false →
    r.after.input = r.before.input ∧ ∃ failure, r.answer = .error failure
  taken : r.passes = true → ∀ p, ps[k]? = some p → r.after.input = (ps.drop (k + 1)).flatten ∧
    ∃ line, Input.Yields p line ∧ r.answer = (line.map some).mapError .stream
  ended : r.passes = true → ps[k]? = none → r.after.input = [] ∧ r.answer = .ok none

/-- How many pieces the readings take if there are enough. -/
def Reading.passed (rs : List Reading) : Nat := rs.countP Reading.passes

/-- A reading that begins behind `k` pieces takes the next one, or nothing. -/
theorem Reading.Made.takes {r : Reading} {site : Token} {input : List UInt8} {k : Nat}
    (h : r.Made site) (hbefore : r.before.input = ((Input.pieces input).drop k).flatten) :
    r.Takes (Input.pieces input) k := by
  have hpieces : Input.pieces r.before.input = (Input.pieces input).drop k := by
    rw [hbefore, Input.pieces_drop]
  refine ⟨hbefore, h.failed, fun hp p hk => ?_, fun hp hk => ?_⟩
  · have hk' := hk
    rw [← List.head?_drop, ← hpieces] at hk'
    have hne : r.before.input ≠ [] := by
      intro hnil
      rw [hnil] at hk'
      cases hk'
    rw [Input.pieces_cutLine hne] at hpieces hk'
    obtain ⟨hinput, hline⟩ := h.taken hp hne
    cases hk'
    refine ⟨?_, hline⟩
    rw [← List.tail_drop, ← hpieces, List.tail_cons, Input.flatten_pieces, hinput]
  · have hnil : r.before.input = [] := by
      rw [hbefore, List.drop_eq_nil_of_le (List.getElem?_eq_none_iff.1 hk)]
      rfl
    exact h.ended hp hnil

/-- What is left after a reading are the pieces that are left. -/
theorem Reading.Takes.after_input {r : Reading} {ps : List (List UInt8)} {k : Nat}
    (h : r.Takes ps k) : r.after.input = (ps.drop (k + passed [r])).flatten := by
  cases hp : r.passes with
  | false => simp [passed, hp, (h.refused hp).1, h.before]
  | true =>
    have hpassed : passed [r] = 1 := by simp [passed, hp]
    rw [hpassed]
    cases hk : ps[k]? with
    | none =>
      have hlength := List.getElem?_eq_none_iff.1 hk
      rw [(h.ended hp hk).1, List.drop_eq_nil_of_le (by omega)]
      rfl
    | some p => exact (h.taken hp p hk).1

/-- Readings without a gap take the pieces in their order. -/
theorem Reading.Linked.takes {input : List UInt8} {i j : List UInt8} {rs : List Reading}
    (h : Linked i rs j) {k : Nat} (hi : i = ((Input.pieces input).drop k).flatten) :
    j = ((Input.pieces input).drop (k + passed rs)).flatten ∧
      ∀ earlier r later, rs = earlier ++ r :: later →
        r.Takes (Input.pieces input) (k + passed earlier) := by
  induction h generalizing k with
  | nil i => exact ⟨hi, by simp⟩
  | @cons r rs site j hr _ ih =>
    have htakes := hr.takes hi
    obtain ⟨hend, hrest⟩ := ih htakes.after_input
    have hpassed : ∀ rs, k + passed (r :: rs) = k + passed [r] + passed rs := by
      intro rs
      rw [passed, ← List.singleton_append, List.countP_append, Nat.add_assoc]
      rfl
    refine ⟨by rw [hpassed]; exact hend, fun earlier r' later heq => ?_⟩
    cases earlier with
    | nil =>
      cases heq
      exact htakes
    | cons r'' earlier =>
      cases heq
      rw [hpassed]
      exact hrest earlier r' later rfl

namespace Eval

variable {α β : Type} {input : List UInt8}

/-- What another input does not influence stays so when more is done. -/
theorem leaving_bind {a : Eval α} {k : α → Eval β} {m m' : Machine}
    (ha : a.run m' = leaving input (a.run m))
    (hk : ∀ v m, (k v).run { m with input } = leaving input ((k v).run m)) :
    (a >>= k).run m' = leaving input ((a >>= k).run m) := by
  cases hr : a.run m with
  | ok v m₁ =>
    rw [hr] at ha
    rw [Eval.run_bind_ok hr, Eval.run_bind_ok ha, hk]
  | error e m₁ =>
    rw [hr] at ha
    rw [Eval.run_bind_error hr, Eval.run_bind_error ha]
    rfl

/-- The prompt and the flush do not look at the input. -/
theorem run_prepare_input (input : List UInt8) (site : Token) (prompt : Option Value)
    (m : Machine) :
    (prepare site prompt).run { m with input } = leaving input ((prepare site prompt).run m) := by
  have hflush : ∀ m : Machine, flush.run { m with input } = leaving input (flush.run m) := by
    intro m
    rw [run_flush, run_flush]
    dsimp only
    split <;> rfl
  unfold prepare
  split
  · exact hflush m
  · rename_i s
    exact leaving_bind ((Single.write (R := .any) (g := .globals) s).run_input m input)
      fun _ => hflush
  · rfl

/-- A line depends on the first piece only. -/
theorem run_takeLine_input {m : Machine}
    (hi : (Input.pieces input).take 1 = (Input.pieces m.input).take 1) :
    takeLine.run { m with input } =
      leaving ((Input.pieces input).drop 1).flatten (takeLine.run m) := by
  rw [run_takeLine, run_takeLine]
  by_cases hm : m.input = []
  · rw [hm, Input.pieces, List.take_nil, List.take_eq_nil_iff] at hi
    have hnil : input = [] := by
      rw [← Input.flatten_pieces input, hi.resolve_left Nat.one_ne_zero, List.flatten_nil]
    subst hnil
    rw [hm]
    rfl
  · rw [Input.pieces_cutLine hm, List.take_succ_cons, List.take_zero] at hi
    have hne : input ≠ [] := by
      rintro rfl
      cases hi
    rw [Input.pieces_cutLine hne] at hi ⊢
    rw [List.drop_succ_cons, List.drop_zero, Input.flatten_pieces,
      List.isEmpty_eq_false_iff.2 hm, List.isEmpty_eq_false_iff.2 hne]
    rw [(List.cons.inj hi).1]
    cases Input.lineText (Input.cutLine m.input).1 <;> rfl

/-- And so does a reading, on nothing at all if it does not get past its prompt and the flush. -/
theorem run_readInput_input (site : Token) {r : Reading} (hi :
    (Input.pieces input).take (Reading.passed [r]) =
      (Input.pieces r.before.input).take (Reading.passed [r])) :
    (Builtin.readInput site r.prompt).run { r.before with input } =
      leaving ((Input.pieces input).drop (Reading.passed [r])).flatten
        ((Builtin.readInput site r.prompt).run r.before) := by
  have hprepare := run_prepare_input input site r.prompt r.before
  rw [Builtin.readInput_eq]
  refine leaving_bind ?_ fun _ _ => rfl
  cases hp : r.passes with
  | false =>
    have hpassed : Reading.passed [r] = 0 := by simp [Reading.passed, hp]
    obtain ⟨failure, hfailed⟩ := run_prepare_failed site hp
    rw [hfailed] at hprepare
    rw [askLine, Eval.run_bind_error hfailed, Eval.run_bind_error hprepare, hpassed,
      List.drop_zero, Input.flatten_pieces]
    rfl
  | true =>
    have hpassed : Reading.passed [r] = 1 := by simp [Reading.passed, hp]
    have hready := run_prepare site hp
    rw [hready] at hprepare
    rw [hpassed, ← r.before.input_prompted r.prompt] at hi
    rw [askLine, Eval.run_bind_ok hready, Eval.run_bind_ok hprepare, hpassed]
    exact run_takeLine_input hi

/-- An action depends on those pieces of the input that its readings take, and leaves the others. -/
theorem Reads.run_input {swap : Machine → Output}
    (hswap : ∀ (m : Machine) (i : List UInt8), swap { m with input := i } = swap m) {a : Eval α}
    {m : Machine} {rs : List Reading} (h : Reads swap a m rs) :
    ∀ {input}, (Input.pieces input).take (Reading.passed rs) =
        (Input.pieces m.input).take (Reading.passed rs) →
      a.run { m with input } =
        leaving ((Input.pieces input).drop (Reading.passed rs)).flatten (a.run m) := by
  induction h with
  | single m h =>
    intro input _
    rw [Reading.passed, List.countP_nil, List.drop_zero, Input.flatten_pieces]
    exact h.run_input m input
  | exchange m =>
    intro input _
    rw [Reading.passed, List.countP_nil, List.drop_zero, Input.flatten_pieces]
    exact congrArg (fun output => EStateM.Result.ok () { m with input, output }) (hswap m input)
  | read => exact run_readInput_input _
  | @look α k m rs hk _ ih =>
    intro input hi
    have hsame : k { m with input } = k m := hk m m.output input
    change (k { m with input }).run { m with input } = _
    rw [hsame]
    exact ih hi
  | @next α β a k m m₁ v rs rs' ha hrun _ iha ihk =>
    intro input hi
    have hpassed : Reading.passed (rs ++ rs') = Reading.passed rs + Reading.passed rs' :=
      List.countP_append
    rw [hpassed] at hi ⊢
    have hlinked := ha.linked
    rw [after_ok hrun] at hlinked
    have hstart : m.input = ((Input.pieces m.input).drop 0).flatten :=
      (Input.flatten_pieces m.input).symm
    have hleft := (hlinked.takes hstart).1
    rw [Nat.zero_add] at hleft
    have hagree : (Input.pieces input).take (Reading.passed rs) =
        (Input.pieces m.input).take (Reading.passed rs) := by
      have htake := congrArg (List.take (Reading.passed rs)) hi
      rwa [List.take_take, List.take_take, Nat.min_eq_left (Nat.le_add_right _ _)] at htake
    have hfirst := iha hagree
    rw [hrun] at hfirst
    rw [Eval.run_bind_ok hrun, Eval.run_bind_ok hfirst, ihk, Input.pieces_drop, List.drop_drop]
    rw [Input.pieces_drop, hleft, Input.pieces_drop, List.take_drop, List.take_drop, hi]
  | @stop α β a k m m₁ e rs ha hrun ih =>
    intro input hi
    have hfirst := ih hi
    rw [hrun] at hfirst
    rw [Eval.run_bind_error hrun, Eval.run_bind_error hfirst]
    rfl
  | @inFrame α f a m rs _ ih =>
    intro input hi
    have hinside := ih hi
    generalize hm' : { m with input } = m'
    have hsame : a.run { m' with current := f } = leaving
        ((Input.pieces input).drop (Reading.passed rs)).flatten (a.run { m with current := f }) := by
      subst hm'
      exact hinside
    rw [Eval.run_inFrame, Eval.run_inFrame, hsame]
    cases a.run { m with current := f } <;> (subst hm'; rfl)

end Eval

/-- Whatever a session is asked for, and however its output fails, its readings and nothing else move
the input: each begins where the ones before it left it, and the k-th that gets past its prompt and
the flush takes the k-th piece as a whole, whether or not it is a text, and none where there is none.
A program is given the line or nil, those who run it the line or none. No reading is left out of
those that an action makes: where the exchanged outputs do not depend on the input, it does the same
on every input that has the same pieces for them, and leaves the others. -/
theorem input_pieces_read (interactive : Bool) (input : List UInt8) (output : Output)
    (clock : Supply Int) (chances : Supply Nat) (requests : List Session.Request) :
    let s := Session.start interactive (.start input output clock chances)
    let ps := Input.pieces input
    Input.Cut input ps ∧
    (∀ depth, Below.unsteady Machine.output depth = .upTo depth) ∧
    (∀ {α : Type} swap (a : Eval α) m rs, Eval.Reads swap a m rs →
      Reading.Linked m.input rs (after a m).input ∧
      ((∀ (m : Machine) (i : List UInt8), swap { m with input := i } = swap m) →
        ∀ i, (Input.pieces i).take (Reading.passed rs) =
            (Input.pieces m.input).take (Reading.passed rs) →
          a.run { m with input := i } =
            Eval.leaving ((Input.pieces i).drop (Reading.passed rs)).flatten (a.run m))) ∧
    (∀ (site : Token) (r : Reading), r.Made site →
      (Builtin.readInput site r.prompt).run r.before =
        (match r.answer with
        | .ok (some line) => .ok (.string line) r.after
        | .ok none => .ok .nil r.after
        | .error failure => .error (.failed failure) r.after) ∧
      ∀ s : Session, r.prompt = none → r.before = s.machine →
        s.readLine =
          match r.answer with
          | .ok line => ⟨line, [], { s with machine := r.after }⟩
          | .error failure => ⟨none, [.failure failure], { s with machine := r.after }⟩) ∧
    (∃ readings, s.Reads requests readings) ∧
    ∀ readings, s.Reads requests readings →
      (requests.foldl Session.handle s).machine.input =
        (ps.drop (Reading.passed readings)).flatten ∧
      ∀ earlier r later, readings = earlier ++ r :: later →
        r.Takes ps (Reading.passed earlier) := by
  intro s ps
  refine ⟨Input.cut_pieces input, Below.unsteady_output,
    fun swap a m rs h => ⟨h.linked, fun hswap i hi => h.run_input hswap hi⟩,
    fun site r h => ⟨h.run_readInput, fun s => h.readLine⟩, s.exists_reads requests,
    fun readings hreadings => ?_⟩
  have hstart : input = (ps.drop 0).flatten := (Input.flatten_pieces input).symm
  obtain ⟨hend, htakes⟩ := hreadings.linked.takes hstart
  rw [Nat.zero_add] at hend
  refine ⟨hend, fun earlier r later heq => ?_⟩
  have hr := htakes earlier r later heq
  rwa [Nat.zero_add] at hr

end Scriptling
