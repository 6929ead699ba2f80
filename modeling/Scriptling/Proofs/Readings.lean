import Scriptling.Proofs.Lines
import Scriptling.Proofs.Realms

namespace Scriptling

open Machine

variable {α β : Type}

def Machine.prepare (site : Token) (prompt : Option Value) : Eval Unit :=
  match prompt with
  | none => flush
  | some (.string s) => do
    write s
    flush
  | some _ => fail site .promptNotString

def Machine.askLine (site : Token) (prompt : Option Value) : Eval (Option String) := do
  prepare site prompt
  takeLine

/-- The prompt, if there is one, is a text that can be written whole, and the output can be flushed. -/
def Machine.prompts (m : Machine) (prompt : Option Value) : Bool :=
  match prompt with
  | none => m.output.flush.1
  | some (.string s) => (m.output.write s).1 && (m.output.write s).2.flush.1
  | some _ => false

/-- The machine after that: as much of the prompt was written as there is room for, and the output
was flushed if it was written whole. -/
def Machine.prompted (m : Machine) (prompt : Option Value) : Machine :=
  match prompt with
  | none => { m with output := m.output.flush.2 }
  | some (.string s) =>
    if (m.output.write s).1 then { m with output := (m.output.write s).2.flush.2 }
    else { m with output := (m.output.write s).2 }
  | some _ => m

theorem Machine.input_prompted (m : Machine) (prompt : Option Value) :
    (m.prompted prompt).input = m.input := by
  unfold prompted
  split
  · rfl
  · split <;> rfl
  · rfl

/-- A prompt that can be written leads up to the reading. -/
theorem Machine.run_prepare (site : Token) {m : Machine} {prompt : Option Value}
    (h : m.prompts prompt = true) : (prepare site prompt).run m = .ok () (m.prompted prompt) := by
  unfold prompts at h
  unfold prepare prompted
  split at h
  · rw [run_flush, if_pos h]
  · rename_i s
    obtain ⟨hfits, hdone⟩ := Bool.and_eq_true_iff.1 h
    have hwrite := run_write s m
    rw [if_pos hfits] at hwrite ⊢
    rw [Eval.run_bind_ok hwrite, run_flush]
    exact if_pos hdone
  · cases h

/-- A prompt that fails for the machine leaves it as it is after the prompt. -/
theorem Machine.run_prepare_failed (site : Token) {m : Machine} {prompt : Option Value}
    (h : m.prompts prompt = false) : ∃ failure,
      (prepare site prompt).run m = .error (.failed failure) (m.prompted prompt) := by
  have hflush : ∀ m : Machine, m.output.flush.1 = false → flush.run m =
      .error (.failed (.stream .flushFailed)) { m with output := m.output.flush.2 } := by
    intro m hdone
    rw [run_flush, hdone]
    rfl
  unfold prompts at h
  unfold prepare prompted
  split at h
  · exact ⟨_, hflush m h⟩
  · rename_i s
    have hwrite := run_write s m
    by_cases hfits : (m.output.write s).1 = true
    · rw [if_pos hfits] at hwrite
      rw [hfits, Bool.true_and] at h
      exact ⟨_, by rw [Eval.run_bind_ok hwrite, if_pos hfits, hflush _ h]⟩
    · rw [if_neg hfits] at hwrite
      exact ⟨_, by rw [Eval.run_bind_error hwrite, if_neg hfits]⟩
  · exact ⟨_, rfl⟩

/-- Where the prompt or the flush fails nothing is read. -/
theorem Machine.run_askLine_failed (site : Token) {m : Machine} {prompt : Option Value}
    (h : m.prompts prompt = false) : ∃ failure,
      (askLine site prompt).run m = .error (.failed failure) (m.prompted prompt) := by
  obtain ⟨failure, hrun⟩ := run_prepare_failed site h
  exact ⟨failure, Eval.run_bind_error hrun⟩

/-- Otherwise a line is cut off. -/
theorem Machine.run_askLine (site : Token) {m : Machine} {prompt : Option Value}
    (h : m.prompts prompt = true) :
    (askLine site prompt).run m = takeLine.run (m.prompted prompt) :=
  Eval.run_bind_ok (run_prepare site h)

/-- A reading, from one machine to another: the prompt, and the line that was read if there was one,
or why there was none. -/
structure Reading where
  prompt : Option Value
  before : Machine
  answer : Except Failure (Option String)
  after : Machine

namespace Reading

def Made (site : Token) (r : Reading) : Prop :=
  (askLine site r.prompt).run r.before =
    match r.answer with
    | .ok line => .ok line r.after
    | .error failure => .error (.failed failure) r.after

def passes (r : Reading) : Bool := r.before.prompts r.prompt

variable {site : Token} {r : Reading}

/-- What the prompt and the flush fail for is answered, and the input stays. -/
theorem Made.failed (h : r.Made site) (hp : r.passes = false) :
    r.after.input = r.before.input ∧ ∃ failure, r.answer = .error failure := by
  have hinput := r.before.input_prompted r.prompt
  obtain ⟨failure, hrun⟩ := run_askLine_failed site hp
  unfold Made at h
  rw [hrun] at h
  generalize r.before.prompted r.prompt = m at h hinput
  cases hanswer : r.answer with
  | ok line =>
    rw [hanswer] at h
    cases h
  | error failure' =>
    rw [hanswer] at h
    obtain ⟨-, hm⟩ := EStateM.Result.error.inj h
    exact ⟨hm ▸ hinput, _, rfl⟩

/-- At the end of the input there is no line. -/
theorem Made.ended (h : r.Made site) (hp : r.passes = true) (he : r.before.input = []) :
    r.after.input = [] ∧ r.answer = .ok none := by
  have hinput := (r.before.input_prompted r.prompt).trans he
  unfold Made at h
  rw [run_askLine site hp, run_takeLine, hinput] at h
  generalize r.before.prompted r.prompt = m at h hinput
  cases hanswer : r.answer with
  | ok line =>
    rw [hanswer] at h
    obtain ⟨rfl, hm⟩ := EStateM.Result.ok.inj h
    exact ⟨hm ▸ hinput, rfl⟩
  | error failure =>
    rw [hanswer] at h
    cases h

/-- Otherwise the first line is taken, whether or not it is a text. -/
theorem Made.taken (h : r.Made site) (hp : r.passes = true) (hne : r.before.input ≠ []) :
    r.after.input = (Input.cutLine r.before.input).2 ∧
      ∃ line, Input.Yields (Input.cutLine r.before.input).1 line ∧
        r.answer = (line.map some).mapError .stream := by
  obtain ⟨prompt, before, answer, after⟩ := r
  have hyields := Input.yields_lineText (Input.cutLine before.input).1
  have hinput := before.input_prompted prompt
  unfold Made at h
  rw [run_askLine site hp, run_takeLine, hinput] at h
  dsimp only at h hne ⊢
  rw [List.isEmpty_eq_false_iff.2 hne] at h
  generalize Input.lineText (Input.cutLine before.input).1 = line at h hyields
  refine ⟨?_, line, hyields, ?_⟩
  · cases line <;> cases answer <;> cases h <;> rfl
  · cases line <;> cases answer <;> cases h <;> rfl

end Reading

/-- Puts another output in the place of the current one. -/
def Machine.exchange (swap : Machine → Output) : Eval Unit :=
  modify fun m => { m with output := swap m }

/-- Evaluation in which the output is exchanged before every expression and statement, so that any
write and any flush may fail. What was written is part of the output, so which of them do may depend
on all that went before. -/
def Below.unsteady (swap : Machine → Output) : Nat → Below
  | 0 => ⟨fun _ => exhausted, fun _ => exhausted, 0⟩
  | depth + 1 =>
    ⟨fun e => do
      exchange swap
      (unsteady swap depth).evaluateStep e,
    fun s => do
      exchange swap
      (unsteady swap depth).executeStep s, depth + 1⟩

/-- The output may also stay as it is. -/
theorem Below.unsteady_output (depth : Nat) : unsteady Machine.output depth = .upTo depth := by
  induction depth with
  | zero => rfl
  | succ depth ih =>
    have hsame {α : Type} (a : Eval α) : (do exchange Machine.output; a) = a := rfl
    rw [unsteady, ih]
    rfl

theorem Realm.governs_unsteady (R : Realm) (swap : Machine → Output) (depth : Nat) :
    R.Governs (.unsteady swap depth) := by
  have hexchange : ∀ g, R.Keeps g (exchange swap) fun _ => True :=
    fun g m hg hm => ⟨hg, hm, trivial⟩
  induction depth with
  | zero => exact ⟨fun _ => .of_single .exhausted, fun _ _ => .of_single .exhausted⟩
  | succ depth ih =>
    refine ⟨fun hh => (hexchange _).bind fun _ _ => ?_, fun hg hd => (hexchange _).bind fun _ _ => ?_⟩
    · exact ih.composed (Below.composed_evaluateStep hh)
    · exact ih.composed (Below.composed_executeStep (Nat.le_refl _) hg hd)

/-- The line is asked for, and then it is made a value. -/
theorem Builtin.readInput_eq (site : Token) (prompt : Option Value) :
    readInput site prompt = askLine site prompt >>= fun line => pure (lineValue line) := by
  cases prompt with
  | none => rfl
  | some v =>
    cases v with
    | string s =>
      have hask : askLine site (some (.string s)) = write s >>= fun _ => readLine :=
        bind_assoc _ _ _
      rw [hask]
      exact (bind_assoc (write s) (fun _ => readLine) _).symm
    | _ => rfl

/-- The readings that an action makes on a machine while the output is exchanged, in order. Of the
actions that evaluation is made of only `input` makes one, and a look at the machine sees neither
the output nor the input, so no reading can be taken for one. -/
inductive Eval.Reads (swap : Machine → Output) :
    {α : Type} → Eval α → Machine → List Reading → Prop
  | single {α : Type} {a : Eval α} {g : FrameId} {Q : α → Prop} (m : Machine) :
    Eval.Single .any g a Q → Reads swap a m []
  | exchange (m : Machine) : Reads swap (exchange swap) m []
  | read {site : Token} {r : Reading} : r.Made site →
    Reads swap (Builtin.readInput site r.prompt) r.before [r]
  | look {α : Type} {k : Machine → Eval α} {m : Machine} {rs : List Reading} :
    (∀ (m : Machine) (o : Output) (i : List UInt8), k { m with output := o, input := i } = k m) →
    Reads swap (k m) m rs → Reads swap (get >>= k) m rs
  | next {α β : Type} {a : Eval α} {k : α → Eval β} {m m₁ : Machine} {v : α}
    {rs rs' : List Reading} : Reads swap a m rs → a.run m = .ok v m₁ → Reads swap (k v) m₁ rs' →
    Reads swap (a >>= k) m (rs ++ rs')
  | stop {α β : Type} {a : Eval α} {k : α → Eval β} {m m₁ : Machine} {e : Stop}
    {rs : List Reading} : Reads swap a m rs → a.run m = .error e m₁ → Reads swap (a >>= k) m rs
  | inFrame {α : Type} {f : FrameId} {a : Eval α} {m : Machine} {rs : List Reading} :
    Reads swap a { m with current := f } rs → Reads swap (inFrame f a) m rs

variable {swap : Machine → Output}

/-- Each reading begins where the one before it left the input. -/
inductive Reading.Linked : List UInt8 → List Reading → List UInt8 → Prop
  | nil (input : List UInt8) : Linked input [] input
  | cons {r : Reading} {rs : List Reading} {site : Token} {input : List UInt8} : r.Made site →
    Linked r.after.input rs input → Linked r.before.input (r :: rs) input

theorem Reading.Linked.append {i j k : List UInt8} {rs rs' : List Reading} (h : Linked i rs j)
    (h' : Linked j rs' k) : Linked i (rs ++ rs') k := by
  induction h with
  | nil => exact h'
  | cons hr _ ih => exact .cons hr (ih h')

/-- The same result, but for another input that is left. -/
def Eval.leaving (input : List UInt8) :
    EStateM.Result Stop Machine α → EStateM.Result Stop Machine α
  | .ok v m => .ok v { m with input }
  | .error e m => .error e { m with input }

/-- Single actions do the same on every input, which they leave as it is. -/
theorem Eval.Single.run_input {R : Realm} {g : FrameId} {a : Eval α} {Q : α → Prop}
    (h : Eval.Single R g a Q) (m : Machine) (input : List UInt8) :
    a.run { m with input } = leaving input (a.run m) := by
  cases h with
  | @assign id name v create hh =>
    have htarget : ({ m with input } : Machine).target? id name.lexeme create =
        m.target? id name.lexeme create := rfl
    rw [run_assign, run_assign, htarget]
    cases m.target? id name.lexeme create <;> rfl
  | writeProperty object name v =>
    unfold Machine.writeProperty
    split <;> rfl
  | write text =>
    rw [run_write, run_write]
    dsimp only
    split <;> rfl
  | _ => rfl

/-- No single action moves the input. -/
theorem Eval.Single.input_after {R : Realm} {g : FrameId} {a : Eval α} {Q : α → Prop}
    (h : Eval.Single R g a Q) (m : Machine) : (after a m).input = m.input := by
  have hrun := h.run_input m m.input
  rw [after]
  cases hr : a.run m with
  | ok v m₁ =>
    rw [show ({ m with input := m.input } : Machine) = m from rfl, hr] at hrun
    exact congrArg (·.input) (EStateM.Result.ok.inj hrun).2
  | error e m₁ =>
    rw [show ({ m with input := m.input } : Machine) = m from rfl, hr] at hrun
    exact congrArg (·.input) (EStateM.Result.error.inj hrun).2

/-- What `input` leaves of the input is what its reading left. -/
theorem Reading.Made.readInput {r : Reading} {site : Token} (h : r.Made site) :
    (Machine.after (Builtin.readInput site r.prompt) r.before).input = r.after.input := by
  rw [Builtin.readInput_eq]
  unfold Made at h
  cases hanswer : r.answer with
  | ok line =>
    rw [hanswer] at h
    rw [Machine.after, Eval.run_bind_ok h]
    cases line <;> rfl
  | error failure =>
    rw [hanswer] at h
    rw [after_error (Eval.run_bind_error h)]

/-- Between the readings nothing moves the input. -/
theorem Eval.Reads.linked {a : Eval α} {m : Machine} {rs : List Reading} (h : Reads swap a m rs) :
    Reading.Linked m.input rs (after a m).input := by
  induction h with
  | single m h =>
    rw [h.input_after]
    exact .nil _
  | exchange m => exact .nil _
  | read hr =>
    rw [hr.readInput]
    exact .cons hr (.nil _)
  | look _ _ ih => exact ih
  | next _ hrun _ iha ihk =>
    rw [after_ok hrun] at iha
    rw [after, Eval.run_bind_ok hrun]
    exact iha.append ihk
  | stop _ hrun ih =>
    rw [after_error hrun] at ih
    rw [after_error (Eval.run_bind_error hrun)]
    exact ih
  | @inFrame α f a m rs _ ih =>
    rw [after, Eval.run_inFrame]
    rw [after] at ih
    cases hr : a.run { m with current := f } with
    | ok v m₁ =>
      rw [hr] at ih
      exact ih
    | error e m₁ =>
      rw [hr] at ih
      exact ih

/-- Asking for a line is a reading, whatever the machine. -/
theorem Reading.exists_made (site : Token) (prompt : Option Value) (m : Machine) :
    ∃ answer m₁, Reading.Made site ⟨prompt, m, answer, m₁⟩ := by
  unfold Made
  dsimp only
  cases hp : m.prompts prompt with
  | false =>
    obtain ⟨failure, hrun⟩ := run_askLine_failed site hp
    exact ⟨.error failure, _, hrun⟩
  | true =>
    rw [run_askLine site hp, run_takeLine]
    split
    · exact ⟨.ok none, _, rfl⟩
    · split
      · rename_i text hline
        exact ⟨.ok (some text), _, rfl⟩
      · rename_i fault hline
        exact ⟨.error (.stream fault), _, rfl⟩

/-- All readings of the parts are known, on every machine. -/
structure Below.Traced (swap : Machine → Output) (b : Below) : Prop where
  evaluate : ∀ (e : Expr) (m : Machine), ∃ rs, Eval.Reads swap (b.evaluate e) m rs
  execute : ∀ (s : Stmt) (m : Machine), ∃ rs, Eval.Reads swap (b.execute s) m rs

/-- Whatever is made of actions and of parts whose readings are known has known readings. -/
theorem Below.Traced.composed {b : Below} (h : b.Traced swap) (hb : Realm.any.Governs b)
    {g : FrameId} {a a' : Eval α} {Q : α → Prop} (ha : Eval.Composed .any b b g a a' Q) :
    ∀ m : Machine, m.current = g → ∃ rs, Eval.Reads swap a m rs := by
  induction ha with
  | single h => exact fun m _ => ⟨[], .single m h⟩
  | readInput site prompt =>
    intro m _
    obtain ⟨answer, m₁, hr⟩ := Reading.exists_made site prompt m
    exact ⟨_, .read hr⟩
  | look hk _ ih =>
    intro m hg
    obtain ⟨rs, hrs⟩ := ih m hg (Realm.admits_any _) m hg
    exact ⟨rs, .look (fun m o i => (hk m o i).1) hrs⟩
  | @bind g α β a a' k k' P Q ha _ iha ihk =>
    intro m hg
    obtain ⟨rs, hrs⟩ := iha m hg
    have hends := hb.composed ha m hg (Realm.admits_any _)
    cases hr : a.run m with
    | ok v m₁ =>
      rw [hr] at hends
      obtain ⟨rs', hrs'⟩ := ihk v hends.2.2 m₁ hends.1
      exact ⟨rs ++ rs', .next hrs hr hrs'⟩
    | error e m₁ => exact ⟨rs, .stop hrs hr⟩
  | inFrame _ ih =>
    intro m _
    obtain ⟨rs, hrs⟩ := ih { m with current := _ } rfl
    exact ⟨rs, .inFrame hrs⟩
  | evaluate _ => exact fun m _ => h.evaluate _ m
  | execute _ _ => exact fun m _ => h.execute _ m
  | spent hlt => exact absurd hlt (Nat.lt_irrefl _)

/-- Exchanging the output is no reading. -/
theorem Eval.Reads.exchanged {a : Eval α} {m : Machine} (h : ∀ m, ∃ rs, Eval.Reads swap a m rs) :
    ∃ rs, Eval.Reads swap (do Machine.exchange swap; a) m rs := by
  obtain ⟨rs, hrs⟩ := h { m with output := swap m }
  exact ⟨[] ++ rs, .next (.exchange m) rfl hrs⟩

theorem Below.traced_unsteady (swap : Machine → Output) (depth : Nat) :
    (unsteady swap depth).Traced swap := by
  induction depth with
  | zero =>
    exact ⟨fun _ m => ⟨[], .single (g := .globals) (Q := fun _ => True) m .exhausted⟩,
      fun _ m => ⟨[], .single (g := .globals) (Q := fun _ => True) m .exhausted⟩⟩
  | succ depth ih =>
    have hb := Realm.any.governs_unsteady swap depth
    refine ⟨fun e m => Eval.Reads.exchanged fun m => ?_, fun s m => Eval.Reads.exchanged fun m => ?_⟩
    · exact ih.composed hb (composed_evaluateStep (Realm.hosts_of_frame trivial _)) m rfl
    · exact ih.composed hb (composed_executeStep (Nat.le_refl _) trivial fun _ _ => trivial) m rfl

end Scriptling
