import Scriptling.Proofs.Realms

namespace Scriptling

open Machine

variable {α β : Type} {p q : ByteArray}

/-- An output that takes all that is written and never fails. -/
def Output.endless (written : ByteArray) : Output := ⟨written, none, false⟩

/-- Two such outputs, on which the same was written since the one held `p` and the other `q`. -/
inductive Output.Resumed (p q : ByteArray) : Output → Output → Prop
  | since (text : ByteArray) : Resumed p q (.endless (p ++ text)) (.endless (q ++ text))

/-- Results that are alike but for the output, unless the first one ran out of depth. -/
inductive Eval.Matched (p q : ByteArray) :
    EStateM.Result Stop Machine α → EStateM.Result Stop Machine α → Prop
  | ok {v : α} {m : Machine} {o' : Output} : Output.Resumed p q m.output o' →
      Matched p q (.ok v m) (.ok v { m with output := o' })
  | failed {failure : Failure} {m : Machine} {o' : Output} : Output.Resumed p q m.output o' →
      Matched p q (.error (.failed failure) m) (.error (.failed failure) { m with output := o' })
  | exhausted {m : Machine} {r' : EStateM.Result Stop Machine α} :
      Matched p q (.error .exhausted m) r'

theorem Output.Resumed.start (p q : ByteArray) : Resumed p q (.endless p) (.endless q) := by
  simpa using Resumed.since (p := p) (q := q) .empty

/-- A result is matched by the same result, on an output that got the same text. -/
theorem Eval.Matched.of_ok {v : α} {m : Machine} {r' : EStateM.Result Stop Machine α}
    (h : Matched p q (.ok v m) r') : ∃ text, m.output = .endless (p ++ text) ∧
      r' = .ok v { m with output := .endless (q ++ text) } := by
  cases h with
  | ok ho =>
    generalize hm : m.output = o at ho
    cases ho with
    | since text => exact ⟨text, rfl, rfl⟩

/-- A failure is matched by the same failure. -/
theorem Eval.Matched.of_failed {failure : Failure} {m : Machine}
    {r' : EStateM.Result Stop Machine α} (h : Matched p q (.error (.failed failure) m) r') :
    ∃ text, m.output = .endless (p ++ text) ∧
      r' = .error (.failed failure) { m with output := .endless (q ++ text) } := by
  cases h with
  | failed ho =>
    generalize hm : m.output = o at ho
    cases ho with
    | since text => exact ⟨text, rfl, rfl⟩

/-- Evaluation that did not run out of depth. -/
def Eval.Done (r : EStateM.Result Stop Machine α) : Prop := ∀ m, r ≠ .error .exhausted m

theorem Eval.Matched.done {r r' : EStateM.Result Stop Machine α} (h : Matched p q r r')
    (hr : Done r) : Done r' := by
  cases h with
  | ok => exact nofun
  | failed => exact nofun
  | exhausted => exact absurd rfl (hr _)

/-- Where both outputs held the same, the results are the same. -/
theorem Eval.Matched.eq {r r' : EStateM.Result Stop Machine α} (h : Matched p p r r')
    (hr : Done r) : r' = r := by
  cases r with
  | ok v m =>
    obtain ⟨text, hm, rfl⟩ := h.of_ok
    rw [← hm]
  | error stop m =>
    cases stop with
    | exhausted => exact absurd rfl (hr m)
    | failed failure =>
      obtain ⟨text, hm, rfl⟩ := h.of_failed
      rw [← hm]

/-- Where the first actions ended well, what comes after them is to be matched. -/
theorem Eval.Matched.bind {a a' : Eval α} {k k' : α → Eval β} {m m' : Machine}
    (ha : Matched p q (a.run m) (a'.run m'))
    (hk : ∀ v m₁ o', a.run m = .ok v m₁ → Output.Resumed p q m₁.output o' →
      Matched p q ((k v).run m₁) ((k' v).run { m₁ with output := o' })) :
    Matched p q ((a >>= k).run m) ((a' >>= k').run m') := by
  generalize hr : a.run m = r at ha
  generalize hr' : a'.run m' = r' at ha
  cases ha with
  | ok h =>
    rw [Eval.run_bind_ok hr, Eval.run_bind_ok hr']
    exact hk _ _ _ hr h
  | failed h =>
    rw [Eval.run_bind_error hr, Eval.run_bind_error hr']
    exact .failed h
  | exhausted =>
    rw [Eval.run_bind_error hr]
    exact .exhausted

theorem Eval.Matched.inFrame {a a' : Eval α} {f : FrameId} {m : Machine} {o' : Output}
    (ha : Matched p q (a.run { m with current := f })
      (a'.run { m with current := f, output := o' })) :
    Matched p q ((Machine.inFrame f a).run m)
      ((Machine.inFrame f a').run { m with output := o' }) := by
  rw [Eval.run_inFrame, Eval.run_inFrame]
  have hm' : ({ { m with output := o' } with current := f } : Machine) =
      { m with current := f, output := o' } := rfl
  rw [hm']
  generalize a.run { m with current := f } = r at ha
  generalize a'.run { m with current := f, output := o' } = r' at ha
  cases ha with
  | ok h => exact .ok h
  | failed h => exact .failed h
  | exhausted => exact .exhausted

/-- The second evaluation follows the first one on machines with such outputs. -/
def Eval.Follows (p q : ByteArray) (a a' : Eval α) : Prop :=
  ∀ (m : Machine) (o' : Output), Output.Resumed p q m.output o' →
    Eval.Matched p q (a.run m) (a'.run { m with output := o' })

open Eval

namespace Eval.Follows

theorem pure (v : α) : Follows p q (pure v) (pure v) := fun _ _ h => .ok h

theorem exhausted {a' : Eval α} : Follows p q Machine.exhausted a' := fun _ _ _ => .exhausted

theorem failed (failure : Failure) :
    Follows p q (throw (.failed failure) : Eval α) (throw (.failed failure)) :=
  fun _ _ h => .failed h

theorem fail (token : Token) (fault : RuntimeFault) :
    Follows p q (Machine.fail token fault : Eval α) (Machine.fail token fault) := failed _

theorem bind {a a' : Eval α} {k k' : α → Eval β} (ha : Follows p q a a')
    (hk : ∀ v, Follows p q (k v) (k' v)) : Follows p q (a >>= k) (a' >>= k') :=
  fun m o' ho => (ha m o' ho).bind fun v m₁ o₁ _ => hk v m₁ o₁

/-- On the very same machine. -/
theorem on {a a' : Eval α} (h : Follows p p a a') {m : Machine} (hm : m.output = .endless p) :
    Matched p p (a.run m) (a'.run m) := by
  refine h m m.output ?_
  rw [hm]
  exact .start p p

end Eval.Follows

theorem follows_text (v : Value) : Follows p q (Machine.text v) (Machine.text v) :=
  fun _ _ h => .ok h

/-- A text is written behind whatever was there. -/
theorem Output.Resumed.write {o o' : Output} (h : Output.Resumed p q o o') (text : String) :
    (o.write text).1 = true ∧ (o'.write text).1 = true ∧
      Output.Resumed p q (o.write text).2 (o'.write text).2 := by
  cases h with
  | since before =>
    have hsince := Output.Resumed.since (p := p) (q := q) (before ++ text.toByteArray)
    rw [← ByteArray.append_assoc, ← ByteArray.append_assoc] at hsince
    exact ⟨rfl, rfl, hsince⟩

theorem follows_write (text : String) : Follows p q (write text) (write text) := by
  intro m o' ho
  obtain ⟨hfits, hfits', hwritten⟩ := ho.write text
  rw [run_write, run_write, hfits, hfits']
  exact .ok hwritten

theorem Output.Resumed.flush {o o' : Output} (h : Output.Resumed p q o o') :
    o.flush = (true, o) ∧ o'.flush = (true, o') := by
  cases h with
  | since text => exact ⟨rfl, rfl⟩

theorem follows_flush : Follows p q flush flush := by
  intro m o' ho
  rw [run_flush, run_flush, ho.flush.1, ho.flush.2]
  exact .ok ho

theorem follows_takeLine : Follows p q takeLine takeLine := by
  intro m o' ho
  rw [run_takeLine, run_takeLine]
  cases m.input.isEmpty with
  | true => exact .ok ho
  | false =>
    cases Input.lineText (Input.cutLine m.input).1 with
    | ok text => exact .ok ho
    | error fault => exact .failed ho

theorem follows_readLine : Follows p q readLine readLine :=
  follows_flush.bind fun _ => follows_takeLine

theorem Builtin.follows_readInput (site : Token) (prompt : Option Value) :
    Follows p q (readInput site prompt) (readInput site prompt) := by
  unfold readInput
  split
  · exact follows_readLine.bind fun _ => .pure _
  · exact (follows_write _).bind fun _ => follows_readLine.bind fun _ => .pure _
  · exact .fail _ _

theorem Eval.Single.follows {R : Realm} {g : FrameId} {a : Eval α} {Q : α → Prop}
    (h : Eval.Single R g a Q) : Follows p q a a := by
  intro m o' ho
  cases h with
  | @assign id name v create =>
    have htarget : ({ m with output := o' } : Machine).target? id name.lexeme create =
        m.target? id name.lexeme create := rfl
    rw [run_assign, run_assign, htarget]
    cases m.target? id name.lexeme create with
    | none => exact .failed ho
    | some f => exact .ok ho
  | writeProperty object name v =>
    unfold Machine.writeProperty
    split
    · exact .ok ho
    · exact .failed ho
  | write text => exact follows_write text m o' ho
  | exhausted => exact .exhausted
  | fail | stray => exact .failed ho
  | pure | openFrame | define | newClosure | newClass | newObject | bindMethod | readClock | chance =>
    exact .ok ho

/-- The parts of the second evaluation follow those of the first, and its loops may take as many
rounds. -/
structure Below.Follows (p q : ByteArray) (b b' : Below) : Prop where
  evaluate : ∀ e, Eval.Follows p q (b.evaluate e) (b'.evaluate e)
  execute : ∀ s, Eval.Follows p q (b.execute s) (b'.execute s)
  rounds : b.rounds ≤ b'.rounds

/-- What is made of such parts follows as well. -/
theorem Below.Follows.composed {b b' : Below} (h : b.Follows p q b') (hb : Realm.any.Governs b)
    {g : FrameId} {a a' : Eval α} {Q : α → Prop} (ha : Eval.Composed .any b b' g a a' Q) :
    ∀ (m : Machine) (o' : Output), m.current = g → Output.Resumed p q m.output o' →
      Matched p q (a.run m) (a'.run { m with output := o' }) := by
  induction ha with
  | single h => exact fun m o' _ => h.follows m o'
  | readInput site prompt => exact fun m o' _ => Builtin.follows_readInput site prompt m o'
  | @look g α k k' Q hk _ ih =>
    intro m o' hg ho
    have hmatched := ih m hg (Realm.admits_any _) m o' hg ho
    rw [← (hk m o' m.input).2] at hmatched
    exact hmatched
  | bind ha _ iha ihk =>
    intro m o' hg ho
    refine (iha m o' hg ho).bind fun v m₁ o₁ hr ho₁ => ?_
    have hends := hb.composed ha.left m hg (Realm.admits_any _)
    rw [hr] at hends
    exact ihk v hends.2.2 m₁ o₁ hends.1 ho₁
  | @inFrame f g α a a' Q _ ih =>
    exact fun m o' _ ho => (ih { m with current := f } o' rfl ho).inFrame
  | evaluate _ => exact fun m o' _ => h.evaluate _ m o'
  | execute _ _ => exact fun m o' _ => h.execute _ m o'
  | spent _ => exact fun _ _ _ _ => .exhausted

/-- Evaluation up to a depth is followed by evaluation up to any greater one. -/
theorem Below.follows_upTo {depth depth' : Nat} (hle : depth ≤ depth') :
    (Below.upTo depth).Follows p q (.upTo depth') := by
  induction depth generalizing depth' with
  | zero => exact ⟨fun _ => .exhausted, fun _ => .exhausted, Nat.zero_le _⟩
  | succ depth ih =>
    cases depth' with
    | zero => cases hle
    | succ depth' =>
      have h := ih (Nat.le_of_succ_le_succ hle)
      have hb := Realm.any.governs_upTo depth
      refine ⟨fun e m o' ho => ?_, fun s m o' ho => ?_, hle⟩
      · exact h.composed hb (composed_evaluateStep (Realm.hosts_of_frame trivial _)) m o' rfl ho
      · exact h.composed hb (composed_executeStep h.rounds trivial fun _ _ => trivial) m o' rfl ho

end Scriptling
