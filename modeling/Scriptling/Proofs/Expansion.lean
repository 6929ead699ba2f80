import Scriptling.Proofs.Depth
import Scriptling.Proofs.Growth
import Scriptling.Proofs.LockstepSteps

namespace Scriptling

open Machine

variable {m m₁ : Machine} {i j : ExprId} {name name' : Token}

/-- Tokens that read alike and stand at the same place. -/
structure Token.Alike (t t' : Token) : Prop where
  lexeme : t'.lexeme = t.lexeme
  place : t'.place = t.place

/-- The operator of a compound assignment, and the one between the old value and the operand. -/
inductive Kind.Compounds : Kind → Kind → Prop
  | plus : Compounds .plusEqual .plus
  | minus : Compounds .minusEqual .minus
  | star : Compounds .starEqual .star
  | slash : Compounds .slashEqual .slash
  | percent : Compounds .percentEqual .percent

/-- Nodes that carry the same note, or none. -/
def Machine.Shares (m : Machine) (i j : ExprId) : Prop := m.distances[j]? = m.distances[i]?

/-- Nodes for the same variable, or for the same receiver. -/
inductive Expr.Rereads (m : Machine) : Expr → Expr → Prop
  | var {i j : ExprId} {name name' : Token} : m.Shares i j → name.Alike name' →
    Rereads m (.var i name) (.var j name')
  | this {i j : ExprId} {keyword keyword' : Token} : m.Shares i j → keyword.Alike keyword' →
    Rereads m (.this i keyword) (.this j keyword')

/-- A compound assignment on a variable, or on a property of a variable or of the receiver, and the
assignment it stands for. -/
inductive Expr.Expands (m : Machine) : Expr → Expr → Prop
  | assign {i j k : ExprId} {name name' name'' operator operator' : Token} (operand : Expr) :
    m.Shares i j → m.Shares i k → name.Alike name' → name.Alike name'' →
    operator.kind.Compounds operator'.kind → operator'.place = operator.place →
    Expands m (.compoundAssign i name operator operand)
      (.assign j name' (.binary (.var k name'') operator' operand))
  | set {o o' o'' : Expr} {name name' name'' operator operator' : Token} (operand : Expr) :
    o.Rereads m o' → o.Rereads m o'' → name.Alike name' → name.Alike name'' →
    operator.kind.Compounds operator'.kind → operator'.place = operator.place →
    Expands m (.compoundSet o name operator operand)
      (.set o' name' (.binary (.get o'' name'') operator' operand))

/-- A variable or a property, and the compound assignment that adds one to it. -/
inductive Expr.AddsOne (m : Machine) : Expr → Expr → Prop
  | var {i j : ExprId} {name name' operator : Token} : m.Shares i j → name.Alike name' →
    operator.kind = .plusEqual →
    AddsOne m (.var i name) (.compoundAssign j name' operator (.literal (.number 1)))
  | get {o : Expr} {name name' operator : Token} : name.Alike name' →
    operator.kind = .plusEqual →
    AddsOne m (.get o name) (.compoundSet o name' operator (.literal (.number 1)))

theorem Machine.checked_congr {α : Type} {t t' : Token} (h : t'.place = t.place)
    (r : Except RuntimeFault α) : checked t' r = checked t r := by
  cases r with
  | ok a => rfl
  | error fault => simp only [checked, fail, h]

/-- A compound operator does what the operator inside it does. -/
theorem Below.applyCompound_eq {operator operator' : Token}
    (hk : operator.kind.Compounds operator'.kind) (hp : operator'.place = operator.place)
    (l r : Value) : applyBinary operator' l r = applyCompound operator l r := by
  have happly : Operator.apply operator'.kind operator'.lexeme l r =
      Operator.apply (Operator.base operator.kind) operator.lexeme l r := by
    generalize operator.kind = kind at hk
    generalize operator'.kind = kind' at hk
    cases hk <;> rfl
  rw [applyBinary, applyCompound, happly, checked_congr hp]

theorem Machine.run_lookUp_congr (hs : m.Shares i j) (hn : name.Alike name') :
    (lookUp j name').run m = (lookUp i name).run m := by
  rw [run_lookUp, run_lookUp, show m.distances[j]? = m.distances[i]? from hs, hn.lexeme, hn.place]

theorem Machine.run_readProperty_congr (hn : name.Alike name') (o : Value) :
    (readProperty o name').run m = (readProperty o name).run m := by
  rw [run_readProperty, run_readProperty, hn.lexeme, hn.place]

theorem Machine.writeProperty_congr (hn : name.Alike name') (o v : Value) :
    writeProperty o name' v = writeProperty o name v := by
  simp only [writeProperty, fail, hn.lexeme, hn.place]

/-- A reading changes nothing. -/
theorem Machine.eq_of_run_lookUp {v : Value} (h : (lookUp i name).run m = .ok v m₁) : m₁ = m := by
  rw [run_lookUp] at h
  split at h
  · cases h
    rfl
  · cases h

/-- A name that a frame has stays there. -/
theorem Store.Grows.isSome_local? {s s' : Store} (h : s.Grows s') {f : FrameId} {x : String}
    (hx : (s.local? f x).isSome) : (s'.local? f x).isSome := by
  obtain ⟨v, hv⟩ := Option.isSome_iff_exists.1 hx
  obtain ⟨frame, hframe, hbinding⟩ := Option.bind_eq_some_iff.1 hv
  obtain ⟨frame', hframe', hgrows⟩ := h.frames f frame hframe
  rw [local?, hframe', Option.bind_some]
  exact hgrows.bindings x (Option.isSome_iff_exists.2 ⟨v, hbinding⟩)

/-- A variable that could be read is found again, so none has to be made for it. -/
theorem Machine.target?_of_lookUp {v : Value} {m' : Machine}
    (hv : (lookUp i name).run m = .ok v m') (h : m.Reaches m₁) :
    m₁.target? i name.lexeme true = m₁.target? i name.lexeme false := by
  unfold target?
  rw [h.distances_eq]
  cases hd : m.distances[i]? with
  | some d => rfl
  | none =>
    rw [run_lookUp, hd] at hv
    dsimp only at hv
    split at hv
    · rename_i hfound
      rw [Store.get?, Option.bind_eq_some_iff] at hfound
      obtain ⟨f, hf, -⟩ := hfound
      rw [Store.holder?_globals] at hf
      split at hf
      · rename_i hsome
        rw [if_pos rfl, if_neg Bool.false_ne_true, Store.holder?_globals,
          if_pos (h.grows.isSome_local? hsome)]
      · cases hf
    · cases hv

theorem Machine.Reaches.shares (h : m.Reaches m₁) (hs : m.Shares i j) : m₁.Shares i j := by
  rw [Shares, h.distances_eq]
  exact hs

/-- Nodes that share a note write to the same variable. -/
theorem Machine.run_assign_congr (hs : m.Shares i j) (hn : name.Alike name') (new : Value)
    (create : Bool) :
    (assign j name' new create).run m = (assign i name new create).run m := by
  have htarget : m.target? j name.lexeme create = m.target? i name.lexeme create := by
    simp only [target?, show m.distances[j]? = m.distances[i]? from hs]
  rw [run_assign, run_assign, hn.lexeme, hn.place, htarget]

theorem reaches_evaluate {depth : Nat} {e : Expr} {v : Value}
    (h : (evaluate depth e).run m = .ok v m₁) : m.Reaches m₁ := by
  have hreaches := (Below.steps_upTo depth).evaluate e m
  rwa [show after ((Below.upTo depth).evaluate e) m = m₁ from after_ok h] at hreaches

/-- The object of a property is found again by the same reading, at whatever depth. -/
theorem Expr.Rereads.run_eq {o o' : Expr} (h : o.Rereads m o') (depth depth' : Nat) :
    (evaluate (depth' + 1) o').run m = (evaluate (depth + 1) o).run m := by
  cases h with
  | var hs hn => exact run_lookUp_congr hs hn
  | this hs hn => exact run_lookUp_congr hs hn

/-- An object that is read twice is read without a change. -/
theorem Expr.Rereads.eq_of_run {o o' : Expr} (h : o.Rereads m o') {depth : Nat} {v : Value}
    (hr : (evaluate (depth + 1) o).run m = .ok v m₁) : m₁ = m := by
  cases h with
  | var => exact eq_of_run_lookUp hr
  | this => exact eq_of_run_lookUp hr

/-- An operation changes nothing. -/
theorem Below.eq_of_run_applyCompound {operator : Token} {l r v : Value}
    (h : (applyCompound operator l r).run m = .ok v m₁) : m₁ = m := by
  unfold applyCompound at h
  cases happly : Operator.apply (Operator.base operator.kind) operator.lexeme l r with
  | ok v =>
    rw [happly] at h
    cases h
    rfl
  | error fault =>
    rw [happly] at h
    cases h

/-- The assignment is evaluated one level deeper. -/
theorem Expr.Expands.run_eq {c e : Expr} (h : c.Expands m e) (depth : Nat) :
    (evaluate (depth + 3) c).run m = (evaluate (depth + 4) e).run m := by
  cases h with
  | @assign i j k name name' name'' operator operator' operand hj hk hn hn' ho hp =>
    change _ = EStateM.run ((lookUp k name'' >>= fun l => evaluate (depth + 2) operand >>= fun r =>
      Below.applyBinary operator' l r) >>= fun v => Machine.assign j name' v true >>= fun _ =>
        pure v) m
    simp only [bind_assoc]
    refine (Eval.run_bind_eq (run_lookUp_congr hk hn') fun old m₁ hold => ?_).symm
    obtain rfl := eq_of_run_lookUp hold
    refine Eval.run_bind_eq rfl fun operand' m₂ hoperand => ?_
    rw [Below.applyCompound_eq ho hp]
    refine Eval.run_bind_eq rfl fun new m₃ hnew => ?_
    obtain rfl := Below.eq_of_run_applyCompound hnew
    have hreaches := reaches_evaluate hoperand
    refine Eval.run_bind_eq ?_ fun _ _ _ => rfl
    rw [run_assign_congr (hreaches.shares hj) hn, run_assign, run_assign,
      target?_of_lookUp hold hreaches]
  | @set o o' o'' name name' name'' operator operator' operand ho' ho'' hn hn' ho hp =>
    change _ = EStateM.run (evaluate (depth + 3) o' >>= fun o => ((evaluate (depth + 1) o'' >>=
      fun o => readProperty o name'') >>= fun l => evaluate (depth + 2) operand >>= fun r =>
        Below.applyBinary operator' l r) >>= fun v => writeProperty o name' v >>= fun _ => pure v) m
    simp only [bind_assoc]
    refine (Eval.run_bind_eq (ho'.run_eq _ _) fun object m₁ hobject => ?_).symm
    obtain rfl := ho'.eq_of_run hobject
    rw [Eval.run_bind_ok ((ho''.run_eq _ _).trans hobject)]
    refine Eval.run_bind_eq (run_readProperty_congr hn' object) fun old m₂ _ => ?_
    refine Eval.run_bind_eq rfl fun operand' m₃ _ => ?_
    simp only [Below.applyCompound_eq ho hp, writeProperty_congr hn]

/-- How a count upwards ends, beside the reading of its target and beside the sum: like the sum, but
for the number it answers. -/
inductive Eval.Counted (before : Bool) : EStateM.Result Stop Machine Value →
    EStateM.Result Stop Machine Value → EStateM.Result Stop Machine Value → Prop
  | unread {stop : Stop} {m : Machine} :
    Counted before (.error stop m) (.error stop m) (.error stop m)
  | unwritten {old : Float} {stop : Stop} {m m₁ : Machine} :
    Counted before (.ok (.number old) m) (.error stop m₁) (.error stop m₁)
  | written {old : Float} {m m₁ : Machine} :
    Counted before (.ok (.number old) m) (.ok (.number (if before then old + 1 else old)) m₁)
      (.ok (.number (old + 1)) m₁)

namespace Eval.Counted

variable {before : Bool} {read update sum : EStateM.Result Stop Machine Value}

theorem eq_sum (h : Counted true read update sum) : update = sum := by
  cases h <;> rfl

theorem error_iff (h : Counted before read update sum) {stop : Stop} :
    update = .error stop m ↔ sum = .error stop m := by
  cases h with
  | unread => rfl
  | unwritten => rfl
  | written => exact ⟨nofun, nofun⟩

/-- Counting answers a number exactly if the old value was one and the sum was written. -/
theorem ok_iff (h : Counted false read update sum) {v : Value} : update = .ok v m ↔
    ∃ old m', v = .number old ∧ read = .ok (.number old) m' ∧ sum = .ok (.number (old + 1)) m := by
  cases h with
  | unread => exact ⟨nofun, fun ⟨_, _, _, h, _⟩ => nomatch h⟩
  | unwritten => exact ⟨nofun, fun ⟨_, _, _, _, h⟩ => nomatch h⟩
  | @written old m' m₁ =>
    constructor
    · intro h
      cases h
      exact ⟨old, m', rfl, rfl, rfl⟩
    · rintro ⟨old', m'', rfl, hread, hsum⟩
      cases hread
      cases hsum
      rfl

/-- What is read before a writing and what is answered after it. -/
theorem of_write {old : Float} (write : Value → Eval Unit) (m m' : Machine) :
    Counted before (.ok (.number old) m')
      ((write (.number (old + 1)) >>= fun _ =>
        pure (.number (if before then old + 1 else old))).run m)
      ((write (.number (old + 1)) >>= fun _ => pure (.number (old + 1))).run m) := by
  cases hw : (write (.number (old + 1))).run m with
  | ok v m₁ =>
    rw [Eval.run_bind_ok hw, Eval.run_bind_ok hw]
    exact .written
  | error stop m₁ =>
    rw [Eval.run_bind_error hw, Eval.run_bind_error hw]
    exact .unwritten

end Eval.Counted

/-- Adding one to a number is adding one. -/
theorem Below.applyCompound_one {operator : Token} (h : operator.kind = .plusEqual) (old : Float) :
    applyCompound operator (.number old) (.number 1) = pure (.number (old + 1)) := by
  rw [applyCompound, h]
  rfl

/-- A target that is read as a number is counted like one is added to it. -/
theorem Expr.AddsOne.counted {t c : Expr} (h : t.AddsOne m c) {operator : Token}
    (hk : operator.kind = .plusPlus) (before : Bool) (depth : Nat)
    (hnumber : ∀ v m', (evaluate (depth + 2) t).run m = .ok v m' → ∃ x, v = .number x) :
    Eval.Counted before ((evaluate (depth + 2) t).run m)
      ((evaluate (depth + 2) (.update operator t before)).run m)
      ((evaluate (depth + 2) c).run m) := by
  cases h with
  | @var i j name name' plus hs hn hplus =>
    change Eval.Counted before ((lookUp i name).run m)
      ((lookUp i name >>= fun v => Below.numberOperand operator v >>= fun old =>
        Machine.assign i name (.number (old + if operator.kind = .plusPlus then 1 else -1)) false
          >>= fun _ => pure (.number
            (if before then old + (if operator.kind = .plusPlus then 1 else -1) else old))).run m)
      ((lookUp j name' >>= fun old => Below.applyCompound plus old (.number 1) >>= fun new =>
        Machine.assign j name' new false >>= fun _ => pure new).run m)
    cases hr : (lookUp i name).run m with
    | error stop m₁ =>
      rw [Eval.run_bind_error hr, Eval.run_bind_error ((run_lookUp_congr hs hn).trans hr)]
      exact .unread
    | ok v m₁ =>
      obtain ⟨old, rfl⟩ := hnumber v m₁ hr
      obtain rfl := eq_of_run_lookUp hr
      rw [Eval.run_bind_ok hr, Eval.run_bind_ok ((run_lookUp_congr hs hn).trans hr), if_pos hk,
        Below.applyCompound_one hplus, pure_bind,
        Eval.run_bind_eq (run_assign_congr hs hn _ false) fun _ _ _ => rfl]
      exact .of_write (fun new => Machine.assign i name new false) m₁ m₁
  | @get o name name' plus hn hplus =>
    change Eval.Counted before
      ((evaluate (depth + 1) o >>= fun o => readProperty o name).run m)
      ((evaluate (depth + 1) o >>= fun o => readProperty o name >>= fun v =>
        Below.numberOperand operator v >>= fun old =>
        writeProperty o name (.number (old + if operator.kind = .plusPlus then 1 else -1)) >>=
          fun _ => pure (.number
            (if before then old + (if operator.kind = .plusPlus then 1 else -1) else old))).run m)
      ((evaluate (depth + 1) o >>= fun o => readProperty o name' >>= fun old =>
        Below.applyCompound plus old (.number 1) >>= fun new => writeProperty o name' new >>= fun _ =>
          pure new).run m)
    rw [if_pos hk]
    cases ho : (evaluate (depth + 1) o).run m with
    | error stop m₁ =>
      rw [Eval.run_bind_error ho, Eval.run_bind_error ho, Eval.run_bind_error ho]
      exact .unread
    | ok object m₁ =>
      rw [Eval.run_bind_ok ho, Eval.run_bind_ok ho, Eval.run_bind_ok ho]
      cases hr : (readProperty object name).run m₁ with
      | error stop m₂ =>
        rw [Eval.run_bind_error hr,
          Eval.run_bind_error ((run_readProperty_congr hn object).trans hr)]
        exact .unread
      | ok v m₂ =>
        obtain ⟨old, rfl⟩ := hnumber v m₂ ((Eval.run_bind_ok ho).trans hr)
        rw [Eval.run_bind_ok hr, Eval.run_bind_ok ((run_readProperty_congr hn object).trans hr),
          Below.applyCompound_one hplus, pure_bind]
        simp only [writeProperty_congr hn]
        exact .of_write (fun new => writeProperty object name new) m₂ m₂

namespace Expr.AddsOne

variable {t c : Expr} {operator : Token}

/-- Whatever depth it is evaluated to, a target whose value is a number is counted. -/
theorem counted_of_comesTo (h : t.AddsOne m c) (hk : operator.kind = .plusPlus)
    (hnumber : ∀ v m₁, t.ComesTo m (.ok v m₁) → ∃ x, v = .number x) (before : Bool) (depth : Nat) :
    Eval.Counted before ((evaluate (depth + 2) t).run m)
      ((evaluate (depth + 2) (.update operator t before)).run m)
      ((evaluate (depth + 2) c).run m) :=
  h.counted hk before depth fun v m₁ hr => hnumber v m₁ ⟨.ok _ _, depth + 2, hr⟩

/-- A counter in front answers what the compound assignment does. -/
theorem comesTo_before_iff (h : t.AddsOne m c) (hk : operator.kind = .plusPlus)
    (hnumber : ∀ v m₁, t.ComesTo m (.ok v m₁) → ∃ x, v = .number x)
    (r : EStateM.Result Stop Machine Value) :
    (Expr.update operator t true).ComesTo m r ↔ c.ComesTo m r :=
  comesTo_congr (fun depth => (h.counted_of_comesTo hk hnumber true depth).eq_sum) r

/-- A counter behind fails as the compound assignment does. -/
theorem comesTo_after_error_iff (h : t.AddsOne m c) (hk : operator.kind = .plusPlus)
    (hnumber : ∀ v m₁, t.ComesTo m (.ok v m₁) → ∃ x, v = .number x) (stop : Stop) :
    (Expr.update operator t false).ComesTo m (.error stop m₁) ↔ c.ComesTo m (.error stop m₁) := by
  have hcounted := h.counted_of_comesTo hk hnumber false
  exact ⟨fun hu => hu.transfer (fun depth => (hcounted depth).error_iff.1) hu.1,
    fun hc => hc.transfer (fun depth => (hcounted depth).error_iff.2) hc.1⟩

/-- And it answers the old number, leaving the machine that the compound assignment leaves. -/
theorem comesTo_after_ok_iff (h : t.AddsOne m c) (hk : operator.kind = .plusPlus)
    (hnumber : ∀ v m₁, t.ComesTo m (.ok v m₁) → ∃ x, v = .number x) (v : Value) :
    (Expr.update operator t false).ComesTo m (.ok v m₁) ↔ ∃ old m', v = .number old ∧
      t.ComesTo m (.ok (.number old) m') ∧ c.ComesTo m (.ok (.number (old + 1)) m₁) := by
  have hcounted := h.counted_of_comesTo hk hnumber false
  constructor
  · intro hu
    obtain ⟨least, hrun⟩ := hu.run_eq
    obtain ⟨old, m', hv, ht, hc⟩ :=
      (hcounted least).ok_iff.1 (hrun (least + 2) (Nat.le_add_right _ _))
    exact ⟨old, m', hv, ⟨.ok _ _, _, ht⟩, .ok _ _, _, hc⟩
  · rintro ⟨old, m', rfl, ht, hc⟩
    obtain ⟨least, hrun⟩ := ht.run_eq
    obtain ⟨least', hrun'⟩ := hc.run_eq
    have hu := (hcounted (least + least')).ok_iff.2
      ⟨old, m', rfl, hrun _ (by omega), hrun' _ (by omega)⟩
    exact ⟨.ok _ _, _, hu⟩

end Expr.AddsOne

/-- **Compound assignments are their expansions.** On any machine a compound assignment of a
variable, or of a property of a variable or the receiver, comes to the same value or failure as the
assignment of the operation, and leaves the same machine. Where the value of a variable or property
is a number if it has one, `++` before it is the compound assignment that adds one, and after it has
the same effect but answers the old value. -/
theorem Expr.compound_expands (m : Machine) :
    (∀ c e : Expr, c.Expands m e → ∀ r, c.ComesTo m r ↔ e.ComesTo m r) ∧
    ∀ (operator : Token) (t c : Expr), operator.kind = .plusPlus → t.AddsOne m c →
      (∀ v m₁, t.ComesTo m (.ok v m₁) → ∃ x, v = .number x) →
      (∀ r, (Expr.update operator t true).ComesTo m r ↔ c.ComesTo m r) ∧
      (∀ stop m₁, (Expr.update operator t false).ComesTo m (.error stop m₁) ↔
        c.ComesTo m (.error stop m₁)) ∧
      ∀ v m₁, (Expr.update operator t false).ComesTo m (.ok v m₁) ↔ ∃ old m', v = .number old ∧
        t.ComesTo m (.ok (.number old) m') ∧ c.ComesTo m (.ok (.number (old + 1)) m₁) := by
  refine ⟨fun c e h => comesTo_congr h.run_eq, fun operator t c hk h hnumber => ⟨?_, ?_, ?_⟩⟩
  · exact h.comesTo_before_iff hk hnumber
  · exact fun stop m₁ => h.comesTo_after_error_iff hk hnumber stop
  · exact fun v m₁ => h.comesTo_after_ok_iff hk hnumber v

/-- A machine with a number among its globals, and an instance with a field. -/
def oneAndInstance : Machine :=
  { Machine.start [] .unlimited 0 0 with
    store :=
      { Store.start with
        frames := #[⟨[("n", .number 1), ("o", .object 0)], none⟩]
        classes := #[⟨"A", none, [], [], []⟩]
        objects := #[⟨0, [("f", .number 5)]⟩] } }

def namedVar (id : ExprId) (name : String) : Expr := .var id (.synthetic .identifier name)

/-- The operand gives the variable of the object another value, and the field is written all the
same. The global is counted. -/
theorem oneAndInstance_expands :
    (Expr.set (namedVar 0 "o") (.synthetic .identifier "f")
      (.binary (.get (namedVar 1 "o") (.synthetic .identifier "f")) (.synthetic .plus "+")
        (.assign 2 (.synthetic .identifier "o") (namedVar 3 "n")))).ComesTo oneAndInstance
      (.ok (.number 6) { oneAndInstance with
        store := (oneAndInstance.store.define .globals "o" (.number 1)).setField (.object 0) "f"
          (.number 6) }) ∧
    (Expr.update (.synthetic .plusPlus "++") (namedVar 4 "n") false).ComesTo oneAndInstance
      (.ok (.number 1) { oneAndInstance with
        store := oneAndInstance.store.define .globals "n" (.number 2) }) := by
  have hsix : (6 : Float) = 5 + 1 := by decide +kernel
  have htwo : (2 : Float) = 1 + 1 := by decide +kernel
  have halike : ∀ t : Token, t.Alike t := fun _ => ⟨rfl, rfl⟩
  obtain ⟨hexpands, hcounts⟩ := Expr.compound_expands oneAndInstance
  constructor
  · have hset : Expr.Expands oneAndInstance
        (.compoundSet (namedVar 0 "o") (.synthetic .identifier "f") (.synthetic .plusEqual "+=")
          (.assign 2 (.synthetic .identifier "o") (namedVar 3 "n")))
        (.set (namedVar 0 "o") (.synthetic .identifier "f")
          (.binary (.get (namedVar 1 "o") (.synthetic .identifier "f")) (.synthetic .plus "+")
            (.assign 2 (.synthetic .identifier "o") (namedVar 3 "n")))) :=
      .set _ (.var rfl (halike _)) (.var rfl (halike _)) (halike _) (halike _) .plus rfl
    rw [hsix]
    exact (hexpands _ _ hset _).1 ⟨.ok _ _, 4, rfl⟩
  · have hread : (namedVar 4 "n").ComesTo oneAndInstance (.ok (.number 1) oneAndInstance) :=
      ⟨.ok _ _, 1, rfl⟩
    have hcount := hcounts (.synthetic .plusPlus "++") (namedVar 4 "n")
      (.compoundAssign 5 (.synthetic .identifier "n") (.synthetic .plusEqual "+=")
        (.literal (.number 1))) rfl (.var rfl (halike _) rfl) fun v m₁ hv => by
          injection hread.unique hv with hvalue
          exact ⟨1, hvalue⟩
    rw [htwo]
    exact (hcount.2.2 _ _).2 ⟨1, oneAndInstance, rfl, hread, .ok _ _, 2, rfl⟩

end Scriptling
