import Scriptling.Proofs.Arguments
import Scriptling.Proofs.Placement

namespace Scriptling

open Machine

variable {α β : Type} {m m₁ m₂ : Machine} {f g : FrameId} {n : Nat} {names names' : List String}

namespace Store

theorem mem_names_iff {s : Store} {name : String} :
    name ∈ s.names f ↔ (s.local? f name).isSome := by
  unfold names local?
  cases s.frames[f]? with
  | none => simp
  | some frame => exact Table.has_iff.symm

theorem names_congr {s s' : Store} (h : s'.frames = s.frames) (f : FrameId) :
    s'.names f = s.names f := by
  rw [names, h, names]

theorem mem_names_define {s : Store} {name x : String} {v : Value}
    (h : x ∈ (s.define f name v).names g) : x ∈ s.names g ∨ g = f ∧ x = name := by
  rw [mem_names_iff, local?, define, Array.getElem?_modify] at h
  rw [mem_names_iff, local?]
  split at h
  · rename_i hfg
    subst hfg
    cases hframe : s.frames[f]? with
    | none =>
      rw [hframe] at h
      cases h
    | some frame =>
      rw [hframe, Option.map_some, Option.bind_some, Table.get?_put] at h
      split at h
      · rename_i hname
        exact .inr ⟨rfl, hname.symm⟩
      · exact .inl h
  · exact .inl h

/-- The names of older frames stay when one is opened. -/
theorem names_openFrame {s : Store} (parent : Option FrameId) (bindings : Table Value)
    (hf : f < s.frames.size) : (s.openFrame parent bindings).2.names f = s.names f := by
  simp only [names, openFrame, Array.getElem?_push, if_neg (Nat.ne_of_lt hf)]

end Store

/-- Of the first frames only one may have new names, and those only. The global frame does not
count. -/
structure Machine.Widens (n : Nat) (g : FrameId) (names : List String) (m m₁ : Machine) : Prop where
  current : m₁.current = m.current
  size : m.store.frames.size ≤ m₁.store.frames.size
  names : ∀ f : FrameId, f < n → f ≠ .globals → ∀ x ∈ m₁.store.names f,
    x ∈ m.store.names f ∨ f = g ∧ x ∈ names

namespace Machine.Widens

theorem refl (m : Machine) : m.Widens n g names m := ⟨rfl, Nat.le_refl _, fun _ _ _ _ hx => .inl hx⟩

theorem trans (h : m.Widens n g names m₁) (h' : m₁.Widens n g names m₂) :
    m.Widens n g names m₂ where
  current := h'.current.trans h.current
  size := Nat.le_trans h.size h'.size
  names f hf hne x hx := by
    rcases h'.names f hf hne x hx with hx | hx
    · exact h.names f hf hne x hx
    · exact .inr hx

theorem mono (h : m.Widens n g names m₁) (hn : ∀ x ∈ names, x ∈ names') :
    m.Widens n g names' m₁ :=
  ⟨h.current, h.size, fun f hf hne x hx =>
    (h.names f hf hne x hx).imp_right fun hx => ⟨hx.1, hn x hx.2⟩⟩

end Machine.Widens

/-- The action, taken in the frame `h`, widens at most the frame `g` by the names. -/
def Eval.Widens (h : FrameId) (n : Nat) (g : FrameId) (names : List String) (act : Eval α) : Prop :=
  ∀ m : Machine, m.current = h → n ≤ m.store.frames.size → m.Widens n g names (after act m)

/-- Taken in any frame, the action widens none. -/
def Eval.Narrow (act : Eval α) : Prop := ∀ h n g, Eval.Widens h n g [] act

namespace Eval.Widens

variable {h : FrameId} {act : Eval α} {k : α → Eval β}

/-- What changes no frame widens none. -/
theorem of_frames (hact : ∀ m : Machine, (after act m).current = m.current ∧
    (after act m).store.frames = m.store.frames) : Widens h n g names act := by
  intro m _ _
  obtain ⟨hcurrent, hframes⟩ := hact m
  refine ⟨hcurrent, by rw [hframes], fun f _ _ x hx => ?_⟩
  rw [Store.names_congr hframes] at hx
  exact .inl hx

theorem pure (v : α) : Widens h n g names (pure v) := of_frames fun _ => ⟨rfl, rfl⟩

theorem throw (e : Stop) : Widens h n g names (throw e : Eval α) := of_frames fun _ => ⟨rfl, rfl⟩

theorem fail (token : Token) (fault : RuntimeFault) :
    Widens h n g names (Machine.fail token fault : Eval α) := throw _

theorem mono (ha : Widens h n g names act) (hn : ∀ x ∈ names, x ∈ names') :
    Widens h n g names' act := fun m hm hs => (ha m hm hs).mono hn

theorem bind (ha : Widens h n g names act) (hk : ∀ v, Widens h n g names (k v)) :
    Widens h n g names (act >>= k) := by
  intro m hm hs
  have hfirst := ha m hm hs
  cases hr : act.run m with
  | ok v m₁ =>
    rw [after_ok hr] at hfirst
    have hafter : after (act >>= k) m = after (k v) m₁ := by
      rw [after, Eval.run_bind_ok hr, after]
    rw [hafter]
    exact hfirst.trans (hk v m₁ (hfirst.current.trans hm) (Nat.le_trans hs hfirst.size))
  | error e m₁ =>
    rw [after_error hr] at hfirst
    rw [after_error (Eval.run_bind_error hr)]
    exact hfirst

/-- What an action that ends well leaves. -/
theorem ok {v : α} (ha : Widens m.current m.store.frames.size g names act)
    (hr : act.run m = .ok v m₁) : m.Widens m.store.frames.size g names m₁ := by
  have hw := ha m rfl (Nat.le_refl _)
  rwa [after_ok hr] at hw

/-- A look at the machine that the action is taken on. -/
theorem look {k : Machine → Eval α} (hk : ∀ m, Widens h n g names (k m)) :
    Widens h n g names (get >>= k) := fun m hm hs => hk m m hm hs

/-- The current frame is known. -/
theorem here {k : FrameId → Eval α} (hk : Widens h n g names (k h)) :
    Widens h n g names (currentFrame >>= k) := by
  intro m hm hs
  have hrun : currentFrame.run m = .ok m.current m := rfl
  have hafter : after (currentFrame >>= k) m = after (k h) m := by
    rw [after, Eval.run_bind_ok hrun, hm, after]
  rw [hafter]
  exact hk m hm hs

/-- A new frame may get any names. -/
theorem openFrame {k : FrameId → Eval α} (parent : FrameId) (bindings : Table Value)
    (hk : ∀ f, n ≤ f → Widens h n g names (k f)) :
    Widens h n g names (Machine.openFrame parent bindings >>= k) := by
  intro m hm hs
  let m₁ : Machine := { m with store := (m.store.openFrame (some parent) bindings).2 }
  have hrun : (Machine.openFrame parent bindings).run m = .ok m.store.frames.size m₁ := rfl
  have hafter : after (Machine.openFrame parent bindings >>= k) m =
      after (k m.store.frames.size) m₁ := by
    rw [after, Eval.run_bind_ok hrun, after]
  have hsize : m.store.frames.size ≤ m₁.store.frames.size := by simp [m₁, Store.openFrame]
  have hopened : m.Widens n g names m₁ := by
    refine ⟨rfl, hsize, fun f hf _ x hx => .inl ?_⟩
    rwa [Store.names_openFrame _ _ (Nat.lt_of_lt_of_le hf hs)] at hx
  rw [hafter]
  exact hopened.trans (hk _ hs m₁ hm (Nat.le_trans hs hsize))

theorem define (name : String) (v : Value) (hf : f = g ∧ name ∈ names ∨ n ≤ f) :
    Widens h n g names (Machine.define f name v) := by
  intro m _ _
  have hsize : m.store.frames.size ≤ (m.store.define f name v).frames.size := by simp
  refine ⟨rfl, hsize, fun f' hf' _ x hx => ?_⟩
  rcases Store.mem_names_define hx with hx | ⟨rfl, rfl⟩
  · exact .inl hx
  · exact .inr (hf.resolve_right (Nat.not_le.2 hf'))

/-- What is done in a frame may widen that one. -/
theorem inFrame (ha : Widens f n g names act) : Widens h n g names (Machine.inFrame f act) := by
  intro m hm hs
  have hinside := ha { m with current := f } rfl hs
  have hafter : after (Machine.inFrame f act) m =
      { after act { m with current := f } with current := m.current } := by
    rw [after, Eval.run_inFrame, after]
    cases act.run { m with current := f } <;> rfl
  rw [hafter]
  exact ⟨rfl, hinside.size, hinside.names⟩

/-- A frame that is not among the first does not count. -/
theorem beyond (ha : Widens h n f names act) (hf : n ≤ f) : Widens h n g [] act := by
  intro m hm hs
  obtain ⟨hcurrent, hsize, hnames⟩ := ha m hm hs
  refine ⟨hcurrent, hsize, fun f' hf' hne x hx => ?_⟩
  rcases hnames f' hf' hne x hx with hx | ⟨rfl, -⟩
  · exact .inl hx
  · exact absurd hf (Nat.not_le.2 hf')

end Eval.Widens

namespace Eval.Narrow

variable {act : Eval α} {k : α → Eval β}

theorem of_frames (hact : ∀ m : Machine, (after act m).current = m.current ∧
    (after act m).store.frames = m.store.frames) : Narrow act := fun _ _ _ => .of_frames hact

theorem pure (v : α) : Narrow (pure v) := fun _ _ _ => .pure v

theorem fail (token : Token) (fault : RuntimeFault) :
    Narrow (Machine.fail token fault : Eval α) := fun _ _ _ => .fail token fault

theorem bind (ha : Narrow act) (hk : ∀ v, Narrow (k v)) : Narrow (act >>= k) :=
  fun h n g => (ha h n g).bind fun v => hk v h n g

theorem look {k : Machine → Eval α} (hk : ∀ m, Narrow (k m)) : Narrow (get >>= k) :=
  fun h n g => .look fun m => hk m h n g

theorem discard (ha : Narrow act) : Narrow (Functor.discard act) := ha.bind fun _ => .pure ()

theorem checked (token : Token) (r : Except RuntimeFault α) : Narrow (Machine.checked token r) := by
  cases r with
  | ok v => exact .pure v
  | error fault => exact .fail token fault

theorem widens (ha : Narrow act) {h : FrameId} : Widens h n g names act :=
  (ha h n g).mono fun _ hx => absurd hx List.not_mem_nil

theorem ok {v : α} (ha : Narrow act) (hr : act.run m = .ok v m₁) :
    m.Widens m.store.frames.size g [] m₁ := (ha m.current m.store.frames.size g).ok hr

end Eval.Narrow

open Eval

theorem narrow_newClosure (c : Closure) : Narrow (newClosure c) := .of_frames fun _ => ⟨rfl, rfl⟩

theorem narrow_newClass (c : ClassRecord) : Narrow (newClass c) := .of_frames fun _ => ⟨rfl, rfl⟩

theorem narrow_newObject (c : ClassId) : Narrow (newObject c) := .of_frames fun _ => ⟨rfl, rfl⟩

theorem narrow_text (v : Value) : Narrow (Machine.text v) := .look fun _ => .pure _

theorem narrow_write (text : String) : Narrow (write text) := by
  apply Narrow.of_frames
  intro m
  rw [after, run_write]
  cases (m.output.write text).1 <;> exact ⟨rfl, rfl⟩

theorem narrow_flush : Narrow flush := by
  apply Narrow.of_frames
  intro m
  rw [after, run_flush]
  cases m.output.flush.1 <;> exact ⟨rfl, rfl⟩

theorem narrow_takeLine : Narrow takeLine := by
  apply Narrow.of_frames
  intro m
  rw [after, run_takeLine]
  cases m.input.isEmpty with
  | true => exact ⟨rfl, rfl⟩
  | false => cases Input.lineText (Input.cutLine m.input).1 <;> exact ⟨rfl, rfl⟩

theorem narrow_readLine : Narrow readLine := narrow_flush.bind fun _ => narrow_takeLine

theorem narrow_writeProperty (object : Value) (name : Token) (v : Value) :
    Narrow (writeProperty object name v) := by
  apply Narrow.of_frames
  intro m
  rw [after, run_writeProperty]
  cases object <;> exact ⟨rfl, rfl⟩

theorem narrow_bindMethod (method : ClosureId) (receiver : Value) :
    Narrow (bindMethod method receiver) := by
  intro h n g m hm hs
  rw [after_ok (Eval.run_bindMethod m method receiver), Store.bindMethod]
  split
  · exact .refl m
  · rename_i c _
    have hopened : Narrow (Machine.openFrame c.scope [("this", receiver)] >>= fun f =>
        newClosure { c with scope := f }) :=
      fun _ _ _ => .openFrame c.scope _ fun f _ => (narrow_newClosure _).widens
    exact hopened h n g m hm hs

theorem narrow_lookUp (id : ExprId) (name : Token) : Narrow (lookUp id name) := by
  apply Narrow.look
  intro m
  dsimp only
  split
  · exact .pure _
  · exact .fail _ _

/-- A variable is written where it already is, or among the globals. -/
theorem Machine.mem_names_target {id : ExprId} {name : String} {create : Bool}
    (h : m.target? id name create = some f) : f = .globals ∨ name ∈ m.store.names f := by
  unfold target? at h
  split at h
  · rw [Store.holderAt?, Option.filter_eq_some_iff] at h
    exact .inr (Store.mem_names_iff.2 h.2)
  · split at h
    · exact .inl (Option.some.inj h).symm
    · rw [Store.holder?_globals] at h
      split at h <;> cases h
      exact .inl rfl

theorem narrow_assign (id : ExprId) (name : Token) (v : Value) (create : Bool) :
    Narrow (assign id name v create) := by
  intro h n g m _ _
  rw [after, run_assign]
  cases htarget : m.target? id name.lexeme create with
  | none => exact .refl m
  | some f =>
    have hsize : m.store.frames.size ≤ (m.store.define f name.lexeme v).frames.size := by simp
    refine ⟨rfl, hsize, fun f' _ hne x hx => ?_⟩
    rcases Store.mem_names_define hx with hx | ⟨rfl, rfl⟩
    · exact .inl hx
    · exact .inl ((mem_names_target htarget).resolve_left hne)

theorem narrow_readProperty (object : Value) (name : Token) :
    Narrow (readProperty object name) := by
  apply Narrow.look
  intro m
  apply (Narrow.checked name _).bind
  intro property
  cases property with
  | field v => exact .pure v
  | method id => exact narrow_bindMethod id object

theorem Builtin.narrow_run (f : Builtin) (site : Token) (arguments : List Value) :
    Narrow (f.run site arguments) := by
  have hprint : ∀ (v : Value) (ending : String),
      Narrow (do write ((← text v) ++ ending); pure Value.nil) :=
    fun v ending => (narrow_text v).bind fun _ => (narrow_write _).bind fun _ => .pure _
  unfold Builtin.run
  split
  · have hclock : Narrow readClock := .of_frames fun _ => ⟨rfl, rfl⟩
    exact hclock.bind fun _ => .pure _
  · unfold printValue
    split
    · exact hprint _ _
    · exact hprint _ _
    · exact .fail _ _
  · unfold numberText
    split
    · exact .pure _
    · exact .fail _ _
  · unfold readInput
    split
    · exact narrow_readLine.bind fun _ => .pure _
    · exact (narrow_write _).bind fun _ => narrow_readLine.bind fun _ => .pure _
    · exact .fail _ _
  · unfold parseNumber
    split
    · split
      · exact .pure _
      · exact .fail _ _
    · exact .fail _ _
  · exact .pure _
  · unfold squareRoot
    split
    · split
      · exact .pure _
      · exact .fail _ _
    · exact .fail _ _
  · unfold randomWhole
    split
    · split
      · have hchance : ∀ count, Narrow (chance count) := fun _ => .of_frames fun _ => ⟨rfl, rfl⟩
        exact (hchance _).bind fun _ => .pure _
      · exact .fail _ _
    · exact .fail _ _
  · exact .look fun _ => .pure _
  · exact .pure _
  · exact .pure _

theorem narrow_numberOperand (operator : Token) (v : Value) :
    Narrow (Below.numberOperand operator v) := by
  cases v with
  | number x => exact .pure x
  | _ => exact .fail _ _

theorem Below.narrow_methodTable (scope : FrameId) (initializer : Token → Bool)
    (table : Table ClosureId) (ds : List FunctionDecl) :
    Narrow (Below.methodTable scope initializer table ds) := by
  induction ds generalizing table with
  | nil => exact .pure table
  | cons d ds ih => exact (narrow_newClosure _).bind fun _ => ih _

/-- What is known of evaluation of parts: expressions widen no frame, a statement the one that it
runs in. -/
structure Below.Widens (b : Below) : Prop where
  evaluate : ∀ e, Narrow (b.evaluate e)
  execute : ∀ s n g, Eval.Widens g n g s.introduced (b.execute s)

namespace Below.Widens

variable {b : Below} (h : b.Widens)
include h

theorem evaluateAll (es : List Expr) : Narrow (b.evaluateAll es) := by
  induction es with
  | nil => exact .pure []
  | cons e es ih => exact (h.evaluate e).bind fun v => ih.bind fun vs => .pure (v :: vs)

theorem evaluateLast (last : Value) (es : List Expr) : Narrow (b.evaluateLast last es) := by
  induction es generalizing last with
  | nil => exact .pure last
  | cons e es ih => exact (h.evaluate e).bind ih

theorem evaluate? (e : Option Expr) : Narrow (b.evaluate? e) := by
  cases e with
  | none => exact .pure Value.nil
  | some e => exact h.evaluate e

theorem executeAll (ss : List Stmt) (n : Nat) (g : FrameId) :
    Eval.Widens g n g (Stmt.introducedAll ss) (b.executeAll ss) := by
  induction ss with
  | nil => exact .pure _
  | cons s ss ih =>
    have hs : Eval.Widens g n g (Stmt.introducedAll (s :: ss)) (b.execute s) :=
      (h.execute s n g).mono fun x hx => List.mem_append_left _ hx
    have hss : Eval.Widens g n g (Stmt.introducedAll (s :: ss)) (b.executeAll ss) :=
      ih.mono fun x hx => List.mem_append_right _ hx
    apply hs.bind
    intro flow
    cases flow with
    | normal => exact hss
    | _ => exact .pure _

/-- Parameters are bound in the frame of the call. -/
theorem bindParams (paren : Token) (ps : List Param) (vs : List Value) {i : FrameId} (n : Nat)
    (f : FrameId) :
    Eval.Widens i n f (ps.map fun p => p.name.lexeme) (b.bindParams f paren ps vs) := by
  induction ps generalizing vs with
  | nil => cases vs <;> exact .pure _
  | cons p ps ih =>
    have hdefine : ∀ v, Eval.Widens i n f ((p :: ps).map fun p => p.name.lexeme)
        (Machine.define f p.name.lexeme v) := fun v => .define _ v (.inl ⟨rfl, by simp⟩)
    have hrest : ∀ vs, Eval.Widens i n f ((p :: ps).map fun p => p.name.lexeme)
        (b.bindParams f paren ps vs) := fun vs => (ih vs).mono fun x hx => List.mem_cons_of_mem _ hx
    cases vs with
    | cons v vs => exact (hdefine v).bind fun _ => hrest vs
    | nil =>
      rw [Below.bindParams]
      split
      · exact .fail _ _
      · rename_i e _
        have hfallback : Eval.Widens i n f ((p :: ps).map fun p => p.name.lexeme)
            (Machine.inFrame f (b.evaluate e)) := (h.evaluate e).widens.inFrame
        exact hfallback.bind fun v => (hdefine v).bind fun _ => hrest []

theorem callClosure (c : Closure) (arguments : List Value) (paren : Token) :
    Narrow (b.callClosure c arguments paren) := by
  intro i n g
  rw [Below.callClosure_eq]
  apply Eval.Widens.openFrame
  intro f hf
  have hreceiver : Eval.Widens i n g [] (receiver c) := .look fun _ => .pure _
  have hbody : Eval.Widens i n g [] (Machine.inFrame f (b.executeAll c.decl.body)) :=
    (h.executeAll c.decl.body n f).inFrame.beyond hf
  apply ((h.bindParams paren c.decl.params arguments n f).beyond hf).bind
  intro _
  apply hbody.bind
  intro flow
  cases flow with
  | «break» keyword => exact .fail _ _
  | next keyword => exact .fail _ _
  | «return» v =>
    dsimp only
    split
    · exact hreceiver
    · exact .pure _
  | normal =>
    dsimp only
    split
    · exact hreceiver
    · exact .pure _

theorem call (callee : Value) (arguments : List Value) (paren : Token) :
    Narrow (b.call callee arguments paren) := by
  rw [Below.call_eq]
  apply Narrow.look
  intro m
  unfold callOn
  split
  · exact .fail _ _
  · rename_i arity harity
    split
    · exact .fail _ _
    · split
      · split
        · exact h.callClosure _ arguments paren
        · exact .fail _ _
      · exact Builtin.narrow_run _ paren arguments
      · rename_i c
        unfold construct
        apply (narrow_newObject c).bind
        intro o
        cases m.store.init? c with
        | none => exact .pure _
        | some init =>
          intro i n g
          apply Eval.Widens.openFrame
          intro f _
          exact (narrow_newClosure _).widens.bind fun _ =>
            (h.callClosure _ arguments paren).widens.bind fun _ => .pure _
      · exact .fail _ _

theorem evaluateUpdate (operator : Token) (target : Expr) (before : Bool) :
    Narrow (b.evaluateUpdate operator target before) := by
  cases target with
  | var id name =>
    exact (narrow_lookUp id name).bind fun old => (narrow_numberOperand operator old).bind fun _ =>
      (narrow_assign id name _ false).bind fun _ => .pure _
  | get object name =>
    exact (h.evaluate object).bind fun o => (narrow_readProperty o name).bind fun old =>
      (narrow_numberOperand operator old).bind fun _ => (narrow_writeProperty o name _).bind
        fun _ => .pure _
  | _ => exact .fail _ _

theorem evaluateStep (e : Expr) : Narrow (b.evaluateStep e) := by
  cases e with
  | literal value => exact .pure _
  | group inner => exact h.evaluate inner
  | unary operator operand =>
    apply (h.evaluate operand).bind
    intro v
    unfold applyUnary
    split
    · exact (narrow_numberOperand operator v).bind fun _ => .pure _
    · exact .pure _
  | binary left operator right =>
    exact (h.evaluate left).bind fun _ => (h.evaluate right).bind fun _ => .checked operator _
  | logical left operator right =>
    apply (h.evaluate left).bind
    intro v
    dsimp only
    generalize (if operator.kind = .or then v.truthy else !v.truthy) = decided
    cases decided with
    | true => exact .pure v
    | false => exact h.evaluate right
  | ternary condition whenTrue whenFalse =>
    exact (h.evaluate whenFalse).bind fun _ => (h.evaluate whenTrue).bind fun _ =>
      (h.evaluate condition).bind fun _ => .pure _
  | comma items => exact h.evaluateLast .nil items
  | var id name => exact narrow_lookUp id name
  | assign id name value =>
    exact (h.evaluate value).bind fun v => (narrow_assign id name v true).bind fun _ => .pure v
  | compoundAssign id name operator value =>
    exact (narrow_lookUp id name).bind fun _ => (h.evaluate value).bind fun _ =>
      (Narrow.checked operator _).bind fun new =>
        (narrow_assign id name new false).bind fun _ => .pure new
  | update operator target before => exact h.evaluateUpdate operator target before
  | call callee paren arguments =>
    exact (h.evaluate callee).bind fun f => (h.evaluateAll arguments).bind fun vs =>
      h.call f vs paren
  | get object name => exact (h.evaluate object).bind fun o => narrow_readProperty o name
  | set object name value =>
    exact (h.evaluate object).bind fun o => (h.evaluate value).bind fun v =>
      (narrow_writeProperty o name v).bind fun _ => .pure v
  | compoundSet object name operator value =>
    exact (h.evaluate object).bind fun o => (narrow_readProperty o name).bind fun _ =>
      (h.evaluate value).bind fun _ => (Narrow.checked operator _).bind fun new =>
        (narrow_writeProperty o name new).bind fun _ => .pure new
  | this id keyword => exact narrow_lookUp id keyword
  | super id keyword method =>
    apply Narrow.look
    intro m
    split
    · exact .fail _ _
    · dsimp only
      split
      · exact narrow_bindMethod _ _
      · exact .fail _ _

/-- A loop widens its frame by what its body declares, however many rounds it takes. -/
theorem loop (condition : Expr) (increment : Option Expr) (body : Stmt) (n : Nat) (g : FrameId)
    (rounds : Nat) :
    Eval.Widens g n g body.introduced (b.loop condition increment body rounds) := by
  induction rounds with
  | zero => exact .throw _
  | succ rounds ih =>
    apply (h.evaluate condition).widens.bind
    intro v
    split
    · have hagain : Eval.Widens g n g body.introduced (do
          Functor.discard (b.evaluate? increment)
          b.loop condition increment body rounds) :=
        (h.evaluate? increment).discard.widens.bind fun _ => ih
      apply (h.execute body n g).bind
      intro flow
      cases flow with
      | «break» keyword => exact .pure _
      | «return» v => exact .pure _
      | normal => exact hagain
      | next keyword => exact hagain
    · exact .pure _

theorem evaluateSuperclass (superclass : Option Superclass) :
    Narrow (b.evaluateSuperclass superclass) := by
  cases superclass with
  | none => exact .pure _
  | some parent =>
    apply (h.evaluate parent.expr).bind
    intro v
    cases v with
    | classRef c => exact .pure _
    | _ => exact .fail _ _

/-- A class widens its frame by its own name. -/
theorem executeClass (name : Token) (superclass : Option Superclass)
    (methods statics : List FunctionDecl) (n : Nat) (g : FrameId) :
    Eval.Widens g n g [name.lexeme] (b.executeClass name superclass methods statics) := by
  have hdefine : ∀ v, Eval.Widens g n g [name.lexeme] (Machine.define g name.lexeme v) :=
    fun v => .define _ v (.inl ⟨rfl, List.mem_singleton_self _⟩)
  have hfill : ∀ (scope : FrameId) (parent : Option ClassId), Eval.Widens g n g [name.lexeme] (do
      let ms ← Below.methodTable scope (·.lexeme == "init") [] methods
      let ss ← Below.methodTable scope (fun _ => false) [] statics
      let c ← newClass ⟨name.lexeme, parent, ms, ss, []⟩
      Machine.define g name.lexeme (.classRef c)) := fun scope parent =>
    (narrow_methodTable scope _ [] methods).widens.bind fun _ =>
      (narrow_methodTable scope _ [] statics).widens.bind fun _ =>
        (narrow_newClass _).widens.bind fun _ => hdefine _
  apply (h.evaluateSuperclass superclass).widens.bind
  intro parent
  apply Eval.Widens.here
  apply (hdefine .nil).bind
  intro _
  cases parent with
  | none => exact hfill g none
  | some c => exact .openFrame g _ fun scope _ => hfill scope (some c)

theorem executeStep (s : Stmt) (n : Nat) (g : FrameId) :
    Eval.Widens g n g s.introduced (b.executeStep s) := by
  cases s with
  | expr e => exact (h.evaluate e).discard.widens.bind fun _ => .pure _
  | var name initial =>
    apply (h.evaluate? initial).widens.bind
    intro v
    apply Eval.Widens.here
    exact (Eval.Widens.define _ v (.inl ⟨rfl, List.mem_singleton_self _⟩)).bind fun _ => .pure _
  | block body =>
    apply Eval.Widens.here
    apply Eval.Widens.openFrame
    intro f hf
    exact (h.executeAll body n f).inFrame.beyond hf
  | ifThen condition whenTrue =>
    apply (h.evaluate condition).widens.bind
    intro v
    split
    · exact h.execute whenTrue n g
    · exact .pure _
  | ifElse condition whenTrue whenFalse =>
    apply (h.evaluate condition).widens.bind
    intro v
    split
    · exact (h.execute whenTrue n g).mono fun _ hx => List.mem_append_left _ hx
    · exact (h.execute whenFalse n g).mono fun _ hx => List.mem_append_right _ hx
  | «while» condition body => exact h.loop condition none body n g _
  | «for» condition increment body => exact h.loop condition increment body n g _
  | function decl =>
    apply Eval.Widens.here
    apply (narrow_newClosure _).widens.bind
    intro id
    exact (Eval.Widens.define _ _ (.inl ⟨rfl, List.mem_singleton_self _⟩)).bind fun _ => .pure _
  | «return» keyword value => exact (h.evaluate? value).widens.bind fun _ => .pure _
  | «break» keyword => exact .pure _
  | next keyword => exact .pure _
  | «class» name superclass methods statics =>
    exact (h.executeClass name superclass methods statics n g).bind fun _ => .pure _

end Below.Widens

/-- Evaluation up to any depth widens frames by declarations only. -/
theorem Below.widens_upTo (depth : Nat) : (Below.upTo depth).Widens := by
  induction depth with
  | zero => exact ⟨fun _ _ _ _ => .throw _, fun _ _ _ => .throw _⟩
  | succ depth ih => exact ⟨ih.evaluateStep, ih.executeStep⟩

end Scriptling
