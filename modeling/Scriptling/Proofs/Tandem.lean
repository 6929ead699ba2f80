import Scriptling.Proofs.LockstepStatements
import Scriptling.Proofs.Overlay

namespace Scriptling

open Machine

/-- Nothing but the frames, the functions and the notes differs. -/
structure Machine.Alike (m m' : Machine) : Prop where
  output : m'.output = m.output
  input : m'.input = m.input
  clock : m'.clock = m.clock
  chances : m'.chances = m.chances

variable {α β : Type}

namespace Pairing

structure Beside (P : Pairing) (v : Overlay) (f f' : FrameId) (m m' : Machine) : Prop where
  stores : P.Overlaid v m.store m'.store
  current : m.current = f
  current' : m'.current = f'
  noted : ∀ id : ExprId, m.distances[id]? = P.notes id
  noted' : ∀ id : ExprId, m'.distances[id]? = P.notes' id
  alike : m.Alike m'

/-- Both sides end alike, or one of them has run out of depth that is allowed to. -/
inductive Ends (P : Pairing) (v : Overlay) (f f' : FrameId) (Q : Overlay → α → Prop) :
    EStateM.Result Stop Machine α → EStateM.Result Stop Machine α → Prop
  | ok {w : Overlay} {a : α} {m m' : Machine} : v ≤ w → P.Beside w f f' m m' → Q w a →
      Ends P v f f' Q (.ok a m) (.ok a m')
  | failed {w : Overlay} {failure : Failure} {m m' : Machine} : v ≤ w → P.Beside w f f' m m' →
      Ends P v f f' Q (.error (.failed failure) m) (.error (.failed failure) m')
  | first {m : Machine} {r' : EStateM.Result Stop Machine α} : P.first = true →
      Ends P v f f' Q (.error .exhausted m) r'
  | second {r : EStateM.Result Stop Machine α} {m' : Machine} : P.first = false →
      Ends P v f f' Q r (.error .exhausted m')

/-- Two steps, from any machines on on which the given things are known. -/
def Sim (P : Pairing) (v : Overlay) (f f' : FrameId) (a a' : Eval α) (Q : Overlay → α → Prop) :
    Prop :=
  ∀ w m m', v ≤ w → P.Beside w f f' m m' → P.Ends w f f' Q (a.run m) (a'.run m')

end Pairing

abbrev anyEnd : Overlay → α → Prop := fun _ _ => True

abbrev boundResult : Overlay → Value → Prop := fun v a => a.Bound v

variable {P : Pairing} {v w : Overlay} {f f' g g' : FrameId} {Q : Overlay → α → Prop}
  {R : Overlay → β → Prop} {m m' : Machine} {a a' : Eval α}

namespace Pairing

/-- Overlaid stores may be put in the place of others. -/
theorem Beside.withStores (h : P.Beside v f f' m m') {t t' : Store} (ht : P.Overlaid w t t') :
    P.Beside w f f' { m with store := t } { m' with store := t' } :=
  ⟨ht, h.current, h.current', h.noted, h.noted', ⟨h.alike.1, h.alike.2, h.alike.3, h.alike.4⟩⟩

/-- Another output may be put in the place of theirs. -/
theorem Beside.withOutput (h : P.Beside v f f' m m') (output : Output) :
    P.Beside v f f' { m with output } { m' with output } :=
  ⟨h.stores, h.current, h.current', h.noted, h.noted',
    ⟨rfl, h.alike.input, h.alike.clock, h.alike.chances⟩⟩

/-- The first machine goes into another frame. -/
theorem Beside.placed (h : P.Beside v f f' m m') (g : FrameId) :
    P.Beside v g f' { m with current := g } m' :=
  ⟨h.stores, rfl, h.current', h.noted, h.noted', ⟨h.alike.1, h.alike.2, h.alike.3, h.alike.4⟩⟩

/-- The second one does. -/
theorem Beside.placed' (h : P.Beside v f f' m m') (g' : FrameId) :
    P.Beside v f g' m { m' with current := g' } :=
  ⟨h.stores, h.current, rfl, h.noted, h.noted', ⟨h.alike.1, h.alike.2, h.alike.3, h.alike.4⟩⟩

theorem Ends.from_later {r r' : EStateM.Result Stop Machine α} (h : P.Ends w f f' Q r r')
    (hv : v ≤ w) : P.Ends v f f' Q r r' := by
  cases h with
  | ok hw hm hq => exact .ok (Overlay.le_trans hv hw) hm hq
  | failed hw hm => exact .failed (Overlay.le_trans hv hw) hm
  | first hf => exact .first hf
  | second hf => exact .second hf

/-- Less may be claimed of the result. -/
theorem Ends.weaken {Q' : Overlay → α → Prop} {r r' : EStateM.Result Stop Machine α}
    (h : P.Ends v f f' Q r r') (hq : ∀ w a, v ≤ w → Q w a → Q' w a) : P.Ends v f f' Q' r r' := by
  cases h with
  | ok hw hm hqa => exact .ok hw hm (hq _ _ hw hqa)
  | failed hw hm => exact .failed hw hm
  | first hf => exact .first hf
  | second hf => exact .second hf

/-- One step after the other on two given machines. -/
theorem Ends.bind {k k' : α → Eval β} (ha : P.Ends v f f' Q (a.run m) (a'.run m'))
    (hk : ∀ w x, v ≤ w → Q w x → P.Sim w f f' (k x) (k' x) R) :
    P.Ends v f f' R ((a >>= k).run m) ((a' >>= k').run m') := by
  generalize hr : a.run m = r at ha
  generalize hr' : a'.run m' = r' at ha
  cases ha with
  | ok hw hm hq =>
    rw [Eval.run_bind_ok hr, Eval.run_bind_ok hr']
    exact (hk _ _ hw hq _ _ _ (Overlay.le_refl _) hm).from_later hw
  | failed hw hm =>
    rw [Eval.run_bind_error hr, Eval.run_bind_error hr']
    exact .failed hw hm
  | first hf =>
    rw [Eval.run_bind_error hr]
    exact .first hf
  | second hf =>
    rw [Eval.run_bind_error hr']
    exact .second hf

namespace Sim

theorem on (h : P.Sim v f f' a a' Q) (hm : P.Beside v f f' m m') :
    P.Ends v f f' Q (a.run m) (a'.run m') := h v m m' v.le_refl hm

theorem mono (h : P.Sim v f f' a a' Q) (hv : v ≤ w) : P.Sim w f f' a a' Q :=
  fun u m m' hu hm => h u m m' (Overlay.le_trans hv hu) hm

theorem weaken {Q' : Overlay → α → Prop} (h : P.Sim v f f' a a' Q)
    (hq : ∀ w x, v ≤ w → Q w x → Q' w x) : P.Sim v f f' a a' Q' :=
  fun w m m' hw hm => (h w m m' hw hm).weaken fun u x hu => hq u x (Overlay.le_trans hw hu)

theorem pure {x : α} (hq : ∀ w, v ≤ w → Q w x) : P.Sim v f f' (pure x) (pure x) Q :=
  fun w _ _ hw hm => .ok w.le_refl hm (hq w hw)

theorem fail (token : Token) (fault : RuntimeFault) :
    P.Sim v f f' (Machine.fail token fault : Eval α) (Machine.fail token fault) Q :=
  fun w _ _ _ hm => .failed w.le_refl hm

/-- Depth has run out on both sides. -/
theorem exhausted : P.Sim v f f' (Machine.exhausted : Eval α) Machine.exhausted Q := by
  intro w m m' _ _
  cases hf : P.first with
  | true => exact .first hf
  | false => exact .second hf

/-- Steps in order go in tandem if each does. -/
theorem bind {k k' : α → Eval β} (ha : P.Sim v f f' a a' Q)
    (hk : ∀ w x, v ≤ w → Q w x → P.Sim w f f' (k x) (k' x) R) :
    P.Sim v f f' (a >>= k) (a' >>= k') R := by
  intro w m m' hw hm
  exact (ha w m m' hw hm).bind fun u x hu => hk u x (Overlay.le_trans hw hu)

theorem discard (ha : P.Sim v f f' a a' Q) :
    P.Sim v f f' (discard a) (Functor.discard a') anyEnd := by
  change P.Sim v f f' (a >>= fun _ => Pure.pure ()) (a' >>= fun _ => Pure.pure ()) _
  exact ha.bind fun _ _ _ _ => pure fun _ _ => trivial

/-- A look at the machine. -/
theorem get {k k' : Machine → Eval β}
    (h : ∀ w m m', v ≤ w → P.Beside w f f' m m' →
      P.Ends w f f' R ((k m).run m) ((k' m').run m')) :
    P.Sim v f f' (get >>= k) (get >>= k') R := h

/-- What one side does in another frame it does from there, and comes back. -/
theorem inFrame_first (h : P.Sim v g f' a a' Q) : P.Sim v f f' (Machine.inFrame g a) a' Q := by
  intro w m m' hw hm
  have hends := h w { m with current := g } m' hw (hm.placed g)
  obtain rfl := hm.current
  generalize hr : a.run { m with current := g } = r at hends
  generalize a'.run m' = r' at hends ⊢
  cases hends with
  | ok hu hn hq =>
    rw [Eval.run_inFrame_ok hr]
    exact .ok hu (hn.placed m.current) hq
  | failed hu hn =>
    rw [Eval.run_inFrame_error hr]
    exact .failed hu (hn.placed m.current)
  | first hf =>
    rw [Eval.run_inFrame_error hr]
    exact .first hf
  | second hf => exact .second hf

theorem inFrame_second (h : P.Sim v f g' a a' Q) : P.Sim v f f' a (Machine.inFrame g' a') Q := by
  intro w m m' hw hm
  have hends := h w m { m' with current := g' } hw (hm.placed' g')
  obtain rfl := hm.current'
  generalize hr : a'.run { m' with current := g' } = r' at hends
  generalize a.run m = r at hends ⊢
  cases hends with
  | ok hu hn hq =>
    rw [Eval.run_inFrame_ok hr]
    exact .ok hu (hn.placed' m'.current) hq
  | failed hu hn =>
    rw [Eval.run_inFrame_error hr]
    exact .failed hu (hn.placed' m'.current)
  | first hf => exact .first hf
  | second hf =>
    rw [Eval.run_inFrame_error hr]
    exact .second hf

theorem inFrame (h : P.Sim v g g' a a' Q) :
    P.Sim v f f' (Machine.inFrame g a) (Machine.inFrame g' a') Q := h.inFrame_second.inFrame_first

/-- The second side does something more, which changes nothing. -/
theorem idly {k' : α → Eval α} (h : P.Sim v f f' a a' Q)
    (hk : ∀ w x m', v ≤ w → Q w x → (k' x).run m' = .ok x m') : P.Sim v f f' a (a' >>= k') Q := by
  intro w m m' hw hm
  have hends := h w m m' hw hm
  generalize hr : a'.run m' = r' at hends
  generalize a.run m = r at hends ⊢
  cases hends with
  | ok hu hn hq =>
    rw [Eval.run_bind_ok hr, hk _ _ _ (Overlay.le_trans hw hu) hq]
    exact .ok hu hn hq
  | failed hu hn =>
    rw [Eval.run_bind_error hr]
    exact .failed hu hn
  | first hf => exact .first hf
  | second hf =>
    rw [Eval.run_bind_error hr]
    exact .second hf

end Sim

end Pairing

section

variable {ξ : Padding}

theorem tandem_lookUp {u : Use} (hu : P.Meets ξ u) (ha : v.Aligned ξ f f') :
    P.Sim v f f' (lookUp u.id u.name) (lookUp u.id u.name) boundResult := by
  intro w m m' hw hm
  have hframes := hm.stores.frames
  rw [Machine.run_lookUp, Machine.run_lookUp, hm.noted, hm.noted', hu.noted, hm.current,
    hm.current']
  cases P.notes u.id with
  | none =>
    dsimp only [Option.map_none]
    rw [hframes.get?_globals_eq]
    cases hx : m.store.get? .globals u.name.lexeme with
    | none => exact .failed w.le_refl hm
    | some x =>
      obtain ⟨k, -, hk⟩ := Option.bind_eq_some_iff.1 hx
      exact .ok w.le_refl hm (hframes.bound k _ x hk)
  | some d =>
    dsimp only [Option.map_some]
    rw [hframes.getAt?_eq (ha.mono hw) d u.name.lexeme]
    cases hx : m.store.getAt? f d u.name.lexeme with
    | none => exact .failed w.le_refl hm
    | some x =>
      obtain ⟨k, hk⟩ := Store.getAt?_eq_some hx
      exact .ok w.le_refl hm (hframes.bound k _ x hk)

/-- Both sides write to twins, or to no frame. -/
theorem tandem_target? {u : Use} (hu : P.Meets ξ u) (ha : v.Aligned ξ f f')
    (hm : P.Beside v f f' m m') (create : Bool) :
    (m.target? u.id u.name.lexeme create = none ∧ m'.target? u.id u.name.lexeme create = none) ∨
      ∃ k k', m.target? u.id u.name.lexeme create = some k ∧
        m'.target? u.id u.name.lexeme create = some k' ∧ v.twin k k' := by
  unfold target?
  rw [hm.noted, hm.noted', hu.noted]
  obtain rfl := hm.current
  obtain rfl := hm.current'
  cases P.notes u.id with
  | some d => exact hm.stores.frames.holderAt?_eq ha d u.name.lexeme
  | none =>
    have hglobals := hm.stores.frames.globals
    obtain ⟨heq, honly⟩ := hm.stores.frames.holder?_globals_eq u.name.lexeme
    dsimp only [Option.map_none]
    rw [heq]
    split
    · exact .inr ⟨.globals, .globals, rfl, rfl, hglobals⟩
    · cases hk : m.store.holder? .globals u.name.lexeme with
      | none => exact .inl ⟨rfl, rfl⟩
      | some k =>
        obtain rfl := honly k hk
        exact .inr ⟨.globals, .globals, rfl, rfl, hglobals⟩

theorem tandem_assign {u : Use} (hu : P.Meets ξ u) (ha : v.Aligned ξ f f') {x : Value}
    (hx : x.Bound v) (create : Bool) :
    P.Sim v f f' (assign u.id u.name x create) (assign u.id u.name x create) anyEnd := by
  intro w m m' hw hm
  rw [Machine.run_assign, Machine.run_assign]
  rcases tandem_target? hu (ha.mono hw) hm create with ⟨hn, hn'⟩ | ⟨k, k', hk, hk', ht⟩
  · rw [hn, hn']
    exact .failed w.le_refl hm
  · rw [hk, hk']
    exact .ok w.le_refl
      (hm.withStores (hm.stores.define ht u.name.lexeme (hx.mono hw))) trivial

theorem tandem_define (ht : v.twin g g') (name : String) {x : Value} (hx : x.Bound v) :
    P.Sim v f f' (define g name x) (define g' name x) anyEnd := fun w _ _ hw hm =>
  .ok w.le_refl (hm.withStores (hm.stores.define (hw.twin g g' ht) name (hx.mono hw))) trivial

/-- Each side goes on with its own frame. -/
theorem tandem_currentFrame {k k' : FrameId → Eval β} (h : P.Sim v f f' (k f) (k' f') R) :
    P.Sim v f f' (currentFrame >>= k) (currentFrame >>= k') R := by
  intro w m m' hw hm
  have hends := h w m m' hw hm
  rw [← hm.current, ← hm.current'] at hends ⊢
  exact hends

end

/-- Both sides open a frame, each inside its own, and go on with it. -/
theorem tandem_openFrame {p p' : FrameId} {b : Table Value} {k k' : FrameId → Eval β}
    (hb : ∀ name x, b.get? name = some x → x.Bound v)
    (h : ∀ w g g', v ≤ w → P.Sim (w.openFrames g g' p p') f f' (k g) (k' g') R) :
    P.Sim v f f' (openFrame p b >>= k) (openFrame p' b >>= k') R := by
  intro w m m' hw hm
  rw [Eval.run_bind_ok (Machine.run_openFrame m p b),
    Eval.run_bind_ok (Machine.run_openFrame m' p' b)]
  have hbound : ∀ name x, b.get? name = some x → x.Bound w := fun name x hx =>
    (hb name x hx).mono hw
  have hends := (h w _ _ hw).on (hm.withStores (hm.stores.openFrames hbound))
  exact hends.from_later (w.le_openFrames _ _ _ _)

/-- Only the second side opens a frame. -/
theorem tandem_addFrame {p' : FrameId} {k' : FrameId → Eval α}
    (h : ∀ w g', v ≤ w → P.Sim (w.addFrame g' p') f f' a (k' g') Q) :
    P.Sim v f f' a (openFrame p' [] >>= k') Q := by
  intro w m m' hw hm
  rw [Eval.run_bind_ok (Machine.run_openFrame m' p' [])]
  have hm₁ : P.Beside (w.addFrame m'.store.frames.size p') f f' m
      { m' with store := (m'.store.openFrame (some p') []).2 } :=
    hm.withStores (hm.stores.addFrame p')
  exact ((h w _ hw).on hm₁).from_later (w.le_addFrame _ _)

theorem tandem_newClosure {bound : Bool} {c c' : Closure} (hc : P.Twins v bound c c') :
    P.Sim v f f' (newClosure c) (newClosure c') fun w id => w.kind id bound := by
  intro w m m' hw hm
  have hstores := hm.stores.newClosure (hc.mono hw)
  change P.Ends w f f' _ (.ok m.store.closures.size _) (.ok m'.store.closures.size _)
  rw [hm.stores.closures.size]
  exact .ok (w.le_newClosure _ _) (hm.withStores hstores) (.inl ⟨rfl, rfl⟩)

theorem tandem_newClass {r : ClassRecord} (hr : v.Record r) :
    P.Sim v f f' (newClass r) (newClass r) anyEnd := by
  intro w m m' hw hm
  have hstores := hm.stores.newClass (hr.mono hw)
  have hsize : m'.store.classes.size = m.store.classes.size := by rw [hm.stores.classes.classes]
  change P.Ends w f f' _ (.ok m.store.classes.size _) (.ok m'.store.classes.size _)
  rw [hsize]
  exact .ok w.le_refl (hm.withStores hstores) trivial

/-- A method is bound: its receiver gets a frame on both sides, and the copy of the method has the
receiver around it. -/
theorem tandem_bindMethod {id : ClosureId} (hk : v.kind id false) {x : Value} (hx : x.Bound v) :
    P.Sim v f f' (bindMethod id x) (bindMethod id x)
      fun w y => ∃ copy, y = .closure copy ∧ w.kind copy true := by
  intro w m m' hw hm
  obtain ⟨c, c', hc, hc', hi, ξ, hξ, ha, hd⟩ := hm.stores.closure (hw.kind id false hk)
  have hrun : ∀ (n : Machine) (d : Closure), n.store.closures[id]? = some d →
      (bindMethod id x).run n = (openFrame d.scope [("this", x)] >>= fun g => do
        let copy ← newClosure { d with scope := g }
        pure (Value.closure copy)).run n := by
    intro n d hd
    change EStateM.Result.ok (n.store.bindMethod id x).1
      { n with store := (n.store.bindMethod id x).2 } = _
    rw [Store.bindMethod, hd]
    rfl
  rw [hrun m c hc, hrun m' c' hc']
  have hthis : ∀ name y, Table.get? [("this", x)] name = some y → y.Bound w := by
    intro name y hy
    rw [Table.get?] at hy
    split at hy
    · cases hy
      exact hx.mono hw
    · cases hy
  refine (tandem_openFrame hthis fun u g g' hu => ?_).on hm
  have hcopy : P.Twins (u.openFrames g g' c.scope c'.scope) true { c with scope := g }
      { c' with scope := g' } :=
    ⟨hi, false :: ξ, Padding.level_cons ξ, (ha.mono hu).opened g g', hd⟩
  exact (tandem_newClosure hcopy).bind fun u copy _ hcopy => .pure fun t ht =>
    ⟨copy, rfl, ht.kind copy true hcopy⟩

theorem tandem_checked (token : Token) {x : Except RuntimeFault α}
    (h : ∀ a, x = .ok a → ∀ w, v ≤ w → Q w a) :
    P.Sim v f f' (checked token x) (checked token x) Q := by
  cases x with
  | ok a => exact .pure (h a rfl)
  | error fault => exact .fail token fault

theorem tandem_readProperty {o : Value} (ho : o.Bound v) (name : Token) :
    P.Sim v f f' (readProperty o name) (readProperty o name) boundResult := by
  intro w m m' hw hm
  rw [Machine.run_readProperty, Machine.run_readProperty, hm.stores.property_eq]
  cases hp : m.store.property o name.lexeme with
  | error fault => exact .failed w.le_refl hm
  | ok p =>
    cases p with
    | field x => exact .ok w.le_refl hm (hm.stores.property_field hp)
    | method id =>
      refine ((tandem_bindMethod (hm.stores.property_method hp) (ho.mono hw)).on hm).weaken
        fun u y _ hy => ?_
      obtain ⟨copy, rfl, hcopy⟩ := hy
      exact hcopy

theorem tandem_writeProperty {o x : Value} (hx : x.Bound v) (name : Token) :
    P.Sim v f f' (writeProperty o name x) (writeProperty o name x) anyEnd := by
  unfold writeProperty
  split
  · intro w m m' hw hm
    exact .ok w.le_refl
      (hm.withStores (hm.stores.setField o name.lexeme (hx.mono hw))) trivial
  · exact .fail name .noFields

theorem tandem_write (text : String) : P.Sim v f f' (write text) (write text) anyEnd := by
  intro w m m' _ hm
  rw [Machine.run_write, Machine.run_write, hm.alike.output]
  split
  · exact .ok w.le_refl (hm.withOutput _) trivial
  · exact .failed w.le_refl (hm.withOutput _)

theorem tandem_flush : P.Sim v f f' flush flush anyEnd := by
  intro w m m' _ hm
  rw [Machine.run_flush, Machine.run_flush, hm.alike.output]
  split
  · exact .ok w.le_refl (hm.withOutput _) trivial
  · exact .failed w.le_refl (hm.withOutput _)

theorem tandem_takeLine : P.Sim v f f' takeLine takeLine anyEnd := by
  intro w m m' _ hm
  have hafter : ∀ input, P.Beside w f f' { m with input }
      { m' with input } := fun input =>
    ⟨hm.stores, hm.current, hm.current', hm.noted, hm.noted',
      ⟨hm.alike.output, rfl, hm.alike.clock, hm.alike.chances⟩⟩
  rw [Machine.run_takeLine, Machine.run_takeLine, hm.alike.input]
  split
  · exact .ok w.le_refl hm trivial
  · cases Input.lineText (Input.cutLine m.input).1 with
    | ok text => exact .ok w.le_refl (hafter _) trivial
    | error fault => exact .failed w.le_refl (hafter _)

theorem tandem_readLine : P.Sim v f f' readLine readLine anyEnd :=
  tandem_flush.bind fun _ _ _ _ => tandem_takeLine

theorem tandem_readClock : P.Sim v f f' readClock readClock anyEnd := by
  intro w m m' _ hm
  change P.Ends w f f' _ (.ok m.clock.next _) (.ok m'.clock.next _)
  rw [hm.alike.clock]
  exact .ok w.le_refl ⟨hm.stores, hm.current, hm.current', hm.noted, hm.noted',
    ⟨hm.alike.output, hm.alike.input, rfl, hm.alike.chances⟩⟩ trivial

theorem tandem_chance (count : Nat) : P.Sim v f f' (chance count) (chance count) anyEnd := by
  intro w m m' _ hm
  change P.Ends w f f' _ (.ok (m.chances.next % count) _) (.ok (m'.chances.next % count) _)
  rw [hm.alike.chances]
  exact .ok w.le_refl ⟨hm.stores, hm.current, hm.current', hm.noted, hm.noted',
    ⟨hm.alike.output, hm.alike.input, hm.alike.clock, rfl⟩⟩ trivial

theorem tandem_text (x : Value) : P.Sim v f f' (Machine.text x) (Machine.text x) anyEnd := by
  intro w m m' _ hm
  change P.Ends w f f' _ (.ok (m.store.text x) m) (.ok (m'.store.text x) m')
  rw [hm.stores.text_eq]
  exact .ok w.le_refl hm trivial

end Scriptling
