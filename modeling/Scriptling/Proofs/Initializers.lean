import Scriptling.Proofs.Receivers

namespace Scriptling

open Machine

variable {t : Terms} {r r₁ L : Register} {f : FrameId} {m m₁ : Machine} {b : Below}
  {arguments : List Value} {paren : Token} {v : Value}

/-- A function that is called and gives a value was left in an ordinary way. -/
theorem Below.of_callClosure {k : Closure}
    (h : (b.callClosure k arguments paren).run m = .ok v m₁) :
    ∃ flow, (b.runBody k arguments paren).run m = .ok flow m₁ ∧
      (k.initializer = true → v = (m₁.store.local? k.scope "this").getD .nil) := by
  rw [callClosure_eq_runBody] at h
  obtain ⟨flow, m₂, hbody, hleave⟩ := Eval.of_run_bind h
  have hreceiver : (receiver k).run m₂ =
      .ok ((m₂.store.local? k.scope "this").getD .nil) m₂ := rfl
  unfold Closure.leave at hleave
  cases flow with
  | «break» keyword => cases hleave
  | next keyword => cases hleave
  | normal =>
    dsimp only at hleave
    split at hleave
    · rw [hreceiver] at hleave
      cases hleave
      exact ⟨_, hbody, fun _ => rfl⟩
    · rename_i hk
      cases hleave
      exact ⟨_, hbody, fun hinit => absurd hinit hk⟩
  | «return» u =>
    dsimp only at hleave
    split at hleave
    · rw [hreceiver] at hleave
      cases hleave
      exact ⟨_, hbody, fun _ => rfl⟩
    · rename_i hk
      cases hleave
      exact ⟨_, hbody, fun hinit => absurd hinit hk⟩

/-- A call that gives a value has run the function's body. -/
theorem Below.of_call_closure {id : ClosureId} {k : Closure} (hk : m.store.closures[id]? = some k)
    (h : (b.call (.closure id) arguments paren).run m = .ok v m₁) :
    (b.callClosure k arguments paren).run m = .ok v m₁ := by
  obtain ⟨arity, harity, hleast, hmost⟩ := counted_of_run_call h
  rw [Store.arity?, hk] at harity
  cases harity
  rwa [run_call_closure hk hleast hmost] at h

/-- The initializer of a class is called for the new instance. -/
theorem Below.of_call_class {c : ClassId} {init : Closure} (hinit : m.store.init? c = some init)
    (h : (b.call (.classRef c) arguments paren).run m = .ok v m₁) :
    v = .object m.store.objects.size ∧ ∃ u,
      (b.callClosure { init with scope := m.store.frames.size } arguments paren).run
        (m.instantiated c init) = .ok u m₁ := by
  obtain ⟨arity, harity, hleast, hmost⟩ := counted_of_run_call h
  rw [Store.arity?, Store.classArity_eq, hinit] at harity
  cases harity
  rw [run_call_class hinit hleast hmost] at h
  obtain ⟨u, m₂, hcall, hmade⟩ := Eval.of_run_bind h
  cases hmade
  exact ⟨rfl, u, hcall⟩

/-- A new instance, which was not there before and is of the class itself. -/
def Value.Made (c : ClassId) (before after : Store) (v : Value) : Prop :=
  ∃ o, v = .object o ∧ before.objects[o]? = none ∧
    ∃ ob, after.objects[o]? = some ob ∧ ob.instanceOf = c

/-- A call of a class gives an instance that was not there before, and it is of that class. -/
theorem Below.made {depth : Nat} {c : ClassId}
    (h : ((upTo depth).call (.classRef c) arguments paren).run m = .ok v m₁) :
    v.Made c m.store m₁.store := by
  have hbefore : m.store.objects[m.store.objects.size]? = none := Array.getElem?_size
  obtain ⟨arity, harity, hleast, hmost⟩ := counted_of_run_call h
  cases hinit : m.store.init? c with
  | none =>
    rw [Store.arity?, Store.classArity_eq, hinit] at harity
    cases harity
    rw [run_call_plain hinit hmost] at h
    cases h
    exact ⟨_, rfl, hbefore, _, Array.getElem?_push_size, rfl⟩
  | some init =>
    rw [Store.arity?, Store.classArity_eq, hinit] at harity
    cases harity
    obtain ⟨rfl, u, hcall⟩ := of_call_class hinit h
    have hruns : Eval.Runs ((upTo depth).callClosure { init with scope := m.store.frames.size }
        arguments paren) :=
      Eval.Composed.runs fun _ => composed_callClosure paren trivial trivial hleast
    have hgrows := (hruns (m.instantiated c init)).grows
    rw [after_ok hcall] at hgrows
    have hnew : (m.instantiated c init).store.objects[m.store.objects.size]? = some ⟨c, []⟩ :=
      Array.getElem?_push_size
    obtain ⟨ob, hob, hsame⟩ := hgrows.objects _ _ hnew
    exact ⟨_, rfl, hbefore, ob, hob, hsame.instanceOf⟩

/-- The method is copied for the receiver. -/
theorem Store.bindMethod_copies {s : Store} {method : ClosureId} {k : Closure}
    (hk : s.closures[method]? = some k) (this : Value) :
    (s.bindMethod method this).1 = .closure s.closures.size ∧
      ∃ copy, (s.bindMethod method this).2.closures[s.closures.size]? = some copy ∧
        copy.decl = k.decl ∧ (s.bindMethod method this).2.local? copy.scope "this" = some this := by
  have hbind : s.bindMethod method this = (.closure s.closures.size,
      ((s.openFrame (some k.scope) [("this", this)]).2.newClosure
        { k with scope := s.frames.size }).2) := by
    rw [bindMethod, hk]
    rfl
  rw [hbind]
  refine ⟨rfl, { k with scope := s.frames.size }, Array.getElem?_push_size, rfl, ?_⟩
  exact (local?_openFrame s (some k.scope) [("this", this)] _ _).trans (if_pos rfl)

/-- A value that is known later, where it was there before. -/
theorem Value.Rightful.earlier (h : v.Rightful L.origin m.store) (hm : r.At t f m) (hr : r ≤ L) :
    v.Rightful r.origin r.store := by
  refine ⟨hm.store ▸ h.allocated, fun id hid => ?_⟩
  subst hid
  have hid : id < r.store.closures.size := hm.store ▸ h.allocated
  obtain ⟨o, ho, -⟩ := (hm.sound.closures id _ (Array.getElem?_eq_getElem hid)).origin
  obtain ⟨o', ho', hcallable⟩ := h.callable id rfl
  rw [hr.origin id o ho] at ho'
  cases ho'
  exact ⟨o, ho, hcallable⟩

namespace Register

/-- A method that is found by a name is declared by it. -/
theorem Sound.named (h : r.Sound t) {c : ClassId} {name : String} {id : ClosureId}
    (hid : r.store.findMethod? c name = some id) :
    ∃ k, r.store.closures[id]? = some k ∧ k.decl.name.lexeme = name :=
  Store.findWithin?_table (R := fun id => ∃ k, r.store.closures[id]? = some k ∧
    k.decl.name.lexeme = name) (fun c record hrecord => (h.classes c record hrecord).named name) hid

/-- A register can be kept of a function's call that succeeds. -/
theorem At.called (hm : r.At .any f m) {id : ClosureId} {k : Closure}
    (hk : m.store.closures[id]? = some k) (harguments : ∀ v ∈ arguments, v.Rightful r.origin r.store)
    (hparen : paren.Spelled) {depth : Nat}
    (h : ((Below.upTo depth).callClosure k arguments paren).run m = .ok v m₁) :
    ∃ r₁, r ≤ r₁ ∧ r₁.At .any f m₁ := by
  have hk' : r.store.closures[id]? = some k := hm.store ▸ hk
  have hengine := (Watch.formed_answers .any fun _ _ => trivial).engine .exhausted
    (fun _ => .exhausted) depth
  have hrun : ((Below.upTo depth).callClosureId id arguments paren).run m = .ok v m₁ :=
    (Below.run_callClosureId hk arguments paren).trans h
  obtain ⟨m₂, halarm⟩ | ⟨-, r₁, hr, hends, -⟩ :=
    hengine.simAt_callClosureId hm hk' trivial hparen harguments
  · rw [Inquiry.upTo, Watch.below_idle, hrun] at halarm
    cases halarm
  · rw [Inquiry.upTo, hrun] at hends
    cases hends with
    | ok hm₁ _ => exact ⟨r₁, hr, hm₁⟩

/-- A copy of an initializer gives its receiver. -/
theorem At.answered (hm : r.At .any f m) {id : ClosureId} {k : Closure} {d : ClassId}
    (hk : m.store.closures[id]? = some k) (horigin : r.origin id = some (.copy d false))
    (hinit : k.decl.name.lexeme = "init")
    (harguments : ∀ v ∈ arguments, v.Rightful r.origin r.store) (hparen : paren.Spelled)
    {depth : Nat} (h : ((Below.upTo depth).callClosure k arguments paren).run m = .ok v m₁) :
    m.store.local? k.scope "this" = some v := by
  have hsound := hm.sound.closures id k (hm.store ▸ hk)
  have hmarked : k.initializer = true := (hsound.initializer _ horigin).2 ⟨rfl, hinit⟩
  obtain ⟨r₁, hr, hm₁⟩ := hm.called hk harguments hparen h
  obtain ⟨flow, -, hv⟩ := Below.of_callClosure h
  obtain ⟨o, ho, hfits, -⟩ := hsound.origin
  rw [horigin] at ho
  cases ho
  obtain ⟨this, p, hthis, -⟩ := hfits
  have hkept := hr.store.keywords k.scope "this" hsound.scope (.inl rfl)
  rw [hv hmarked, hm₁.store, hkept, hthis, hm.store, hthis]
  rfl

/-- The initializer of a class gives the instance that is made. -/
theorem At.initialised (hm : r.At .any f m) {c : ClassId} (hc : c < m.store.classes.size)
    {init : Closure} (hinit : m.store.init? c = some init)
    (harguments : ∀ v ∈ arguments, v.Rightful r.origin r.store) (hparen : paren.Spelled)
    {depth : Nat} (h : ((Below.upTo depth).callClosure { init with scope := m.store.frames.size }
      arguments paren).run (m.instantiated c init) = .ok v m₁) :
    v = .object m.store.objects.size := by
  obtain ⟨store, origin, caller, declared⟩ := r
  obtain rfl : m.store = store := hm.store
  obtain ⟨method, hfound, hmethod⟩ := Option.bind_eq_some_iff.1 hinit
  obtain ⟨d, hinherits, ho⟩ := hm.sound.findMethod? hfound
  obtain ⟨k, hk, hname⟩ := hm.sound.named hfound
  obtain ⟨k', hk', hhome, hdecl⟩ := hm.sound.method ho
  cases hmethod.symm.trans hk
  cases hmethod.symm.trans hk'
  have hr := le_newObject ⟨m.store, origin, caller, declared⟩ c
  have hserves : (m.store.newObject c).2.Serves (.object m.store.objects.size) d false :=
    ⟨_, ⟨c, []⟩, rfl, Array.getElem?_push_size, hinherits.mono hr.store.grows⟩
  have hmade : (Value.object m.store.objects.size).Rightful origin (m.store.newObject c).2 := by
    refine ⟨?_, fun _ h => by cases h⟩
    change m.store.objects.size < (m.store.objects.push _).size
    rw [Array.size_push]
    exact Nat.lt_succ_self _
  obtain ⟨hr₁, hcopy⟩ := (hm.sound.newObject hc).copyMethod hmethod ho (hhome.mono hr.store) hdecl
    hserves hmade
  have hle := Register.le_trans hr hr₁
  have hm₁ := hm.enter hle hcopy
  have hcopied : (m.instantiated c init).store.closures[m.store.closures.size]? =
      some { init with scope := m.store.frames.size } := Array.getElem?_push_size
  have hthis : (m.instantiated c init).store.local? m.store.frames.size "this" =
      some (.object m.store.objects.size) :=
    (Store.local?_openFrame (m.store.newObject c).2 (some init.scope) _ _ _).trans (if_pos rfl)
  have hanswer := At.answered (m := m.instantiated c init) hm₁ hcopied (if_pos rfl) hname
    (fun v hv => (harguments v hv).mono hle) hparen h
  rw [hthis] at hanswer
  exact (Option.some.inj hanswer).symm

end Register

/-- All that is known of construction on a machine. Functions and receivers are what they will be
in the end; what is looked for as an initializer is named so; a call of a class makes an instance of
it, its initializer giving that instance; and a call of an initializer gives its receiver. -/
structure Machine.Constructs (origin : ClosureId → Option Origin)
    (caller : FrameId → Option ClosureId) (last : Store) (m : Machine) : Prop where
  received : m.store.Received origin caller
  functions : ∀ (id : ClosureId) (k : Closure), m.store.closures[id]? = some k →
    last.closures[id]? = some k
  receivers : ∀ f, f < m.store.frames.size → m.store.local? f "this" = last.local? f "this"
  named : ∀ c id, m.store.findMethod? c "init" = some id → ∃ d k, origin id = some (.method d false) ∧
    m.store.closures[id]? = some k ∧ k.decl.name.lexeme = "init"
  made : ∀ depth c arguments paren v m₁,
    ((Below.upTo depth).call (.classRef c) arguments paren).run m = .ok v m₁ →
      v.Made c m.store m₁.store
  initialised : ∀ depth c arguments paren v m₁ init, c < m.store.classes.size →
    (∀ v ∈ arguments, v.Rightful origin m.store) → paren.Spelled →
    ((Below.upTo depth).call (.classRef c) arguments paren).run m = .ok v m₁ →
    m.store.init? c = some init →
      ((Below.upTo depth).callClosure { init with scope := m.store.frames.size } arguments paren).run
        (m.instantiated c init) = .ok v m₁
  answered : ∀ depth id k d arguments paren v m₁, m.store.closures[id]? = some k →
    origin id = some (.copy d false) → k.decl.name.lexeme = "init" →
    (∀ v ∈ arguments, v.Rightful origin m.store) → paren.Spelled →
    ((Below.upTo depth).call (.closure id) arguments paren).run m = .ok v m₁ →
      m.store.local? k.scope "this" = some v

def Watch.constructions (origin : ClosureId → Option Origin)
    (caller : FrameId → Option ClosureId) (last : Store) : Watch where
  expr below e m := e.Makes origin caller below m ∧ m.Constructs origin caller last ∧
    (Machine.after (below.evaluateStep e) m).Constructs origin caller last
  stmt below s m := s.Makes origin below m ∧ m.Constructs origin caller last ∧
    (Machine.after (below.executeStep s) m).Constructs origin caller last

theorem Register.At.constructs (hm : r.At .any f m) (hr : r ≤ L) :
    m.Constructs L.origin L.caller L.store := by
  have hknown : ∀ arguments : List Value, (∀ v ∈ arguments, v.Rightful L.origin m.store) →
      ∀ v ∈ arguments, v.Rightful r.origin r.store := fun _ h v hv => (h v hv).earlier hm hr
  constructor
  case received => exact hm.received hr
  case functions =>
    intro id k hk
    rw [hm.store] at hk
    exact hr.store.grows.closure hk
  case receivers =>
    intro g hg
    rw [hm.store] at hg ⊢
    exact (hr.store.keywords g "this" hg (.inl rfl)).symm
  case named =>
    intro c id hid
    rw [hm.store] at hid ⊢
    obtain ⟨d, -, ho⟩ := hm.sound.findMethod? hid
    obtain ⟨k, hk, hname⟩ := hm.sound.named hid
    exact ⟨d, k, hr.origin id _ ho, hk, hname⟩
  case made => exact fun depth c arguments paren v m₁ h => Below.made h
  case initialised =>
    intro depth c arguments paren v m₁ init hc harguments hparen h hinit
    obtain ⟨rfl, u, hcall⟩ := Below.of_call_class hinit h
    rw [hcall, hm.initialised hc hinit (hknown arguments harguments) hparen hcall]
  case answered =>
    intro depth id k d arguments paren v m₁ hk ho hinit harguments hparen h
    have hk' : id < r.store.closures.size := hm.store ▸ (Array.getElem?_eq_some_iff.1 hk).1
    obtain ⟨o, ho', -⟩ := (hm.sound.closures id _ (Array.getElem?_eq_getElem hk')).origin
    have hsame := hr.origin id o ho'
    rw [ho] at hsame
    cases hsame
    exact hm.answered hk ho' hinit (hknown arguments harguments) hparen
      (Below.of_call_closure hk h)

theorem Watch.constructions_answers :
    Inquiry.Answers .any Watch.idle fun L => .constructions L.origin L.caller L.store := by
  constructor
  case ties => exact fun _ => Expr.ties_any _ _ _
  case expr =>
    intro depth e m r r₁ L f hm hr hends hL _ hmakes
    exact ⟨hmakes, hm.constructs (Register.le_trans hr hL), hends.after.constructs hL⟩
  case stmt =>
    intro depth s m r r₁ L f hm hr hends hL _ hmakes _
    exact ⟨hmakes, hm.constructs (Register.le_trans hr hL), hends.after.constructs hL⟩

/-- Construction throughout every session. Before and after every step and between programs, a call of
a class that succeeds gives a new instance of that very class, whichever class the initializer is
from, and a call of an initializer that succeeds gives the receiver it was bound to, whether it is
made by a construction or of a copy that was read from an instance, taken from the superclass or kept
for later. Functions stay as they were made, and receivers as they were bound. -/
theorem construction_answers (interactive : Bool) (input : List UInt8) (output : Output)
    (clock : Supply Int) (chances : Supply Nat) (depth : Nat) (turns : List Turn) :
    let s := Session.start interactive (.start input output clock chances)
    (∀ (store : Store) method k this, store.closures[method]? = some k →
      (store.bindMethod method this).1 = .closure store.closures.size ∧
        ∃ copy, (store.bindMethod method this).2.closures[store.closures.size]? = some copy ∧
          copy.decl = k.decl ∧
          (store.bindMethod method this).2.local? copy.scope "this" = some this) ∧
    ∃ origin caller last, (Watch.constructions origin caller last).Holds depth s turns ∧
      s.machine.Constructs origin caller last ∧
        ∀ o ∈ s.play (.upTo depth) turns, o.session.machine.Constructs origin caller last := by
  intro s
  refine ⟨fun store method k this hk => Store.bindMethod_copies hk this, ?_⟩
  obtain ⟨L, hblank, hholds, hout⟩ := Watch.constructions_answers.exists_holds (s := s) rfl
    (fun turn _ => Terms.any_covers turn.source) (Watch.idle_holds depth s turns)
  refine ⟨L.origin, L.caller, L.store, hholds, ?_, fun o ho => ?_⟩
  · exact (Register.at_blank .any input output clock chances).constructs hblank
  · obtain ⟨-, r, hr, hm⟩ := hout o ho
    exact hm.constructs hr

end Scriptling
