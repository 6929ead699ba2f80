import Scriptling.Proofs.Inquiry
import Scriptling.Proofs.LockstepStatements

namespace Scriptling

open Machine

def Store.Copies (s : Store) (origin : ClosureId → Option Origin) (method : ClosureId) : Prop :=
  ∃ c static, origin method = some (.method c static) ∧
    origin s.closures.size = some (.copy c static)

namespace Store

variable {s : Store}

/-- A method that is found is in the table of the class or of one it inherits from. -/
theorem findWithin?_inherits {table : ClassRecord → Table ClosureId} {name : String} {bound : Nat}
    {c : ClassId} {id : ClosureId} (h : s.findWithin? table name bound c = some id) :
    ∃ d record, s.Inherits c d ∧ s.classes[d]? = some record ∧
      (table record).get? name = some id := by
  induction bound generalizing c with
  | zero => cases h
  | succ bound ih =>
    rw [findWithin?] at h
    cases hrecord : s.classes[c]? with
    | none =>
      rw [hrecord] at h
      cases h
    | some record =>
      rw [hrecord] at h
      dsimp only at h
      cases hfound : (table record).get? name with
      | some k =>
        rw [hfound] at h
        cases h
        exact ⟨c, record, .refl, hrecord, hfound⟩
      | none =>
        rw [hfound] at h
        obtain ⟨p, hp, hbelow⟩ := Option.bind_eq_some_iff.1 h
        obtain ⟨d, record', hinherits, hd⟩ := ih hbelow
        exact ⟨d, record', .head ⟨record, hrecord, hp⟩ hinherits, hd⟩

/-- One step further out is the frame around. -/
theorem ancestor?_add_one {f g : FrameId} {d : Nat} (h : s.ancestor? f d = some g) :
    s.ancestor? f (d + 1) = (s.parent? g).bind fun p => s.ancestor? p 0 := by
  induction d generalizing f with
  | zero =>
    rw [ancestor?] at h
    split at h
    · cases h
      rfl
    · cases h
  | succ d ih =>
    rw [ancestor?] at h
    obtain ⟨p, hp, hg⟩ := Option.bind_eq_some_iff.1 h
    rw [ancestor?, hp]
    exact ih hg

/-- Frames next to each other on the way out are parent and child. -/
theorem parent?_of_ancestor? {f g h : FrameId} {d : Nat} (hg : s.ancestor? f d = some g)
    (hh : s.ancestor? f (d + 1) = some h) : s.parent? g = some h := by
  rw [ancestor?_add_one hg] at hh
  obtain ⟨p, hp, hh⟩ := Option.bind_eq_some_iff.1 hh
  rw [ancestor?] at hh
  split at hh
  · cases hh
    exact hp
  · cases hh

end Store

namespace Register

variable {t : Terms} {r : Register} {f : FrameId} {m : Machine}

namespace Sound

variable (h : r.Sound t)
include h

/-- Instance methods come from declarations of instance methods. -/
theorem findMethod? {c : ClassId} {name : String} {id : ClosureId}
    (hid : r.store.findMethod? c name = some id) :
    ∃ d, r.store.Inherits c d ∧ r.origin id = some (.method d false) := by
  obtain ⟨d, record, hinherits, hrecord, hget⟩ := Store.findWithin?_inherits hid
  exact ⟨d, hinherits, (h.classes d record hrecord).methods name id hget⟩

/-- And static ones from static declarations. -/
theorem findStatic? {c : ClassId} {name : String} {id : ClosureId}
    (hid : r.store.findStatic? c name = some id) :
    ∃ d, r.store.Inherits c d ∧ r.origin id = some (.method d true) := by
  obtain ⟨d, record, hinherits, hrecord, hget⟩ := Store.findWithin?_inherits hid
  exact ⟨d, hinherits, (h.classes d record hrecord).statics name id hget⟩

/-- The method that is read from a value may have it as its receiver. -/
theorem property_method {v : Value} {name : String} {id : ClosureId}
    (hp : r.store.property v name = .ok (.method id)) :
    ∃ c static, r.origin id = some (.method c static) ∧ r.store.Serves v c static := by
  cases v with
  | object o =>
    rw [Store.property] at hp
    cases hob : r.store.objects[o]? with
    | none =>
      rw [hob] at hp
      cases hp
    | some ob =>
      rw [hob] at hp
      dsimp only at hp
      unfold Store.objectProperty at hp
      split at hp
      · cases hp
      · split at hp
        · rename_i k hk
          cases hp
          obtain ⟨d, hinherits, horigin⟩ := h.findMethod? hk
          exact ⟨d, false, horigin, o, ob, rfl, hob, hinherits⟩
        · split at hp <;> cases hp
  | classRef c =>
    rw [Store.property] at hp
    cases hrecord : r.store.classes[c]? with
    | none =>
      rw [hrecord] at hp
      cases hp
    | some record =>
      rw [hrecord] at hp
      dsimp only at hp
      unfold Store.classProperty at hp
      split at hp
      · cases hp
      · split at hp
        · rename_i k hk
          cases hp
          obtain ⟨d, hinherits, horigin⟩ := h.findStatic? hk
          exact ⟨d, true, horigin, c, rfl, hinherits⟩
        · split at hp <;> cases hp
  | _ => cases hp

theorem property_field {v u : Value} {name : String}
    (hp : r.store.property v name = .ok (.field u)) : u.Rightful r.origin r.store :=
  Store.property_field (fun c record hrecord => (h.classes c record hrecord).fields name)
    (fun o ob hob => (h.objects o ob hob).fields name) hp

theorem getAt? {d : Nat} {name : String} {v : Value} (hv : r.store.getAt? f d name = some v) :
    v.Rightful r.origin r.store := by
  obtain ⟨g, hg⟩ := Store.getAt?_eq_some hv
  exact h.local? hg

/-- A method is in its class's home. -/
theorem method {id : ClosureId} {c : ClassId} {static : Bool}
    (ho : r.origin id = some (.method c static)) :
    ∃ k, r.store.closures[id]? = some k ∧ r.store.Home c k.scope ∧ k.decl.Within t.token := by
  have hk := Array.getElem?_eq_getElem (h.unborn id _ ho)
  have hsound := h.closures id _ hk
  obtain ⟨o, ho', hfits, -⟩ := hsound.origin
  rw [ho] at ho'
  cases ho'
  exact ⟨_, hk, hfits, hsound.decl⟩

end Sound

/-- The superclass is that of the class whose method the receiver runs. -/
theorem At.superAndThis? (hm : r.At t f m) {id : ExprId} {c : ClassId} {this : Value}
    (h : Below.superAndThis? m id = some (c, this)) :
    this.Rightful r.origin r.store ∧
      ∃ d static, r.store.Serves this d static ∧ r.store.Heads c d := by
  unfold Below.superAndThis? at h
  rw [hm.store] at h
  split at h
  · rename_i d _
    split at h
    · rename_i c' this' hsuper hthis
      cases h
      refine ⟨hm.sound.getAt? hthis, ?_⟩
      obtain ⟨g, hg, hlocal⟩ := Option.bind_eq_some_iff.1 hthis
      obtain ⟨k, hk, hlocal'⟩ := Option.bind_eq_some_iff.1 hsuper
      obtain ⟨-, d', static, home, hserves, hparent, hhome⟩ := hm.sound.receiver hlocal
      rw [Store.parent?_of_ancestor? hg hk] at hparent
      cases hparent
      exact ⟨d', static, hserves, hhome.heads hlocal'⟩
    · cases h
  · cases h

/-- The superclass's method may have the receiver as its own. -/
theorem Sound.findFor? (h : r.Sound t) {this : Value} {c d : ClassId} {static : Bool}
    {name : String} {found : ClosureId} (hserves : r.store.Serves this d static)
    (hheads : r.store.Heads c d) (hfound : r.store.findFor? this c name = some found) :
    ∃ e, r.origin found = some (.method e static) ∧ r.store.Serves this e static := by
  cases static with
  | false =>
    obtain ⟨o, ob, rfl, hob, hinherits⟩ := hserves
    obtain ⟨e, hup, horigin⟩ := h.findMethod? hfound
    exact ⟨e, horigin, o, ob, rfl, hob, (hinherits.tail hheads).trans hup⟩
  | true =>
    obtain ⟨k, rfl, hinherits⟩ := hserves
    obtain ⟨e, hup, horigin⟩ := h.findStatic? hfound
    exact ⟨e, horigin, k, rfl, (hinherits.tail hheads).trans hup⟩

end Register

theorem Value.Constant.rightful {v : Value} (h : v.Constant) (origin : ClosureId → Option Origin)
    (s : Store) : v.Rightful origin s := by
  cases v <;> first | exact ⟨trivial, fun _ h => by cases h⟩ | cases h

variable {I : Inquiry} {t : Terms} {r r₁ : Register} {f g : FrameId} {m : Machine}

/-- The machine after a step that has been entered. -/
theorem Register.At.enter (hm : r.At t f m) (hr : r ≤ r₁) (h : r₁.Sound t) :
    r₁.At t f { m with store := r₁.store } := ⟨rfl, hm.current, h, hm.ground.mono hr.store⟩

/-- Only the machine's surroundings are changed. -/
inductive Machine.Spares {α : Type} (t : Terms) (m : Machine) (Q : α → Prop) :
    EStateM.Result Stop Machine α → Prop
  | ok {a : α} {m₁ : Machine} : m₁.store = m.store → m₁.current = m.current → Q a →
      Spares t m Q (.ok a m₁)
  | error {e : Stop} {m₁ : Machine} : m₁.store = m.store → m₁.current = m.current → e.Placed t →
      Spares t m Q (.error e m₁)

theorem Token.NameIn.plain {k : Token} (h : k.NameIn t.token) : k.Plain :=
  (t.spelled k h.token).name h.kind

namespace Inquiry

theorem sim_currentFrame : I.Sim t r f (fun _ => currentFrame) fun _ g => g = f :=
  fun r₁ _ _ hm => .alone r₁.le_refl (.ok hm hm.current)

/-- A frame without a receiver may be given a variable. -/
theorem simAt_define (hm : r.At t f m) {name : Token} (hn : name.Plain) {v : Value}
    (hv : v.Rightful r.origin r.store) (hg : g < r.store.frames.size)
    (hthis : r.store.local? g "this" = none) :
    I.SimAt t r f anyRegister (fun _ => define g name.lexeme v) m anything := by
  have hr := Register.le_define (v := v) hg hn
  have hrun : (define g name.lexeme v).run m =
      .ok () { m with store := r.store.define g name.lexeme v } := by
    rw [← hm.store]
    rfl
  refine .alone hr ?_
  rw [hrun]
  exact .ok (hm.enter hr (hm.sound.define hg hn hthis hv)) trivial

theorem sim_define (hg : r.store.Ground g) {name : Token} (hn : name.Plain) {v : Value}
    (hv : v.Rightful r.origin r.store) :
    I.Sim t r f (fun _ => define g name.lexeme v) anything := by
  intro r₁ m hr hm
  have hg₁ := hg.mono hr.store
  exact simAt_define hm hn (hv.mono hr) hg₁.size hg₁.receiver

theorem sim_lookUp (id : ExprId) {name : Token} (hname : t.token name) :
    I.Sim t r f (fun _ => lookUp id name) rightful := by
  intro r₁ m _ hm
  have hrun := Machine.run_lookUp m id name
  rw [hm.store] at hrun
  split at hrun
  · rename_i v hv
    refine .congr (F := fun _ => (Pure.pure v : Eval Value)) (.pure hm ?_) fun _ _ => hrun
    split at hv
    · exact hm.sound.getAt? hv
    · obtain ⟨k, -, hlocal⟩ := Option.bind_eq_some_iff.1 hv
      exact hm.sound.local? hlocal
  · exact .congr (F := fun _ => Machine.fail name (.undefinedVariable name.lexeme))
      (.fail hm hname) fun _ _ => hrun

/-- A variable is written where it is, or among the globals. -/
theorem Register.At.target? (hm : r.At t f m) {id : ExprId} {name : Token} (hn : name.Plain)
    {create : Bool} (h : m.target? id name.lexeme create = some g) :
    g < r.store.frames.size ∧ r.store.local? g "this" = none := by
  have hnamed : ∀ g, (r.store.local? g name.lexeme).isSome →
      g < r.store.frames.size ∧ r.store.local? g "this" = none := by
    intro g hsome
    obtain ⟨v, hv⟩ := Option.isSome_iff_exists.1 hsome
    refine ⟨Store.lt_of_local? hv, ?_⟩
    cases hthis : r.store.local? g "this" with
    | none => rfl
    | some this =>
      obtain ⟨⟨p, hframe⟩, -⟩ := hm.sound.receiver hthis
      rw [Store.local?, hframe, Option.bind_some, Table.get?, if_neg (Ne.symm hn.1)] at hv
      cases hv
  have hglobals := hm.sound.globals
  unfold Machine.target? at h
  rw [hm.store] at h
  split at h
  · obtain ⟨-, hsome⟩ := Option.filter_eq_some_iff.1 h
    exact hnamed g hsome
  · split at h
    · cases h
      exact ⟨hglobals.size, hglobals.receiver⟩
    · rw [Store.holder?, Store.holderWithin?] at h
      split at h
      · cases h
        exact ⟨hglobals.size, hglobals.receiver⟩
      · cases hp : r.store.parent? .globals with
        | none =>
          rw [hp] at h
          cases h
        | some p => exact absurd (hm.sound.parent?_lt hp) (Nat.not_lt_zero p)

theorem sim_assign (id : ExprId) {name : Token} (hname : name.NameIn t.token) {v : Value}
    (hv : v.Rightful r.origin r.store) (create : Bool) :
    I.Sim t r f (fun _ => assign id name v create) anything := by
  intro r₁ m hr hm
  have hrun := Machine.run_assign m id name v create
  split at hrun
  · rename_i g hg
    obtain ⟨hlt, hthis⟩ := Register.At.target? hm hname.plain hg
    exact .congr (F := fun _ => define g name.lexeme v)
      (simAt_define hm hname.plain (hv.mono hr) hlt hthis) fun _ _ => hrun
  · exact .congr (F := fun _ => Machine.fail name (.undefinedVariable name.lexeme))
      (.fail hm hname.token) fun _ _ => hrun

structure CopyOf (s : Store) (method : ClosureId) (r : Register) (v : Value) : Prop where
  rightful : v.Rightful r.origin r.store
  new : v = .closure s.closures.size
  frame : r.store.frames.size = s.frames.size + 1
  closure : ∀ k, s.closures[method]? = some k →
    r.store.closures[s.closures.size]? = some { k with scope := s.frames.size }

/-- Binding a method enters its copy, made for a receiver that it may have. -/
theorem simAt_copyMethod (hm : r.At t f m) {method : ClosureId} {c : ClassId} {static : Bool}
    (ho : r.origin method = some (.method c static)) {this : Value}
    (hserves : r.store.Serves this c static) (hthis : this.Rightful r.origin r.store) :
    I.SimAt t r f (fun L => r.store.Copies L.origin method) (fun _ => bindMethod method this) m
      (CopyOf r.store method) := by
  obtain ⟨k, hk, hhome, hdecl⟩ := hm.sound.method ho
  obtain ⟨hr, hcopy⟩ := hm.sound.copyMethod hk ho hhome hdecl hserves hthis
  have horigin : (r.copyMethod k this c static).origin r.store.closures.size =
      some (.copy c static) := if_pos rfl
  have hrun : (bindMethod method this).run m = .ok (.closure r.store.closures.size)
      { m with store := (r.copyMethod k this c static).store } := by
    change EStateM.Result.ok (m.store.bindMethod method this).1
      { m with store := (m.store.bindMethod method this).2 } = _
    rw [hm.store, Store.bindMethod, hk]
    rfl
  refine .inr ⟨rfl, _, hr, ?_, fun L hL => ⟨⟨c, static, ?_, ?_⟩, rfl⟩⟩
  · rw [hrun]
    refine .ok (hm.enter hr hcopy) ⟨⟨hcopy.unborn _ _ horigin, fun id hid => ?_⟩, rfl,
      Array.size_push _, fun k' hk' => ?_⟩
    · cases hid
      exact ⟨_, horigin, trivial⟩
    · rw [hk] at hk'
      cases hk'
      exact Array.getElem?_push_size
  · exact hL.origin _ _ (hr.origin _ _ ho)
  · exact hL.origin _ _ horigin

/-- A method is copied for its receiver. -/
theorem simAt_bindMethod (hm : r.At t f m) {method : ClosureId} {c : ClassId} {static : Bool}
    (ho : r.origin method = some (.method c static)) {this : Value}
    (hserves : r.store.Serves this c static) (hthis : this.Rightful r.origin r.store) :
    I.SimAt t r f (fun L => r.store.Copies L.origin method) (fun _ => bindMethod method this) m
      rightful :=
  (simAt_copyMethod hm ho hserves hthis).weaken fun _ _ _ h => h.rightful

theorem sim_checked {α : Type} {Q : Register → α → Prop} {token : Token} (htoken : t.token token)
    {x : Except RuntimeFault α} (h : ∀ a, x = .ok a → ∀ r₁, r ≤ r₁ → Q r₁ a) :
    I.Sim t r f (fun _ => checked token x) Q := by
  cases x with
  | ok a => exact .pure (h a rfl)
  | error fault => exact .fail htoken

/-- A method is bound to what it is read from. -/
theorem simAt_readProperty (hm : r.At t f m) {object : Value}
    (hobject : object.Rightful r.origin r.store) {name : Token} (hname : t.token name) :
    I.SimAt t r f
      (fun L => ∀ id, r.store.property object name.lexeme = .ok (.method id) →
        r.store.Copies L.origin id)
      (fun _ => readProperty object name) m rightful := by
  have hrun := Machine.run_readProperty m object name
  rw [hm.store] at hrun
  cases hp : r.store.property object name.lexeme with
  | error fault =>
    rw [hp] at hrun
    have hsim : I.SimAt t r f anyRegister (fun _ => Machine.fail name fault) m rightful :=
      .fail hm hname
    exact (hsim.congr fun _ _ => hrun).pin fun _ _ _ _ h => by cases h
  | ok p =>
    rw [hp] at hrun
    cases p with
    | field v =>
      have hsim : I.SimAt t r f anyRegister (fun _ => (Pure.pure v : Eval Value)) m rightful :=
        .pure hm (hm.sound.property_field hp)
      exact (hsim.congr fun _ _ => hrun).pin fun _ _ _ _ h => by cases h
    | method id =>
      obtain ⟨c, static, ho, hserves⟩ := hm.sound.property_method hp
      refine ((simAt_bindMethod hm ho hserves hobject).congr fun _ _ => hrun).pin ?_
      intro L _ h id' hid
      cases hid
      exact h

theorem sim_writeProperty (object : Value) {name : Token} (hname : t.token name) {v : Value}
    (hv : v.Rightful r.origin r.store) :
    I.Sim t r f (fun _ => writeProperty object name v) anything := by
  unfold writeProperty
  split
  · intro r₁ m hr hm
    have hr₁ := r₁.le_setField object name.lexeme v
    refine .alone hr₁ ?_
    have hrun : (modify fun m => { m with store := m.store.setField object name.lexeme v } :
        Eval Unit).run m =
        .ok () { m with store := r₁.store.setField object name.lexeme v } := by
      rw [← hm.store]
      rfl
    rw [hrun]
    exact .ok (hm.enter hr₁ (hm.sound.setField object name.lexeme (hv.mono hr))) trivial
  · exact .fail hname

/-- A reference to the superclass's method answers a copy for the same receiver. -/
theorem simAt_evaluateSuper (hm : r.At t f m) (id : ExprId) {keyword method : Token}
    (hkeyword : t.token keyword) (hmethod : t.token method) :
    I.SimAt t r f
      (fun L => ∀ (c : ClassId) (this : Value) (found : ClosureId),
        Below.superAndThis? m id = some (c, this) →
        r.store.findFor? this c method.lexeme = some found → r.store.Copies L.origin found)
      (fun _ => Below.evaluateSuper id keyword method) m rightful := by
  have hrun := Machine.run_evaluateSuper m id keyword method
  rw [hm.store] at hrun
  cases hsuper : Below.superAndThis? m id with
  | none =>
    rw [hsuper] at hrun
    have hsim : I.SimAt t r f anyRegister (fun _ => Machine.fail keyword .superOutsideClass) m
        rightful := .fail hm hkeyword
    exact (hsim.congr fun _ _ => hrun).pin fun _ _ _ _ _ _ h => by cases h
  | some p =>
    obtain ⟨c, this⟩ := p
    obtain ⟨hthis, d, static, hserves, hheads⟩ := hm.superAndThis? hsuper
    rw [hsuper] at hrun
    dsimp only at hrun
    cases hfound : r.store.findFor? this c method.lexeme with
    | none =>
      rw [hfound] at hrun
      have hsim : I.SimAt t r f anyRegister
          (fun _ => Machine.fail method (.undefinedMethod method.lexeme)) m rightful :=
        .fail hm hmethod
      refine (hsim.congr fun _ _ => hrun).pin ?_
      intro _ _ _ _ _ _ h hf
      cases h
      rw [hfound] at hf
      cases hf
    | some found =>
      rw [hfound] at hrun
      obtain ⟨e, ho, hserves'⟩ := hm.sound.findFor? hserves hheads hfound
      refine ((simAt_bindMethod hm ho hserves' hthis).congr fun _ _ => hrun).pin ?_
      intro _ _ h _ _ _ hs hf
      cases hs
      rw [hfound] at hf
      cases hf
      exact h

theorem rightful_number (r : Register) (x : Float) : rightful r (.number x) :=
  Value.Constant.rightful (v := .number x) trivial _ _

theorem sim_numberOperand {operator : Token} (hoperator : t.token operator) (v : Value) :
    I.Sim t r f (fun _ => Below.numberOperand operator v) anything := by
  unfold Below.numberOperand
  split
  · exact .pure fun _ _ => trivial
  · exact .fail hoperator

theorem sim_applyUnary {operator : Token} (hoperator : t.token operator) (v : Value) :
    I.Sim t r f (fun _ => Below.applyUnary operator v) rightful := by
  unfold Below.applyUnary
  split
  · exact (sim_numberOperand hoperator v).bind fun _ x _ _ => .pure fun _ _ => rightful_number _ _
  · exact .pure fun _ _ => Value.Constant.rightful (v := .bool _) trivial _ _

/-- Operators answer constants. -/
theorem sim_operator {operator token : Token} (htoken : t.token token) (kind : Kind)
    (left right : Value) :
    I.Sim t r f (fun _ => checked token (Operator.apply kind operator.lexeme left right))
      rightful :=
  sim_checked htoken fun _ hv _ _ => (Operator.constant_apply hv).rightful _ _

theorem sim_spare {α : Type} {a : Eval α} {Q : α → Prop} (h : ∀ m, Machine.Spares t m Q (a.run m)) :
    I.Sim t r f (fun _ => a) fun _ => Q := by
  intro r₁ m _ hm
  refine .alone r₁.le_refl ?_
  have hspares := h m
  generalize a.run m = res at hspares
  cases hspares with
  | ok hstore hcurrent hq =>
    exact .ok ⟨hstore.trans hm.store, hcurrent.trans hm.current, hm.sound, hm.ground⟩ hq
  | error hstore hcurrent he =>
    exact .error ⟨hstore.trans hm.store, hcurrent.trans hm.current, hm.sound, hm.ground⟩ he

theorem sim_write (text : String) : I.Sim t r f (fun _ => write text) fun _ _ => True := by
  refine sim_spare fun m => ?_
  rw [run_write]
  split
  · exact .ok rfl rfl trivial
  · exact .error rfl rfl trivial

theorem sim_flush : I.Sim t r f (fun _ => flush) fun _ _ => True := by
  refine sim_spare fun m => ?_
  rw [run_flush]
  split
  · exact .ok rfl rfl trivial
  · exact .error rfl rfl trivial

theorem sim_takeLine : I.Sim t r f (fun _ => takeLine) fun _ _ => True := by
  refine sim_spare fun m => ?_
  rw [run_takeLine]
  split
  · exact .ok rfl rfl trivial
  · split
    · exact .ok rfl rfl trivial
    · exact .error rfl rfl trivial

theorem sim_readLine : I.Sim t r f (fun _ => readLine) fun _ _ => True :=
  sim_flush.bind fun _ _ _ _ => sim_takeLine

theorem sim_text (v : Value) : I.Sim t r f (fun _ => Machine.text v) fun _ _ => True :=
  sim_spare fun _ => .ok rfl rfl trivial

/-- A line of the input, or nothing at its end. -/
theorem sim_inputLine : I.Sim t r f (fun _ => do
    return Builtin.lineValue (← readLine)) rightful := by
  refine sim_readLine.bind ?_
  intro r₁ line _ _
  cases line with
  | none => exact .pure fun _ _ => Value.Constant.rightful (v := .nil) trivial _ _
  | some line => exact .pure fun _ _ => Value.Constant.rightful (v := .string line) trivial _ _

/-- The built-in functions answer constants, and report their faults where they are called. -/
theorem sim_builtin (b : Builtin) {site : Token} (hsite : t.token site) (arguments : List Value) :
    I.Sim t r f (fun _ => b.run site arguments) rightful := by
  have hconstant : ∀ {r : Register} {v : Value}, v.Constant →
      I.Sim t r f (fun _ => (Pure.pure v : Eval Value)) rightful :=
    fun h => .pure fun _ _ => h.rightful _ _
  have hprint : ∀ (v : Value) (ending : String), I.Sim t r f
      (fun _ => do write ((← Machine.text v) ++ ending); Pure.pure Value.nil) rightful :=
    fun v ending => (sim_text v).bind fun _ _ _ _ => (sim_write _).bind fun _ _ _ _ =>
      hconstant trivial
  unfold Builtin.run
  split
  · have hclock : I.Sim t r f (fun _ => readClock) fun _ _ => True :=
      sim_spare fun _ => .ok rfl rfl trivial
    exact hclock.bind fun _ _ _ _ => hconstant trivial
  · unfold Builtin.printValue
    split
    · exact hprint _ _
    · exact hprint _ _
    · exact .fail hsite
  · unfold Builtin.numberText
    split
    · exact hconstant trivial
    · exact .fail hsite
  · unfold Builtin.readInput
    split
    · exact sim_inputLine
    · exact (sim_write _).bind fun _ _ _ _ => sim_inputLine
    · exact .fail hsite
  · unfold Builtin.parseNumber
    split
    · split
      · exact hconstant trivial
      · exact .fail hsite
    · exact .fail hsite
  · exact hconstant trivial
  · unfold Builtin.squareRoot
    split
    · split
      · exact hconstant trivial
      · exact .fail hsite
    · exact .fail hsite
  · unfold Builtin.randomWhole
    split
    · split
      · have hchance : ∀ count, I.Sim t r f (fun _ => chance count) fun _ _ => True :=
          fun count => sim_spare fun _ => .ok rfl rfl trivial
        exact (hchance _).bind fun _ _ _ _ => hconstant trivial
      · exact .fail hsite
    · exact .fail hsite
  · rename_i v _
    have htype : I.Sim t r f (fun _ => return Value.string ((← get).store.typeName v))
        fun _ => Value.Constant := sim_spare fun _ => .ok rfl rfl trivial
    exact htype.weaken fun _ _ _ h => h.rightful _ _
  · exact hconstant trivial
  · exact hconstant trivial

end Inquiry

end Scriptling
