import Scriptling.Proofs.Fields
import Scriptling.Proofs.Receivers

namespace Scriptling

open Machine

variable {t : Terms} {r L : Register} {f : FrameId} {m : Machine} {s s' : Store} {c : ClassId}
  {chain : List ClassId} {name : String} {static : Bool} {receiver : Value}

/-- A class and all those it inherits from, the nearest ones first. -/
inductive Store.Lineage (s : Store) : ClassId → List ClassId → Prop
  | top {c : ClassId} {record : ClassRecord} : s.classes[c]? = some record →
    record.superclass = none → Lineage s c [c]
  | derived {c p : ClassId} {record : ClassRecord} {chain : List ClassId} :
    s.classes[c]? = some record → record.superclass = some p → Lineage s p chain →
    Lineage s c (c :: chain)

/-- The method of a name that a class itself has, or the static one. -/
def Store.member? (s : Store) (static : Bool) (name : String) (c : ClassId) : Option ClosureId :=
  s.classes[c]?.bind fun record => (record.members static).get? name

/-- The method of a name that a class has or inherits, or the static one. -/
def Store.inherited? (s : Store) (static : Bool) (name : String) (c : ClassId) : Option ClosureId :=
  s.findWithin? (·.members static) name (c + 1) c

/-- Every class has its chain, since superclasses are older. -/
theorem Store.Formed.exists_lineage (h : s.Formed) (hc : c < s.classes.size) :
    ∃ chain, s.Lineage c chain := by
  induction c using Nat.strongRecOn with
  | ind c ih =>
    have hrecord : s.classes[c]? = some s.classes[c] := Array.getElem?_eq_getElem hc
    cases hp : s.classes[c].superclass with
    | none => exact ⟨[c], .top hrecord hp⟩
    | some p =>
      have hlt := h.superclasses c _ p hrecord hp
      obtain ⟨chain, hchain⟩ := ih p hlt (Nat.lt_trans hlt hc)
      exact ⟨c :: chain, .derived hrecord hp hchain⟩

theorem Store.Lineage.lt (h : s.Lineage c chain) : ∀ d ∈ chain, d < s.classes.size := by
  induction h with
  | top hrecord _ =>
    simpa using (Array.getElem?_eq_some_iff.1 hrecord).1
  | derived hrecord _ _ ih =>
    exact List.forall_mem_cons.2 ⟨(Array.getElem?_eq_some_iff.1 hrecord).1, ih⟩

/-- Looking for a method goes along the chain. -/
theorem Store.Lineage.inherited? (h : s.Lineage c chain) (hs : s.Descends) (static : Bool)
    (name : String) : s.inherited? static name c = chain.findSome? (s.member? static name) := by
  have hup := hs.searchesUp (·.members static)
  induction h with
  | @top c record hrecord hp =>
    have hstep : s.inherited? static name c = _ := hup c name
    rw [hstep, List.findSome?_cons, member?, hrecord, Option.bind_some, Option.bind_some, hp]
    cases (record.members static).get? name <;> rfl
  | @derived c p record chain hrecord hp _ ih =>
    have hstep : s.inherited? static name c = _ := hup c name
    rw [hstep, List.findSome?_cons, member?, hrecord, Option.bind_some, Option.bind_some, hp]
    cases (record.members static).get? name with
    | some k => rfl
    | none => exact ih

/-- The first class of a chain that declares a name, by its place in the chain, and the last of its
declarations. -/
structure FirstDeclares (declared : ClassId → List FunctionDecl) (chain : List ClassId)
    (name : String) (i : Nat) (c : ClassId) (d : FunctionDecl) : Prop where
  place : chain[i]? = some c
  last : FunctionDecl.last? (declared c) name = some d
  least : ∀ j c', j < i → chain[j]? = some c' → FunctionDecl.last? (declared c') name = none

/-- What a function gives for this class only, among those up to it, is found first. -/
theorem FirstDeclares.findSome? {declared : ClassId → List FunctionDecl} {i : Nat}
    {d : FunctionDecl} (h : FirstDeclares declared chain name i c d)
    {find : ClassId → Option ClosureId} {k : ClosureId} (hk : find c = some k)
    (hnone : ∀ c' ∈ chain, FunctionDecl.last? (declared c') name = none → find c' = none) :
    chain.findSome? find = some k := by
  obtain ⟨hplace, -, hleast⟩ := h
  induction chain generalizing i with
  | nil => cases hplace
  | cons c' chain ih =>
    rw [List.findSome?_cons]
    cases i with
    | zero =>
      obtain rfl : c' = c := Option.some.inj hplace
      rw [hk]
    | succ i =>
      rw [hnone c' List.mem_cons_self (hleast 0 c' (Nat.succ_pos i) rfl)]
      exact ih (fun c'' hc => hnone c'' (List.mem_cons_of_mem _ hc)) hplace
        fun j c'' hj hc => hleast (j + 1) c'' (Nat.succ_lt_succ hj) hc

/-- Every class has what it declares. -/
def Store.Declared (s : Store) (declared : ClassId → Bool → List FunctionDecl) : Prop :=
  ∀ (c : ClassId) record, s.classes[c]? = some record → ∀ static,
    s.Lists (record.members static) (declared c static)

namespace Store.Declared

variable {declared : ClassId → Bool → List FunctionDecl} (h : s.Declared declared)
include h

/-- The method of a class is its last declaration. -/
theorem member? (hc : c < s.classes.size) (static : Bool) (name : String) :
    Option.Rel (fun k d => ∃ closure, s.closures[k]? = some closure ∧ closure.decl = d)
      (s.member? static name c) (FunctionDecl.last? (declared c static) name) := by
  have hrecord : s.classes[c]? = some s.classes[c] := Array.getElem?_eq_getElem hc
  rw [Store.member?, hrecord]
  exact h c _ hrecord static name

/-- A class has the last method that it declares by a name. -/
theorem member?_eq_some (hc : c < s.classes.size) {d : FunctionDecl}
    (hd : FunctionDecl.last? (declared c static) name = some d) :
    ∃ k method, s.member? static name c = some k ∧ s.closures[k]? = some method ∧
      method.decl = d := by
  have hrel := h.member? hc static name
  rw [hd] at hrel
  generalize s.member? static name c = found at hrel
  cases hrel with
  | some hk =>
    obtain ⟨method, hmethod, hdecl⟩ := hk
    exact ⟨_, method, rfl, hmethod, hdecl⟩

/-- It has a method of a name exactly if it declares one. -/
theorem isSome_member? (hc : c < s.classes.size) (static : Bool) (name : String) :
    (s.member? static name c).isSome = (FunctionDecl.last? (declared c static) name).isSome := by
  have hrel := h.member? hc static name
  generalize s.member? static name c = found, FunctionDecl.last? (declared c static) name = last
    at hrel
  cases hrel <;> rfl

theorem member?_eq_none (hc : c < s.classes.size)
    (hd : FunctionDecl.last? (declared c static) name = none) : s.member? static name c = none := by
  have hsome := h.isSome_member? hc static name
  rw [hd] at hsome
  exact Option.not_isSome_iff_eq_none.1 (by simp [hsome])

end Store.Declared

/-- Whose methods a receiver looks for, and in which class: an instance in its own class, a class in
itself and among the static ones. -/
inductive Store.LooksIn (s : Store) : Value → Bool → ClassId → Prop
  | object {o : ObjectId} {ob : Object} : s.objects[o]? = some ob →
    LooksIn s (.object o) false ob.instanceOf
  | classRef {c : ClassId} {record : ClassRecord} : s.classes[c]? = some record →
    LooksIn s (.classRef c) true c

def RuntimeFault.misused : Bool → String → RuntimeFault
  | false => .staticOnInstance
  | true => .methodOnClass

def RuntimeFault.missing : Bool → String → RuntimeFault
  | false => .undefinedMethod
  | true => .undefinedStatic

/-- Instances and classes are read alike. -/
theorem Store.LooksIn.property (h : s.LooksIn receiver static c) (name : String) :
    s.property receiver name =
      match s.field? receiver name with
      | some v => .ok (.field v)
      | none =>
        match s.inherited? static name c with
        | some k => .ok (.method k)
        | none =>
          if (s.inherited? (!static) name c).isSome then .error (.misused static name)
          else .error (.missing static name) := by
  cases h with
  | @object o ob hob =>
    rw [Store.property, hob, field?, hob, Option.bind_some]
    rfl
  | @classRef c record hrecord =>
    rw [Store.property, hrecord, field?, hrecord, Option.bind_some]
    rfl

theorem Store.Formed.lt_of_looksIn (h : s.Formed) (hlooks : s.LooksIn receiver static c) :
    c < s.classes.size := by
  cases hlooks with
  | object hob => exact h.instances _ _ hob
  | classRef hrecord => exact (Array.getElem?_eq_some_iff.1 hrecord).1

/-- All that is in the one store is in the other one, as it was. -/
structure Store.Keeps (s s' : Store) : Prop where
  frames : Extends Eq s.frames s'.frames
  closures : Extends Eq s.closures s'.closures
  classes : s'.classes = s.classes
  objects : s'.objects = s.objects

/-- The machine with a copy of a method, in a frame that has the receiver and stands where the method
was made. -/
def Machine.bound (m : Machine) (method : Closure) (receiver : Value) : Machine :=
  let s := (m.store.openFrame (some method.scope) [("this", receiver)]).2
  { m with store := (s.newClosure { method with scope := m.store.frames.size }).2 }

theorem Machine.keeps_bound (m : Machine) (method : Closure) (receiver : Value) :
    m.store.Keeps (m.bound method receiver).store :=
  ⟨.push (fun _ => rfl) _ _, .push (fun _ => rfl) _ _, rfl, rfl⟩

/-- Binding a method leaves a copy, in a frame of its receiver. -/
theorem Machine.run_bindMethod_bound {k : ClosureId} {method : Closure}
    (hk : m.store.closures[k]? = some method) (receiver : Value) :
    (bindMethod k receiver).run m =
      .ok (.closure m.store.closures.size) (m.bound method receiver) := by
  rw [Eval.run_bindMethod, Store.bindMethod, hk]
  rfl

/-- Whatever is read, all that is there stays as it is. -/
theorem Machine.keeps_readProperty (m : Machine) (o : Value) (name : Token) :
    ∃ store, after (readProperty o name) m = { m with store } ∧ m.store.Keeps store := by
  have hrefl : m.store.Keeps m.store :=
    ⟨.refl (fun _ => rfl) _, .refl (fun _ => rfl) _, rfl, rfl⟩
  have hrun := m.run_readProperty o name
  split at hrun
  · exact ⟨_, after_error hrun, hrefl⟩
  · exact ⟨_, after_ok hrun, hrefl⟩
  · rename_i k _
    cases hk : m.store.closures[k]? with
    | some method =>
      exact ⟨_, after_ok (hrun.trans (run_bindMethod_bound hk o)), m.keeps_bound method o⟩
    | none =>
      refine ⟨(m.store.bindMethod k o).2, after_ok (hrun.trans (Eval.run_bindMethod m k o)), ?_⟩
      rw [Store.bindMethod, hk]
      exact hrefl

/-- What reading a property of a receiver gives that looks along a chain of classes. -/
structure Machine.Reads (m : Machine) (declared : ClassId → Bool → List FunctionDecl)
    (receiver : Value) (static : Bool) (chain : List ClassId) (name : Token) : Prop where
  field : ∀ v, m.store.field? receiver name.lexeme = some v →
    (readProperty receiver name).run m = .ok v m
  method : m.store.field? receiver name.lexeme = none → ∀ i c d,
    FirstDeclares (declared · static) chain name.lexeme i c d →
      ∃ k method, m.store.member? static name.lexeme c = some k ∧
        m.store.closures[k]? = some method ∧ method.decl = d ∧
        (readProperty receiver name).run m =
          .ok (.closure m.store.closures.size) (m.bound method receiver)
  misused : m.store.field? receiver name.lexeme = none →
    (∀ c ∈ chain, FunctionDecl.last? (declared c static) name.lexeme = none) →
    (∃ c ∈ chain, (FunctionDecl.last? (declared c !static) name.lexeme).isSome) →
      (readProperty receiver name).run m =
        .error (.failed (.runtime ⟨.misused static name.lexeme, name.place⟩)) m
  missing : m.store.field? receiver name.lexeme = none →
    (∀ c ∈ chain, ∀ kind, FunctionDecl.last? (declared c kind) name.lexeme = none) →
      (readProperty receiver name).run m =
        .error (.failed (.runtime ⟨.missing static name.lexeme, name.place⟩)) m

/-- Reading a property looks along the chain: an own field first, then the least class that declares
the name. -/
theorem Store.Declared.reads {declared : ClassId → Bool → List FunctionDecl}
    (h : m.store.Declared declared) (hformed : m.store.Formed)
    (hlooks : m.store.LooksIn receiver static c) (hchain : m.store.Lineage c chain) (name : Token) :
    m.Reads declared receiver static chain name := by
  have hfind := fun kind => hchain.inherited? hformed.superclasses kind name.lexeme
  have hnone : ∀ kind, (∀ c ∈ chain, FunctionDecl.last? (declared c kind) name.lexeme = none) →
      m.store.inherited? kind name.lexeme c = none := by
    intro kind hall
    rw [hfind, List.findSome?_eq_none_iff]
    exact fun c hc => h.member?_eq_none (hchain.lt c hc) (hall c hc)
  have hrun := m.run_readProperty receiver name
  rw [hlooks.property] at hrun
  constructor
  case field =>
    intro v hv
    rw [hv] at hrun
    exact hrun
  case method =>
    intro hfield i d decl hfirst
    have hd : d < m.store.classes.size := hchain.lt d (List.mem_of_getElem? hfirst.place)
    obtain ⟨k, method, hk, hmethod, hdecl⟩ := h.member?_eq_some hd hfirst.last
    have hfound := hfirst.findSome? hk fun c hc hlast => h.member?_eq_none (hchain.lt c hc) hlast
    rw [hfield, hfind, hfound] at hrun
    exact ⟨k, method, hk, hmethod, hdecl, hrun.trans (run_bindMethod_bound hmethod receiver)⟩
  case misused =>
    rintro hfield hall ⟨d, hd, hsome⟩
    have hother : (m.store.inherited? (!static) name.lexeme c).isSome := by
      rw [hfind, List.findSome?_isSome_iff]
      exact ⟨d, hd, (h.isSome_member? (hchain.lt d hd) _ _).trans hsome⟩
    rw [hfield, hnone static hall] at hrun
    dsimp only at hrun
    rwa [if_pos hother] at hrun
  case missing =>
    intro hfield hall
    rw [hfield, hnone static fun c hc => hall c hc static] at hrun
    dsimp only at hrun
    rwa [hnone _ fun c hc => hall c hc _] at hrun

/-- How a property is used of the value of an expression, when it is evaluated on a machine and leaves
another one. Only then are the other parts evaluated, and an assignment reads before it writes. -/
structure Expr.Accesses (object : Expr) (name : Token) (bound : Nat) (m : Machine) (o : Value)
    (m₁ : Machine) : Prop where
  get : (evaluate (bound + 1) (.get object name)).run m = (readProperty o name).run m₁
  set : ∀ value v m₂, (evaluate bound value).run m₁ = .ok v m₂ →
    (evaluate (bound + 1) (.set object name value)).run m =
      (do writeProperty o name v; pure v).run m₂
  compoundSet : ∀ operator value old m₂ operand m₃ new m₄,
    (readProperty o name).run m₁ = .ok old m₂ → (evaluate bound value).run m₂ = .ok operand m₃ →
    (Below.applyCompound operator old operand).run m₃ = .ok new m₄ →
      (evaluate (bound + 1) (.compoundSet object name operator value)).run m =
        (do writeProperty o name new; pure new).run m₄
  update : ∀ operator before x m₂, (readProperty o name).run m₁ = .ok (.number x) m₂ →
    let next := x + if operator.kind = .plusPlus then 1 else -1
    (evaluate (bound + 1) (.update operator (.get object name) before)).run m =
      (do
        writeProperty o name (.number next)
        pure (.number (if before then next else x)) : Eval Value).run m₂

/-- Wherever an object is evaluated to a value, its property is used as that value has it. -/
theorem Expr.accesses {object : Expr} {bound : Nat} {o : Value} {m₁ : Machine}
    (h : (evaluate bound object).run m = .ok o m₁) (name : Token) :
    object.Accesses name bound m o m₁ := by
  constructor
  case get => exact Eval.run_bind_ok h
  case set => exact fun value v m₂ hv => (Eval.run_bind_ok h).trans (Eval.run_bind_ok hv)
  case compoundSet =>
    intro operator value old m₂ operand m₃ new m₄ hold hoperand hnew
    exact (Eval.run_bind_ok h).trans ((Eval.run_bind_ok hold).trans
      ((Eval.run_bind_ok hoperand).trans (Eval.run_bind_ok hnew)))
  case update =>
    intro operator before x m₂ hold next
    have hnumber : (Below.numberOperand operator (.number x)).run m₂ = .ok x m₂ := rfl
    exact (Eval.run_bind_ok h).trans ((Eval.run_bind_ok hold).trans (Eval.run_bind_ok hnumber))

/-- All that is known of properties on a machine. Classes are what they will be in the end, but for
their fields, and whatever has properties is read along its chain. -/
structure Machine.Looks (declared : ClassId → Bool → List FunctionDecl) (last : Store)
    (m : Machine) : Prop where
  grows : m.store.Grows last
  members : m.store.Declared declared
  reads : ∀ receiver static c, m.store.LooksIn receiver static c →
    ∃ chain, m.store.Lineage c chain ∧ ∀ name, m.Reads declared receiver static chain name

/-- What is said of every step, before and after. A class has the declarations of its statement. -/
def Watch.properties (declared : ClassId → Bool → List FunctionDecl) (last : Store) : Watch where
  expr below e m := m.Looks declared last ∧ (Machine.after (below.evaluateStep e) m).Looks declared last
  stmt below s m := s.Enters declared below m ∧ m.Looks declared last ∧
    (Machine.after (below.executeStep s) m).Looks declared last

theorem Register.At.looks (hm : r.At t f m) (hr : r ≤ L) : m.Looks L.declared L.store := by
  have hformed : m.store.Formed := hm.store ▸ hm.sound.formed
  have hdeclared : m.store.Declared L.declared := by
    intro c record hrecord static
    rw [hm.store] at hrecord ⊢
    rw [hr.declared c (Array.getElem?_eq_some_iff.1 hrecord).1]
    exact (hm.sound.classes c record hrecord).declared static
  refine ⟨hm.store ▸ hr.store.grows, hdeclared, fun receiver static c hlooks => ?_⟩
  obtain ⟨chain, hchain⟩ := hformed.exists_lineage (hformed.lt_of_looksIn hlooks)
  exact ⟨chain, hchain, hdeclared.reads hformed hlooks hchain⟩

theorem Watch.properties_answers :
    Inquiry.Answers .any Watch.idle fun L => .properties L.declared L.store := by
  constructor
  case ties => exact fun _ => Expr.ties_any _ _ _
  case expr =>
    intro depth e m r r₁ L f hm hr hends hL _ _
    exact ⟨hm.looks (Register.le_trans hr hL), hends.after.looks hL⟩
  case stmt =>
    intro depth s m r r₁ L f hm hr hends hL _ _ henters
    exact ⟨henters, hm.looks (Register.le_trans hr hL), hends.after.looks hL⟩

/-- Properties throughout every session. Setting a property gives this very field its value, and
nothing else differs then: no other field, no other instance or class, no methods. Whatever is
evaluated makes certain writes, and whatever writes an action makes, every field has the value it was
given last, or else the one that it had. Expressions read and write the property of the value that
their object is evaluated to. Reading leaves all that is there. Before and after every step and
between programs, an instance and a class are read along their chain: an own field first, then the
last declaration by the least class that declares a method of the name, or for a class a static one,
copied for the receiver; otherwise it is a misuse if some class has one of the other kind, and
undefined if none has. The declarations of each class are those of its statement. -/
theorem properties_dispatched (interactive : Bool) (input : List UInt8) (output : Output)
    (clock : Supply Int) (chances : Supply Nat) (depth : Nat) (turns : List Turn) :
    let s := Session.start interactive (.start input output clock chances)
    (∀ (m : Machine) (o : Value) (name : Token) (v : Value), Store.hasFields o = true →
      o.Allocated m.store → ∃ store, (writeProperty o name v).run m = .ok () { m with store } ∧
        store.field? o name.lexeme = some v ∧
        (∀ key, key ≠ name.lexeme → store.field? o key = m.store.field? o key) ∧
        m.store.SameBut o store) ∧
    (∀ {α : Type} (a : Eval α) m ws, Eval.Writes a m ws → m.store.Written ws (after a m).store) ∧
    (∀ (bound : Nat) (m : Machine), (∀ e, ∃ ws, Eval.Writes (evaluate bound e) m ws) ∧
      ∀ st, ∃ ws, Eval.Writes (execute bound st) m ws) ∧
    (∀ (object : Expr) (name : Token) (bound : Nat) (m : Machine) (o : Value) (m₁ : Machine),
      (evaluate bound object).run m = .ok o m₁ → object.Accesses name bound m o m₁) ∧
    (∀ (m : Machine) (o : Value) (name : Token), ∃ store,
      after (readProperty o name) m = { m with store } ∧ m.store.Keeps store) ∧
    ∃ declared last, (Watch.properties declared last).Holds depth s turns ∧
      s.machine.Looks declared last ∧
        ∀ o ∈ s.play (.upTo depth) turns, o.session.machine.Looks declared last := by
  intro s
  refine ⟨fun m o name v hfields ho => ?_, fun a m ws h => h.written, fun bound m =>
    ⟨fun e => (Below.recorded_upTo bound).evaluate e m,
      fun st => (Below.recorded_upTo bound).execute st m⟩,
    fun object name bound m o m₁ h => Expr.accesses h name,
    fun m o name => m.keeps_readProperty o name, ?_⟩
  · exact ⟨_, (run_writeProperty m o name v).trans (if_pos hfields),
      Store.field?_setField_self ho hfields _ v,
      fun key hkey => Store.field?_setField_of_ne ho hfields hkey v, m.store.sameBut_setField _ _ _⟩
  · obtain ⟨L, hblank, hholds, hout⟩ := Watch.properties_answers.exists_holds (s := s) rfl
      (fun turn _ => Terms.any_covers turn.source) (Watch.idle_holds depth s turns)
    refine ⟨L.declared, L.store, hholds, ?_, fun o ho => ?_⟩
    · exact (Register.at_blank .any input output clock chances).looks hblank
    · obtain ⟨-, r, hr, hm⟩ := hout o ho
      exact hm.looks hr

end Scriptling
