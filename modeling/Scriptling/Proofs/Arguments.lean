import Scriptling.Proofs.RealmSessions
import Scriptling.Proofs.Soundness

namespace Scriptling

open Machine

/-- How many arguments are needed: those up to the last parameter that has no fallback. -/
theorem Param.least_spec (ps : List Param) :
    (∀ i p, ps[i]? = some p → p.fallback = none → i < Param.least ps) ∧
      ∀ n, Param.least ps = n + 1 → ∃ p, ps[n]? = some p ∧ p.fallback = none := by
  induction ps with
  | nil =>
    refine ⟨fun i p hp => ?_, fun n hn => absurd hn (Nat.succ_ne_zero n).symm⟩
    rw [List.getElem?_nil] at hp
    cases hp
  | cons p ps ih =>
    obtain ⟨hbelow, hlast⟩ := ih
    rw [least_cons]
    refine ⟨fun i q hq hnone => ?_, fun n hn => ?_⟩
    · cases i with
      | zero =>
        cases hq
        split
        · simp [hnone]
        · exact Nat.succ_pos _
      | succ i =>
        have hi := hbelow i q hq hnone
        rw [if_neg (by omega)]
        exact Nat.succ_lt_succ hi
    · split at hn
      · split at hn
        · cases hn
        · rename_i hp
          cases hn
          exact ⟨p, rfl, by simpa using hp⟩
      · obtain ⟨n, rfl⟩ : ∃ k, n = k + 1 := ⟨n - 1, by omega⟩
        exact hlast n (by omega)

/-- A parameter that is given its value: the argument for it if there is one, and the machines before
and after. -/
structure Binding where
  param : Param
  argument : Option Value
  before : Machine
  value : Value
  after : Machine

namespace Binding

def name (g : Binding) : String := g.param.name.lexeme

/-- The variables that the fallback assigns if it is evaluated. -/
def targets (g : Binding) : List String :=
  match g.argument, g.param.fallback with
  | none, some e => e.targets
  | _, _ => []

/-- The value is the argument, or what the fallback evaluates to in the frame. -/
def Made (b : Below) (f : FrameId) (g : Binding) : Prop :=
  ∃ m : Machine, g.after = { m with store := m.store.define f g.name g.value } ∧
    match g.argument with
    | some v => g.value = v ∧ m = g.before
    | none => ∃ e, g.param.fallback = some e ∧ (inFrame f (b.evaluate e)).run g.before = .ok g.value m

/-- Each binding is made on the machine that the one before it left. -/
inductive Linked (b : Below) (f : FrameId) : Machine → List Binding → Machine → Prop
  | nil (m : Machine) : Linked b f m [] m
  | cons {g : Binding} {gs : List Binding} {m : Machine} : g.Made b f → Linked b f g.after gs m →
    Linked b f g.before (g :: gs) m

/-- The first parameters are bound, with the arguments in their order. -/
def Fit (ps : List Param) (vs : List Value) (gs : List Binding) : Prop :=
  ∀ (i : Nat) g, gs[i]? = some g → ps[i]? = some g.param ∧ g.argument = vs[i]?

/-- How it goes to bind parameters: all are bound, or the fallback of the next one fails. -/
inductive Goes (b : Below) (f : FrameId) (ps : List Param) (vs : List Value) (m : Machine) :
    EStateM.Result Stop Machine Unit → Prop
  | all {gs : List Binding} {m₁ : Machine} : Linked b f m gs m₁ → Fit ps vs gs →
    gs.length = ps.length → Goes b f ps vs m (.ok () m₁)
  | failed {gs : List Binding} {m₁ m₂ : Machine} {p : Param} {e : Expr} {stop : Stop} :
    Linked b f m gs m₁ → Fit ps vs gs → ps[gs.length]? = some p → vs.length ≤ gs.length →
    p.fallback = some e → (inFrame f (b.evaluate e)).run m₁ = .error stop m₂ →
    Goes b f ps vs m (.error stop m₂)

variable {b : Below} {f : FrameId} {p : Param} {ps : List Param} {vs : List Value} {g : Binding}
  {gs : List Binding} {m : Machine}

theorem Fit.nil (ps : List Param) (vs : List Value) : Fit ps vs [] := fun i g hg => by
  rw [List.getElem?_nil] at hg
  cases hg

theorem Fit.cons (h : Fit ps vs.tail gs) (hp : g.param = p) (hv : g.argument = vs.head?) :
    Fit (p :: ps) vs (g :: gs) := by
  intro i g' hg'
  cases i with
  | zero =>
    cases hg'
    exact ⟨congrArg some hp.symm, by rw [hv, List.head?_eq_getElem?]⟩
  | succ i =>
    obtain ⟨hparam, hargument⟩ := h i g' hg'
    exact ⟨hparam, by rw [hargument, List.getElem?_tail]⟩

/-- Parameters are bound in their order, so their names are the first of all. -/
theorem Fit.names_eq (h : Fit ps vs gs) :
    gs.map name = (ps.map fun p => p.name.lexeme).take gs.length := by
  refine List.ext_getElem? fun i => ?_
  rw [List.getElem?_map, List.getElem?_take, List.getElem?_map]
  cases hg : gs[i]? with
  | none => rw [if_neg (by simpa using hg)]; rfl
  | some g =>
    obtain ⟨hlt, -⟩ := List.getElem?_eq_some_iff.1 hg
    rw [if_pos hlt, (h i g hg).1]
    rfl

theorem Fit.nodup (h : Fit ps vs gs) (hnames : (ps.map fun p => p.name.lexeme).Nodup) :
    (gs.map name).Nodup := by
  rw [h.names_eq]
  exact (List.take_sublist _ _).nodup hnames

/-- One more binding in front of those that are made. -/
theorem Goes.cons {res : EStateM.Result Stop Machine Unit} (h : Goes b f ps vs.tail g.after res)
    (hg : g.Made b f) (hp : g.param = p) (hv : g.argument = vs.head?) :
    Goes b f (p :: ps) vs g.before res := by
  cases h with
  | all hlinked hfit hlength =>
    exact .all (.cons hg hlinked) (hfit.cons hp hv) (congrArg Nat.succ hlength)
  | failed hlinked hfit hnext hgiven hfallback hrun =>
    rw [List.length_tail] at hgiven
    have hgiven' : vs.length ≤ (g :: _).length := Nat.sub_le_iff_le_add.1 hgiven
    exact .failed (.cons hg hlinked) (hfit.cons hp hv) hnext hgiven' hfallback hrun

/-- With enough arguments no parameter is left without a value. -/
theorem goes_bindParams (b : Below) (f : FrameId) (paren : Token) {ps : List Param}
    {vs : List Value} (hleast : Param.least ps ≤ vs.length) (hmost : vs.length ≤ ps.length)
    (m : Machine) : Goes b f ps vs m ((b.bindParams f paren ps vs).run m) := by
  induction ps generalizing vs m with
  | nil => exact .all (.nil m) (.nil _ _) rfl
  | cons p ps ih =>
    cases vs with
    | cons v vs =>
      let g : Binding := ⟨p, some v, m, v, { m with store := m.store.define f p.name.lexeme v }⟩
      have hg : g.Made b f := ⟨m, rfl, rfl, rfl⟩
      have hrest := ih (Param.least_of_cons hleast) (Nat.le_of_succ_le_succ hmost) g.after
      exact hrest.cons hg rfl rfl
    | nil =>
      obtain ⟨hsome, hleast'⟩ := Param.fallback_of_least hleast
      obtain ⟨e, he⟩ := Option.isSome_iff_exists.1 hsome
      have hzero : Param.least ps ≤ ([] : List Value).length := hleast'
      have hstep : b.bindParams f paren (p :: ps) [] = inFrame f (b.evaluate e) >>= fun v =>
          define f p.name.lexeme v >>= fun _ => b.bindParams f paren ps [] := by
        rw [Below.bindParams, he]
      rw [hstep]
      cases hr : (inFrame f (b.evaluate e)).run m with
      | ok v m₁ =>
        let g : Binding :=
          ⟨p, none, m, v, { m₁ with store := m₁.store.define f p.name.lexeme v }⟩
        have hg : g.Made b f := ⟨m₁, rfl, e, he, hr⟩
        rw [Eval.run_bind_ok hr]
        have hrest := ih hzero (Nat.zero_le _) g.after
        exact hrest.cons hg rfl rfl
      | error stop m₁ =>
        rw [Eval.run_bind_error hr]
        exact .failed (.nil m) (.nil _ _) rfl (Nat.le_refl _) he hr

end Binding

namespace Store

structure Apart (s : Store) (f : FrameId) : Prop where
  outer : f ≠ .globals
  size : f < s.frames.size
  parent : ∀ g p, s.parent? g = some p → p ≠ f
  scope : ∀ (id : ClosureId) (c : Closure), s.closures[id]? = some c → c.scope ≠ f

/-- The variables of the frame are the parameters that were bound. Each has the value it was given if
no later fallback assigns it. -/
structure Bound (s : Store) (f p : FrameId) (gs : List Binding) : Prop where
  parent : s.parent? f = some p
  names : s.names f = gs.map Binding.name
  values : ∀ earlier g later, gs = earlier ++ g :: later → (∀ h ∈ later, g.name ∉ h.targets) →
    s.local? f g.name = some g.value

variable {s : Store} {f p : FrameId} {g : Binding} {gs : List Binding} {name : String} {v : Value}

theorem Apart.define (h : s.Apart f) (name : String) (v : Value) : (s.define f name v).Apart f where
  outer := h.outer
  size := by simpa using h.size
  parent g p hp := h.parent g p (by simpa using hp)
  scope := h.scope

/-- A new variable comes after all the others. -/
theorem names_define (hf : f < s.frames.size) (hnew : name ∉ s.names f) (v : Value) :
    (s.define f name v).names f = s.names f ++ [name] := by
  have hframe : (s.define f name v).frames[f]? =
      some { s.frames[f] with bindings := s.frames[f].bindings.put name v } := by
    rw [Store.define, Array.getElem?_modify, if_pos rfl, Array.getElem?_eq_getElem hf]
    rfl
  simp only [names, Array.getElem?_eq_getElem hf] at hnew
  simp only [names, hframe, Array.getElem?_eq_getElem hf, Table.names_put_of_notMem hnew]

/-- After evaluation that writes certain variables only, one more parameter is bound. -/
theorem Bound.define {s' : Store} (h : s.Bound f p gs) (hf : f < s'.frames.size)
    (hparent : s'.parent? f = s.parent? f) (hnames : s'.names f = s.names f)
    (hkept : ∀ name, name ∉ g.targets → s'.local? f name = s.local? f name)
    (hnew : g.name ∉ gs.map Binding.name) :
    (s'.define f g.name g.value).Bound f p (gs ++ [g]) where
  parent := by
    rw [parent?_define, hparent]
    exact h.parent
  names := by
    rw [names_define hf (by rwa [hnames, h.names]), hnames, h.names, List.map_append]
    rfl
  values earlier g' later heq hlater := by
    rw [local?_define _ _ _ _ _ _ hf]
    rcases List.eq_nil_or_concat later with rfl | ⟨rest, last, rfl⟩
    · obtain ⟨-, hlast⟩ := List.append_inj' heq rfl
      cases hlast
      rw [if_pos ⟨rfl, rfl⟩]
    · have hsplit : gs = earlier ++ g' :: rest ∧ [g] = [last] :=
        List.append_inj' (by simpa using heq) rfl
      obtain ⟨hgs, hlast⟩ := hsplit
      cases hlast
      have hne : g.name ≠ g'.name := fun hsame => hnew <| by
        rw [hgs, hsame]
        simp
      rw [if_neg fun hand => hne hand.2, hkept _ (hlater g (by simp))]
      exact h.values earlier g' rest hgs fun h' hh' => hlater h' (by simp [hh'])

end Store

/-- All frames but one, in which only certain variables are assigned. -/
def Realm.beside (f : FrameId) (names : List String) (keeps : Frame → Prop)
    (put : ∀ x name v, name ∈ names → x.bindings.has name → keeps x →
      keeps { x with bindings := x.bindings.put name v }) : Realm where
  frame g := g ≠ f
  inner _ := True
  writes g name := g ≠ f ∨ name ∈ names
  keeps g x := g = f → keeps x
  decl _ := True
  inner_of_frame _ _ := trivial
  writes_of_frame _ _ h := .inl h
  decls _ _ _ _ := trivial
  put _ x name v hw hhas hx hg := put x name v (hw.resolve_left (absurd hg)) hhas (hx hg)

section Beside

variable {f : FrameId} {names : List String} {keeps : Frame → Prop}
  {put : ∀ x name v, name ∈ names → x.bindings.has name → keeps x →
    keeps { x with bindings := x.bindings.put name v }} {s : Store}

theorem Realm.admits_beside : (Realm.beside f names keeps put).Admits s ↔
    s.Apart f ∧ ∀ x : Frame, s.frames[f]? = some x → keeps x := by
  constructor
  · intro h
    refine ⟨⟨Ne.symm h.globals, ?_, fun g p hp => h.parent g p trivial hp, h.scope⟩,
      fun x hx => h.keeps f x hx (fun hf => hf rfl) rfl⟩
    exact Nat.lt_of_not_le fun hle => h.fresh f hle rfl
  · rintro ⟨h, hkeeps⟩
    refine ⟨Ne.symm h.outer, ?_, fun g p _ hp => h.parent g p hp, h.scope, fun _ _ _ => trivial, ?_⟩
    · rintro _ hg rfl
      exact absurd h.size (Nat.not_lt.2 hg)
    · rintro g x hx - rfl
      exact hkeeps x hx

end Beside

/-- What a fallback does to the frame of the call: it keeps its variables, and the values of those that
the fallback does not assign. -/
theorem Store.Apart.evaluate {m m₁ : Machine} {f : FrameId} (h : m.store.Apart f) {depth : Nat}
    {e : Expr} {v : Value} (hrun : (inFrame f ((Below.upTo depth).evaluate e)).run m = .ok v m₁) :
    m₁.store.Apart f ∧ m₁.store.parent? f = m.store.parent? f ∧
      m₁.store.names f = m.store.names f ∧
      ∀ name, name ∉ e.targets → m₁.store.local? f name = m.store.local? f name := by
  obtain ⟨x, hx⟩ : ∃ x, m.store.frames[f]? = some x := ⟨_, Array.getElem?_eq_getElem h.size⟩
  let keeps : Frame → Prop := fun y => y.parent = x.parent ∧ y.bindings.names = x.bindings.names ∧
    ∀ name, name ∉ e.targets → y.bindings.get? name = x.bindings.get? name
  have hput : ∀ y name v, name ∈ e.targets → y.bindings.has name → keeps y →
      keeps { y with bindings := y.bindings.put name v } := by
    rintro y name v hname hhas ⟨hparent, hnames, hvalues⟩
    refine ⟨hparent, ?_, fun key hkey => ?_⟩
    · exact (Table.names_put_of_mem (Table.has_iff.1 hhas) v).trans hnames
    · have hne : name ≠ key := by
        rintro rfl
        exact hkey hname
      rw [Table.get?_put, if_neg hne]
      exact hvalues key hkey
  have hadmits : (Realm.beside f e.targets keeps hput).Admits m.store := by
    refine Realm.admits_beside.2 ⟨h, fun y hy => ?_⟩
    cases hx.symm.trans hy
    exact ⟨rfl, rfl, fun _ _ => rfl⟩
  have hevaluate : (Realm.beside f e.targets keeps hput).Keeps f
      ((Below.upTo depth).evaluate e) fun _ => True :=
    (Realm.governs_upTo _ depth).evaluate ⟨trivial, fun _ hname => .inr hname⟩
  have hends := (hevaluate.inFrame (g := m.current)) m rfl hadmits
  rw [hrun] at hends
  obtain ⟨hapart, hkeeps⟩ := Realm.admits_beside.1 hends.2.1
  obtain ⟨y, hy⟩ : ∃ y, m₁.store.frames[f]? = some y := ⟨_, Array.getElem?_eq_getElem hapart.size⟩
  obtain ⟨hparent, hnames, hvalues⟩ := hkeeps y hy
  refine ⟨hapart, ?_, ?_, fun name hname => ?_⟩
  · rw [Store.parent?, Store.parent?, hx, hy]
    exact hparent
  · simp only [Store.names, hx, hy]
    exact hnames
  · rw [Store.local?, Store.local?, hx, hy]
    exact hvalues name hname

/-- A binding adds its parameter to the frame of the call, and leaves the frame apart. -/
theorem Binding.Made.bound {g : Binding} {gs : List Binding} {f p : FrameId} {depth : Nat}
    (hg : g.Made (.upTo depth) f) (h : g.before.store.Apart f) (hb : g.before.store.Bound f p gs)
    (hnew : g.name ∉ gs.map Binding.name) :
    g.after.store.Apart f ∧ g.after.store.Bound f p (gs ++ [g]) := by
  obtain ⟨m, hafter, hvalue⟩ := hg
  rw [hafter]
  cases harg : g.argument with
  | some v =>
    rw [harg] at hvalue
    obtain ⟨-, rfl⟩ := hvalue
    exact ⟨h.define _ _, hb.define h.size rfl rfl (fun _ _ => rfl) hnew⟩
  | none =>
    rw [harg] at hvalue
    obtain ⟨e, he, hrun⟩ := hvalue
    have htargets : g.targets = e.targets := by rw [Binding.targets, harg, he]
    obtain ⟨hapart, hparent, hnames, hkept⟩ := h.evaluate hrun
    exact ⟨hapart.define _ _, hb.define hapart.size hparent hnames (htargets ▸ hkept) hnew⟩

/-- Before every binding the frame has exactly the parameters before, and so it goes on to the end. -/
theorem Binding.Linked.bound {f p : FrameId} {depth : Nat} {m m₁ : Machine} {gs done : List Binding}
    (h : Linked (.upTo depth) f m gs m₁) (ha : m.store.Apart f) (hb : m.store.Bound f p done)
    (hnames : ((done ++ gs).map Binding.name).Nodup) :
    m₁.store.Apart f ∧ m₁.store.Bound f p (done ++ gs) ∧
      ∀ earlier g later, gs = earlier ++ g :: later →
        g.before.store.Bound f p (done ++ earlier) := by
  induction h generalizing done with
  | nil m => exact ⟨ha, by simpa using hb, by simp⟩
  | @cons g gs m₁ hg _ ih =>
    have hnew : g.name ∉ done.map Binding.name := by
      rw [List.map_append, List.map_cons, List.nodup_append] at hnames
      exact fun hmem => hnames.2.2 _ hmem _ List.mem_cons_self rfl
    obtain ⟨ha₁, hb₁⟩ := hg.bound ha hb hnew
    have hassoc : done ++ [g] ++ gs = done ++ g :: gs := by simp
    obtain ⟨ha₂, hb₂, hrest⟩ := ih ha₁ hb₁ (hassoc ▸ hnames)
    refine ⟨ha₂, hassoc ▸ hb₂, fun earlier g' later heq => ?_⟩
    cases earlier with
    | nil =>
      cases heq
      rw [List.append_nil]
      exact hb
    | cons g'' earlier =>
      cases heq
      have hbefore := hrest earlier g' later rfl
      rwa [List.append_assoc, List.singleton_append] at hbefore

def Machine.opened (m : Machine) (c : Closure) : Machine :=
  { m with store := (m.store.openFrame (some c.scope) []).2 }

/-- A call up to where control leaves the body: the parameters are bound in a new frame, and the body
is run there; or the fallback of a parameter fails, and so does the call. -/
inductive Below.Enters (b : Below) (c : Closure) (arguments : List Value) (m : Machine) :
    EStateM.Result Stop Machine Flow → Prop
  | body {gs : List Binding} {m₁ : Machine} :
    Binding.Linked b m.store.frames.size (m.opened c) gs m₁ →
    Binding.Fit c.decl.params arguments gs → gs.length = c.decl.params.length →
    (∀ earlier g later, gs = earlier ++ g :: later →
      g.before.store.Bound m.store.frames.size c.scope earlier) →
    m₁.store.Bound m.store.frames.size c.scope gs →
    Enters b c arguments m ((inFrame m.store.frames.size (b.executeAll c.decl.body)).run m₁)
  | failed {gs : List Binding} {m₁ m₂ : Machine} {p : Param} {e : Expr} {stop : Stop} :
    Binding.Linked b m.store.frames.size (m.opened c) gs m₁ →
    Binding.Fit c.decl.params arguments gs → c.decl.params[gs.length]? = some p →
    arguments.length ≤ gs.length →
    (∀ earlier g later, gs = earlier ++ g :: later →
      g.before.store.Bound m.store.frames.size c.scope earlier) →
    m₁.store.Bound m.store.frames.size c.scope gs →
    p.fallback = some e → (inFrame m.store.frames.size (b.evaluate e)).run m₁ = .error stop m₂ →
    Enters b c arguments m (.error stop m₂)

/-- Links lead to what is older. -/
structure Store.Nested (s : Store) : Prop where
  globals : 0 < s.frames.size
  parent : ∀ g p, s.parent? g = some p → p < g
  scope : ∀ (id : ClosureId) (c : Closure), s.closures[id]? = some c → c.scope < s.frames.size

namespace Store

variable {s : Store} {p : FrameId}

theorem Formed.nested (h : s.Formed) : s.Nested where
  globals := by
    obtain ⟨frame, hframe, -⟩ := h.globals
    exact (Array.getElem?_eq_some_iff.1 hframe).1
  parent g p hp := h.parent?_lt hp
  scope := h.scopes

/-- A frame that is opened in an older one keeps links nested. -/
theorem Nested.openFrame (h : s.Nested) (hp : p < s.frames.size) (bindings : Table Value) :
    (s.openFrame (some p) bindings).2.Nested where
  globals := by simp [Store.openFrame]
  parent g q hq := by
    rw [parent?_openFrame] at hq
    split at hq
    · rename_i hg
      cases hq
      exact hg ▸ hp
    · exact h.parent g q hq
  scope id c hc := by
    have hlt := h.scope id c hc
    simp only [Store.openFrame, Array.size_push]
    exact Nat.lt_succ_of_lt hlt

theorem Nested.newClosure (h : s.Nested) {c : Closure} (hc : c.scope < s.frames.size) :
    (s.newClosure c).2.Nested where
  globals := h.globals
  parent := h.parent
  scope := forall_push h.scope hc

/-- To the frame of a call nothing refers yet. -/
theorem Nested.apart (h : s.Nested) (hp : p < s.frames.size) :
    (s.openFrame (some p) []).2.Apart s.frames.size where
  outer := Nat.ne_of_gt h.globals
  size := by simp [Store.openFrame]
  parent g q hq := by
    have hlt := (h.openFrame hp []).parent g q hq
    have hg := lt_of_parent? hq
    simp only [Store.openFrame, Array.size_push] at hg
    exact Nat.ne_of_lt (Nat.lt_of_lt_of_le hlt (Nat.le_of_lt_succ hg))
  scope id c hc := Nat.ne_of_lt (h.scope id c hc)

/-- At first the frame of a call has no variables. -/
theorem bound_openFrame (s : Store) (p : FrameId) :
    (s.openFrame (some p) []).2.Bound s.frames.size p [] where
  parent := (parent?_openFrame _ _ _ _).trans (if_pos rfl)
  names := by simp [names, Store.openFrame, Table.names]
  values earlier g later heq := by simp at heq

end Store

/-- An instance and the copy of its initializer keep links nested. -/
theorem Store.Nested.instantiated {m : Machine} (h : m.store.Nested) (id : ClassId)
    {init : Closure} (hinit : init.scope < m.store.frames.size) :
    (m.instantiated id init).store.Nested := by
  have hnew : (m.store.newObject id).2.Nested := ⟨h.globals, h.parent, h.scope⟩
  refine (hnew.openFrame hinit _).newClosure ?_
  simp [Store.openFrame, Store.newObject]

/-- With enough arguments, and not too many, the body is run or a fallback fails. -/
theorem Below.enters_runBody {depth : Nat} {m : Machine} {c : Closure} (h : m.store.Nested)
    (hc : c.scope < m.store.frames.size)
    (hnames : (c.decl.params.map fun p => p.name.lexeme).Nodup) {arguments : List Value}
    (hleast : c.decl.arity.least ≤ arguments.length)
    (hmost : arguments.length ≤ c.decl.arity.most) (paren : Token) :
    (Below.upTo depth).Enters c arguments m
      (((Below.upTo depth).runBody c arguments paren).run m) := by
  have hopen : ((Below.upTo depth).runBody c arguments paren).run m =
      ((Below.upTo depth).bindParams m.store.frames.size paren c.decl.params arguments >>= fun _ =>
        inFrame m.store.frames.size ((Below.upTo depth).executeAll c.decl.body)).run
          (m.opened c) := rfl
  have hgoes := Binding.goes_bindParams (Below.upTo depth) m.store.frames.size paren hleast hmost
    (m.opened c)
  have hbound : ∀ {gs : List Binding} {m₁ : Machine},
      Binding.Linked (.upTo depth) m.store.frames.size (m.opened c) gs m₁ →
      Binding.Fit c.decl.params arguments gs → _ := fun hlinked hfit =>
    (hlinked.bound (h.apart hc) (m.store.bound_openFrame c.scope) (hfit.nodup hnames)).2
  rw [hopen]
  generalize hres : ((Below.upTo depth).bindParams m.store.frames.size paren c.decl.params
    arguments).run (m.opened c) = res at hgoes
  cases hgoes with
  | all hlinked hfit hlength =>
    obtain ⟨hlast, hplaced⟩ := hbound hlinked hfit
    rw [Eval.run_bind_ok hres]
    exact .body hlinked hfit hlength hplaced hlast
  | failed hlinked hfit hnext hgiven hfallback hrun =>
    obtain ⟨hlast, hplaced⟩ := hbound hlinked hfit
    rw [Eval.run_bind_error hres]
    exact .failed hlinked hfit hnext hgiven hplaced hlast hfallback hrun

/-- What a built-in function does with the arguments that it needs, and one more if there is one. It
reads no others. -/
def Builtin.serve (f : Builtin) (site : Token) :
    (Fin f.arity.least → Value) → Option Value → Eval Value :=
  match f with
  | .clock => fun _ _ => readSeconds
  | .print => fun (given : Fin 1 → Value) ending => printValue site (given 0) ending
  | .toString => fun (given : Fin 1 → Value) _ => numberText site (given 0)
  | .input => fun _ prompt => readInput site prompt
  | .toNumber => fun (given : Fin 1 → Value) _ => parseNumber site (given 0)
  | .isNumber => fun (given : Fin 1 → Value) _ => pure (.bool (readsAsNumber (given 0)))
  | .sqrt => fun (given : Fin 1 → Value) _ => squareRoot site (given 0)
  | .randomInt => fun (given : Fin 2 → Value) _ => randomWhole site (given 0) (given 1)
  | .typeof => fun (given : Fin 1 → Value) _ => return .string ((← get).store.typeName (given 0))
  | .len => fun (given : Fin 1 → Value) _ => pure (ofBits (Number.ofInt (lengthOf (given 0))))

/-- A built-in function does what it does with the arguments that it needs; others are not looked
at. -/
theorem Builtin.run_eq_serve (f : Builtin) (site : Token) {arguments : List Value}
    (hleast : f.arity.least ≤ arguments.length) :
    f.run site arguments = f.serve site
      (fun i => arguments.get ⟨i, Nat.lt_of_lt_of_le i.isLt hleast⟩) arguments[f.arity.least]? := by
  cases f with
  | clock => rfl
  | input => cases arguments <;> rfl
  | randomInt =>
    match arguments, hleast with
    | _ :: _ :: _, _ => rfl
  | print =>
    match arguments, hleast with
    | _ :: rest, _ => cases rest <;> rfl
  | _ =>
    match arguments, hleast with
    | _ :: _, _ => rfl

/-- No realm allows that a parameter is left without a value. -/
theorem Realm.Stops.not_missing {R : Realm} {failure : Failure} (h : R.Stops (.failed failure))
    (name : String) (place : Place) : failure ≠ .runtime ⟨.missingArgument name, place⟩ := by
  rintro rfl
  generalize hstop : Stop.failed (.runtime ⟨.missingArgument name, place⟩) = stop at h
  cases h with
  | exhausted => cases hstop
  | stream fault => cases hstop
  | ordinary _ hordinary =>
    cases hstop
    exact hordinary
  | @stray x _ => cases x <;> cases hstop

/-- No call ends with a parameter that has neither an argument nor a fallback: the count has been
refused before. -/
theorem Below.run_call_not_missing (depth : Nat) (callee : Value) (arguments : List Value)
    (paren : Token) (m m₁ : Machine) (name : String) (place : Place) :
    ((Below.upTo depth).call callee arguments paren).run m ≠
      .error (.failed (.runtime ⟨.missingArgument name, place⟩)) m₁ := by
  intro h
  have hends := (Realm.any.governs_upTo depth).composed
    (Below.composed_call (g := m.current) callee arguments paren) m rfl (Realm.admits_any _)
  rw [h] at hends
  exact hends.2.2.not_missing name place rfl

/-- What is known of calls on a machine. Arguments are counted before anything else is done, those of
a class as those of its nearest initializer. If their number is right the parameters are bound and
the body is run, of the function itself or of the copy of the initializer for the new instance. A
built-in function reads no arguments but those it is given. -/
structure Machine.Calls (m : Machine) : Prop where
  miscounted : ∀ (b : Below) callee arguments paren arity, m.store.arity? callee = some arity →
    arguments.length < arity.least ∨ arity.most < arguments.length →
    (b.call callee arguments paren).run m = .error (.failed (.runtime
      ⟨.argumentCount arity.least arity.most arguments.length, paren.place⟩)) m
  nearest : m.store.SearchesUp ClassRecord.methods m.store.findMethod?
  classes : ∀ id, m.store.arity? (.classRef id) = some (match m.store.init? id with
    | some init => init.decl.arity
    | none => ⟨0, 0⟩)
  functions : ∀ (id : ClosureId) (c : Closure), m.store.closures[id]? = some c →
    m.store.arity? (.closure id) = some c.decl.arity
  entered : ∀ depth (id : ClosureId) (c : Closure) arguments paren, m.store.closures[id]? = some c →
    (c.decl.params.map fun p => p.name.lexeme).Nodup →
    c.decl.arity.least ≤ arguments.length → arguments.length ≤ c.decl.arity.most →
    ((Below.upTo depth).call (.closure id) arguments paren).run m =
        ((Below.upTo depth).runBody c arguments paren >>= c.leave).run m ∧
      (Below.upTo depth).Enters c arguments m
        (((Below.upTo depth).runBody c arguments paren).run m)
  constructed : ∀ depth id init arguments paren, m.store.init? id = some init →
    (init.decl.params.map fun p => p.name.lexeme).Nodup →
    init.decl.arity.least ≤ arguments.length → arguments.length ≤ init.decl.arity.most →
    let copy : Closure := { init with scope := m.store.frames.size }
    ((Below.upTo depth).call (.classRef id) arguments paren).run m =
        ((Below.upTo depth).runBody copy arguments paren >>= copy.leave >>=
          fun _ => pure (.object m.store.objects.size)).run (m.instantiated id init) ∧
      (Below.upTo depth).Enters copy arguments (m.instantiated id init)
        (((Below.upTo depth).runBody copy arguments paren).run (m.instantiated id init))
  builtins : ∀ (b : Below) (f : Builtin) arguments paren (hleast : f.arity.least ≤ arguments.length),
    arguments.length ≤ f.arity.most →
    (b.call (.builtin f) arguments paren).run m =
      (f.serve paren (fun i => arguments.get ⟨i, Nat.lt_of_lt_of_le i.isLt hleast⟩)
        arguments[f.arity.least]?).run m
  complete : ∀ depth callee arguments paren m₁ name place,
    ((Below.upTo depth).call callee arguments paren).run m ≠
      .error (.failed (.runtime ⟨.missingArgument name, place⟩)) m₁

theorem Machine.Formed.calls {m : Machine} (h : m.Formed) : m.Calls := by
  have hnested := h.store.nested
  constructor
  case miscounted =>
    exact fun b callee arguments paren arity harity => Below.run_call_miscounted harity
  case nearest => exact h.walkable.methods
  case classes => exact fun id => congrArg some (m.store.classArity_eq id)
  case functions =>
    intro id c hc
    rw [Store.arity?, hc, Option.map_some]
  case entered =>
    intro depth id c arguments paren hc hnames hleast hmost
    refine ⟨?_, Below.enters_runBody hnested (hnested.scope id c hc) hnames hleast hmost paren⟩
    rw [Below.run_call_closure hc hleast hmost, Below.callClosure_eq_runBody]
  case constructed =>
    intro depth id init arguments paren hinit hnames hleast hmost copy
    obtain ⟨method, -, hmethod⟩ := Option.bind_eq_some_iff.1 hinit
    have hscope := hnested.scope method init hmethod
    have hcopy : copy.scope < (m.instantiated id init).store.frames.size := by
      simp [copy, Machine.instantiated, Store.openFrame, Store.newObject, Store.newClosure]
    refine ⟨?_, Below.enters_runBody (c := copy) (hnested.instantiated id hscope) hcopy hnames hleast
      hmost paren⟩
    rw [Below.run_call_class hinit hleast hmost, Below.callClosure_eq_runBody]
  case builtins =>
    intro b f arguments paren hleast hmost
    have hcount : ¬ (arguments.length < f.arity.least ∨ f.arity.most < arguments.length) := by omega
    rw [Below.run_call]
    refine (if_neg hcount).trans ?_
    rw [← f.run_eq_serve paren hleast]
    rfl
  case complete =>
    exact fun depth callee arguments paren m₁ name place =>
      Below.run_call_not_missing depth callee arguments paren m m₁ name place

def Watch.calls : Watch where
  expr below e m := m.Calls ∧ (Machine.after (below.evaluateStep e) m).Calls
  stmt below s m := m.Calls ∧ (Machine.after (below.executeStep s) m).Calls

theorem Watch.calls_answers : Inquiry.Answers .any Watch.idle fun _ => Watch.calls := by
  constructor
  case ties => exact fun _ => Expr.ties_any _ _ _
  case expr =>
    intro depth e m r r₁ L f hm hr hends hL _ hmakes
    exact ⟨hm.formed.calls, hends.after.formed.calls⟩
  case stmt =>
    intro depth s m r r₁ L f hm hr hends hL _ hmakes _
    exact ⟨hm.formed.calls, hends.after.formed.calls⟩

theorem Realm.hears_any (ss : List Stmt) : Realm.any.Hears ss :=
  ⟨fun _ _ => trivial, fun x hx => ⟨⟨x.keyword, [], ss⟩, trivial, hx⟩⟩

/-- How arguments are bound, throughout every session. A number of arguments that is below the least,
up to the last parameter without a fallback, or above that of the parameters fails at once. With
any other number each parameter is bound in its turn, in a frame that has the parameters before it
and nothing else, and none is ever missing; when the body begins, or a fallback fails, each still has
the value it was bound to, but for those that a fallback after it assigns. -/
theorem arguments_bound (interactive : Bool) (input : List UInt8) (output : Output)
    (clock : Supply Int) (chances : Supply Nat) (depth : Nat) (turns : List Turn) :
    let s := Session.start interactive (.start input output clock chances)
    (∀ d : FunctionDecl, d.arity = ⟨Param.least d.params, d.params.length⟩ ∧
      (∀ i p, d.params[i]? = some p → p.fallback = none → i < Param.least d.params) ∧
      ∀ n, Param.least d.params = n + 1 → ∃ p, d.params[n]? = some p ∧ p.fallback = none) ∧
    Watch.calls.Holds depth s turns ∧ s.machine.Calls ∧
      ∀ o ∈ s.play (.upTo depth) turns, o.session.machine.Calls ∧
        ∀ name place, .failure (.runtime ⟨.missingArgument name, place⟩) ∉ o.reports := by
  intro s
  refine ⟨fun d => ⟨rfl, Param.least_spec d.params⟩, ?_⟩
  obtain ⟨L, -, hholds, hout⟩ := Watch.calls_answers.exists_holds (s := s) rfl
    (fun turn _ => Terms.any_covers turn.source) (Watch.idle_holds depth s turns)
  have hstart : Realm.any.Admits s.machine.store := Realm.admits_any _
  have hstops : ∀ o ∈ s.play (.upTo depth) turns, ∀ failure, .failure failure ∈ o.reports →
      Realm.any.Stops (.failed failure) := hstart.play depth rfl fun ss _ => Realm.hears_any ss
  refine ⟨hholds, (Register.at_blank .any input output clock chances).formed.calls, fun o ho => ?_⟩
  obtain ⟨-, r, -, hm⟩ := hout o ho
  exact ⟨hm.formed.calls, fun name place h => (hstops o ho _ h).not_missing name place rfl⟩

/-- A function with a fallback that assigns the parameter before it. -/
def overwriting : String := "func f(a, b = a = false) \x7b print(a); \x7d"

/-- The machine on which the body of a function begins. -/
def Machine.bodyStart? (m : Machine) (depth : Nat) (c : Closure) (arguments : List Value) :
    Option Machine :=
  match ((Below.upTo depth).bindParams m.store.frames.size default c.decl.params arguments).run
    (m.opened c) with
  | .ok _ m₁ => some m₁
  | .error _ _ => none

/-- The argument is true, but when the body begins the parameter is false, and so it is written. -/
theorem argument_overwritten :
    let s := Session.start false (.start [] .unlimited 0 0)
    let m := (s.run 9 overwriting).session.machine
    (∃ c m₁, m.store.closures[0]? = some c ∧
      c.decl.params.map (fun p => p.name.lexeme) = ["a", "b"] ∧ c.decl.arity = ⟨1, 2⟩ ∧
      m.bodyStart? 9 c [.bool true] = some m₁ ∧
      m₁.store.local? m.store.frames.size "a" = some (.bool false)) ∧
    (s.run 9 (overwriting ++ " f(true);")).session.machine.output.written =
      "false\n".toByteArray := by
  intro s m
  have hstart : (m.store.closures[0]?.map fun c =>
      (c.decl.params.map fun p => p.name.lexeme, c.decl.arity,
        (m.bodyStart? 9 c [.bool true]).map fun m₁ =>
          (m₁.store.local? m.store.frames.size "a").map fun v => (v.truthy, v.isNil))) =
        some (["a", "b"], ⟨1, 2⟩, some (some (false, false))) := by decide +kernel
  obtain ⟨c, hc, hfacts⟩ := Option.map_eq_some_iff.1 hstart
  obtain ⟨hnames, hfacts⟩ := Prod.mk.inj hfacts
  obtain ⟨harity, hbody⟩ := Prod.mk.inj hfacts
  obtain ⟨m₁, hm₁, hlocal⟩ := Option.map_eq_some_iff.1 hbody
  obtain ⟨v, hv, hfalse⟩ := Option.map_eq_some_iff.1 hlocal
  refine ⟨⟨c, m₁, hc, hnames, harity, hm₁, ?_⟩, by decide +kernel⟩
  rw [hv]
  cases v with
  | bool b => cases b <;> simp_all [Value.truthy]
  | _ => simp [Value.truthy, Value.isNil] at hfalse

end Scriptling
