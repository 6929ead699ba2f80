import Scriptling.Builtin
import Scriptling.Operator
import Scriptling.Proofs.Answers
import Scriptling.Proofs.Lockstep
import Scriptling.Proofs.Watch

namespace Scriptling

open Machine

variable {S : Setting} {w : World} {f g : FrameId} {Γ : Context} {marks : List Bool}
  {s s' : Store} {m : Machine}

/-- Fallbacks are renamed, but none is lost. -/
@[simp] theorem FunctionDecl.arity_rename (ρ : Renaming) (pick : Opener → Bool)
    (d : FunctionDecl) : (d.rename ρ pick marks).arity = d.arity := by
  obtain ⟨name, params, body⟩ := d
  have hsome : ((fun p : Param => p.fallback.isSome) ∘
      ρ.param (pick (.function ⟨name, params, body⟩) :: marks)) = fun p => p.fallback.isSome := by
    funext p
    simp [Renaming.param]
  simp only [FunctionDecl.rename, FunctionDecl.arity, ← List.map_reverse, List.dropWhile_map,
    hsome, List.length_map]

namespace Setting.Twins

variable (h : S.Twins w s s')
include h

theorem findMethod?_eq (c : ClassId) (name : String) : s'.findMethod? c name = s.findMethod? c name :=
  Store.findMethod?_congr h.classes.classes c name

theorem findStatic?_eq (c : ClassId) (name : String) : s'.findStatic? c name = s.findStatic? c name :=
  Store.findStatic?_congr h.classes.classes c name

theorem property_eq (v : Value) (name : String) : s'.property v name = s.property v name :=
  Store.property_congr h.classes.classes h.classes.objects v name

/-- What names do not matter to is the same of a function and its twin. -/
theorem closure?_map {β : Type} (k : FunctionDecl → β)
    (hk : ∀ pick marks d, k (d.rename S.toRenaming pick marks) = k d) (id : ClosureId) :
    s'.closures[id]?.map (fun c => k c.decl) = s.closures[id]?.map fun c => k c.decl := by
  cases hc : s.closures[id]? with
  | none =>
    rw [Array.getElem?_eq_none_iff, ← h.closures.size, ← Array.getElem?_eq_none_iff] at hc
    rw [hc]
  | some c =>
    obtain ⟨t, -, -, hc'⟩ := h.closures.paired id c hc
    simp [hc', hk]

theorem arity?_eq (v : Value) : s'.arity? v = s.arity? v :=
  Store.arity?_congr h.classes.classes (h.closure?_map FunctionDecl.arity fun _ _ _ => by simp) v

theorem text_eq (v : Value) : s'.text v = s.text v :=
  Store.text_congr h.classes.classes h.classes.objects
    (h.closure?_map FunctionDecl.name fun _ _ _ => by simp) v

theorem typeName_eq (v : Value) : s'.typeName v = s.typeName v :=
  Store.typeName_congr h.classes.classes h.classes.objects v

/-- Global names are never exchanged. -/
theorem exchanged_globals : w.exchanged .globals = false := by
  simp [World.exchanged, h.frames.globals]

theorem local?_globals (name : String) : s'.local? .globals name = s.local? .globals name := by
  have hl := h.frames.local?_eq .globals name
  rwa [h.exchanged_globals] at hl

theorem holder?_globals_eq (name : String) :
    s'.holder? .globals name = s.holder? .globals name := by
  rw [Store.holder?_globals, Store.holder?_globals, h.local?_globals]

theorem get?_globals_eq (name : String) : s'.get? .globals name = s.get? .globals name := by
  simp only [Store.get?, h.holder?_globals_eq, Store.holder?_globals]
  split <;> simp [h.local?_globals]

/-- The receiver and the superclass are in their frames under their own names. -/
theorem local?_keyword {name : String} (hn : ∀ mark, S.image mark name = name) (f : FrameId) :
    s'.local? f name = s.local? f name := by
  have hl := h.frames.local?_eq f name
  rwa [hn] at hl

theorem getAt?_keyword {name : String} (hn : ∀ mark, S.image mark name = name) (f : FrameId)
    (d : Nat) : s'.getAt? f d name = s.getAt? f d name := by
  simp only [Store.getAt?, h.frames.ancestor?_eq]
  cases s.ancestor? f d <;> simp [h.local?_keyword hn]

end Setting.Twins

/-- The mark of a reference is that of the scope at its noted distance. -/
theorem Renaming.marked_of_noted {ρ : Renaming} {id : ExprId} {d : Nat} {mark : Bool}
    (hd : ρ.notes id = some d) (hm : marks[d]? = some mark) : ρ.marked marks id = mark := by
  simp [Renaming.marked, hd, hm]

theorem Renaming.marked_of_global {ρ : Renaming} {id : ExprId} (hd : ρ.notes id = none) :
    ρ.marked marks id = false := by
  simp [Renaming.marked, hd]

/-- A reference with a noted distance finds its variable on both sides, in the frame of the same
scope. -/
theorem Setting.Twins.reference (h : S.Twins w s s') {u : Use} (hg : S.Good ⟨Γ, u⟩)
    (hc : w.Chain f Γ marks) {d : Nat} (hd : S.notes u.id = some d) :
    ∃ g, g < s.frames.size ∧ s.ancestor? f d = some g ∧
      w.exchanged g = S.marked marks u.id ∧ (s.local? g u.name.lexeme).isSome ∧
      s'.local? g (S.use marks u).name.lexeme = s.local? g u.name.lexeme := by
  obtain ⟨g, l, layer, -, hanc, hl, -, hm, hb⟩ :=
    h.frames.found (σ := ⟨Γ, u⟩) hc (hg.noted.symm.trans hd)
  have hx : w.exchanged g = S.marked marks u.id := by
    rw [Renaming.marked_of_noted hd hm, World.exchanged, hl]
    rfl
  refine ⟨g, h.frames.lt_size hl, hanc, hx, h.frames.bound g _ hb, ?_⟩
  rw [← h.frames.local?_eq g, hx]
  rfl

/-- A variable is read at its noted distance, and without one among the globals. -/
theorem Machine.run_lookUp (m : Machine) (id : ExprId) (name : Token) : (lookUp id name).run m =
    match (match m.distances[id]? with
      | some d => m.store.getAt? m.current d name.lexeme
      | none => m.store.get? .globals name.lexeme) with
    | some v => .ok v m
    | none => .error (.failed (.runtime ⟨.undefinedVariable name.lexeme, name.place⟩)) m := by
  change (EStateM.run (match (match m.distances[id]? with
      | some d => m.store.getAt? m.current d name.lexeme
      | none => m.store.get? .globals name.lexeme) with
    | some v => pure v
    | none => fail name (.undefinedVariable name.lexeme)) m) = _
  split <;> rfl

theorem sim_lookUp {u : Use} (hg : S.Good ⟨Γ, u⟩) (hc : w.Chain f Γ marks) :
    S.Sim w f (lookUp u.id u.name)
      (fun _ => lookUp (S.use marks u).id (S.use marks u).name) knownResult := by
  intro w₁ m s' hw hm
  rw [Machine.run_lookUp, hm.noted]
  cases hd : S.notes u.id with
  | none =>
    have hname : (S.use marks u).name = u.name := by
      simp [Renaming.use, Renaming.marked_of_global hd]
    refine Setting.SimAt.congr ?_ fun L _ => Machine.run_lookUp _ _ _
    dsimp only [Renaming.use]
    rw [hm.noted, hd]
    rw [Renaming.use] at hname
    dsimp only at hname ⊢
    rw [hname, hm.twins.get?_globals_eq]
    cases hv : m.store.get? .globals u.name.lexeme with
    | none => exact .error hm
    | some v =>
      refine .ok w₁.le_refl hm ?_
      rw [Store.get?, Option.bind_eq_some_iff] at hv
      obtain ⟨k, -, hv⟩ := hv
      exact hm.twins.frames.known _ _ _ hv
  | some d =>
    obtain ⟨g, -, hanc, -, hsome, heq⟩ := hm.twins.reference hg (hc.mono hw) hd
    obtain ⟨v, hv⟩ := Option.isSome_iff_exists.1 hsome
    have hleft : m.store.getAt? m.current d u.name.lexeme = some v := by
      rw [Store.getAt?, hm.current, hanc]
      exact hv
    have hright : s'.getAt? m.current d (S.use marks u).name.lexeme = some v := by
      rw [Store.getAt?, hm.current, hm.twins.frames.ancestor?_eq, hanc]
      exact heq.trans hv
    dsimp only
    rw [hleft]
    refine Setting.SimAt.congr (.ok w₁.le_refl hm (hm.twins.frames.known _ _ _ hv)) fun L _ => ?_
    rw [Machine.run_lookUp]
    have hd' : m.distances[(S.use marks u).id]? = some d := (hm.noted _).trans hd
    dsimp only
    rw [hd']
    dsimp only
    rw [hright]

theorem Setting.Good.plain {σ : Site} (h : S.Good σ) (hr : σ.use.role = .variable) :
    σ.use.name.Plain := by
  have hs := h.spelled
  rwa [Use.Spelled, hr] at hs

/-- Both sides write to the same frame. -/
theorem target?_eq (hm : S.Beside w f m s') {u : Use} (hg : S.Good ⟨Γ, u⟩)
    (hc : w.Chain f Γ marks) (create : Bool) :
    (target? { m with store := s' } u.id (S.use marks u).name.lexeme create =
      target? m u.id u.name.lexeme create) ∧
    ∀ g, target? m u.id u.name.lexeme create = some g →
      g < m.store.frames.size ∧ w.exchanged g = S.marked marks u.id := by
  unfold target?
  dsimp only
  rw [hm.noted]
  cases hd : S.notes u.id with
  | none =>
    have hmark : S.marked marks u.id = false := Renaming.marked_of_global hd
    have hname : (S.use marks u).name = u.name := by simp [Renaming.use, hmark]
    dsimp only
    rw [hname, hm.twins.holder?_globals_eq, Store.holder?_globals]
    refine ⟨rfl, fun g hg => ?_⟩
    have hglobals : g = .globals := by
      split at hg
      · exact (Option.some.inj hg).symm
      · split at hg
        · exact (Option.some.inj hg).symm
        · cases hg
    rw [hglobals, hmark]
    exact ⟨hm.twins.frames.size_pos, hm.twins.exchanged_globals⟩
  | some d =>
    obtain ⟨g, hlt, hanc, hx, hsome, heq⟩ := hm.twins.reference hg hc hd
    have hleft : m.store.holderAt? m.current d u.name.lexeme = some g := by
      rw [Store.holderAt?, hm.current, hanc, Option.filter_some, if_pos hsome]
    have hright : s'.holderAt? m.current d (S.use marks u).name.lexeme = some g := by
      rw [Store.holderAt?, hm.current, hm.twins.frames.ancestor?_eq, hanc, Option.filter_some,
        heq, if_pos hsome]
    dsimp only
    rw [hleft, hright]
    refine ⟨rfl, fun k hk => ?_⟩
    cases hk
    exact ⟨hlt, hx⟩

theorem sim_assign {u : Use} (hg : S.Good ⟨Γ, u⟩) (hr : u.role = .variable)
    (hc : w.Chain f Γ marks) {v : Value} (hv : v.Known w) (create : Bool) :
    S.Sim w f (assign u.id u.name v create)
      (fun _ => assign (S.use marks u).id (S.use marks u).name v create) anyResult := by
  intro w₁ m s' hw hm
  obtain ⟨heq, htarget⟩ := target?_eq hm hg (hc.mono hw) create
  refine Setting.SimAt.congr ?_ fun L _ => Machine.run_assign _ _ _ _ _
  rw [Machine.run_assign]
  have heq' : target? { m with store := s' } (S.use marks u).id (S.use marks u).name.lexeme create =
    target? m u.id u.name.lexeme create := heq
  rw [heq']
  cases ht : target? m u.id u.name.lexeme create with
  | none =>
    -- only a global can be missing, and a global keeps its name
    have hname : (S.use marks u).name = u.name := by
      cases hd : S.notes u.id with
      | none => simp [Renaming.use, Renaming.marked_of_global hd]
      | some d =>
        obtain ⟨g, -, hanc, -, hsome, -⟩ := hm.twins.reference hg (hc.mono hw) hd
        rw [target?, hm.noted, hd] at ht
        dsimp only at ht
        rw [Store.holderAt?, hm.current, hanc, Option.filter_some, if_pos hsome] at ht
        cases ht
    rw [hname]
    exact .error hm
  | some g =>
    obtain ⟨hlt, hx⟩ := htarget g ht
    have htwins := hm.twins.define hlt (hg.plain hr).2 (hv.mono hw)
    rw [hx] at htwins
    exact .ok (w₁.le_bind g _) (hm.withStore htwins) trivial

/-- A declared name gets a value in its own frame. -/
theorem sim_define (hc : w.Chain g Γ marks) {name : Token} (hn : name.Plain) {v : Value}
    (hv : v.Known w) :
    S.Sim w f (define g name.lexeme v) (fun _ => define g (S.declared marks name).lexeme v)
      fun w _ => w.bound g name.lexeme := by
  intro w₁ m s' hw hm
  have hc₁ := hc.mono hw
  have htwins := hm.twins.define (hm.twins.frames.chain_lt hc₁) hn.2 (hv.mono hw)
  rw [hc₁.exchanged_eq hm.twins.frames.globals] at htwins
  exact .ok (w₁.le_bind g _) (hm.withStore htwins) (w₁.bound_bind g _)

theorem sim_currentFrame : S.Sim w f currentFrame (fun _ => currentFrame) fun _ g => g = f :=
  fun w₁ _ _ _ hm => .ok w₁.le_refl hm hm.current

/-- The new frame is the youngest. -/
theorem Machine.run_openFrame (m : Machine) (parent : FrameId) (bindings : Table Value) :
    (openFrame parent bindings).run m =
      .ok m.store.frames.size { m with store := (m.store.openFrame (some parent) bindings).2 } := rfl

/-- A scope for statements is opened. -/
theorem Setting.Beside.openScope (hm : S.Beside w f m s') (l : Label)
    (hl : l.opener.holdsStatements = true) (hh : l.heritage = none)
    (hstill : l.exchanged = true → S.Moves) :
    S.Beside (w.openFrame m.store.frames.size l) f
      { m with store := (m.store.openFrame (some l.parent) []).2 }
      (s'.openFrame (some l.parent) []).2 := by
  refine hm.withStore (hm.twins.openFrame l [] (fun _ _ h => by cases h) (fun c hc => ?_)
    (fun declaration hd => ?_) hstill)
  · rw [hh] at hc
    cases hc
  · rw [hd] at hl
    cases hl

/-- A frame with one variable, the receiver or the superclass, is opened. -/
theorem Setting.Twins.openKeyword (h : S.Twins w s s') (l : Label) {name : String} {v : Value}
    (hv : v.Known w) (hn : ∀ mark, S.image mark name = name) (hx : l.exchanged = false)
    (hheritage : ∀ c, l.heritage = some c → name = "super" ∧ v = .classRef c)
    (hderived : ∀ declaration, l.opener = .super declaration → l.heritage.isSome) :
    S.Twins ((w.openFrame s.frames.size l).bind s.frames.size name)
      (s.openFrame (some l.parent) [(name, v)]).2 (s'.openFrame (some l.parent) [(name, v)]).2 := by
  have hrelabel : Table.relabel (S.image l.exchanged) [(name, v)] = [(name, v)] := by
    simp [Table.relabel, hn]
  have ht := h.openFrame l [(name, v)] (fun key u hu => ?_) (fun c hc => ?_) hderived
    (fun h => by rw [hx] at h; cases h)
  · rw [hrelabel] at ht
    refine ht.bind ?_
    rw [Store.local?_openFrame, if_pos rfl]
    simp [Table.get?]
  · simp only [Table.get?] at hu
    split at hu
    · cases hu
      exact hv
    · cases hu
  · obtain ⟨rfl, rfl⟩ := hheritage c hc
    simp [Table.get?]

theorem Setting.Twins.unborn_label (h : S.Twins w s s') : w.label s.frames.size = none :=
  h.frames.unborn _ (Nat.le_refl _)

theorem Setting.Twins.unborn_typing (h : S.Twins w s s') : w.typing s.closures.size = none :=
  h.closures.unborn _ (Nat.le_refl _)

/-- A function that is known is in both stores. -/
theorem Setting.Twins.closure (h : S.Twins w s s') {id : ClosureId} {t : Typing}
    (ht : w.typing id = some t) : ∃ c, s.closures[id]? = some c ∧ S.Typed w t c ∧
      s'.closures[id]? = some { c with decl := c.decl.rename S.toRenaming t.pick t.marks } := by
  cases hc : s.closures[id]? with
  | none =>
    rw [Array.getElem?_eq_none_iff] at hc
    rw [h.closures.unborn id hc] at ht
    cases ht
  | some c =>
    obtain ⟨t', ht', hty, hc'⟩ := h.closures.paired id c hc
    rw [ht] at ht'
    cases ht'
    exact ⟨c, rfl, hty, hc'⟩

/-- A method is bound: its receiver gets a frame, and the copy of the method can be called. -/
theorem sim_bindMethod {id : ClosureId} {t : Typing} (ht : w.typing id = some t)
    (hb : t.bound = false) {v : Value} (hv : v.Known w) (hm : S.Beside w f m s') :
    S.SimAt w f (fun L => m.store.Receives L.layout id)
      ((bindMethod id v).run m) (fun _ => (bindMethod id v).run { m with store := s' })
      fun w r => ∃ copy, r = .closure copy ∧ w.typing copy = some { t with bound := true } := by
  obtain ⟨c, hc, hty, hc'⟩ := hm.twins.closure ht
  obtain ⟨declaration, Γ, marks, howns, hΓ, hmarks, hchain⟩ := hty.method hb
  -- the receiver's frame
  let l : Label := ⟨.this declaration, c.scope, none, false⟩
  let w₁ := (w.openFrame m.store.frames.size l).bind m.store.frames.size "this"
  have hw₁ : w ≤ w₁ := World.le_trans (World.le_openFrame hm.twins.unborn_label l) (World.le_bind _ _ _)
  have htwins₁ := hm.twins.openKeyword l hv (fun mark => S.image_this mark) rfl
    (fun c hc => by cases hc) (fun d hd => by cases hd)
  have hchain₁ : w₁.Chain m.store.frames.size t.context t.marks := by
    rw [hΓ, hmarks]
    refine .inside (l := l) (World.label_openFrame _ _ _) rfl (fun name hname => ?_)
      (hchain.mono hw₁)
    simp only [Table.get?] at hname
    split at hname
    · subst name
      exact World.bound_bind _ _ _
    · cases hname
  -- the copy of the method
  have hty₁ : S.Typed w₁ { t with bound := true } { c with scope := m.store.frames.size } :=
    ⟨hty.decl, hty.good, hty.proper, hty.formed, hty.keeps, fun _ => hchain₁,
      fun h => by cases h⟩
  have htwins₂ := htwins₁.newClosure hty₁ fun hmoves => hm.twins.closures.still id t ht hmoves
  have hw₂ := World.le_newClosure htwins₁.unborn_typing { t with bound := true }
  have hleft : (bindMethod id v).run m = .ok (.closure m.store.closures.size)
      { m with store := ((m.store.openFrame (some c.scope) [("this", v)]).2.newClosure
        { c with scope := m.store.frames.size }).2 } := by
    change EStateM.Result.ok (m.store.bindMethod id v).1
      { m with store := (m.store.bindMethod id v).2 } = _
    rw [Store.bindMethod, hc]
    rfl
  have hright : (bindMethod id v).run { m with store := s' } =
      .ok (.closure m.store.closures.size)
        { m with store := ((s'.openFrame (some c.scope) [("this", v)]).2.newClosure
          { c with
            scope := m.store.frames.size
            decl := c.decl.rename S.toRenaming t.pick t.marks }).2 } := by
    change EStateM.Result.ok (s'.bindMethod id v).1 { m with store := (s'.bindMethod id v).2 } = _
    rw [Store.bindMethod, hc', ← hm.twins.frames.size_eq, ← hm.twins.closures.size]
    rfl
  rw [hleft, hright]
  refine ⟨_, World.le_trans hw₁ hw₂, _, .ok (hm.withStore htwins₂) ⟨_, rfl, ?_⟩, fun L hL => ?_⟩
  · exact World.typing_newClosure _ _ _
  · refine ⟨⟨c, declaration, hc, howns, World.layout_of_label (hL.label _ l ?_)⟩, rfl⟩
    exact World.label_openFrame _ _ _

namespace Setting.Twins

variable (h : S.Twins w s s')
include h

/-- Methods that a class has are known and not bound. -/
theorem method_known {c : ClassId} {name : String} {id : ClosureId}
    (hid : s.findMethod? c name = some id) : ∃ t, w.typing id = some t ∧ t.bound = false :=
  Store.findWithin?_table (fun c r hr => (h.classes.recorded c r hr).methods name) hid

/-- And so are its static ones. -/
theorem static_known {c : ClassId} {name : String} {id : ClosureId}
    (hid : s.findStatic? c name = some id) : ∃ t, w.typing id = some t ∧ t.bound = false :=
  Store.findWithin?_table (fun c r hr => (h.classes.recorded c r hr).statics name) hid

theorem property_field {v u : Value} {name : String}
    (hp : s.property v name = .ok (.field u)) : u.Known w :=
  Store.property_field (fun c r hr => (h.classes.recorded c r hr).fields name)
    (fun o ob hob => h.classes.fields o ob hob name) hp

/-- And what a property stands for, if it is a method. -/
theorem property_method {v : Value} {name : String} {id : ClosureId}
    (hp : s.property v name = .ok (.method id)) : ∃ t, w.typing id = some t ∧ t.bound = false := by
  obtain ⟨c, hid | hid⟩ := Store.property_method hp
  · exact h.method_known hid
  · exact h.static_known hid

end Setting.Twins

theorem sim_checked {α : Type} {Q : World → α → Prop} (token : Token) {x : Except RuntimeFault α}
    (h : ∀ a, x = .ok a → ∀ w₁, w ≤ w₁ → Q w₁ a) :
    S.Sim w f (checked token x) (fun _ => checked token x) Q := by
  cases x with
  | ok a => exact .pure (h a rfl)
  | error fault => exact .fail token fault

/-- A field is answered as it is, and a method is bound to the object first. -/
theorem Machine.run_readProperty (m : Machine) (o : Value) (name : Token) :
    (readProperty o name).run m =
      match m.store.property o name.lexeme with
      | .error fault => .error (.failed (.runtime ⟨fault, name.place⟩)) m
      | .ok (.field v) => .ok v m
      | .ok (.method id) => (bindMethod id o).run m := by
  rw [readProperty, Eval.run_bind_ok (show EStateM.run get m = .ok m m from rfl)]
  cases m.store.property o name.lexeme with
  | error fault => rfl
  | ok p => cases p <;> rfl

/-- A method is bound to what it is read from. -/
theorem sim_readProperty {o : Value} (ho : o.Known w) (name : Token) (hm : S.Beside w f m s') :
    S.SimAt w f (fun L => ∀ id, m.store.property o name.lexeme = .ok (.method id) →
        m.store.Receives L.layout id)
      ((readProperty o name).run m) (fun _ => (readProperty o name).run { m with store := s' })
      knownResult := by
  refine Setting.SimAt.congr ?_ fun L _ => Machine.run_readProperty _ _ _
  rw [Machine.run_readProperty]
  dsimp only
  rw [hm.twins.property_eq]
  cases hp : m.store.property o name.lexeme with
  | error fault => exact (Setting.SimAt.error hm).pin fun _ _ _ _ h => by cases h
  | ok p =>
    cases p with
    | field v =>
      exact (Setting.SimAt.ok w.le_refl hm (hm.twins.property_field hp)).pin
        fun _ _ _ _ h => by cases h
    | method id =>
      obtain ⟨t, ht, hb⟩ := hm.twins.property_method hp
      refine ((sim_bindMethod ht hb ho hm).weaken fun w₁ v _ hv => ?_).pin fun _ _ h id' hid' => ?_
      · obtain ⟨copy, rfl, hcopy⟩ := hv
        exact ⟨_, hcopy, rfl⟩
      · cases hid'
        exact h

theorem sim_writeProperty {o v : Value} (hv : v.Known w) (name : Token) :
    S.Sim w f (writeProperty o name v) (fun _ => writeProperty o name v) anyResult := by
  unfold writeProperty
  split
  · intro w₁ m s' hw hm
    exact .ok w₁.le_refl (hm.withStore (hm.twins.setField o name.lexeme (hv.mono hw))) trivial
  · exact .fail name .noFields

/-- Neither the store nor anything that programs refer to is touched. -/
inductive Machine.Aside {α : Type} (m : Machine) (s' : Store) :
    EStateM.Result Stop Machine α → EStateM.Result Stop Machine α → Prop
  | ok {a : α} {m₁ : Machine} : m₁.store = m.store → m₁.current = m.current →
      m₁.distances = m.distances → Aside m s' (.ok a m₁) (.ok a { m₁ with store := s' })
  | error {e : Stop} {m₁ : Machine} : m₁.store = m.store → m₁.current = m.current →
      m₁.distances = m.distances → Aside m s' (.error e m₁) (.error e { m₁ with store := s' })

theorem sim_aside {α : Type} {a : Eval α}
    (h : ∀ m s', Machine.Aside m s' (a.run m) (a.run { m with store := s' })) :
    S.Sim w f a (fun _ => a) anyResult := by
  intro w₁ m s' _ hm
  have haside := h m s'
  change S.SimAt w₁ f anyWorld (a.run m) (fun _ => a.run { m with store := s' }) anyResult
  generalize a.run m = r, a.run { m with store := s' } = r' at haside ⊢
  cases haside with
  | ok hs hc hd =>
    exact .ok w₁.le_refl ⟨hs ▸ hm.twins, hc.trans hm.current, fun id => hd ▸ hm.noted id⟩ trivial
  | error hs hc hd =>
    exact .error ⟨hs ▸ hm.twins, hc.trans hm.current, fun id => hd ▸ hm.noted id⟩

theorem sim_write (text : String) : S.Sim w f (write text) (fun _ => write text) anyResult := by
  refine sim_aside fun m s' => ?_
  change Machine.Aside m s' (if (m.output.write text).1 then _ else _)
    (if (m.output.write text).1 then _ else _)
  split
  · exact .ok rfl rfl rfl
  · exact .error rfl rfl rfl

theorem sim_flush : S.Sim w f flush (fun _ => flush) anyResult := by
  refine sim_aside fun m s' => ?_
  change Machine.Aside m s' (if m.output.flush.1 then _ else _) (if m.output.flush.1 then _ else _)
  split
  · exact .ok rfl rfl rfl
  · exact .error rfl rfl rfl

theorem sim_readLine : S.Sim w f readLine (fun _ => readLine) anyResult := by
  refine sim_flush.bind fun w₁ _ _ _ => sim_aside fun m s' => ?_
  change Machine.Aside m s' (if m.input.isEmpty then _ else _) (if m.input.isEmpty then _ else _)
  split
  · exact .ok rfl rfl rfl
  · obtain ⟨line, rest⟩ := Input.cutLine m.input
    dsimp only
    cases Input.lineText line with
    | ok text => exact .ok rfl rfl rfl
    | error fault => exact .error rfl rfl rfl

theorem sim_text (v : Value) :
    S.Sim w f (Machine.text v) (fun _ => Machine.text v) anyResult := by
  intro w₁ m s' _ hm
  refine Setting.SimAt.congr (.ok w₁.le_refl hm trivial) fun L _ => ?_
  exact congrArg (fun t => EStateM.Result.ok t { m with store := s' }) (hm.twins.text_eq v)

namespace Builtin

theorem sim_printValue (site : Token) (v : Value) (ending : Option Value) :
    S.Sim w f (printValue site v ending) (fun _ => printValue site v ending) knownResult := by
  have hprint : ∀ ending : String, S.Sim w f (do write ((← text v) ++ ending); pure .nil)
      (fun _ => do write ((← text v) ++ ending); pure .nil) knownResult := fun ending =>
    (sim_text v).bind fun w₁ text _ _ =>
      (sim_write _).bind fun w₂ _ _ _ => .pure fun _ _ => trivial
  unfold printValue
  split
  · exact hprint _
  · exact hprint _
  · exact .fail _ _

theorem sim_readInput (site : Token) (prompt : Option Value) :
    S.Sim w f (readInput site prompt) (fun _ => readInput site prompt) knownResult := by
  unfold readInput
  split
  · exact sim_readLine.bind fun w₁ line _ _ => by
      cases line <;> exact .pure fun _ _ => trivial
  · exact (sim_write _).bind fun w₁ _ _ _ => sim_readLine.bind fun w₂ line _ _ => by
      cases line <;> exact .pure fun _ _ => trivial
  · exact .fail _ _

theorem sim_run (b : Builtin) (site : Token) (arguments : List Value) :
    S.Sim w f (b.run site arguments) (fun _ => b.run site arguments) knownResult := by
  unfold Builtin.run
  split
  · have hclock : S.Sim w f readClock (fun _ => readClock) anyResult :=
      sim_aside fun m s' => .ok rfl rfl rfl
    exact hclock.bind fun w₁ millis _ _ => .pure fun _ _ => trivial
  · exact sim_printValue _ _ _
  · unfold numberText
    split
    · exact .pure fun _ _ => trivial
    · exact .fail _ _
  · exact sim_readInput _ _
  · unfold parseNumber
    split
    · split
      · exact .pure fun _ _ => trivial
      · exact .fail _ _
    · exact .fail _ _
  · exact .pure fun _ _ => trivial
  · unfold squareRoot
    split
    · split
      · exact .pure fun _ _ => trivial
      · exact .fail _ _
    · exact .fail _ _
  · unfold randomWhole
    split
    · split
      · have hchance : ∀ count, S.Sim w f (chance count) (fun _ => chance count) anyResult :=
          fun count => sim_aside fun m s' => .ok rfl rfl rfl
        exact (hchance _).bind fun w₁ n _ _ => .pure fun _ _ => trivial
      · exact .fail _ _
    · exact .fail _ _
  · rename_i v _
    intro w₁ m s' _ hm
    refine Setting.SimAt.congr (.ok w₁.le_refl hm trivial) fun L _ => ?_
    exact congrArg (fun t => EStateM.Result.ok (Value.string t) { m with store := s' })
      (hm.twins.typeName_eq v)
  · exact .pure fun _ _ => trivial
  · exact .pure fun _ _ => trivial

end Builtin

theorem Operator.known_apply {kind : Kind} {lexeme : String} {l r v : Value}
    (h : Operator.apply kind lexeme l r = .ok v) : v.Known w := by
  have hconstant := Operator.constant_apply h
  cases v <;> trivial

end Scriptling
