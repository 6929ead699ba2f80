import Scriptling.Proofs.Actions

namespace Scriptling

open Machine

variable {α β : Type}

namespace Realm

variable {R : Realm} {s s' : Store}

theorem Admits.congr (h : R.Admits s) (hf : s'.frames = s.frames) (hc : s'.closures = s.closures) :
    R.Admits s' where
  globals := h.globals
  fresh := hf ▸ h.fresh
  parent f p hin hp := h.parent f p hin (by simpa [Store.parent?, hf] using hp)
  scope := hc ▸ h.scope
  decl := hc ▸ h.decl
  keeps := hf ▸ h.keeps

/-- A frame inside one of the realm is of the realm. -/
theorem Admits.openFrame (h : R.Admits s) {p : FrameId} (hp : R.frame p) (bindings : Table Value) :
    R.Admits (s.openFrame (some p) bindings).2 where
  globals := h.globals
  fresh f hf := h.fresh f (by simp [Store.openFrame] at hf; omega)
  parent f q hin hq := by
    rw [Store.parent?_openFrame] at hq
    split at hq
    · cases hq
      exact hp
    · exact h.parent f q hin hq
  scope := h.scope
  decl := h.decl
  keeps f x hx hf := by
    have hne : f ≠ s.frames.size := fun he => hf (h.fresh f (Nat.le_of_eq he.symm))
    rw [Store.openFrame, Array.getElem?_push, if_neg hne] at hx
    exact h.keeps f x hx hf

/-- A name is written in a frame of the realm, or in one where it may be and already is. -/
theorem Admits.define (h : R.Admits s) {f : FrameId} {name : String} (v : Value)
    (hf : R.frame f ∨ R.writes f name ∧ (s.local? f name).isSome) :
    R.Admits (s.define f name v) where
  globals := h.globals
  fresh g hg := h.fresh g (by simpa using hg)
  parent g p hin hp := h.parent g p hin (by simpa using hp)
  scope := h.scope
  decl := h.decl
  keeps g x hx hg := by
    rw [Store.define, Array.getElem?_modify] at hx
    by_cases hfg : f = g
    · subst hfg
      obtain ⟨hw, hsome⟩ := hf.resolve_left hg
      rw [if_pos rfl, Option.map_eq_some_iff] at hx
      obtain ⟨y, hy, rfl⟩ := hx
      rw [Store.local?, hy, Option.bind_some] at hsome
      exact R.put f y name v hw hsome (h.keeps f y hy hg)
    · rw [if_neg hfg] at hx
      exact h.keeps g x hx hg

/-- A function that may be met and was made in the realm is admitted. -/
theorem Admits.newClosure (h : R.Admits s) {c : Closure} (hscope : R.frame c.scope)
    (hd : R.decl c.decl) : R.Admits (s.newClosure c).2 where
  globals := h.globals
  fresh := h.fresh
  parent := h.parent
  scope := Store.forall_push h.scope hscope
  decl := Store.forall_push h.decl hd
  keeps := h.keeps

theorem Admits.setField (h : R.Admits s) (o : Value) (name : String) (v : Value) :
    R.Admits (s.setField o name v) := by
  cases o <;> exact h.congr rfl rfl

theorem Admits.bindMethod (h : R.Admits s) (method : ClosureId) (receiver : Value) :
    R.Admits (s.bindMethod method receiver).2 := by
  unfold Store.bindMethod
  split
  · exact h
  · rename_i c hc
    have hframe : R.frame s.frames.size := h.fresh _ (Nat.le_refl _)
    exact (h.openFrame (h.scope _ c hc) _).newClosure hframe (h.decl _ c hc)

/-- All frames around a frame are in the realm. -/
theorem Admits.ancestor (h : R.Admits s) {f g : FrameId} {d : Nat} (hf : R.inner f)
    (hg : s.ancestor? f d = some g) : g = f ∨ R.frame g := by
  induction d generalizing f with
  | zero =>
    rw [Store.ancestor?] at hg
    split at hg <;> cases hg
    exact .inl rfl
  | succ d ih =>
    obtain ⟨p, hp, hg⟩ := Option.bind_eq_some_iff.1 hg
    have hframe := h.parent f p hf hp
    rcases ih (R.inner_of_frame p hframe) hg with rfl | hg
    · exact .inr hframe
    · exact .inr hg

/-- A variable is written in a frame of the realm, or in the current one if that is allowed. -/
theorem Admits.target {m : Machine} (h : R.Admits m.store) {id : ExprId} {name : String}
    {create : Bool} {f : FrameId} (hh : R.Hosts m.current [name])
    (hf : m.target? id name create = some f) :
    R.frame f ∨ R.writes f name ∧ (m.store.local? f name).isSome := by
  unfold target? at hf
  split at hf
  · rw [Store.holderAt?, Option.filter_eq_some_iff] at hf
    obtain ⟨hf, hsome⟩ := hf
    rcases h.ancestor hh.inner hf with rfl | hframe
    · exact .inr ⟨hh.writes name (List.mem_singleton_self _), hsome⟩
    · exact .inl hframe
  · have hglobals : f = .globals := by
      split at hf
      · exact (Option.some.inj hf).symm
      · rw [Store.holder?, Store.holderWithin?] at hf
        split at hf
        · exact (Option.some.inj hf).symm
        · obtain ⟨p, -, hp⟩ := Option.bind_eq_some_iff.1 hf
          cases hp
    exact .inl (hglobals ▸ h.globals)

/-- The stops that evaluation in the realm may come to. -/
inductive Stops (R : Realm) : Stop → Prop
  | exhausted : Stops R .exhausted
  | stream (fault : StreamFault) : Stops R (.failed (.stream fault))
  | ordinary {fault : RuntimeFault} (place : Place) : fault.Ordinary →
    Stops R (.failed (.runtime ⟨fault, place⟩))
  | stray {x : Signal} : R.Strays x → Stops R (.failed x.failure)

/-- Evaluation ended in the frame it began in and within the realm, with a value of which the
promise holds or with a stop that is allowed. -/
def Ends (R : Realm) (g : FrameId) (Q : α → Prop) : EStateM.Result Stop Machine α → Prop
  | .ok v m => m.current = g ∧ R.Admits m.store ∧ Q v
  | .error stop m => m.current = g ∧ R.Admits m.store ∧ R.Stops stop

/-- From every machine within the realm that is in the frame, the action ends so. -/
def Keeps (R : Realm) (g : FrameId) (act : Eval α) (Q : α → Prop) : Prop :=
  ∀ m : Machine, m.current = g → R.Admits m.store → R.Ends g Q (act.run m)

variable {g : FrameId}

theorem Keeps.of_single {act : Eval α} {Q : α → Prop} (h : Eval.Single R g act Q) :
    R.Keeps g act Q := by
  intro m hg hm
  cases h with
  | pure h => exact ⟨hg, hm, h⟩
  | exhausted => exact ⟨hg, hm, .exhausted⟩
  | fail token h => exact ⟨hg, hm, .ordinary _ h⟩
  | stray hx => exact ⟨hg, hm, .stray hx⟩
  | openFrame bindings hp => exact ⟨hg, hm.openFrame hp bindings, hm.fresh _ (Nat.le_refl _)⟩
  | define name v hf => exact ⟨hg, hm.define v (.inl hf), trivial⟩
  | @assign id name v create hh =>
    rw [run_assign]
    cases hf : m.target? id name.lexeme create with
    | none => exact ⟨hg, hm, .ordinary _ trivial⟩
    | some f => exact ⟨hg, hm.define v (hm.target (hg ▸ hh) hf), trivial⟩
  | newClosure hscope hd => exact ⟨hg, hm.newClosure hscope hd, trivial⟩
  | newClass c => exact ⟨hg, hm.congr rfl rfl, trivial⟩
  | newObject c => exact ⟨hg, hm.congr rfl rfl, trivial⟩
  | bindMethod method receiver => exact ⟨hg, hm.bindMethod method receiver, trivial⟩
  | writeProperty object name v =>
    unfold writeProperty
    split
    · exact ⟨hg, hm.setField object name.lexeme v, trivial⟩
    · exact ⟨hg, hm, .ordinary _ trivial⟩
  | write text =>
    rw [run_write]
    split
    · exact ⟨hg, hm, trivial⟩
    · exact ⟨hg, hm, .stream _⟩
  | readClock => exact ⟨hg, hm, trivial⟩
  | chance count => exact ⟨hg, hm, trivial⟩

/-- Where the action ends well the store is still within the realm. -/
theorem Keeps.admits {act : Eval α} {Q : α → Prop} {m m₁ : Machine} {v : α}
    (h : R.Keeps m.current act Q) (hm : R.Admits m.store) (hr : act.run m = .ok v m₁) :
    R.Admits m₁.store := by
  have hends := h m rfl hm
  rw [hr] at hends
  exact hends.2.1

/-- What keeps to the realm may be followed by what does. -/
theorem Keeps.bind {a : Eval α} {k : α → Eval β} {P : α → Prop} {Q : β → Prop}
    (ha : R.Keeps g a P) (hk : ∀ v, P v → R.Keeps g (k v) Q) : R.Keeps g (a >>= k) Q := by
  intro m hg hm
  have hends := ha m hg hm
  cases hr : a.run m with
  | ok v m₁ =>
    rw [hr] at hends
    rw [Eval.run_bind_ok hr]
    exact hk v hends.2.2 m₁ hends.1 hends.2.1
  | error stop m₁ =>
    rw [hr] at hends
    rw [Eval.run_bind_error hr]
    exact hends

theorem Keeps.inFrame {a : Eval α} {f : FrameId} {Q : α → Prop} (ha : R.Keeps f a Q) :
    R.Keeps g (Machine.inFrame f a) Q := by
  intro m hg hm
  have hends := ha { m with current := f } rfl hm
  rw [Eval.run_inFrame]
  cases hr : a.run { m with current := f } with
  | ok v m₁ =>
    rw [hr] at hends
    exact ⟨hg, hends.2⟩
  | error stop m₁ =>
    rw [hr] at hends
    exact ⟨hg, hends.2⟩

theorem Keeps.flush : R.Keeps g Machine.flush fun _ => True := by
  intro m hg hm
  rw [run_flush]
  split
  · exact ⟨hg, hm, trivial⟩
  · exact ⟨hg, hm, .stream _⟩

theorem Keeps.takeLine : R.Keeps g Machine.takeLine fun _ => True := by
  intro m hg hm
  rw [run_takeLine]
  split
  · exact ⟨hg, hm, trivial⟩
  · split
    · exact ⟨hg, hm, trivial⟩
    · exact ⟨hg, hm, .stream _⟩

theorem Keeps.readLine : R.Keeps g Machine.readLine fun _ => True :=
  Keeps.flush.bind fun _ _ => Keeps.takeLine

theorem Keeps.readInput (site : Token) (prompt : Option Value) :
    R.Keeps g (Builtin.readInput site prompt) fun _ => True := by
  unfold Builtin.readInput
  split
  · exact Keeps.readLine.bind fun _ _ => .of_single (.pure trivial)
  · exact (Keeps.of_single (.write _)).bind fun _ _ => Keeps.readLine.bind fun _ _ =>
      .of_single (.pure trivial)
  · exact .of_single (.fail _ trivial)

/-- Evaluation of all parts, each where it may take place, keeps to the realm. -/
structure Governs (R : Realm) (b : Below) : Prop where
  evaluate : ∀ {g : FrameId} {e : Expr}, R.Hosts g e.targets →
    R.Keeps g (b.evaluate e) fun _ => True
  execute : ∀ {g : FrameId} {s : Stmt}, R.frame g → (∀ d ∈ s.decls, R.decl d) →
    R.Keeps g (b.execute s) (·.Among s.signals s.returns)

theorem Governs.composed {b : Below} (h : R.Governs b) {a a' : Eval α} {Q : α → Prop}
    (ha : Eval.Composed R b b g a a' Q) : R.Keeps g a Q := by
  induction ha with
  | single h => exact .of_single h
  | readInput site prompt => exact .readInput site prompt
  | look _ _ ih => exact fun m hg hm => ih m hg hm m hg hm
  | bind _ _ iha ihk => exact iha.bind ihk
  | inFrame _ ih => exact ih.inFrame
  | evaluate hh => exact h.evaluate hh
  | execute hg hd => exact h.execute hg hd
  | spent hlt => exact absurd hlt (Nat.lt_irrefl _)

/-- Evaluation up to any depth keeps to every realm. -/
theorem governs_upTo (R : Realm) (depth : Nat) : R.Governs (.upTo depth) := by
  induction depth with
  | zero =>
    exact ⟨fun _ => .of_single .exhausted, fun _ _ => .of_single .exhausted⟩
  | succ depth ih =>
    exact ⟨fun hh => ih.composed (Below.composed_evaluateStep hh),
      fun hg hd => ih.composed (Below.composed_executeStep (Nat.le_refl _) hg hd)⟩

end Realm

/-- The realm of all frames, in which only certain functions may be met. -/
def Realm.all (decl : FunctionDecl → Prop)
    (decls : ∀ d, decl d → ∀ d' ∈ Stmt.declsAll d.body, decl d') : Realm where
  frame _ := True
  inner _ := True
  writes _ _ := True
  keeps _ _ := True
  decl
  inner_of_frame _ _ := trivial
  writes_of_frame _ _ _ := trivial
  decls
  put _ _ _ _ _ _ _ := trivial

/-- The realm of all frames asks for nothing but its functions. -/
theorem Realm.admits_all {decl : FunctionDecl → Prop}
    {decls : ∀ d, decl d → ∀ d' ∈ Stmt.declsAll d.body, decl d'} {s : Store} :
    (Realm.all decl decls).Admits s ↔
      ∀ (id : ClosureId) (c : Closure), s.closures[id]? = some c → decl c.decl :=
  ⟨fun h => h.decl, fun h => ⟨trivial, fun _ _ => trivial, fun _ _ _ _ => trivial,
    fun _ _ _ => trivial, h, fun _ _ _ _ => trivial⟩⟩

def Realm.any : Realm := .all (fun _ => True) fun _ _ _ _ => trivial

theorem Realm.admits_any (s : Store) : Realm.any.Admits s := admits_all.2 fun _ _ _ => trivial

/-- Whatever is made of parts that only take steps only takes steps. -/
theorem Below.Steps.composed {b : Below} (h : b.Steps) (hb : Realm.any.Governs b) {g : FrameId}
    {a a' : Eval α} {Q : α → Prop} (ha : Eval.Composed .any b b g a a' Q) :
    ∀ m : Machine, m.current = g → m.Reaches (after a m) := by
  induction ha with
  | single h => exact fun m _ => h.runs m
  | readInput site prompt => exact fun m _ => Builtin.runs_readInput site prompt m
  | look _ _ ih => exact fun m hg => ih m hg (Realm.admits_any _) m hg
  | bind ha _ iha ihk =>
    intro m hg
    refine (iha m hg).bind fun v m₁ hr => ?_
    have hends := hb.composed ha m hg (Realm.admits_any _)
    rw [hr] at hends
    exact ihk v hends.2.2 m₁ hends.1
  | inFrame _ ih => exact fun m _ => (ih _ rfl).inFrame
  | evaluate _ => exact fun m _ => h.evaluate _ m
  | execute _ _ => exact fun m _ => h.execute _ m
  | spent _ => exact fun m _ => .refl m

/-- Evaluation up to any depth only takes steps. -/
theorem Below.steps_upTo (depth : Nat) : (Below.upTo depth).Steps := by
  induction depth with
  | zero => exact ⟨fun _ => .throw _, fun _ => .throw _⟩
  | succ depth ih =>
    have hb := Realm.any.governs_upTo depth
    refine ⟨fun e m => ?_, fun s m => ?_⟩
    · exact ih.composed hb (composed_evaluateStep (Realm.hosts_of_frame trivial _)) m rfl
    · exact ih.composed hb (composed_executeStep (Nat.le_refl _) trivial fun _ _ => trivial) m rfl

/-- All that is made of evaluation up to a depth only takes steps. -/
theorem Eval.Composed.runs {depth : Nat} {a : Eval α} {Q : α → Prop}
    (ha : ∀ g, Eval.Composed .any (.upTo depth) (.upTo depth) g a a Q) : a.Runs := fun m =>
  (Below.steps_upTo depth).composed (Realm.any.governs_upTo depth) (ha m.current) m rfl

end Scriptling
