import Scriptling.Proofs.Depth
import Scriptling.Proofs.Distinct
import Scriptling.Proofs.InquirySessions
import Scriptling.Proofs.RealmSessions
import Scriptling.Proofs.Widening

namespace Scriptling

open Machine

variable {α : Type} {m m₁ : Machine} {f : FrameId} {names names' : List String}

/-- The name is bound in the frame, and that is a local one. -/
def Store.Taken (s : Store) (f : FrameId) (name : String) : Prop := f ≠ .globals ∧ name ∈ s.names f

/-- A declaration finds its name unbound in the current frame when it is about to bind it. -/
def Stmt.BindsAnew (below : Below) (m : Machine) : Stmt → Prop
  | .var name initial => ∀ v m₁, (below.evaluate? initial).run m = .ok v m₁ →
    ¬ m₁.store.Taken m₁.current name.lexeme
  | .function decl => ¬ m.store.Taken m.current decl.name.lexeme
  | .class name superclass _ _ => ∀ parent m₁,
    (below.evaluateSuperclass superclass).run m = .ok parent m₁ →
      ¬ m₁.store.Taken m₁.current name.lexeme
  | _ => True

def Below.BindsAnew (below : Below) (f : FrameId) : List Param → List Value → Machine → Prop
  | [], _, _ => True
  | p :: ps, v :: vs, m => ¬ m.store.Taken f p.name.lexeme ∧
    below.BindsAnew f ps vs { m with store := m.store.define f p.name.lexeme v }
  | p :: ps, [], m => ∀ e ∈ p.fallback, ∀ v m₁, (inFrame f (below.evaluate e)).run m = .ok v m₁ →
    ¬ m₁.store.Taken f p.name.lexeme ∧
      below.BindsAnew f ps [] { m₁ with store := m₁.store.define f p.name.lexeme v }

/-- The parameters of the function that is run when a value is called. -/
def Value.BindsAnew (below : Below) (m : Machine) (arguments : List Value) : Value → Prop
  | .closure id => ∀ c, m.store.closures[id]? = some c →
    below.BindsAnew m.store.frames.size c.decl.params arguments (m.opened c)
  | .classRef id => ∀ init, m.store.init? id = some init →
    let m₁ := m.instantiated id init
    below.BindsAnew m₁.store.frames.size init.decl.params arguments
      (m₁.opened { init with scope := m.store.frames.size })
  | _ => True

def Expr.BindsAnew (below : Below) (m : Machine) : Expr → Prop
  | .call callee _ arguments => ∀ v vs m₁ m₂, (below.evaluate callee).run m = .ok v m₁ →
    (below.evaluateAll arguments).run m₁ = .ok vs m₂ → v.BindsAnew below m₂ vs
  | _ => True

/-- Whatever is declared in a local frame is bound there for the first time. -/
def Watch.anew : Watch := ⟨fun below e m => e.BindsAnew below m, fun below s m => s.BindsAnew below m⟩

/-- The names are unbound in the current frame, if that is a local one. -/
structure Machine.Free (m : Machine) (names : List String) : Prop where
  opened : m.current ≠ .globals → m.current < m.store.frames.size
  free : ∀ x ∈ names, ¬ m.store.Taken m.current x

namespace Machine.Free

theorem of_globals (h : m.current = .globals) : m.Free names :=
  ⟨fun hne => absurd h hne, fun _ _ htaken => htaken.1 h⟩

theorem mono (h : m.Free names) (hn : ∀ x ∈ names', x ∈ names) : m.Free names' :=
  ⟨h.opened, fun x hx => h.free x (hn x hx)⟩

/-- What is done binds other names, if any. -/
theorem widened (h : m.Free names)
    (hw : m.Widens m.store.frames.size m.current names' m₁) (hd : names'.Disjoint names) :
    m₁.Free names where
  opened hne := by
    rw [hw.current] at hne ⊢
    exact Nat.lt_of_lt_of_le (h.opened hne) hw.size
  free x hx := by
    rintro ⟨hne, hbound⟩
    rw [hw.current] at hne hbound
    rcases hw.names _ (h.opened hne) hne x hbound with hold | ⟨-, hnew⟩
    · exact h.free x hx ⟨hne, hold⟩
    · exact hd hnew hx

theorem narrowed (h : m.Free names) (hw : m.Widens m.store.frames.size m.current [] m₁) :
    m₁.Free names := h.widened hw (List.disjoint_nil_left _)

end Machine.Free

/-- In a new frame no name is bound. -/
theorem Store.names_opened (s : Store) (p : FrameId) :
    (s.openFrame (some p) []).2.names s.frames.size = [] := by
  simp [names, openFrame, Table.names]

/-- In a new frame every name is free. -/
theorem Machine.free_opened (m : Machine) (p : FrameId) :
    Free { m with
      store := (m.store.openFrame (some p) []).2, current := m.store.frames.size } names where
  opened _ := by simp [Store.openFrame]
  free x _ := by
    rintro ⟨-, hbound⟩
    rw [Store.names_opened] at hbound
    cases hbound

/-- Parameters that are named differently are bound for the first time. -/
theorem Below.Widens.bindsAnew {b : Below} (h : b.Widens) {ps : List Param} (vs : List Value)
    (hn : (ps.map fun p => p.name.lexeme).Nodup) (hf : f < m.store.frames.size)
    (hfree : ∀ p ∈ ps, ¬ m.store.Taken f p.name.lexeme) : b.BindsAnew f ps vs m := by
  induction ps generalizing vs m with
  | nil => trivial
  | cons p ps ih =>
    rw [List.map_cons, List.nodup_cons] at hn
    rw [List.forall_mem_cons] at hfree
    have hrest : ∀ (m₁ : Machine) (v : Value) (vs : List Value), f < m₁.store.frames.size →
        (∀ x, m₁.store.Taken f x → m.store.Taken f x) → ¬ m₁.store.Taken f p.name.lexeme ∧
          b.BindsAnew f ps vs { m₁ with store := m₁.store.define f p.name.lexeme v } := by
      intro m₁ v vs hf₁ hold
      refine ⟨fun htaken => hfree.1 (hold _ htaken), ih vs hn.2 (by simpa using hf₁) ?_⟩
      rintro p' hp' ⟨hne, hbound⟩
      rcases Store.mem_names_define hbound with hbound | ⟨-, hsame⟩
      · exact hfree.2 p' hp' (hold _ ⟨hne, hbound⟩)
      · exact hn.1 (hsame ▸ List.mem_map_of_mem hp')
    cases vs with
    | cons v vs => exact hrest m v vs hf fun _ => id
    | nil =>
      intro e _ v m₁ hr
      have hw : m.Widens m.store.frames.size f [] m₁ := (h.evaluate e).widens.inFrame.ok hr
      apply hrest m₁ v [] (Nat.lt_of_lt_of_le hf hw.size)
      rintro x ⟨hne, hbound⟩
      rcases hw.names f hf hne x hbound with hbound | ⟨-, hx⟩
      · exact ⟨hne, hbound⟩
      · cases hx

/-- The realm of functions that declare a name once in every scope. -/
def Realm.distinct : Realm := .all FunctionDecl.Distinct fun _ hd => Stmt.distinct_declsAll hd.body

theorem Realm.strays_distinct (x : Signal) : Realm.distinct.Strays x := by
  cases x with
  | «break» keyword =>
    exact ⟨⟨keyword, [], [.break keyword]⟩, ⟨.nil, trivial, trivial⟩, List.mem_singleton_self _⟩
  | next keyword =>
    exact ⟨⟨keyword, [], [.next keyword]⟩, ⟨.nil, trivial, trivial⟩, List.mem_singleton_self _⟩

def Below.over (b b' : Below) : Below := { b' with evaluate := b.evaluate }

namespace Below

theorem evaluate_over (b b' : Below) : (b.over b').evaluate = b.evaluate := rfl

theorem evaluateAll_over (b b' : Below) (es : List Expr) :
    (b.over b').evaluateAll es = b.evaluateAll es := by
  induction es with
  | nil => rfl
  | cons e es ih => rw [evaluateAll, evaluateAll, ih, evaluate_over]

theorem evaluateLast_over (b b' : Below) (last : Value) (es : List Expr) :
    (b.over b').evaluateLast last es = b.evaluateLast last es := by
  induction es generalizing last with
  | nil => rfl
  | cons e es ih => simp only [evaluateLast, ih, evaluate_over]

/-- Fallbacks are expressions, so parameters are bound as by the evaluation that expressions have.
-/
theorem bindParams_over (b b' : Below) (paren : Token) (ps : List Param) (vs : List Value) :
    (b.over b').bindParams f paren ps vs = b.bindParams f paren ps vs := by
  induction ps generalizing vs with
  | nil => rfl
  | cons p ps ih => cases vs <;> simp only [bindParams, ih, evaluate_over]

end Below

/-- Evaluation of parts is the same, of statements where the names that they declare are free. -/
structure Below.Coincides (b b' : Below) : Prop where
  evaluate : ∀ (e : Expr) (m : Machine), Realm.distinct.Admits m.store →
    (b.evaluate e).run m = (b'.evaluate e).run m
  execute : ∀ (s : Stmt) (m : Machine), s.Distinct → m.Free s.introduced →
    Realm.distinct.Admits m.store → (b.execute s).run m = (b'.execute s).run m
  rounds : b.rounds = b'.rounds
  governs : Realm.distinct.Governs b'
  widens : b'.Widens

namespace Below.Coincides

variable {b b' : Below} (h : b.Coincides b')
include h

/-- What is made of expressions is the same. -/
theorem composed {a a' : Eval α} {Q : α → Prop}
    (ha : Eval.Composed .distinct (b.over b') b' f a a' Q) :
    ∀ m : Machine, m.current = f → Realm.distinct.Admits m.store → a.run m = a'.run m := by
  induction ha with
  | single _ => exact fun _ _ _ => rfl
  | readInput _ _ => exact fun _ _ _ => rfl
  | look _ _ ih => exact fun m hf hm => ih m hf hm m hf hm
  | bind ha _ iha ihk =>
    intro m hf hm
    apply Eval.run_bind_eq (iha m hf hm)
    intro v m₁ hr
    have hends := h.governs.composed (ha.right rfl) m hf hm
    rw [hr] at hends
    exact ihk v hends.2.2 m₁ hends.1 hends.2.1
  | @inFrame f g α a a' Q _ ih =>
    intro m _ hm
    rw [Eval.run_inFrame, Eval.run_inFrame, ih { m with current := f } rfl hm]
  | evaluate _ => exact fun m _ hm => h.evaluate _ m hm
  | execute _ _ => exact fun _ _ _ => rfl
  | spent hlt => exact absurd hlt (Nat.lt_irrefl _)

theorem evaluateAll (es : List Expr) (hm : Realm.distinct.Admits m.store) :
    (b.evaluateAll es).run m = (b'.evaluateAll es).run m := by
  rw [← evaluateAll_over b b']
  exact h.composed (composed_evaluateAll (Realm.hosts_of_frame trivial _)) m rfl hm

/-- After a part of an expression the same functions are in the store, and no name is bound. -/
theorem evaluated {e : Expr} {v : Value} (hm : Realm.distinct.Admits m.store)
    (hr : (b'.evaluate e).run m = .ok v m₁) :
    Realm.distinct.Admits m₁.store ∧ m.Widens m.store.frames.size m.current [] m₁ :=
  ⟨(h.governs.evaluate (Realm.hosts_of_frame trivial _)).admits hm hr,
    (h.widens.evaluate e).ok hr⟩

/-- Expressions in order keep the store among those that are admitted. -/
theorem evaluatedAll {es : List Expr} {vs : List Value} (hm : Realm.distinct.Admits m.store)
    (hr : (b'.evaluateAll es).run m = .ok vs m₁) : Realm.distinct.Admits m₁.store := by
  have ha : Realm.distinct.Keeps m.current (b'.evaluateAll es) fun _ => True :=
    h.governs.composed (composed_evaluateAll (Realm.hosts_of_frame trivial _))
  exact ha.admits hm hr

/-- A statement binds what it introduces in its own frame, and widens no other one. -/
theorem executed {s : Stmt} {flow : Flow} (hs : s.Distinct) (hm : Realm.distinct.Admits m.store)
    (hr : (b'.execute s).run m = .ok flow m₁) :
    Realm.distinct.Admits m₁.store ∧ m.Widens m.store.frames.size m.current s.introduced m₁ :=
  ⟨(h.governs.execute trivial hs.decls).admits hm hr, (h.widens.execute s _ _).ok hr⟩

/-- One statement binds no name of the next ones, as they are all different. -/
theorem executeAll {ss : List Stmt} (hss : Stmt.DistinctAll ss)
    (hn : (Stmt.introducedAll ss).Nodup) (hfree : m.Free (Stmt.introducedAll ss))
    (hm : Realm.distinct.Admits m.store) :
    (b.executeAll ss).run m = (b'.executeAll ss).run m := by
  induction ss generalizing m with
  | nil => rfl
  | cons s ss ih =>
    obtain ⟨-, hrest, hapart⟩ := List.nodup_append'.1 hn
    have hfirst := h.execute s m hss.1 (hfree.mono fun _ => List.mem_append_left _) hm
    apply Eval.run_bind_eq hfirst
    intro flow m₁ hr
    obtain ⟨hm₁, hw⟩ := h.executed hss.1 hm hr
    cases flow with
    | normal =>
      have hfree₁ := (hfree.mono fun _ => List.mem_append_right _).widened hw hapart
      exact ih hss.2 hrest hfree₁ hm₁
    | _ => rfl

/-- The body of a function is run in the frame of its parameters, which are named differently. -/
theorem runBody {c : Closure} (hc : c.decl.Distinct) {arguments : List Value} (paren : Token)
    (hleast : c.decl.arity.least ≤ arguments.length) (hm : Realm.distinct.Admits m.store) :
    (b.runBody c arguments paren).run m = (b'.runBody c arguments paren).run m := by
  have hopened : Realm.distinct.Admits (m.opened c).store := hm.openFrame trivial []
  have hbind : Eval.Composed .distinct (b.over b') b' m.current
      (b.bindParams m.store.frames.size paren c.decl.params arguments)
      (b'.bindParams m.store.frames.size paren c.decl.params arguments) fun _ => True := by
    rw [← bindParams_over b b']
    exact composed_bindParams paren trivial hleast
  apply Eval.run_bind_eq (m := m.opened c) (h.composed hbind _ rfl hopened)
  intro _ m₁ hr
  have hm₁ := (h.governs.composed (hbind.right rfl)).admits (m := m.opened c) hopened hr
  have hw := (h.widens.bindParams paren c.decl.params arguments _ _).ok hr
  obtain ⟨-, hbody, hapart⟩ := List.nodup_append'.1 hc.nodup
  have hfree : Free { m₁ with current := m.store.frames.size }
      (Stmt.introducedAll c.decl.body) := by
    have hnew : Free { m.opened c with current := m.store.frames.size }
      (Stmt.introducedAll c.decl.body) := m.free_opened c.scope
    exact hnew.widened ⟨rfl, hw.size, hw.names⟩ hapart
  rw [Eval.run_inFrame, Eval.run_inFrame, h.executeAll hc.body hbody hfree hm₁]

/-- Both evaluations agree on calls, since the frame of a call is new. -/
theorem callClosure {c : Closure} (hc : c.decl.Distinct) {arguments : List Value} (paren : Token)
    (hleast : c.decl.arity.least ≤ arguments.length) (hm : Realm.distinct.Admits m.store) :
    (b.callClosure c arguments paren).run m = (b'.callClosure c arguments paren).run m := by
  rw [Below.callClosure_eq_runBody, Below.callClosure_eq_runBody]
  exact Eval.run_bind_eq (h.runBody hc paren hleast hm) fun _ _ _ => rfl

theorem call (callee : Value) (arguments : List Value) (paren : Token)
    (hm : Realm.distinct.Admits m.store) :
    (b.call callee arguments paren).run m = (b'.call callee arguments paren).run m := by
  rw [Below.call_eq, Below.call_eq]
  change (b.callOn m callee arguments paren).run m = (b'.callOn m callee arguments paren).run m
  unfold callOn
  cases harity : m.store.arity? callee with
  | none => rfl
  | some arity =>
    dsimp only
    split
    · rfl
    · rename_i hcount
      have hleast : arity.least ≤ arguments.length := by omega
      cases callee with
      | closure id =>
        dsimp only
        cases hc : m.store.closures[id]? with
        | none => rfl
        | some c =>
          rw [Store.arity?, hc, Option.map_some, Option.some_inj] at harity
          rw [← harity] at hleast
          exact h.callClosure (hm.decl id c hc) paren hleast hm
      | classRef id =>
        dsimp only
        cases hi : m.store.init? id with
        | none => rfl
        | some init =>
          obtain ⟨method, -, hc⟩ := Option.bind_eq_some_iff.1 hi
          rw [Store.arity?, Store.classArity_eq, hi, Option.some_inj] at harity
          rw [← harity] at hleast
          have hdecl : init.decl.Distinct := hm.decl method init hc
          have hmade : Realm.distinct.Admits (m.instantiated id init).store :=
            (Realm.Admits.openFrame (s := (m.store.newObject id).2) (hm.congr rfl rfl) trivial _
              ).newClosure trivial hdecl
          rw [Below.run_construct, Below.run_construct]
          exact Eval.run_bind_eq
            (h.callClosure (c := { init with scope := m.store.frames.size }) hdecl paren hleast hmade)
            fun _ _ _ => rfl
      | _ => rfl

theorem evaluateStep (e : Expr) (hm : Realm.distinct.Admits m.store) :
    (b.evaluateStep e).run m = (b'.evaluateStep e).run m := by
  have ha : Eval.Composed .distinct (b.over b') b' m.current ((b.over b').evaluateStep e)
      (b'.evaluateStep e) fun _ => True :=
    composed_evaluateStep (Realm.hosts_of_frame trivial _)
  cases e with
  | call callee paren arguments =>
    apply Eval.run_bind_eq (h.evaluate callee m hm)
    intro v m₁ hr
    have hm₁ := (h.evaluated hm hr).1
    apply Eval.run_bind_eq (h.evaluateAll arguments hm₁)
    intro vs m₂ hr
    exact h.call v vs paren (h.evaluatedAll hm₁ hr)
  | comma items =>
    rw [show (b.over b').evaluateStep (.comma items) = b.evaluateLast .nil items from
      evaluateLast_over b b' .nil items] at ha
    exact h.composed ha m rfl hm
  | _ => exact h.composed ha m rfl hm

/-- The body of a loop declares nothing, so that no round binds a name for the next one. -/
theorem loop (condition : Expr) (increment : Option Expr) {body : Stmt} (hb : body.Distinct)
    (hnone : body.introduced = []) (rounds : Nat) (hfree : m.Free [])
    (hm : Realm.distinct.Admits m.store) :
    (b.loop condition increment body rounds).run m =
      (b'.loop condition increment body rounds).run m := by
  induction rounds generalizing m with
  | zero => rfl
  | succ rounds ih =>
    apply Eval.run_bind_eq (h.evaluate condition m hm)
    intro v m₁ hr
    obtain ⟨hm₁, hw₁⟩ := h.evaluated hm hr
    split
    · have hfree₁ : m₁.Free body.introduced := hnone ▸ hfree.narrowed hw₁
      apply Eval.run_bind_eq (h.execute body m₁ hb hfree₁ hm₁)
      intro flow m₂ hr
      obtain ⟨hm₂, hw₂⟩ := h.executed hb hm₁ hr
      have hfree₂ : m₂.Free [] := (hfree.narrowed hw₁).widened hw₂ (List.disjoint_nil_right _)
      have hagain : (do
          Functor.discard (b.evaluate? increment)
          b.loop condition increment body rounds).run m₂ = (do
          Functor.discard (b'.evaluate? increment)
          b'.loop condition increment body rounds).run m₂ := by
        have hnext : Eval.Composed .distinct (b.over b') b' m₂.current
            (Functor.discard ((b.over b').evaluate? increment))
            (Functor.discard (b'.evaluate? increment)) fun _ => True :=
          (composed_evaluate? (Realm.hosts_of_frame trivial)).discard
        apply Eval.run_bind_eq (h.composed hnext m₂ rfl hm₂)
        intro _ m₃ hr
        exact ih (hfree₂.narrowed ((h.widens.evaluate? increment).discard.ok hr))
          ((h.governs.composed (hnext.right rfl)).admits hm₂ hr)
      cases flow with
      | «break» keyword => rfl
      | «return» v => rfl
      | normal => exact hagain
      | next keyword => exact hagain
    · rfl

/-- Both evaluations agree on statements whose names are free in the frame. -/
theorem executeStep {s : Stmt} (hs : s.Distinct) (hfree : m.Free s.introduced)
    (hm : Realm.distinct.Admits m.store) :
    (b.executeStep s).run m = (b'.executeStep s).run m := by
  have hrounds : (b.over b').rounds ≤ b'.rounds := Nat.le_refl _
  have ha : Eval.Composed .distinct (b.over b') b' m.current ((b.over b').executeStep s)
      (b'.executeStep s) (·.Among s.signals s.returns) :=
    composed_executeStep hrounds trivial hs.decls
  cases s with
  | block body =>
    have hopened : Realm.distinct.Admits (m.store.openFrame (some m.current) []).2 :=
      hm.openFrame trivial []
    have hbody := h.executeAll hs.2 hs.1 (m.free_opened m.current) hopened
    let m₁ : Machine := { m with store := (m.store.openFrame (some m.current) []).2 }
    change (inFrame m.store.frames.size (b.executeAll body)).run m₁ =
      (inFrame m.store.frames.size (b'.executeAll body)).run m₁
    rw [Eval.run_inFrame, Eval.run_inFrame, hbody]
  | ifThen condition whenTrue =>
    apply Eval.run_bind_eq (h.evaluate condition m hm)
    intro v m₁ hr
    obtain ⟨hm₁, hw⟩ := h.evaluated hm hr
    split
    · exact h.execute whenTrue m₁ hs (hfree.narrowed hw) hm₁
    · rfl
  | ifElse condition whenTrue whenFalse =>
    apply Eval.run_bind_eq (h.evaluate condition m hm)
    intro v m₁ hr
    obtain ⟨hm₁, hw⟩ := h.evaluated hm hr
    have hfree₁ := hfree.narrowed hw
    split
    · exact h.execute whenTrue m₁ hs.1 (hfree₁.mono fun _ => List.mem_append_left _) hm₁
    · exact h.execute whenFalse m₁ hs.2 (hfree₁.mono fun _ => List.mem_append_right _) hm₁
  | «while» condition body =>
    rw [Below.executeStep, Below.executeStep, h.rounds]
    exact h.loop condition none hs.2 hs.1 _ (hs.1 ▸ hfree) hm
  | «for» condition increment body =>
    rw [Below.executeStep, Below.executeStep, h.rounds]
    exact h.loop condition increment hs.2 hs.1 _ (hs.1 ▸ hfree) hm
  | _ => exact h.composed ha m rfl hm

omit h in
theorem bindsAnew_opened (hb : b'.Widens) {c : Closure} (hc : c.decl.Distinct)
    (arguments : List Value) :
    b'.BindsAnew m.store.frames.size c.decl.params arguments (m.opened c) := by
  have hnew : ∀ p ∈ c.decl.params, ¬ (m.opened c).store.Taken m.store.frames.size p.name.lexeme := by
    rintro p - ⟨-, hbound⟩
    rw [show (m.opened c).store.names m.store.frames.size = [] from m.store.names_opened _] at hbound
    cases hbound
  exact hb.bindsAnew arguments (List.nodup_append'.1 hc.nodup).1
    (by simp [opened, Store.openFrame]) hnew

theorem bindsAnew_expr (e : Expr) (hm : Realm.distinct.Admits m.store) : e.BindsAnew b' m := by
  cases e with
  | call callee paren arguments =>
    intro v vs m₁ m₂ hcallee harguments
    have hm₂ := h.evaluatedAll (h.evaluated hm hcallee).1 harguments
    cases v with
    | closure id =>
      intro c hc
      exact bindsAnew_opened h.widens (hm₂.decl id c hc) vs
    | classRef id =>
      intro init hi
      obtain ⟨method, -, hc⟩ := Option.bind_eq_some_iff.1 hi
      exact bindsAnew_opened (c := { init with scope := m₂.store.frames.size }) h.widens
        (hm₂.decl method init hc) vs
    | _ => trivial
  | _ => trivial

theorem bindsAnew_stmt {s : Stmt} (hfree : m.Free s.introduced) : s.BindsAnew b' m := by
  cases s with
  | var name initial =>
    intro v m₁ hr
    have hfree₁ := hfree.narrowed ((h.widens.evaluate? initial).ok hr)
    exact hfree₁.free _ (List.mem_singleton_self _)
  | function decl => exact hfree.free _ (List.mem_singleton_self _)
  | «class» name superclass methods statics =>
    intro parent m₁ hr
    have hfree₁ := hfree.narrowed ((h.widens.evaluateSuperclass superclass).ok hr)
    exact hfree₁.free _ (List.mem_singleton_self _)
  | _ => trivial

end Below.Coincides

/-- Evaluation under the watch is no different. -/
theorem coincides_watched (alarm : Stop) (depth : Nat) :
    (Watch.anew.below alarm depth).Coincides (.upTo depth) := by
  induction depth with
  | zero =>
    exact ⟨fun _ _ _ => rfl, fun _ _ _ _ _ => rfl, rfl, Realm.governs_upTo _ _,
      Below.widens_upTo _⟩
  | succ depth ih =>
    refine ⟨fun e m hm => ?_, fun s m hs hfree hm => ?_, rfl, Realm.governs_upTo _ _,
      Below.widens_upTo _⟩
    · exact (run_guarded (ih.bindsAnew_expr e hm)).trans (ih.evaluateStep e hm)
    · exact (run_guarded (ih.bindsAnew_stmt hfree)).trans (ih.executeStep hs hfree hm)

namespace Below.Coincides

variable {b : Below} {depth : Nat} (h : b.Coincides (.upTo depth)) {ss : List Stmt}
include h

theorem runTopLevel {s : Stmt} (hs : s.Distinct) (interactive : Bool)
    (hg : m.current = .globals) (hm : Realm.distinct.Admits m.store) :
    (Session.runTopLevel b interactive s).run m =
      (Session.runTopLevel (.upTo depth) interactive s).run m := by
  have hrun : (Session.runStatement b s).run m =
      (Session.runStatement (.upTo depth) s).run m :=
    Eval.run_bind_eq (h.execute s m hs (.of_globals hg) hm) fun _ _ _ => rfl
  cases interactive with
  | false => exact hrun
  | true =>
    cases s with
    | expr e => exact Eval.run_bind_eq (h.evaluate e m hm) fun _ _ _ => rfl
    | _ => exact hrun

theorem runAll (hss : Stmt.DistinctAll ss) (interactive : Bool) (hg : m.current = .globals)
    (hm : Realm.distinct.Admits m.store) :
    Session.runAll b interactive ss m = Session.runAll (.upTo depth) interactive ss m := by
  induction ss generalizing m with
  | nil => rfl
  | cons s ss ih =>
    have hends := h.governs.composed (Realm.composed_runTopLevel interactive trivial hss.1.decls
      fun x _ => Realm.strays_distinct x) m rfl hm
    rw [Session.runAll_cons, Session.runAll_cons, h.runTopLevel hss.1 interactive hg hm]
    cases hr : (Session.runTopLevel (.upTo depth) interactive s).run m with
    | ok u m₁ =>
      rw [hr] at hends
      exact ih hss.2 (hends.1.trans hg) hends.2.1
    | error stop m₁ =>
      rw [hr] at hends
      cases stop with
      | exhausted => rfl
      | failed failure =>
        have hrest := ih (m := { m₁ with current := .globals }) hss.2 rfl hends.2.1
        dsimp only
        rw [hrest]

/-- Both evaluations agree on whole programs, for those with a name twice in a scope are refused. -/
theorem runBy {s : Session} (hs : Realm.distinct.Admits s.machine.store)
    (hg : s.machine.current = .globals) (source : String) :
    s.runBy b source = s.runBy (.upTo depth) source := by
  cases haccepted : s.accepted? source with
  | none => exact Session.runBy_unrun haccepted b (.upTo depth)
  | some ss =>
    have hdistinct := Session.distinct_of_accepted haccepted
    have hrun : Session.interpret b s.interactive ss (s.entered source ss) =
        Session.interpret (.upTo depth) s.interactive ss (s.entered source ss) := by
      unfold Session.interpret
      rw [h.runAll hdistinct s.interactive (m := s.entered source ss) hg hs]
    rw [Session.runBy_accepted haccepted, Session.runBy_accepted haccepted, hrun]

theorem play {s : Session} (hs : Realm.distinct.Admits s.machine.store)
    (hg : s.machine.current = .globals) (turns : List Turn) :
    s.play b turns = s.play (.upTo depth) turns := by
  induction turns generalizing s with
  | nil => rfl
  | cons t ts ih =>
    have hsame := h.runBy (s := s.supply t) hs hg t.source
    have hback := Session.current_runBy (Below.steps_upTo depth) (s := s.supply t) hg t.source
    have hheard : ∀ ss, (s.supply t).accepted? t.source = some ss → Realm.distinct.Hears ss :=
      fun ss hss => ⟨Stmt.distinct_declsAll (Session.distinct_of_accepted hss),
        fun x _ => Realm.strays_distinct x⟩
    have hstore := (Realm.Admits.runBy depth (s := s.supply t) hs hg hheard).1
    simp only [Session.play, hsame]
    rw [ih hstore hback]

end Below.Coincides

/-- Reports of misplaced items are exact. Wherever the scope walk of statements begins, it comes back
to the scopes, the function and the class that it began in, where only the innermost scope has got the
names that the statements declare in it. Apart from reads of variables in their own initial values it
reports those items that may not stand where they do, each once, and nothing else. The walk of a
program begins and ends outside all scopes, functions and classes. In every session, therefore,
parameters and local declarations bind their names for the first time. -/
theorem placement_exact :
    (∀ (ss : List Stmt) (w : Scope.Walk),
      let walk := Scope.walked (Scope.stmts ss) w
      w.Back (Stmt.introducedAll ss) walk ∧ walk.misplaced =
        w.misplaced ++ (Stmt.placementsAll w.spot ss).filterMap Placement.report?) ∧
    (∀ (globals : List String) (ss : List Stmt),
      let walk := resolve globals ss
      walk.scopes = [] ∧ walk.body = .none ∧ walk.family = .none ∧
        walk.misplaced = (Stmt.placementsAll .outside ss).filterMap Placement.report?) ∧
    (∀ (interactive : Bool) (input : List UInt8) (output : Output) (clock : Supply Int)
      (chances : Supply Nat) (turns : List Turn) (depth : Nat),
      Watch.anew.Holds depth (.start interactive (.start input output clock chances)) turns) := by
  refine ⟨fun ss w => ⟨(Scope.places_stmts ss w.spot).back w, Scope.misplaced_stmts ss w⟩, ?_, ?_⟩
  · intro globals ss walk
    have hback := (Scope.places_stmts ss .outside).back (.start globals)
    have hnone : walk.scopes.head? = none := Option.map_eq_none_iff.1 (hback.inner "")
    exact ⟨List.head?_eq_none_iff.1 hnone, hback.body, hback.family,
      Scope.misplaced_stmts ss (.start globals)⟩
  · intro interactive input output clock chances turns depth alarm
    have hstart : Realm.distinct.Admits (Machine.start input output clock chances).store :=
      Realm.admits_all.2 fun id c hc => by cases hc
    exact (coincides_watched alarm depth).play
      (s := .start interactive (.start input output clock chances)) hstart rfl turns

end Scriptling
