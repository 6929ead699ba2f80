import Scriptling.Proofs.Soundness

namespace Scriptling

open Machine

variable {t : Terms} {r r₁ : Register} {f g p : FrameId} {m : Machine}
  {origin : ClosureId → Option Origin} {caller : FrameId → Option ClosureId}

/-- A frame in which a method runs, called as a copy for its receiver. -/
structure Store.Runs (origin : ClosureId → Option Origin) (caller : FrameId → Option ClosureId)
    (s : Store) (f : FrameId) (id : ClosureId) (k : Closure) (c : ClassId) (static : Bool)
    (this : Value) : Prop where
  caller : caller f = some id
  closure : s.closures[id]? = some k
  origin : origin id = some (.copy c static)
  parent : s.parent? f = some k.scope
  receiver : s.local? k.scope "this" = some this
  serves : s.Serves this c static

/-- Methods are in the tables of their classes, and they are reached only as copies, in frames of
receivers that they may have. A receiver's frame has nothing else, and a frame inside it is one that
a copy runs in. -/
structure Store.Received (origin : ClosureId → Option Origin)
    (caller : FrameId → Option ClosureId) (s : Store) : Prop where
  functions : ∀ (id : ClosureId) (k : Closure), s.closures[id]? = some k →
    ∃ o, origin id = some o ∧ s.Fits k.scope o ∧ s.Stems origin k.decl o
  receivers : ∀ f this, s.local? f "this" = some this →
    ∃ home, s.frames[f]? = some ⟨[("this", this)], some home⟩
  methods : ∀ (c : ClassId) (record : ClassRecord) name id, s.classes[c]? = some record →
    record.methods.get? name = some id → origin id = some (.method c false)
  statics : ∀ (c : ClassId) (record : ClassRecord) name id, s.classes[c]? = some record →
    record.statics.get? name = some id → origin id = some (.method c true)
  bindings : ∀ f name v, s.local? f name = some v → v.Rightful origin s
  classFields : ∀ (c : ClassId) (record : ClassRecord) name v, s.classes[c]? = some record →
    record.fields.get? name = some v → v.Rightful origin s
  objectFields : ∀ (o : ObjectId) (ob : Object) name v, s.objects[o]? = some ob →
    ob.fields.get? name = some v → v.Rightful origin s
  calls : ∀ f p this, s.parent? f = some p → s.local? p "this" = some this →
    ∃ id k c static, s.Runs origin caller f id k c static this

/-- Evaluation from such a store to another one. What it results in is no method. -/
structure Eval.Received {α : Type} (origin : ClosureId → Option Origin)
    (caller : FrameId → Option ClosureId) (act : Eval α) (Q : Store → α → Prop) (m : Machine) :
    Prop where
  before : m.store.Received origin caller
  after : (Machine.after act m).store.Received origin caller
  result : ∀ a m₁, act.run m = .ok a m₁ → Q m₁.store a

/-- The value that a statement returns is no method. -/
def Flow.Returns (origin : ClosureId → Option Origin) (s : Store) : Flow → Prop
  | .return v => v.Rightful origin s
  | _ => True

def Store.findKind? (s : Store) (static : Bool) (c : ClassId) (name : String) :
    Option ClosureId :=
  if static then s.findStatic? c name else s.findMethod? c name

/-- The method around a reference to the superclass, at which the receiver's frame is the next one
out from the `i`-th. The method that is referred to is of the same kind, and it is looked for from the
superclass of the method's own class on. -/
def Machine.MethodAt (origin : ClosureId → Option Origin) (caller : FrameId → Option ClosureId)
    (m : Machine) (σ : Site) (i : Nat) (c : ClassId) (this : Value) : Prop :=
  ∃ f id k d static layer, m.store.ancestor? m.current i = some f ∧
    σ.context[i]? = some layer ∧ layer.opener = .function k.decl ∧
    m.store.Runs origin caller f id k d static this ∧ m.store.Heads c d ∧
    ∀ name, m.store.findFor? this c name = m.store.findKind? static c name

/-- What is said of a reference to the superclass's method at the moment it is evaluated. -/
def Expr.Chooses (layout : FrameId → Option Opener) (heritage : FrameId → Option ClassId)
    (origin : ClosureId → Option Origin) (caller : FrameId → Option ClosureId)
    (programs : List (List Stmt)) (m : Machine) : Expr → Prop
  | .super id keyword _ => ∃ ss ∈ programs, ∃ σ ∈ Stmt.sitesAll [] ss,
    ∃ i declaration c this, σ.use = ⟨.super, id, keyword⟩ ∧
      m.SuperAt layout heritage σ (i + 1) declaration c this ∧
      m.MethodAt origin caller σ i c this
  | _ => True

/-- What is said of every step, the frames being assigned to scopes, functions to their origins, and
the frames of calls to the functions that are called. -/
def Watch.receivers (layout : FrameId → Option Opener) (heritage : FrameId → Option ClassId)
    (origin : ClosureId → Option Origin) (caller : FrameId → Option ClosureId)
    (programs : List (List Stmt)) : Watch where
  expr below e m := e.Opens layout below m ∧ e.Makes origin caller below m ∧
    (below.evaluateStep e).Received origin caller (fun s v => v.Rightful origin s) m ∧
    e.Chooses layout heritage origin caller programs m
  stmt below st m := st.Opens layout heritage below m ∧ st.Makes origin below m ∧
    (below.executeStep st).Received origin caller (fun s flow => flow.Returns origin s) m

namespace Register

/-- A function in a receiver's frame is a copy of a method. -/
theorem Sound.copy (h : r.Sound t) {id : ClosureId} {k : Closure}
    (hk : r.store.closures[id]? = some k) {this : Value}
    (hthis : r.store.local? k.scope "this" = some this) :
    ∃ c static home, r.origin id = some (.copy c static) ∧ r.store.parent? k.scope = some home ∧
      r.store.Home c home ∧ r.store.Serves this c static := by
  obtain ⟨o, ho, hfits, -⟩ := (h.closures id k hk).origin
  cases o with
  | function => exact absurd (hthis.symm.trans hfits) nofun
  | method c static => exact absurd (hthis.symm.trans hfits.receiver) nofun
  | copy c static =>
    obtain ⟨this', home, hthis', hparent, hhome, hserves⟩ := hfits
    rw [hthis] at hthis'
    cases hthis'
    exact ⟨c, static, home, ho, hparent, hhome, hserves⟩

/-- In a frame inside a receiver's a copy of a method runs. -/
theorem Sound.runs (h : r.Sound t) (hp : r.store.parent? f = some p) {this : Value}
    (hthis : r.store.local? p "this" = some this) :
    ∃ id k c static home, r.store.Runs r.origin r.caller f id k c static this ∧ k.scope = p ∧
      r.store.parent? p = some home ∧ r.store.Home c home ∧ t.tie f k.decl := by
  obtain ⟨frame, hframe, hparent⟩ := Option.bind_eq_some_iff.1 hp
  have hcalled := (h.frames f frame hframe).called p hparent (by rw [hthis]; rfl)
  obtain ⟨id, hid⟩ := Option.isSome_iff_exists.1 hcalled
  obtain ⟨k, hk, hscope, htie⟩ := h.callers f id hid
  rw [hp] at hscope
  cases hscope
  obtain ⟨c, static, home, ho, hhome, hclass, hserves⟩ := h.copy hk hthis
  exact ⟨id, k, c, static, home, ⟨hid, hk, ho, hp, hthis, hserves⟩, rfl, hhome, hclass, htie⟩

end Register

/-- What is noted later was noted before for what was there before. -/
theorem Store.Runs.later {s : Store} {id : ClosureId} {k : Closure} {c : ClassId} {static : Bool}
    {this : Value} (h : s.Runs r.origin r.caller f id k c static this) (hr : r ≤ r₁) :
    s.Runs r₁.origin r₁.caller f id k c static this :=
  ⟨hr.caller f id h.caller, h.closure, hr.origin id _ h.origin, h.parent, h.receiver, h.serves⟩

theorem Register.At.received (hm : r.At t f m) (hr : r ≤ r₁) :
    m.store.Received r₁.origin r₁.caller := by
  have hsound := hm.sound
  rw [hm.store]
  constructor
  case functions =>
    intro id k hk
    obtain ⟨o, ho, hfits, hstems⟩ := (hsound.closures id k hk).origin
    exact ⟨o, hr.origin id o ho, hfits, hstems.mono hr.origin (.refl _)⟩
  case receivers =>
    intro g this hthis
    exact (hsound.receiver hthis).1
  case methods =>
    intro c record name id hrecord hid
    exact hr.origin id _ ((hsound.classes c record hrecord).methods name id hid)
  case statics =>
    intro c record name id hrecord hid
    exact hr.origin id _ ((hsound.classes c record hrecord).statics name id hid)
  case bindings =>
    intro g name v hv
    exact (hsound.local? hv).later hr
  case classFields =>
    intro c record name v hrecord hv
    exact ((hsound.classes c record hrecord).fields name v hv).later hr
  case objectFields =>
    intro o ob name v hob hv
    exact ((hsound.objects o ob hob).fields name v hv).later hr
  case calls =>
    intro g p this hp hthis
    obtain ⟨id, k, c, static, -, hruns, -⟩ := hsound.runs hp hthis
    exact ⟨id, k, c, static, hruns.later hr⟩

/-- What an inquiry shows of evaluation is what is claimed of its store. -/
theorem Register.Ends.received {α : Type} {act : Eval α} {Q : Register → α → Prop}
    {Q' : Store → α → Prop} {L : Register} (hm : r.At t f m) (hr : r ≤ r₁)
    (hends : r₁.Ends t f Q (act.run m)) (hL : r₁ ≤ L) (hq : ∀ a, Q r₁ a → Q' r₁.store a) :
    act.Received L.origin L.caller Q' m := by
  refine ⟨hm.received (Register.le_trans hr hL), hends.after.received hL, fun a m₁ hrun => ?_⟩
  obtain ⟨hstore, ha⟩ := hends.result hrun
  rw [hstore]
  exact hq a ha

/-- A receiver has methods of the kind that is run for it. -/
theorem Store.Serves.findFor?_eq {s : Store} {this : Value} {d : ClassId} {static : Bool}
    (h : s.Serves this d static) (c : ClassId) (name : String) :
    s.findFor? this c name = s.findKind? static c name := by
  cases static with
  | false =>
    obtain ⟨o, ob, rfl, -⟩ := h
    rfl
  | true =>
    obtain ⟨k, rfl, -⟩ := h
    rfl

/-- On the way out to a frame lie all the others before it. -/
theorem Store.ancestor?_before {s : Store} {i : Nat} (h : s.ancestor? f (i + 1) = some g) :
    ∃ inner, s.ancestor? f i = some inner := by
  rw [Store.ancestor?] at h
  obtain ⟨p, hp, hrest⟩ := Option.bind_eq_some_iff.1 h
  induction i generalizing f p with
  | zero => exact ⟨f, if_pos (Store.lt_of_parent? hp)⟩
  | succ i ih =>
    rw [Store.ancestor?] at hrest
    obtain ⟨q, hq, hlast⟩ := Option.bind_eq_some_iff.1 hrest
    obtain ⟨inner, hinner⟩ := ih hrest q hq hlast
    refine ⟨inner, ?_⟩
    rw [Store.ancestor?, hp]
    exact hinner

/-- Scopes and frames go out together. -/
theorem Store.Lies.ancestor {layout : FrameId → Option Opener} {s : Store} {Γ : Context}
    (h : s.Lies layout f Γ) {i : Nat} {layer : Layer} (hlayer : Γ[i]? = some layer)
    (hg : s.ancestor? f i = some g) : layout g = some layer.opener := by
  induction h generalizing i with
  | globals => cases hlayer
  | @inside f p first Γ hfirst hp _ ih =>
    cases i with
    | zero =>
      cases hlayer
      rw [Store.ancestor?] at hg
      split at hg
      · cases hg
        exact hfirst
      · cases hg
    | succ i =>
      rw [Store.ancestor?, hp] at hg
      exact ih hlayer hg

/-- A reference to the superclass is evaluated in a frame that variables are named in, so a call of a
method lies between it and the receiver's frame. -/
theorem Register.At.methodAt (hm : r.At t f m) {layout : FrameId → Option Opener}
    {heritage : FrameId → Option ClassId} (htie : ∀ f d, t.tie f d → layout f = some (.function d))
    {σ : Site} {d : Nat} {declaration : Stmt} {c : ClassId} {this : Value}
    (hat : m.SuperAt layout heritage σ d declaration c this) (hr : r ≤ r₁) :
    ∃ i, d = i + 1 ∧ m.MethodAt r₁.origin r₁.caller σ i c this := by
  have hsound := hm.sound
  obtain ⟨layer, g, hlayer, -, hg, -, hthis⟩ := hat.receiver
  obtain ⟨-, h, -, -, hh, -, -, hsuper⟩ := hat.superclass
  cases d with
  | zero =>
    -- the frame itself would be the receiver's
    exfalso
    rw [Store.ancestor?] at hg
    split at hg
    · cases hg
      rw [hm.store, hm.current, hm.ground.receiver] at hthis
      cases hthis
    · cases hg
  | succ i =>
    refine ⟨i, rfl, ?_⟩
    obtain ⟨inner, hinner⟩ := Store.ancestor?_before hg
    have hp := Store.parent?_of_ancestor? hinner hg
    have hhome := Store.parent?_of_ancestor? hg hh
    obtain ⟨inside, hinside⟩ : ∃ inside, σ.context[i]? = some inside := by
      have hlt := (List.getElem?_eq_some_iff.1 hlayer).1
      exact ⟨_, List.getElem?_eq_getElem (Nat.lt_of_succ_lt hlt)⟩
    rw [hm.store] at hp hthis hhome hsuper
    obtain ⟨id, k, e, static, home, hruns, -, hparent, hclass, hdecl⟩ := hsound.runs hp hthis
    rw [hhome] at hparent
    cases hparent
    have hopener : inside.opener = .function k.decl := by
      have hlayout := hat.lies.ancestor hinside hinner
      rw [htie _ _ hdecl] at hlayout
      exact (Option.some.inj hlayout).symm
    refine ⟨inner, id, k, e, static, inside, hinner, hinside, hopener, ?_⟩
    rw [hm.store]
    exact ⟨hruns.later hr, hclass.heads hsuper, hruns.serves.findFor?_eq c⟩

/-- What is known of a session whose frames are opened for these scopes. -/
def Terms.opened (layout : FrameId → Option Opener) : Terms where
  token := Token.Spelled
  spelled _ h := h
  tie f d := layout f = some (.function d)

/-- Frames that are opened for functions are tied to them. -/
theorem Expr.Opens.ties {layout : FrameId → Option Opener} {below : Below} {e : Expr}
    (h : e.Opens layout below m) : e.Ties (Terms.opened layout).tie below m := by
  cases e with
  | call callee paren arguments =>
    intro v vs m₁ m₂ hcallee harguments
    have hopens := h v vs m₁ m₂ hcallee harguments
    cases v with
    | closure id => exact hopens
    | classRef c =>
      intro method init hmethod hinit hleast hmost
      exact (hopens method init hmethod hinit hleast hmost).2
    | _ => trivial
  | _ => trivial

/-- What is said of receivers is answered by the register. -/
theorem Watch.receivers_answers {layout : FrameId → Option Opener}
    {heritage : FrameId → Option ClassId} (programs : List (List Stmt)) :
    Inquiry.Answers (.opened layout)
      ⟨fun below e m => e.Opens layout below m ∧ e.Inherits layout heritage programs m,
        fun below st m => st.Opens layout heritage below m⟩
      fun L => .receivers layout heritage L.origin L.caller programs := by
  constructor
  case ties =>
    intro depth e m hknown
    exact hknown.1.ties
  case expr =>
    intro depth e m r r₁ L f hm hr hends hL hknown hmakes
    refine ⟨hknown.1, hmakes, hends.received hm hr hL fun _ hv => hv.later hL, ?_⟩
    cases e with
    | super id keyword method =>
      obtain ⟨ss, hss, σ, hσ, d, declaration, c, this, huse, hat, -⟩ := hknown.2
      obtain ⟨i, rfl, hmethod⟩ := hm.methodAt (fun _ _ h => h) hat (Register.le_trans hr hL)
      exact ⟨ss, hss, σ, hσ, i, declaration, c, this, huse, hat, hmethod⟩
    | _ => trivial
  case stmt =>
    intro depth st m r r₁ L f hm hr hends hL hknown hmakes _
    refine ⟨hknown, hmakes, hends.received hm hr hL fun flow hflow => ?_⟩
    cases flow with
    | «return» v => exact Value.Rightful.later hflow hL
    | _ => trivial

/-- Receivers are what methods want, throughout every session. At every step and between programs,
whatever a program can reach is no method of a class but a copy of one, in a frame that binds an
instance or a class that may be its receiver, and nothing else; what is called and the arguments are
no methods either. A reference to the superclass stands in a method that runs for such a receiver,
and finds one of the same kind. -/
theorem receivers_typed (interactive : Bool) (input : List UInt8) (output : Output)
    (clock : Supply Int) (chances : Supply Nat) (depth : Nat) (turns : List Turn) :
    let s := Session.start interactive (.start input output clock chances)
    let programs := s.programs (.upTo depth) turns
    ∃ layout heritage origin caller,
      (Watch.receivers layout heritage origin caller programs).Holds depth s turns ∧
        s.machine.store.Received origin caller ∧
        ∀ o ∈ s.play (.upTo depth) turns, o.session.machine.store.Received origin caller := by
  intro s programs
  obtain ⟨w, hw⟩ := Watch.exists_holds (W := fun w =>
    ⟨fun below e m => e.Opens w.layout below m ∧ e.Inherits w.layout w.heritage programs m,
      fun below st m => st.Opens w.layout w.heritage below m⟩)
    interactive input output clock chances depth turns rfl fun S _ hsites =>
      ⟨fun hs hc hm hL hopens => ⟨hopens, S.inherits hsites hs hc hm hL⟩, fun hopens => hopens⟩
  obtain ⟨L, hblank, hholds, hout⟩ := (Watch.receivers_answers programs).exists_holds (s := s) rfl
    (fun turn _ => tokensOf_scan_spelled turn.source) hw
  refine ⟨w.layout, w.heritage, L.origin, L.caller, hholds, ?_, fun o ho => ?_⟩
  · exact (Register.at_blank .any input output clock chances).received hblank
  · obtain ⟨-, r, hr, hm⟩ := hout o ho
    exact hm.received hr

end Scriptling
