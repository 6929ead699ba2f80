import Mathlib.Logic.Relation
import Scriptling.Proofs.Growth
import Scriptling.Proofs.Heap
import Scriptling.Proofs.Within

namespace Scriptling

/-- Where a function comes from: from a declaration outside classes, from a method of a class, or from
binding such a method to a receiver. -/
inductive Origin where
  | function
  | method (c : ClassId) (static : Bool)
  | copy (c : ClassId) (static : Bool)
deriving DecidableEq

/-- Functions and copies of methods are values, methods themselves are none. -/
def Origin.Callable : Origin → Prop
  | .method _ _ => False
  | _ => True

/-- The function is a method of instances or a copy of one. -/
def Origin.OfInstances : Origin → Prop
  | .function => False
  | .method _ static | .copy _ static => static = false

/-- Of several functions declared by one name the last one counts. -/
def FunctionDecl.last? (ds : List FunctionDecl) (name : String) : Option FunctionDecl :=
  ds.reverse.find? (·.name.lexeme = name)

/-- A declaration counts where no later one has its name. -/
theorem FunctionDecl.last?_cons (d : FunctionDecl) (ds : List FunctionDecl) (name : String) :
    last? (d :: ds) name =
      (last? ds name).or (if d.name.lexeme = name then some d else none) := by
  rw [last?, List.reverse_cons, List.find?_append, last?]
  congr 1
  by_cases hd : d.name.lexeme = name <;> simp [hd]

/-- What is found by a name has that name. -/
theorem FunctionDecl.lexeme_of_last? {d : FunctionDecl} {ds : List FunctionDecl} {name : String}
    (h : last? ds name = some d) : d.name.lexeme = name := by
  simpa using List.find?_some h

def ClassRecord.members (r : ClassRecord) : Bool → Table ClosureId
  | false => r.methods
  | true => r.statics

namespace Store

/-- A table has the functions that were declared, the last one of each name. -/
def Lists (s : Store) (table : Table ClosureId) (ds : List FunctionDecl) : Prop :=
  ∀ name, Option.Rel (fun k d => ∃ c, s.closures[k]? = some c ∧ c.decl = d) (table.get? name)
    (FunctionDecl.last? ds name)

/-- One store after the other. Receivers and superclasses stay in their frames besides. -/
structure Advances (s s' : Store) : Prop where
  grows : s.Grows s'
  keywords : ∀ f name, f < s.frames.size → name = "this" ∨ name = "super" →
    s'.local? f name = s.local? f name

/-- One class inherits from another one, or is the same. -/
def Inherits (s : Store) : ClassId → ClassId → Prop :=
  Relation.ReflTransGen fun c p => s.Heads p c

/-- A receiver that a method of a class may have: an instance or a class, of that class or of one that
inherits from it. -/
def Serves (s : Store) (this : Value) (c : ClassId) (static : Bool) : Prop :=
  match static with
  | false => ∃ o ob, this = .object o ∧ s.objects[o]? = some ob ∧ s.Inherits ob.instanceOf c
  | true => ∃ k, this = .classRef k ∧ s.Inherits k c

/-- The frame in which a class's methods are made. It has the superclass if there is one. -/
structure Home (s : Store) (c : ClassId) (f : FrameId) : Prop where
  size : f < s.frames.size
  receiver : s.local? f "this" = none
  superclass : ∃ record, s.classes[c]? = some record ∧
    s.local? f "super" = record.superclass.map .classRef

/-- A frame that programs name variables in. -/
structure Ground (s : Store) (f : FrameId) : Prop where
  size : f < s.frames.size
  receiver : s.local? f "this" = none
  superclass : s.local? f "super" = none

/-- A function stands in such a frame as its origin says. -/
def Fits (s : Store) (scope : FrameId) : Origin → Prop
  | .function => s.local? scope "this" = none
  | .method c _ => s.Home c scope
  | .copy c static => ∃ this p, s.local? scope "this" = some this ∧ s.parent? scope = some p ∧
    s.Home c p ∧ s.Serves this c static

/-- A copy is one of a method of its class. -/
def Stems (origin : ClosureId → Option Origin) (s : Store) (decl : FunctionDecl) : Origin → Prop
  | .copy c static => ∃ id k, origin id = some (.method c static) ∧ s.closures[id]? = some k ∧
    k.decl = decl
  | _ => True

variable {s s' s'' : Store} {f : FrameId} {c d : ClassId} {v : Value}

theorem Advances.refl (s : Store) : s.Advances s := ⟨.refl s, fun _ _ _ _ => rfl⟩

theorem Advances.trans (h : s.Advances s') (h' : s'.Advances s'') : s.Advances s'' where
  grows := h.grows.trans h'.grows
  keywords f name hf hname :=
    (h'.keywords f name (Nat.lt_of_lt_of_le hf h.grows.frames.size_le) hname).trans
      (h.keywords f name hf hname)

theorem Lists.mono {table : Table ClosureId} {ds : List FunctionDecl} (h : s.Lists table ds)
    (hs : s.Grows s') : s'.Lists table ds := by
  intro name
  have hname := h name
  generalize table.get? name = found, FunctionDecl.last? ds name = last at hname ⊢
  cases hname with
  | none => exact .none
  | some hk =>
    obtain ⟨c, hc, hdecl⟩ := hk
    exact .some ⟨c, hs.closure hc, hdecl⟩

theorem Heads.mono (h : s.Heads d c) (hs : s.Grows s') : s'.Heads d c := by
  obtain ⟨record, hrecord, hsuper⟩ := h
  obtain ⟨record', hrecord', hgrows⟩ := hs.classes c record hrecord
  exact ⟨record', hrecord', hgrows.superclass.trans hsuper⟩

theorem Inherits.mono (h : s.Inherits c d) (hs : s.Grows s') : s'.Inherits c d :=
  Relation.ReflTransGen.mono (fun _ _ h => Heads.mono h hs) _ _ h

theorem Serves.mono {static : Bool} (h : s.Serves v c static) (hs : s.Grows s') :
    s'.Serves v c static := by
  cases static with
  | false =>
    obtain ⟨o, ob, rfl, hob, hinherits⟩ := h
    obtain ⟨ob', hob', hgrows⟩ := hs.objects o ob hob
    exact ⟨o, ob', rfl, hob', hgrows.instanceOf ▸ hinherits.mono hs⟩
  | true =>
    obtain ⟨k, rfl, hinherits⟩ := h
    exact ⟨k, rfl, hinherits.mono hs⟩

theorem Home.mono (h : s.Home c f) (hs : s.Advances s') : s'.Home c f := by
  obtain ⟨record, hrecord, hsuper⟩ := h.superclass
  obtain ⟨record', hrecord', hgrows⟩ := hs.grows.classes c record hrecord
  refine ⟨Nat.lt_of_lt_of_le h.size hs.grows.frames.size_le,
    (hs.keywords f _ h.size (.inl rfl)).trans h.receiver, record', hrecord', ?_⟩
  rw [hs.keywords f _ h.size (.inr rfl), hgrows.superclass]
  exact hsuper

/-- The superclass that is seen from the frame of a class is that of the class. -/
theorem Home.heads (h : s.Home c f) (hsuper : s.local? f "super" = some (.classRef d)) :
    s.Heads d c := by
  obtain ⟨record, hrecord, hsuperclass⟩ := h.superclass
  rw [hsuper] at hsuperclass
  obtain ⟨p, hp, hd⟩ := Option.map_eq_some_iff.1 hsuperclass.symm
  cases hd
  exact ⟨record, hrecord, hp⟩

theorem Ground.mono (h : s.Ground f) (hs : s.Advances s') : s'.Ground f :=
  ⟨Nat.lt_of_lt_of_le h.size hs.grows.frames.size_le,
    (hs.keywords f _ h.size (.inl rfl)).trans h.receiver,
    (hs.keywords f _ h.size (.inr rfl)).trans h.superclass⟩

theorem Fits.mono {o : Origin} (h : s.Fits f o) (hf : f < s.frames.size) (hs : s.Advances s') :
    s'.Fits f o := by
  have hthis := hs.keywords f "this" hf (.inl rfl)
  cases o with
  | function => exact hthis.trans h
  | method c static => exact Home.mono h hs
  | copy c static =>
    obtain ⟨this, p, hlocal, hparent, hhome, hserves⟩ := h
    exact ⟨this, p, hthis.trans hlocal, (hs.grows.parent?_eq hf).trans hparent, hhome.mono hs,
      hserves.mono hs.grows⟩

theorem Stems.mono {origin origin' : ClosureId → Option Origin} {decl : FunctionDecl} {o : Origin}
    (h : s.Stems origin decl o) (ho : ∀ id o, origin id = some o → origin' id = some o)
    (hs : s.Grows s') : s'.Stems origin' decl o := by
  cases o with
  | copy c static =>
    obtain ⟨id, k, hmethod, hk, hdecl⟩ := h
    exact ⟨id, k, ho id _ hmethod, hs.closure hk, hdecl⟩
  | _ => trivial

end Store

/-- A value that a program may get to see. -/
structure Value.Rightful (origin : ClosureId → Option Origin) (s : Store) (v : Value) : Prop where
  allocated : v.Allocated s
  callable : ∀ id, v = .closure id → ∃ o, origin id = some o ∧ o.Callable

theorem Value.Allocated.mono {s s' : Store} {v : Value} (h : v.Allocated s) (hs : s.Grows s') :
    v.Allocated s' := by
  cases v with
  | closure id => exact Nat.lt_of_lt_of_le h hs.closures.size_le
  | classRef c => exact Nat.lt_of_lt_of_le h hs.classes.size_le
  | object o => exact Nat.lt_of_lt_of_le h hs.objects.size_le
  | _ => trivial

/-- What is known of a session: which tokens its programs have, and which functions its frames can be
opened for. -/
structure Terms where
  token : Token → Prop
  spelled : ∀ t, token t → t.Spelled
  tie : FrameId → FunctionDecl → Prop

/-- A register of a session: its store, where each function comes from, and which function each frame
was opened to call. What is said of a register stays true while the session goes on. -/
structure Register where
  store : Store
  origin : ClosureId → Option Origin
  caller : FrameId → Option ClosureId
  declared : ClassId → Bool → List FunctionDecl

namespace Register

/-- A receiver's frame has the receiver only. A frame in it is one that was opened for a call. -/
structure FrameSound (r : Register) (f : FrameId) (frame : Frame) : Prop where
  outermost : f = .globals → frame.parent = none
  enclosed : f ≠ .globals → ∃ p, frame.parent = some p ∧ p < f
  values : ∀ name v, frame.bindings.get? name = some v → v.Rightful r.origin r.store
  receiver : ∀ v, frame.bindings.get? "this" = some v → frame.bindings = [("this", v)] ∧
    ∃ c static h, r.store.Serves v c static ∧ frame.parent = some h ∧ r.store.Home c h
  called : ∀ p, frame.parent = some p → (r.store.local? p "this").isSome → (r.caller f).isSome

structure ClosureSound (t : Terms) (r : Register) (id : ClosureId) (c : Closure) : Prop where
  scope : c.scope < r.store.frames.size
  decl : c.decl.Within t.token
  origin : ∃ o, r.origin id = some o ∧ r.store.Fits c.scope o ∧ r.store.Stems r.origin c.decl o
  initializer : ∀ o, r.origin id = some o →
    (c.initializer = true ↔ o.OfInstances ∧ c.decl.name.lexeme = "init")

structure ClassSound (r : Register) (c : ClassId) (record : ClassRecord) : Prop where
  superclass : ∀ p, record.superclass = some p → p < c
  methods : ∀ name k, record.methods.get? name = some k → r.origin k = some (.method c false)
  named : ∀ name k, record.methods.get? name = some k →
    ∃ method, r.store.closures[k]? = some method ∧ method.decl.name.lexeme = name
  statics : ∀ name k, record.statics.get? name = some k → r.origin k = some (.method c true)
  fields : ∀ name v, record.fields.get? name = some v → v.Rightful r.origin r.store
  declared : ∀ static, r.store.Lists (record.members static) (r.declared c static)

structure ObjectSound (r : Register) (o : Object) : Prop where
  instanceOf : o.instanceOf < r.store.classes.size
  fields : ∀ name v, o.fields.get? name = some v → v.Rightful r.origin r.store

structure Sound (t : Terms) (r : Register) : Prop where
  frames : ∀ (f : FrameId) (frame : Frame), r.store.frames[f]? = some frame → r.FrameSound f frame
  closures : ∀ (id : ClosureId) (c : Closure), r.store.closures[id]? = some c →
    r.ClosureSound t id c
  classes : ∀ (c : ClassId) (record : ClassRecord), r.store.classes[c]? = some record →
    r.ClassSound c record
  objects : ∀ (o : ObjectId) (ob : Object), r.store.objects[o]? = some ob → r.ObjectSound ob
  globals : r.store.Ground .globals
  unborn : ∀ id o, r.origin id = some o → id < r.store.closures.size
  callers : ∀ f k, r.caller f = some k → ∃ c, r.store.closures[k]? = some c ∧
    r.store.parent? f = some c.scope ∧ t.tie f c.decl

/-- One register after the other. What is noted stays noted. -/
structure Before (r r' : Register) : Prop where
  store : r.store.Advances r'.store
  origin : ∀ id o, r.origin id = some o → r'.origin id = some o
  caller : ∀ f k, r.caller f = some k → r'.caller f = some k
  declared : ∀ c, c < r.store.classes.size → r'.declared c = r.declared c

instance : LE Register := ⟨Before⟩

variable {t t' : Terms} {r r' r'' : Register} {f : FrameId} {v : Value} {c : ClassId}

theorem le_refl (r : Register) : r ≤ r :=
  ⟨.refl _, fun _ _ h => h, fun _ _ h => h, fun _ _ => rfl⟩

theorem le_trans (h : r ≤ r') (h' : r' ≤ r'') : r ≤ r'' :=
  ⟨h.store.trans h'.store, fun id o ho => h'.origin id o (h.origin id o ho),
    fun f k hk => h'.caller f k (h.caller f k hk), fun c hc =>
      (h'.declared c (Nat.lt_of_lt_of_le hc h.store.grows.classes.size_le)).trans (h.declared c hc)⟩

end Register

theorem Value.Rightful.mono {r r' : Register} {v : Value} (h : v.Rightful r.origin r.store)
    (hr : r ≤ r') : v.Rightful r'.origin r'.store := by
  refine ⟨h.allocated.mono hr.store.grows, fun id hid => ?_⟩
  obtain ⟨o, ho, hcallable⟩ := h.callable id hid
  exact ⟨o, hr.origin id o ho, hcallable⟩

namespace Register

variable {t t' : Terms} {r r' r'' : Register} {f : FrameId} {v : Value} {c : ClassId}

/-- Frames come after those around them. -/
theorem FrameSound.parent_lt {frame : Frame} (h : r.FrameSound f frame) {p : FrameId}
    (hp : frame.parent = some p) : p < f := by
  by_cases hglobal : f = .globals
  · rw [h.outermost hglobal] at hp
    cases hp
  · obtain ⟨q, hq, hlt⟩ := h.enclosed hglobal
    rw [hp] at hq
    cases hq
    exact hlt

theorem FrameSound.mono {frame : Frame} (h : r.FrameSound f frame) (hf : f < r.store.frames.size)
    (hr : r ≤ r') : r'.FrameSound f frame where
  outermost := h.outermost
  enclosed := h.enclosed
  values name v hv := (h.values name v hv).mono hr
  receiver v hv := by
    obtain ⟨hbindings, c, static, home, hserves, hparent, hhome⟩ := h.receiver v hv
    exact ⟨hbindings, c, static, home, hserves.mono hr.store.grows, hparent, hhome.mono hr.store⟩
  called p hp hthis := by
    rw [hr.store.keywords p _ (Nat.lt_trans (h.parent_lt hp) hf) (.inl rfl)] at hthis
    obtain ⟨k, hk⟩ := Option.isSome_iff_exists.1 (h.called p hp hthis)
    rw [hr.caller f k hk]
    rfl

theorem ClosureSound.mono {id : ClosureId} {k : Closure} (h : r.ClosureSound t id k) (hr : r ≤ r') :
    r'.ClosureSound t id k := by
  obtain ⟨o, ho, hfits, hstems⟩ := h.origin
  refine ⟨Nat.lt_of_lt_of_le h.scope hr.store.grows.frames.size_le, h.decl, ⟨o, hr.origin id o ho,
    hfits.mono h.scope hr.store, hstems.mono hr.origin hr.store.grows⟩, fun o' ho' => ?_⟩
  rw [hr.origin id o ho] at ho'
  cases ho'
  exact h.initializer o ho

theorem ClassSound.mono {record : ClassRecord} (h : r.ClassSound c record)
    (hc : c < r.store.classes.size) (hr : r ≤ r') : r'.ClassSound c record where
  superclass := h.superclass
  methods name k hk := hr.origin k _ (h.methods name k hk)
  named name k hk := by
    obtain ⟨method, hmethod, hname⟩ := h.named name k hk
    exact ⟨method, hr.store.grows.closure hmethod, hname⟩
  statics name k hk := hr.origin k _ (h.statics name k hk)
  fields name v hv := (h.fields name v hv).mono hr
  declared static := by
    rw [hr.declared c hc]
    exact (h.declared static).mono hr.store.grows

theorem ObjectSound.mono {o : Object} (h : r.ObjectSound o) (hr : r ≤ r') : r'.ObjectSound o where
  instanceOf := Nat.lt_of_lt_of_le h.instanceOf hr.store.grows.classes.size_le
  fields name v hv := (h.fields name v hv).mono hr

namespace Sound

variable (h : r.Sound t)
include h

theorem later_frames (hr : r ≤ r') (f : FrameId) (frame : Frame)
    (hframe : r.store.frames[f]? = some frame) : r'.FrameSound f frame :=
  (h.frames f frame hframe).mono (Array.getElem?_eq_some_iff.1 hframe).1 hr

theorem later_closures (hr : r ≤ r') (id : ClosureId) (c : Closure)
    (hc : r.store.closures[id]? = some c) : r'.ClosureSound t id c :=
  (h.closures id c hc).mono hr

theorem later_objects (hr : r ≤ r') (o : ObjectId) (ob : Object)
    (hob : r.store.objects[o]? = some ob) : r'.ObjectSound ob :=
  (h.objects o ob hob).mono hr

theorem later_classes (hr : r ≤ r') (c : ClassId) (record : ClassRecord)
    (hrecord : r.store.classes[c]? = some record) : r'.ClassSound c record :=
  (h.classes c record hrecord).mono (Array.getElem?_eq_some_iff.1 hrecord).1 hr

theorem local? {name : String} (hv : r.store.local? f name = some v) :
    v.Rightful r.origin r.store := by
  obtain ⟨frame, hframe, hget⟩ := Option.bind_eq_some_iff.1 hv
  exact (h.frames f frame hframe).values name v hget

theorem parent?_lt {p : FrameId} (hp : r.store.parent? f = some p) : p < f := by
  obtain ⟨frame, hframe, hparent⟩ := Option.bind_eq_some_iff.1 hp
  exact (h.frames f frame hframe).parent_lt hparent

/-- What a receiver's frame is like. -/
theorem receiver (hv : r.store.local? f "this" = some v) :
    (∃ p, r.store.frames[f]? = some ⟨[("this", v)], some p⟩) ∧
      ∃ c static home, r.store.Serves v c static ∧ r.store.parent? f = some home ∧
        r.store.Home c home := by
  obtain ⟨⟨bindings, parent⟩, hframe, hget⟩ := Option.bind_eq_some_iff.1 hv
  obtain ⟨hbindings, c, static, home, hserves, hparent, hhome⟩ :=
    (h.frames f _ hframe).receiver v hget
  dsimp only at hbindings hparent
  subst hbindings hparent
  refine ⟨⟨home, hframe⟩, c, static, home, hserves, ?_, hhome⟩
  rw [Store.parent?, hframe]
  rfl

theorem formed : r.store.Formed where
  globals := by
    obtain ⟨frame, hframe⟩ := Store.frame?_eq_some h.globals.size
    exact ⟨frame, hframe, (h.frames _ frame hframe).outermost rfl⟩
  enclosed f frame hframe := (h.frames f frame hframe).enclosed
  scopes id c hc := (h.closures id c hc).scope
  superclasses c record p hrecord := (h.classes c record hrecord).superclass p
  methods c record name k hrecord hk := by
    have hclass := h.classes c record hrecord
    rcases hk with hk | hk
    · exact h.unborn k _ (hclass.methods name k hk)
    · exact h.unborn k _ (hclass.statics name k hk)
  instances o ob hob := (h.objects o ob hob).instanceOf
  bindings f name v hv := (h.local? hv).allocated
  classFields c record name v hrecord hv := ((h.classes c record hrecord).fields name v hv).allocated
  objectFields o ob name v hob hv := ((h.objects o ob hob).fields name v hv).allocated

end Sound

end Register

end Scriptling
