import Scriptling.Proofs.Answers
import Scriptling.Proofs.Padding

namespace Scriptling

/-- What is known of two stores: which frames are twins, which frames are around others in the first
store and in the second, and which functions are bound. A function that is not is a method without a
receiver. -/
structure Overlay where
  twin : FrameId → FrameId → Prop
  outer : FrameId → FrameId → Prop
  outer' : FrameId → FrameId → Prop
  kind : ClosureId → Bool → Prop

namespace Overlay

structure Grows (v w : Overlay) : Prop where
  twin : ∀ f f', v.twin f f' → w.twin f f'
  outer : ∀ f p, v.outer f p → w.outer f p
  outer' : ∀ f p, v.outer' f p → w.outer' f p
  kind : ∀ id bound, v.kind id bound → w.kind id bound

instance : LE Overlay := ⟨Grows⟩

variable {v w u : Overlay}

theorem le_refl (v : Overlay) : v ≤ v :=
  ⟨fun _ _ h => h, fun _ _ h => h, fun _ _ h => h, fun _ _ h => h⟩

theorem le_trans (h : v ≤ w) (h' : w ≤ u) : v ≤ u :=
  ⟨fun f g hf => h'.twin f g (h.twin f g hf), fun f p hf => h'.outer f p (h.outer f p hf),
    fun f p hf => h'.outer' f p (h.outer' f p hf), fun i b hi => h'.kind i b (h.kind i b hi)⟩

def openFrames (v : Overlay) (f f' p p' : FrameId) : Overlay where
  twin g g' := (g = f ∧ g' = f') ∨ v.twin g g'
  outer g q := (g = f ∧ q = p) ∨ v.outer g q
  outer' g q := (g = f' ∧ q = p') ∨ v.outer' g q
  kind := v.kind

def addFrame (v : Overlay) (f' p' : FrameId) : Overlay :=
  { v with outer' := fun g q => (g = f' ∧ q = p') ∨ v.outer' g q }

def newClosure (v : Overlay) (id : ClosureId) (bound : Bool) : Overlay :=
  { v with kind := fun i b => (i = id ∧ b = bound) ∨ v.kind i b }

theorem le_openFrames (v : Overlay) (f f' p p' : FrameId) : v ≤ v.openFrames f f' p p' :=
  ⟨fun _ _ h => .inr h, fun _ _ h => .inr h, fun _ _ h => .inr h, fun _ _ h => h⟩

theorem le_addFrame (v : Overlay) (f' p' : FrameId) : v ≤ v.addFrame f' p' :=
  ⟨fun _ _ h => h, fun _ _ h => h, fun _ _ h => .inr h, fun _ _ h => h⟩

theorem le_newClosure (v : Overlay) (id : ClosureId) (bound : Bool) : v ≤ v.newClosure id bound :=
  ⟨fun _ _ h => h, fun _ _ h => h, fun _ _ h => h, fun _ _ h => .inr h⟩

/-- On the way out from two frames the same twins are met, with frames in between in the second
store that the first has none for. -/
inductive Aligned (v : Overlay) : Padding → FrameId → FrameId → Prop
  | globals : v.twin .globals .globals → Aligned v [] .globals .globals
  | frame {ξ : Padding} {f f' p p' : FrameId} : v.twin f f' → v.outer f p → v.outer' f' p' →
      Aligned v ξ p p' → Aligned v (false :: ξ) f f'
  | added {ξ : Padding} {f f' p' : FrameId} : v.outer' f' p' → Aligned v ξ f p' →
      Aligned v (true :: ξ) f f'

namespace Aligned

variable {ξ : Padding} {f f' : FrameId}

theorem mono (h : v.Aligned ξ f f') (hv : v ≤ w) : w.Aligned ξ f f' := by
  induction h with
  | globals h => exact .globals (hv.twin _ _ h)
  | frame ht ho ho' _ ih => exact .frame (hv.twin _ _ ht) (hv.outer _ _ ho) (hv.outer' _ _ ho') ih
  | added ho' _ ih => exact .added (hv.outer' _ _ ho') ih

theorem twin (h : v.Aligned ξ f f') (hξ : ξ.Level) : v.twin f f' := by
  cases h with
  | globals h => exact h
  | frame h => exact h
  | added => exact absurd rfl hξ

/-- Inside a frame that both runs have just opened. -/
theorem opened (h : v.Aligned ξ f f') (g g' : FrameId) :
    (v.openFrames g g' f f').Aligned (false :: ξ) g g' :=
  .frame (.inl ⟨rfl, rfl⟩) (.inl ⟨rfl, rfl⟩) (.inl ⟨rfl, rfl⟩) (h.mono (v.le_openFrames _ _ _ _))

/-- Inside a frame that the second run has just opened. -/
theorem beside (h : v.Aligned ξ f f') (g' : FrameId) :
    (v.addFrame g' f').Aligned (true :: ξ) f g' :=
  .added (.inl ⟨rfl, rfl⟩) (h.mono (v.le_addFrame _ _))

end Aligned

end Overlay

def Value.Bound (v : Overlay) : Value → Prop
  | .closure id => v.kind id true
  | _ => True

theorem Value.Bound.mono {v w : Overlay} {a : Value} (h : a.Bound v) (hv : v ≤ w) : a.Bound w := by
  cases a with
  | closure id => exact hv.kind id true h
  | _ => trivial

theorem Value.bound_ofLiteral (v : Overlay) (l : Literal) : (Value.ofLiteral l).Bound v := by
  cases l <;> trivial

def Store.bindings? (s : Store) (f : FrameId) : Option (Table Value) :=
  s.frames[f]?.map Frame.bindings

/-- A frame's own value of a name is that of its table. -/
theorem Store.local?_of_bindings? {s : Store} {f : FrameId} {b : Table Value}
    (h : s.bindings? f = some b) (name : String) : s.local? f name = b.get? name := by
  obtain ⟨frame, hf, rfl⟩ := Option.map_eq_some_iff.1 h
  rw [local?, hf, Option.bind_some]

theorem Store.lt_of_bindings? {s : Store} {f : FrameId} {b : Table Value}
    (h : s.bindings? f = some b) : f < s.frames.size := by
  obtain ⟨frame, hf, -⟩ := Option.map_eq_some_iff.1 h
  exact (Array.getElem?_eq_some_iff.1 hf).1

/-- Where a frame was, opening one leaves its parent and its variables alone. -/
theorem Store.parent?_openFrame_of_some {s : Store} {f p : FrameId} (h : s.parent? f = some p)
    (parent : Option FrameId) (b : Table Value) :
    (s.openFrame parent b).2.parent? f = some p := by
  rw [parent?_openFrame, if_neg]
  · exact h
  · rintro rfl
    simp [parent?] at h

/-- A new frame leaves the variables of the others. -/
theorem Store.bindings?_openFrame_of_some {s : Store} {f : FrameId} {a : Table Value}
    (h : s.bindings? f = some a) (parent : Option FrameId) (b : Table Value) :
    (s.openFrame parent b).2.bindings? f = some a := by
  simp only [bindings?, openFrame, Array.getElem?_push, Nat.ne_of_lt (lt_of_bindings? h), if_false]
  exact h

/-- And it has those it was opened with. -/
theorem Store.bindings?_openFrame_self (s : Store) (parent : Option FrameId) (b : Table Value) :
    (s.openFrame parent b).2.bindings? s.frames.size = some b := by
  simp [bindings?, openFrame]

/-- A definition changes the table of its frame only. -/
theorem Store.bindings?_define (s : Store) (f g : FrameId) (name : String)
    (a : Value) : (s.define f name a).bindings? g =
      if f = g then (s.bindings? g).map (·.put name a) else s.bindings? g := by
  simp only [Store.define, Store.bindings?, Array.getElem?_modify]
  split
  · cases s.frames[g]? <;> rfl
  · rfl

namespace Overlay

structure Frames (v : Overlay) (s s' : Store) : Prop where
  twins : ∀ f f', v.twin f f' → ∃ b, s.bindings? f = some b ∧ s'.bindings? f' = some b
  unique : ∀ f f' g g', v.twin f f' → v.twin g g' → (f = g ↔ f' = g')
  outer : ∀ f p, v.outer f p → s.parent? f = some p
  outer' : ∀ f p, v.outer' f p → s'.parent? f = some p
  globals : v.twin .globals .globals
  outermost : s.parent? .globals = none
  outermost' : s'.parent? .globals = none
  bound : ∀ f name a, s.local? f name = some a → a.Bound v

def Methods (v : Overlay) (table : Table ClosureId) : Prop :=
  ∀ name id, table.get? name = some id → v.kind id false

def Fields (v : Overlay) (table : Table Value) : Prop :=
  ∀ name a, table.get? name = some a → a.Bound v

structure Record (v : Overlay) (r : ClassRecord) : Prop where
  methods : v.Methods r.methods
  statics : v.Methods r.statics
  fields : v.Fields r.fields

structure Classes (v : Overlay) (s s' : Store) : Prop where
  classes : s'.classes = s.classes
  objects : s'.objects = s.objects
  records : ∀ (c : ClassId) (r : ClassRecord), s.classes[c]? = some r → v.Record r
  fields : ∀ (o : ObjectId) (ob : Object), s.objects[o]? = some ob → v.Fields ob.fields

end Overlay

namespace Pairing

/-- The same function in both runs, made at one place of both programs. -/
structure Twins (P : Pairing) (v : Overlay) (bound : Bool) (c c' : Closure) : Prop where
  initializer : c'.initializer = c.initializer
  scope : ∃ ξ : Padding, ξ.Level ∧ v.Aligned ξ c.scope c'.scope ∧
    P.Functions (if bound then ξ else false :: ξ) c.decl c'.decl

structure Closures (P : Pairing) (v : Overlay) (s s' : Store) : Prop where
  size : s'.closures.size = s.closures.size
  born : ∀ id bound, v.kind id bound → id < s.closures.size
  unique : ∀ id bound bound', v.kind id bound → v.kind id bound' → bound = bound'
  paired : ∀ (id : ClosureId) (c : Closure), s.closures[id]? = some c →
    ∃ c' bound, s'.closures[id]? = some c' ∧ v.kind id bound ∧ P.Twins v bound c c'

/-- Stores that differ in the frames that only the second run opens. -/
structure Overlaid (P : Pairing) (v : Overlay) (s s' : Store) : Prop where
  frames : v.Frames s s'
  closures : P.Closures v s s'
  classes : v.Classes s s'

end Pairing

variable {P : Pairing} {v w : Overlay} {s s' t t' : Store} {ξ : Padding} {f f' : FrameId}

theorem Overlay.Frames.mono (h : v.Frames s s') (hv : v ≤ w) (ht : w.twin = v.twin)
    (ho : w.outer = v.outer) (ho' : w.outer' = v.outer') (hs : t.frames = s.frames)
    (hs' : t'.frames = s'.frames) : w.Frames t t' := by
  obtain ⟨frames, _, _, _⟩ := s
  obtain ⟨frames', _, _, _⟩ := s'
  obtain ⟨_, _, _, _⟩ := t
  obtain ⟨_, _, _, _⟩ := t'
  obtain ⟨_, _, _, _⟩ := w
  cases hs
  cases hs'
  cases ht
  cases ho
  cases ho'
  exact ⟨h.twins, h.unique, h.outer, h.outer', h.globals, h.outermost, h.outermost',
    fun f name a ha => (h.bound f name a ha).mono hv⟩

theorem Pairing.Twins.mono {bound : Bool} {c c' : Closure} (h : P.Twins v bound c c')
    (hv : v ≤ w) : P.Twins w bound c c' := by
  obtain ⟨hi, ξ, hξ, ha, hd⟩ := h
  exact ⟨hi, ξ, hξ, ha.mono hv, hd⟩

theorem Pairing.Closures.mono (h : P.Closures v s s') (hv : v ≤ w) (hk : w.kind = v.kind)
    (hs : t.closures = s.closures) (hs' : t'.closures = s'.closures) : P.Closures w t t' := by
  refine ⟨by rw [hs, hs', h.size], fun id b hb => ?_, fun id b b' => ?_, fun id c hc => ?_⟩
  · rw [hs]
    exact h.born id b (hk ▸ hb)
  · rw [hk]
    exact h.unique id b b'
  · obtain ⟨c', b, hc', hb, htwins⟩ := h.paired id c (hs ▸ hc)
    exact ⟨c', b, hs' ▸ hc', hk ▸ hb, htwins.mono hv⟩

theorem Overlay.Methods.mono {table : Table ClosureId} (h : v.Methods table) (hv : v ≤ w) :
    w.Methods table := fun name id hid => hv.kind id false (h name id hid)

theorem Overlay.Fields.mono {table : Table Value} (h : v.Fields table) (hv : v ≤ w) :
    w.Fields table := fun name a ha => (h name a ha).mono hv

theorem Overlay.Record.mono {r : ClassRecord} (h : v.Record r) (hv : v ≤ w) : w.Record r :=
  ⟨h.methods.mono hv, h.statics.mono hv, h.fields.mono hv⟩

theorem Overlay.Classes.mono (h : v.Classes s s') (hv : v ≤ w) (hs : t.classes = s.classes)
    (hs' : t'.classes = s'.classes) (ho : t.objects = s.objects) (ho' : t'.objects = s'.objects) :
    w.Classes t t' :=
  ⟨by rw [hs, hs', h.classes], by rw [ho, ho', h.objects],
    fun c r hr => (h.records c r (hs ▸ hr)).mono hv,
    fun o ob hob => (h.fields o ob (ho ▸ hob)).mono hv⟩

namespace Overlay.Frames

variable (h : v.Frames s s')
include h

theorem lt_size (ht : v.twin f f') : f < s.frames.size := by
  obtain ⟨b, hb, -⟩ := h.twins f f' ht
  exact Store.lt_of_bindings? hb

theorem lt_size' (ht : v.twin f f') : f' < s'.frames.size := by
  obtain ⟨b, -, hb⟩ := h.twins f f' ht
  exact Store.lt_of_bindings? hb

theorem local?_eq (ht : v.twin f f') (name : String) : s'.local? f' name = s.local? f name := by
  obtain ⟨b, hb, hb'⟩ := h.twins f f' ht
  rw [Store.local?_of_bindings? hb, Store.local?_of_bindings? hb']

/-- So many scopes out there are twins in both stores, or no frame in either. -/
theorem ancestor?_eq (ha : v.Aligned ξ f f') (d : Nat) :
    (s.ancestor? f d = none ∧ s'.ancestor? f' (ξ.stretch d) = none) ∨
      ∃ g g', s.ancestor? f d = some g ∧ s'.ancestor? f' (ξ.stretch d) = some g' ∧ v.twin g g' := by
  induction ha generalizing d with
  | globals ht =>
    cases d with
    | zero =>
      refine .inr ⟨.globals, .globals, ?_, ?_, ht⟩
      · rw [Store.ancestor?, if_pos (h.lt_size ht)]
      · rw [Padding.stretch, Store.ancestor?, if_pos (h.lt_size' ht)]
    | succ d =>
      refine .inl ⟨?_, ?_⟩
      · rw [Store.ancestor?, h.outermost, Option.bind_none]
      · rw [Padding.stretch, Store.ancestor?, h.outermost', Option.bind_none]
  | @frame ξ f f' p p' ht ho ho' _ ih =>
    cases d with
    | zero =>
      refine .inr ⟨f, f', ?_, ?_, ht⟩
      · rw [Store.ancestor?, if_pos (h.lt_size ht)]
      · rw [Padding.stretch, Store.ancestor?, if_pos (h.lt_size' ht)]
    | succ d =>
      rw [Padding.stretch, Store.ancestor?, Store.ancestor?, h.outer f p ho, h.outer' f' p' ho',
        Option.bind_some, Option.bind_some]
      exact ih d
  | @added ξ f f' p' ho' _ ih =>
    rw [Padding.stretch, Store.ancestor?, h.outer' f' p' ho', Option.bind_some]
    exact ih d

theorem getAt?_eq (ha : v.Aligned ξ f f') (d : Nat) (name : String) :
    s'.getAt? f' (ξ.stretch d) name = s.getAt? f d name := by
  rcases h.ancestor?_eq ha d with ⟨hn, hn'⟩ | ⟨g, g', hg, hg', ht⟩
  · rw [Store.getAt?, Store.getAt?, hn, hn', Option.bind_none, Option.bind_none]
  · rw [Store.getAt?, Store.getAt?, hg, hg', Option.bind_some, Option.bind_some,
      h.local?_eq ht name]

/-- A variable at a distance is in twins, or in no frame. -/
theorem holderAt?_eq (ha : v.Aligned ξ f f') (d : Nat) (name : String) :
    (s.holderAt? f d name = none ∧ s'.holderAt? f' (ξ.stretch d) name = none) ∨
      ∃ g g', s.holderAt? f d name = some g ∧ s'.holderAt? f' (ξ.stretch d) name = some g' ∧
        v.twin g g' := by
  rcases h.ancestor?_eq ha d with ⟨hn, hn'⟩ | ⟨g, g', hg, hg', ht⟩
  · rw [Store.holderAt?, Store.holderAt?, hn, hn']
    exact .inl ⟨rfl, rfl⟩
  · rw [Store.holderAt?, Store.holderAt?, hg, hg', Option.filter_some, Option.filter_some,
      h.local?_eq ht name]
    split
    · exact .inr ⟨g, g', rfl, rfl, ht⟩
    · exact .inl ⟨rfl, rfl⟩

/-- Among the globals both runs find the same. -/
theorem holder?_globals_eq (name : String) :
    s'.holder? .globals name = s.holder? .globals name ∧
      ∀ g, s.holder? .globals name = some g → g = .globals := by
  rw [Store.holder?_globals, Store.holder?_globals, h.local?_eq h.globals name]
  refine ⟨rfl, fun g hg => ?_⟩
  split at hg
  · exact (Option.some.inj hg).symm
  · cases hg

theorem get?_globals_eq (name : String) : s'.get? .globals name = s.get? .globals name := by
  obtain ⟨heq, hglobals⟩ := h.holder?_globals_eq name
  rw [Store.get?, Store.get?, heq]
  cases hg : s.holder? .globals name with
  | none => rfl
  | some g =>
    rw [hglobals g hg]
    exact h.local?_eq h.globals name

end Overlay.Frames

namespace Pairing.Overlaid

/-- A bound function, or a method without a receiver, has its twin. -/
theorem closure (h : P.Overlaid v s s') {id : ClosureId} {bound : Bool} (hk : v.kind id bound) :
    ∃ c c', s.closures[id]? = some c ∧ s'.closures[id]? = some c' ∧ P.Twins v bound c c' := by
  have hlt := h.closures.born id bound hk
  have hc : s.closures[id]? = some s.closures[id] := Array.getElem?_eq_getElem hlt
  obtain ⟨c', bound', hc', hk', htwins⟩ := h.closures.paired id _ hc
  obtain rfl := h.closures.unique id bound' bound hk' hk
  exact ⟨_, c', hc, hc', htwins⟩

/-- Frames that both runs open at the same moment are twins. -/
theorem openFrames (h : P.Overlaid v s s') {p p' : FrameId} {b : Table Value}
    (hb : ∀ name a, b.get? name = some a → a.Bound v) :
    P.Overlaid (v.openFrames s.frames.size s'.frames.size p p') (s.openFrame (some p) b).2
      (s'.openFrame (some p') b).2 := by
  have hv := v.le_openFrames s.frames.size s'.frames.size p p'
  have hglobals := h.frames.globals
  refine ⟨⟨?_, ?_, ?_, ?_, .inr hglobals, ?_, ?_, ?_⟩, h.closures.mono hv rfl rfl rfl,
    h.classes.mono hv rfl rfl rfl rfl⟩
  · rintro g g' (⟨rfl, rfl⟩ | ht)
    · exact ⟨b, s.bindings?_openFrame_self _ _, s'.bindings?_openFrame_self _ _⟩
    · obtain ⟨a, ha, ha'⟩ := h.frames.twins g g' ht
      exact ⟨a, Store.bindings?_openFrame_of_some ha _ _, Store.bindings?_openFrame_of_some ha' _ _⟩
  · rintro g g' k k' (⟨rfl, rfl⟩ | ht) (⟨rfl, rfl⟩ | hk)
    · exact ⟨fun _ => rfl, fun _ => rfl⟩
    · exact ⟨fun he => absurd he (Nat.ne_of_gt (h.frames.lt_size hk)),
        fun he => absurd he (Nat.ne_of_gt (h.frames.lt_size' hk))⟩
    · exact ⟨fun he => absurd he (Nat.ne_of_lt (h.frames.lt_size ht)),
        fun he => absurd he (Nat.ne_of_lt (h.frames.lt_size' ht))⟩
    · exact h.frames.unique g g' k k' ht hk
  · rintro g q (⟨rfl, rfl⟩ | ho)
    · rw [Store.parent?_openFrame, if_pos rfl]
    · exact Store.parent?_openFrame_of_some (h.frames.outer g q ho) _ _
  · rintro g q (⟨rfl, rfl⟩ | ho)
    · rw [Store.parent?_openFrame, if_pos rfl]
    · exact Store.parent?_openFrame_of_some (h.frames.outer' g q ho) _ _
  · rw [Store.parent?_openFrame, if_neg (Nat.ne_of_lt (h.frames.lt_size hglobals))]
    exact h.frames.outermost
  · rw [Store.parent?_openFrame, if_neg (Nat.ne_of_lt (h.frames.lt_size' hglobals))]
    exact h.frames.outermost'
  · intro g name a ha
    rw [Store.local?_openFrame] at ha
    split at ha
    · exact (hb name a ha).mono hv
    · exact (h.frames.bound g name a ha).mono hv

/-- Only the second run opens a frame. -/
theorem addFrame (h : P.Overlaid v s s') (p' : FrameId) :
    P.Overlaid (v.addFrame s'.frames.size p') s (s'.openFrame (some p') []).2 := by
  have hv := v.le_addFrame s'.frames.size p'
  refine ⟨⟨?_, h.frames.unique, h.frames.outer, ?_, h.frames.globals, h.frames.outermost, ?_,
    fun g name a ha => (h.frames.bound g name a ha).mono hv⟩, h.closures.mono hv rfl rfl rfl,
    h.classes.mono hv rfl rfl rfl rfl⟩
  · intro g g' ht
    obtain ⟨a, ha, ha'⟩ := h.frames.twins g g' ht
    exact ⟨a, ha, Store.bindings?_openFrame_of_some ha' _ _⟩
  · rintro g q (⟨rfl, rfl⟩ | ho)
    · rw [Store.parent?_openFrame, if_pos rfl]
    · exact Store.parent?_openFrame_of_some (h.frames.outer' g q ho) _ _
  · rw [Store.parent?_openFrame, if_neg (Nat.ne_of_lt (h.frames.lt_size' h.frames.globals))]
    exact h.frames.outermost'

/-- Twins that are given the same variable stay twins. -/
theorem define (h : P.Overlaid v s s') (ht : v.twin f f') (name : String) {a : Value}
    (ha : a.Bound v) : P.Overlaid v (s.define f name a) (s'.define f' name a) := by
  have hv := v.le_refl
  refine ⟨⟨?_, h.frames.unique, ?_, ?_, h.frames.globals, ?_, ?_, ?_⟩,
    h.closures.mono hv rfl rfl rfl, h.classes.mono hv rfl rfl rfl rfl⟩
  · intro g g' hg
    obtain ⟨b, hb, hb'⟩ := h.frames.twins g g' hg
    rw [Store.bindings?_define, Store.bindings?_define, hb, hb']
    by_cases heq : f = g
    · rw [if_pos heq, if_pos ((h.frames.unique f f' g g' ht hg).1 heq)]
      exact ⟨_, rfl, rfl⟩
    · rw [if_neg heq, if_neg fun heq' => heq ((h.frames.unique f f' g g' ht hg).2 heq')]
      exact ⟨b, rfl, rfl⟩
  · intro g p hp
    rw [Store.parent?_define]
    exact h.frames.outer g p hp
  · intro g p hp
    rw [Store.parent?_define]
    exact h.frames.outer' g p hp
  · rw [Store.parent?_define]
    exact h.frames.outermost
  · rw [Store.parent?_define]
    exact h.frames.outermost'
  · intro g key b hb
    rw [Store.local?_define _ _ _ _ _ _ (h.frames.lt_size ht)] at hb
    split at hb
    · cases hb
      exact ha
    · exact h.frames.bound g key b hb

/-- Functions that both runs make are twins, made in twins. -/
theorem newClosure (h : P.Overlaid v s s') {bound : Bool} {c c' : Closure}
    (hc : P.Twins v bound c c') : P.Overlaid (v.newClosure s.closures.size bound)
      (s.newClosure c).2 (s'.newClosure c').2 := by
  have hv := v.le_newClosure s.closures.size bound
  have hsize := h.closures.size
  refine ⟨h.frames.mono hv rfl rfl rfl rfl rfl, ⟨?_, ?_, ?_, ?_⟩,
    h.classes.mono hv rfl rfl rfl rfl⟩
  · simp [Store.newClosure, hsize]
  · rintro id b (⟨rfl, rfl⟩ | hb)
    · simp [Store.newClosure]
    · exact Nat.lt_of_lt_of_le (h.closures.born id b hb) (by simp [Store.newClosure])
  · rintro id b b' (⟨rfl, rfl⟩ | hb) (⟨hid, rfl⟩ | hb')
    · rfl
    · exact absurd (h.closures.born _ _ hb') (Nat.lt_irrefl _)
    · exact absurd (hid ▸ h.closures.born _ _ hb) (Nat.lt_irrefl _)
    · exact h.closures.unique id b b' hb hb'
  · intro id k hk
    simp only [Store.newClosure, Array.getElem?_push, hsize] at hk ⊢
    by_cases hid : id = s.closures.size
    · simp only [hid, if_true] at hk
      cases hk
      exact ⟨c', bound, by simp [hid], .inl ⟨hid, rfl⟩, hc.mono hv⟩
    · simp only [hid, if_false] at hk ⊢
      obtain ⟨k', b, hk', hb, htwins⟩ := h.closures.paired id k hk
      exact ⟨k', b, hk', .inr hb, htwins.mono hv⟩

theorem newClass (h : P.Overlaid v s s') {r : ClassRecord} (hr : v.Record r) :
    P.Overlaid v (s.newClass r).2 (s'.newClass r).2 := by
  have hv := v.le_refl
  exact ⟨h.frames.mono hv rfl rfl rfl rfl rfl, h.closures.mono hv rfl rfl rfl,
    ⟨by simp [Store.newClass, h.classes.classes], h.classes.objects,
      Store.forall_push h.classes.records hr, h.classes.fields⟩⟩

theorem newObject (h : P.Overlaid v s s') (c : ClassId) :
    P.Overlaid v (s.newObject c).2 (s'.newObject c).2 := by
  have hv := v.le_refl
  refine ⟨h.frames.mono hv rfl rfl rfl rfl rfl, h.closures.mono hv rfl rfl rfl,
    ⟨h.classes.classes, by simp [Store.newObject, h.classes.objects], h.classes.records,
      Store.forall_push h.classes.fields fun _ _ ha => ?_⟩⟩
  cases ha

/-- Fields are set alike. -/
theorem setField (h : P.Overlaid v s s') (o : Value) (name : String) {a : Value}
    (ha : a.Bound v) : P.Overlaid v (s.setField o name a) (s'.setField o name a) := by
  have hv := v.le_refl
  cases o with
  | object id =>
    refine ⟨h.frames.mono hv rfl rfl rfl rfl rfl, h.closures.mono hv rfl rfl rfl,
      ⟨h.classes.classes, by simp [Store.setField, h.classes.objects], h.classes.records,
        Store.forall_modify h.classes.fields fun old hold => ?_⟩⟩
    exact Table.forall_put (h.classes.fields id old hold) ha
  | classRef id =>
    refine ⟨h.frames.mono hv rfl rfl rfl rfl rfl, h.closures.mono hv rfl rfl rfl,
      ⟨by simp [Store.setField, h.classes.classes], h.classes.objects,
        Store.forall_modify h.classes.records fun old hold => ?_, h.classes.fields⟩⟩
    have hrec := h.classes.records id old hold
    exact ⟨hrec.methods, hrec.statics, Table.forall_put hrec.fields ha⟩
  | _ => exact h

section

variable (h : P.Overlaid v s s')
include h

theorem findMethod?_eq (c : ClassId) (name : String) :
    s'.findMethod? c name = s.findMethod? c name :=
  Store.findMethod?_congr h.classes.classes c name

theorem findStatic?_eq (c : ClassId) (name : String) :
    s'.findStatic? c name = s.findStatic? c name :=
  Store.findStatic?_congr h.classes.classes c name

theorem property_eq (a : Value) (name : String) : s'.property a name = s.property a name :=
  Store.property_congr h.classes.classes h.classes.objects a name

/-- What written-out loops do not matter to is the same of both functions. -/
theorem closure?_map {β : Type} (k : FunctionDecl → β)
    (hk : ∀ {ξ : Padding} {d d' : FunctionDecl}, P.Functions ξ d d' → k d' = k d)
    (id : ClosureId) :
    s'.closures[id]?.map (fun c => k c.decl) = s.closures[id]?.map fun c => k c.decl := by
  cases hc : s.closures[id]? with
  | none =>
    rw [Array.getElem?_eq_none_iff, ← h.closures.size, ← Array.getElem?_eq_none_iff] at hc
    rw [hc]
  | some c =>
    obtain ⟨c', bound, hc', -, -, ξ, -, -, hd⟩ := h.closures.paired id c hc
    simp [hc', hk hd]

theorem arity?_eq (a : Value) : s'.arity? a = s.arity? a :=
  Store.arity?_congr h.classes.classes
    (h.closure?_map FunctionDecl.arity fun hd => by simp only [FunctionDecl.arity, hd.params_eq]) a

theorem text_eq (a : Value) : s'.text a = s.text a :=
  Store.text_congr h.classes.classes h.classes.objects
    (h.closure?_map FunctionDecl.name fun hd => hd.name_eq) a

theorem typeName_eq (a : Value) : s'.typeName a = s.typeName a :=
  Store.typeName_congr h.classes.classes h.classes.objects a

theorem method_unbound {c : ClassId} {name : String} {id : ClosureId}
    (hid : s.findMethod? c name = some id) : v.kind id false :=
  Store.findWithin?_table (fun c r hr => (h.classes.records c r hr).methods name) hid

theorem static_unbound {c : ClassId} {name : String} {id : ClosureId}
    (hid : s.findStatic? c name = some id) : v.kind id false :=
  Store.findWithin?_table (fun c r hr => (h.classes.records c r hr).statics name) hid

theorem property_field {a b : Value} {name : String} (hp : s.property a name = .ok (.field b)) :
    b.Bound v :=
  Store.property_field (fun c r hr => (h.classes.records c r hr).fields name)
    (fun o ob hob => h.classes.fields o ob hob name) hp

theorem property_method {a : Value} {name : String} {id : ClosureId}
    (hp : s.property a name = .ok (.method id)) : v.kind id false := by
  obtain ⟨c, hid | hid⟩ := Store.property_method hp
  · exact h.method_unbound hid
  · exact h.static_unbound hid

end

end Pairing.Overlaid

end Scriptling
