import Scriptling.Proofs.Register

namespace Scriptling

theorem Table.mem_of_get? {α : Type} {table : Table α} {name : String} {v : α}
    (h : table.get? name = some v) : (name, v) ∈ table := by
  induction table with
  | nil => cases h
  | cons entry rest ih =>
    rw [get?] at h
    split at h
    · rename_i hkey
      cases h
      subst hkey
      exact List.mem_cons_self
    · exact List.mem_cons_of_mem _ (ih h)

/-- A table of one entry has no other one. -/
theorem Table.eq_of_get?_single {α : Type} {key name : String} {u v : α}
    (h : Table.get? [(key, v)] name = some u) : name = key ∧ u = v := by
  have hmem := mem_of_get? h
  simpa using hmem

/-- A table of functions that are made one after the other, from a number on: it has the last one of
each name. -/
def Table.KeepsLast (table : Table ClosureId) (first : Nat) (ds : List FunctionDecl) : Prop :=
  ∀ name, (∃ i d, ds[i]? = some d ∧ table.get? name = some (first + i) ∧
      FunctionDecl.last? ds name = some d) ∨
    table.get? name = none ∧ FunctionDecl.last? ds name = none

namespace Table.KeepsLast

variable {table : Table ClosureId} {first : Nat} {ds : List FunctionDecl}

/-- What is found by a name is the declaration with that name. -/
theorem found (h : table.KeepsLast first ds) {name : String} {k : Nat}
    (hk : table.get? name = some k) :
    ∃ i d, k = first + i ∧ ds[i]? = some d ∧ d.name.lexeme = name := by
  rcases h name with ⟨i, d, hd, hi, hlast⟩ | ⟨hnone, -⟩
  · rw [hk] at hi
    exact ⟨i, d, Option.some.inj hi, hd, FunctionDecl.lexeme_of_last? hlast⟩
  · rw [hk] at hnone
    cases hnone

/-- Where the functions are, the table has those that were declared last. -/
theorem lists {s : Store} (h : table.KeepsLast first ds)
    (hs : ∀ (i : Nat) d, ds[i]? = some d → ∃ c, s.closures[first + i]? = some c ∧ c.decl = d) :
    s.Lists table ds := by
  intro name
  rcases h name with ⟨i, d, hd, hi, hlast⟩ | ⟨hnone, hlast⟩
  · rw [hi, hlast]
    exact .some (hs i d hd)
  · rw [hnone, hlast]
    exact .none

end Table.KeepsLast

namespace Store

variable {s : Store} {f : FrameId} {name : String} {v : Value}

theorem advances_define (hf : f < s.frames.size) (hn : name ≠ "this" ∧ name ≠ "super") :
    s.Advances (s.define f name v) := by
  refine ⟨grows_define s f name v, fun g key hg hkey => ?_⟩
  rw [local?_define s f g name key v hf, if_neg]
  rintro ⟨-, rfl⟩
  rcases hkey with hkey | hkey
  · exact hn.1 hkey
  · exact hn.2 hkey

theorem advances_openFrame (s : Store) (parent : Option FrameId) (bindings : Table Value) :
    s.Advances (s.openFrame parent bindings).2 := by
  refine ⟨grows_openFrame s parent bindings, fun g key hg _ => ?_⟩
  rw [local?_openFrame, if_neg (Nat.ne_of_lt hg)]

/-- Where the frames stay, so do the receivers and superclasses. -/
theorem Grows.advances {s' : Store} (h : s.Grows s') (hframes : s'.frames = s.frames) :
    s.Advances s' :=
  ⟨h, fun f name _ _ => by rw [local?, local?, hframes]⟩

end Store

namespace Register

variable {t : Terms} {r : Register} {f p : FrameId} {name : String} {v : Value}

theorem le_define (hf : f < r.store.frames.size) (hn : name ≠ "this" ∧ name ≠ "super") :
    r ≤ { r with store := r.store.define f name v } :=
  ⟨Store.advances_define hf hn, fun _ _ h => h, fun _ _ h => h, fun _ _ => rfl⟩

/-- A variable that is no receiver may have any value that programs see. -/
theorem Sound.define (h : r.Sound t) (hf : f < r.store.frames.size)
    (hn : name ≠ "this" ∧ name ≠ "super") (hthis : r.store.local? f "this" = none)
    (hv : v.Rightful r.origin r.store) :
    Sound t { r with store := r.store.define f name v } := by
  have hr := le_define (v := v) hf hn
  refine ⟨Store.forall_modify (h.later_frames hr) fun old hold => ?_, h.later_closures hr,
    h.later_classes hr, h.later_objects hr, h.globals.mono hr.store, h.unborn, fun g k hk => ?_⟩
  · have hsound := (h.frames f old hold).mono hf hr
    refine ⟨hsound.outermost, hsound.enclosed, Table.forall_put hsound.values (hv.mono hr),
      fun u hu => ?_, hsound.called⟩
    rw [Table.get?_put, if_neg hn.1] at hu
    rw [Store.local?, hold, Option.bind_some, hu] at hthis
    cases hthis
  · obtain ⟨c, hc, hparent, htie⟩ := h.callers g k hk
    exact ⟨c, hc, (Store.parent?_define _ _ _ _ _).trans hparent, htie⟩

def openFrame (r : Register) (p : FrameId) (bindings : Table Value) (caller : Option ClosureId) :
    Register where
  store := (r.store.openFrame (some p) bindings).2
  origin := r.origin
  caller f := if f = r.store.frames.size then caller else r.caller f
  declared := r.declared

/-- A frame without variables is one to name variables in. -/
theorem ground_openFrame (r : Register) (p : FrameId) (caller : Option ClosureId) :
    (r.openFrame p [] caller).store.Ground r.store.frames.size := by
  have hnone : ∀ name, (r.openFrame p [] caller).store.local? r.store.frames.size name = none :=
    fun name => (Store.local?_openFrame _ _ _ _ _).trans (if_pos rfl)
  exact ⟨by simp [openFrame, Store.openFrame], hnone _, hnone _⟩

/-- Frames that are not there yet were opened for nothing. -/
theorem Sound.uncalled (h : r.Sound t) (hf : r.store.frames.size ≤ f) : r.caller f = none := by
  cases hk : r.caller f with
  | none => rfl
  | some k =>
    obtain ⟨c, -, hparent, -⟩ := h.callers f k hk
    exact absurd (Store.lt_of_parent? hparent) (Nat.not_lt.2 hf)

theorem Sound.le_openFrame (h : r.Sound t) (p : FrameId) (bindings : Table Value)
    (caller : Option ClosureId) : r ≤ r.openFrame p bindings caller := by
  refine ⟨Store.advances_openFrame _ _ _, fun _ _ h => h, fun g k hk => ?_, fun _ _ => rfl⟩
  have hg : g ≠ r.store.frames.size := by
    rintro rfl
    rw [h.uncalled (Nat.le_refl _)] at hk
    cases hk
  exact (if_neg hg).trans hk

/-- A frame may be opened in another one, for a call or a scope. -/
theorem Sound.openFrame (h : r.Sound t) (bindings : Table Value) (caller : Option ClosureId)
    (hp : p < r.store.frames.size)
    (hvalues : ∀ name v, bindings.get? name = some v → v.Rightful r.origin r.store)
    (hreceiver : ∀ v, bindings.get? "this" = some v → bindings = [("this", v)] ∧
      ∃ c static, r.store.Serves v c static ∧ r.store.Home c p)
    (hcalled : (r.store.local? p "this").isSome → caller.isSome)
    (hcaller : ∀ k, caller = some k → ∃ c, r.store.closures[k]? = some c ∧ p = c.scope ∧
      t.tie r.store.frames.size c.decl) :
    (r.openFrame p bindings caller).Sound t := by
  have hr := h.le_openFrame p bindings caller
  refine ⟨Store.forall_push (h.later_frames hr) ?_, h.later_closures hr, h.later_classes hr,
    h.later_objects hr, h.globals.mono hr.store, h.unborn, fun g k hk => ?_⟩
  · refine ⟨fun h₀ => ?_, fun _ => ⟨p, rfl, hp⟩, fun key u hu => (hvalues key u hu).mono hr,
      fun u hu => ?_, fun q hq hthis => ?_⟩
    · rw [h₀] at hp
      exact absurd hp (Nat.not_lt_zero p)
    · obtain ⟨hbindings, c, static, hserves, hhome⟩ := hreceiver u hu
      exact ⟨hbindings, c, static, p, hserves.mono hr.store.grows, rfl, hhome.mono hr.store⟩
    · cases hq
      rw [hr.store.keywords p _ hp (.inl rfl)] at hthis
      exact (congrArg Option.isSome (if_pos rfl)).trans (hcalled hthis)
  · rcases Nat.lt_or_ge g r.store.frames.size with hg | hg
    · obtain ⟨c, hc, hparent, htie⟩ := h.callers g k ((if_neg (Nat.ne_of_lt hg)).symm.trans hk)
      exact ⟨c, hc, (hr.store.grows.parent?_eq hg).trans hparent, htie⟩
    · by_cases hsize : g = r.store.frames.size
      · subst g
        obtain ⟨c, hc, rfl, htie⟩ := hcaller k ((if_pos rfl).symm.trans hk)
        exact ⟨c, hc, (Store.parent?_openFrame _ _ _ _).trans (if_pos rfl), htie⟩
      · change (if g = r.store.frames.size then caller else r.caller g) = some k at hk
        rw [if_neg hsize, h.uncalled hg] at hk
        cases hk

def newClosure (r : Register) (c : Closure) (o : Origin) : Register where
  store := (r.store.newClosure c).2
  origin (id : Nat) := if id = r.store.closures.size then some o else r.origin id
  caller := r.caller
  declared := r.declared

theorem Sound.le_newClosure (h : r.Sound t) (c : Closure) (o : Origin) : r ≤ r.newClosure c o := by
  refine ⟨(Store.grows_newClosure _ _).advances rfl, fun id o' ho => ?_, fun _ _ h => h,
    fun _ _ => rfl⟩
  exact (if_neg (Nat.ne_of_lt (h.unborn id o' ho))).trans ho

/-- A function is entered with where it comes from. -/
theorem Sound.newClosure (h : r.Sound t) {c : Closure} {o : Origin}
    (hscope : c.scope < r.store.frames.size) (hdecl : c.decl.Within t.token)
    (hfits : r.store.Fits c.scope o) (hstems : r.store.Stems r.origin c.decl o)
    (hinit : c.initializer = true ↔ o.OfInstances ∧ c.decl.name.lexeme = "init") :
    (r.newClosure c o).Sound t := by
  have hr := h.le_newClosure c o
  refine ⟨h.later_frames hr, Store.forall_push (h.later_closures hr) ?_, h.later_classes hr,
    h.later_objects hr, h.globals.mono hr.store, fun (id : Nat) o' ho => ?_, fun g k hk => ?_⟩
  · have horigin : (r.newClosure c o).origin r.store.closures.size = some o := if_pos rfl
    refine ⟨hscope, hdecl, ⟨o, horigin, hfits.mono hscope hr.store,
      hstems.mono hr.origin hr.store.grows⟩, fun o' ho' => ?_⟩
    rw [horigin] at ho'
    cases ho'
    exact hinit
  · change (if id = r.store.closures.size then some o else r.origin id) = some o' at ho
    change id < (r.store.closures.push c).size
    rw [Array.size_push]
    split at ho
    · omega
    · exact Nat.lt_succ_of_lt (h.unborn id o' ho)
  · obtain ⟨k', hk', hparent, htie⟩ := h.callers g k hk
    exact ⟨k', hr.store.grows.closure hk', hparent, htie⟩

/-- A frame of a receiver, inside the frame of a class that it may be a receiver for. -/
theorem Sound.openReceiver (h : r.Sound t) {c : ClassId} {static : Bool} {this : Value}
    (hhome : r.store.Home c p) (hserves : r.store.Serves this c static)
    (hthis : this.Rightful r.origin r.store) : (r.openFrame p [("this", this)] none).Sound t := by
  refine h.openFrame [("this", this)] none hhome.size (fun name v hv => ?_) (fun v hv => ?_)
    (fun hsome => ?_) fun _ hk => by cases hk
  · obtain ⟨-, rfl⟩ := Table.eq_of_get?_single hv
    exact hthis
  · obtain ⟨-, rfl⟩ := Table.eq_of_get?_single hv
    exact ⟨rfl, c, static, hserves, hhome⟩
  · rw [hhome.receiver] at hsome
    cases hsome

def copyMethod (r : Register) (k : Closure) (this : Value) (c : ClassId) (static : Bool) :
    Register :=
  (r.openFrame k.scope [("this", this)] none).newClosure { k with scope := r.store.frames.size }
    (.copy c static)

/-- A copy of a method is entered for a receiver that it may have. -/
theorem Sound.copyMethod (h : r.Sound t) {id : ClosureId} {k : Closure} {c : ClassId}
    {static : Bool} {this : Value} (hk : r.store.closures[id]? = some k)
    (ho : r.origin id = some (.method c static)) (hhome : r.store.Home c k.scope)
    (hdecl : k.decl.Within t.token) (hserves : r.store.Serves this c static)
    (hthis : this.Rightful r.origin r.store) :
    r ≤ r.copyMethod k this c static ∧ (r.copyMethod k this c static).Sound t := by
  have hopen := h.openReceiver hhome hserves hthis
  have hr := h.le_openFrame k.scope [("this", this)] none
  have hlocal : (r.openFrame k.scope [("this", this)] none).store.local? r.store.frames.size "this" =
      some this := (Store.local?_openFrame _ _ _ _ _).trans (if_pos rfl)
  have hparent : (r.openFrame k.scope [("this", this)] none).store.parent? r.store.frames.size =
      some k.scope := (Store.parent?_openFrame _ _ _ _).trans (if_pos rfl)
  refine ⟨Register.le_trans hr (hopen.le_newClosure _ _), ?_⟩
  exact hopen.newClosure (Store.lt_of_local? hlocal) hdecl
    ⟨this, k.scope, hlocal, hparent, hhome.mono hr.store, hserves.mono hr.store.grows⟩
    ⟨id, k, hr.origin _ _ ho, hr.store.grows.closure hk, rfl⟩
    ((h.closures id k hk).initializer (.method c static) ho)

def newClass (r : Register) (methods statics : List Closure) (record : ClassRecord) : Register where
  store := { r.store with
    closures := r.store.closures ++ (methods ++ statics).toArray
    classes := r.store.classes.push record }
  origin (id : Nat) :=
    if id < r.store.closures.size then r.origin id
    else if id < r.store.closures.size + methods.length then
      some (.method r.store.classes.size false)
    else if id < r.store.closures.size + methods.length + statics.length then
      some (.method r.store.classes.size true)
    else none
  caller := r.caller
  declared c static :=
    if c = r.store.classes.size then (bif static then statics else methods).map (·.decl)
    else r.declared c static

theorem Sound.le_newClass (h : r.Sound t) (methods statics : List Closure) (record : ClassRecord) :
    r ≤ r.newClass methods statics record := by
  refine ⟨Store.Grows.advances ⟨.refl .refl _, fun id c hc => ⟨c, ?_, rfl⟩, .push .refl _ _,
    .refl .refl _⟩ rfl, fun id o ho => ?_, fun _ _ h => h, fun c hc => ?_⟩
  · obtain ⟨hid, -⟩ := Array.getElem?_eq_some_iff.1 hc
    exact (Array.getElem?_append_left hid).trans hc
  · exact (if_pos (h.unborn id o ho)).trans ho
  · funext static
    exact if_neg (Nat.ne_of_lt hc)

section Origins

variable (r) {methods statics : List Closure} {record : ClassRecord} {id : Nat}

theorem newClass_origin_method (hle : r.store.closures.size ≤ id)
    (hlt : id < r.store.closures.size + methods.length) :
    (r.newClass methods statics record).origin id = some (.method r.store.classes.size false) :=
  (if_neg (Nat.not_lt.2 hle)).trans (if_pos hlt)

theorem newClass_origin_static (hle : r.store.closures.size + methods.length ≤ id)
    (hlt : id < r.store.closures.size + methods.length + statics.length) :
    (r.newClass methods statics record).origin id = some (.method r.store.classes.size true) :=
  (if_neg (by omega)).trans ((if_neg (Nat.not_lt.2 hle)).trans (if_pos hlt))

theorem newClass_method {c : Closure} (hc : methods[id]? = some c) :
    (r.newClass methods statics record).store.closures[r.store.closures.size + id]? = some c := by
  obtain ⟨hlt, -⟩ := List.getElem?_eq_some_iff.1 hc
  refine (Array.getElem?_append_right (Nat.le_add_right _ _)).trans ?_
  rw [Nat.add_sub_cancel_left, List.getElem?_toArray, List.getElem?_append_left hlt, hc]

theorem newClass_static {c : Closure} (hc : statics[id]? = some c) :
    (r.newClass methods statics record).store.closures[
      r.store.closures.size + methods.length + id]? = some c := by
  refine (Array.getElem?_append_right (by omega)).trans ?_
  rw [Nat.add_assoc, Nat.add_sub_cancel_left, List.getElem?_toArray,
    List.getElem?_append_right (Nat.le_add_right _ _), Nat.add_sub_cancel_left, hc]

/-- Every function is an old one or the class's own. -/
theorem newClass_closure {k : Closure}
    (hk : (r.newClass methods statics record).store.closures[id]? = some k) :
    r.store.closures[id]? = some k ∨ ∃ static,
      (r.newClass methods statics record).origin id =
        some (.method r.store.classes.size static) ∧
      k ∈ bif static then statics else methods := by
  change (r.store.closures ++ (methods ++ statics).toArray)[id]? = some k at hk
  rcases Nat.lt_or_ge id r.store.closures.size with hid | hid
  · rw [Array.getElem?_append_left hid] at hk
    exact .inl hk
  · rw [Array.getElem?_append_right hid, List.getElem?_toArray] at hk
    obtain ⟨hlt, -⟩ := List.getElem?_eq_some_iff.1 hk
    rw [List.length_append] at hlt
    rcases Nat.lt_or_ge id (r.store.closures.size + methods.length) with hmethod | hstatic
    · rw [List.getElem?_append_left (by omega)] at hk
      exact .inr ⟨false, r.newClass_origin_method hid hmethod, List.mem_of_getElem? hk⟩
    · rw [List.getElem?_append_right (by omega)] at hk
      exact .inr ⟨true, r.newClass_origin_static hstatic (by omega), List.mem_of_getElem? hk⟩

theorem newClass_unborn {o : Origin}
    (hborn : ∀ id o, r.origin id = some o → id < r.store.closures.size)
    (ho : (r.newClass methods statics record).origin id = some o) :
    id < (r.newClass methods statics record).store.closures.size := by
  change (if id < r.store.closures.size then r.origin id else _) = some o at ho
  change id < (r.store.closures ++ (methods ++ statics).toArray).size
  have hsize : (methods ++ statics).toArray.size = methods.length + statics.length := by simp
  rw [Array.size_append, hsize]
  split at ho
  · exact Nat.lt_add_right _ (hborn id o ho)
  · split at ho
    · omega
    · split at ho
      · omega
      · cases ho

/-- The class lists its own functions, and of two that have one name the last. -/
theorem newClass_record (hparent : ∀ c, record.superclass = some c → c < r.store.classes.size)
    (hmethods : record.methods.KeepsLast r.store.closures.size (methods.map (·.decl)))
    (hstatics : record.statics.KeepsLast (r.store.closures.size + methods.length)
      (statics.map (·.decl)))
    (hfields : record.fields = []) :
    (r.newClass methods statics record).ClassSound r.store.classes.size record := by
  refine ⟨hparent, fun name k hk => ?_, fun name k hk => ?_, fun name k hk => ?_,
    fun name v hv => ?_, fun static => ?_⟩
  · obtain ⟨i, d, rfl, hd, -⟩ := hmethods.found hk
    obtain ⟨hlt, -⟩ := List.getElem?_eq_some_iff.1 hd
    rw [List.length_map] at hlt
    exact r.newClass_origin_method (by omega) (by omega)
  · obtain ⟨i, d, rfl, hd, hname⟩ := hmethods.found hk
    rw [List.getElem?_map] at hd
    obtain ⟨method, hmethod, rfl⟩ := Option.map_eq_some_iff.1 hd
    exact ⟨method, r.newClass_method hmethod, hname⟩
  · obtain ⟨i, d, rfl, hd, -⟩ := hstatics.found hk
    obtain ⟨hlt, -⟩ := List.getElem?_eq_some_iff.1 hd
    rw [List.length_map] at hlt
    exact r.newClass_origin_static (by omega) (by omega)
  · rw [hfields] at hv
    cases hv
  · rw [show (r.newClass methods statics record).declared r.store.classes.size static = _ from
      if_pos rfl]
    cases static with
    | false =>
      refine hmethods.lists fun i d hd => ?_
      obtain ⟨c, hc, rfl⟩ := Option.map_eq_some_iff.1 (List.getElem?_map.symm.trans hd)
      exact ⟨c, r.newClass_method hc, rfl⟩
    | true =>
      refine hstatics.lists fun i d hd => ?_
      obtain ⟨c, hc, rfl⟩ := Option.map_eq_some_iff.1 (List.getElem?_map.symm.trans hd)
      exact ⟨c, r.newClass_static hc, rfl⟩

end Origins

theorem Sound.newClass (h : r.Sound t) {methods statics : List Closure} {record : ClassRecord}
    (hscope : p < r.store.frames.size) (hthis : r.store.local? p "this" = none)
    (hsuper : r.store.local? p "super" = record.superclass.map .classRef)
    (hparent : ∀ c, record.superclass = some c → c < r.store.classes.size)
    (hclosures : ∀ c ∈ methods ++ statics, c.scope = p ∧ c.decl.Within t.token)
    (hinit : ∀ c ∈ methods, c.initializer = true ↔ c.decl.name.lexeme = "init")
    (hplain : ∀ c ∈ statics, c.initializer = false)
    (hmethods : record.methods.KeepsLast r.store.closures.size (methods.map (·.decl)))
    (hstatics : record.statics.KeepsLast (r.store.closures.size + methods.length)
      (statics.map (·.decl)))
    (hfields : record.fields = []) : (r.newClass methods statics record).Sound t := by
  have hr := h.le_newClass methods statics record
  have hhome : (r.newClass methods statics record).store.Home r.store.classes.size p := by
    refine ⟨hscope, hthis, record, ?_, hsuper⟩
    exact Array.getElem?_push_size
  refine ⟨h.later_frames hr, fun (id : Nat) k hk => ?_,
    Store.forall_push (h.later_classes hr) (r.newClass_record hparent hmethods hstatics hfields),
    h.later_objects hr, h.globals.mono hr.store, fun (id : Nat) o ho => ?_, fun g k hk => ?_⟩
  · rcases r.newClass_closure hk with hk | ⟨static, horigin, hmem⟩
    · exact h.later_closures hr id k hk
    · have hown : k ∈ methods ++ statics := by
        cases static with
        | false => exact List.mem_append_left _ hmem
        | true => exact List.mem_append_right _ hmem
      obtain ⟨hp, hdecl⟩ := hclosures k hown
      refine ⟨hp ▸ hscope, hdecl, ⟨_, horigin, hp ▸ hhome, trivial⟩, fun o ho => ?_⟩
      rw [horigin] at ho
      cases ho
      cases static with
      | false => exact (hinit k hmem).trans (and_iff_right rfl).symm
      | true =>
        rw [hplain k hmem]
        exact ⟨nofun, fun h => absurd h.1 nofun⟩
  · exact r.newClass_unborn h.unborn ho
  · obtain ⟨c, hc, hparent, htie⟩ := h.callers g k hk
    exact ⟨c, hr.store.grows.closure hc, hparent, htie⟩

theorem le_newObject (r : Register) (c : ClassId) :
    r ≤ { r with store := (r.store.newObject c).2 } :=
  ⟨(Store.grows_newObject _ _).advances rfl, fun _ _ h => h, fun _ _ h => h, fun _ _ => rfl⟩

theorem Sound.newObject (h : r.Sound t) {c : ClassId} (hc : c < r.store.classes.size) :
    Sound t { r with store := (r.store.newObject c).2 } := by
  have hr := r.le_newObject c
  have hnew : ObjectSound { r with store := (r.store.newObject c).2 } ⟨c, []⟩ :=
    ⟨hc, fun _ _ hv => by cases hv⟩
  exact ⟨h.later_frames hr, h.later_closures hr, h.later_classes hr,
    Store.forall_push (h.later_objects hr) hnew, h.globals.mono hr.store, h.unborn, h.callers⟩

theorem le_setField (r : Register) (o : Value) (name : String) (v : Value) :
    r ≤ { r with store := r.store.setField o name v } := by
  refine ⟨(Store.grows_setField _ _ _ _).advances ?_, fun _ _ h => h, fun _ _ h => h,
    fun _ _ => rfl⟩
  cases o <;> rfl

/-- Fields may have any value that programs see. -/
theorem Sound.setField (h : r.Sound t) (o : Value) (name : String)
    (hv : v.Rightful r.origin r.store) :
    Sound t { r with store := r.store.setField o name v } := by
  have hr := r.le_setField o name v
  cases o with
  | object id =>
    refine ⟨h.later_frames hr, h.later_closures hr, h.later_classes hr,
      Store.forall_modify (h.later_objects hr) fun old hold => ?_,
      h.globals.mono hr.store, h.unborn, h.callers⟩
    have hsound := h.objects id old hold
    exact ObjectSound.mono ⟨hsound.instanceOf, Table.forall_put hsound.fields hv⟩ hr
  | classRef id =>
    refine ⟨h.later_frames hr, h.later_closures hr,
      Store.forall_modify (h.later_classes hr) fun old hold => ?_,
      h.later_objects hr, h.globals.mono hr.store, h.unborn, h.callers⟩
    have hsound := h.classes id old hold
    refine ClassSound.mono ⟨hsound.superclass, hsound.methods, hsound.named, hsound.statics,
      Table.forall_put hsound.fields hv, fun static => ?_⟩ (Array.getElem?_eq_some_iff.1 hold).1 hr
    have hdeclared := hsound.declared static
    cases static <;> exact hdeclared
  | _ => exact h

end Register

end Scriptling
