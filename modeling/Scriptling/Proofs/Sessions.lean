import Scriptling.Proofs.Visiting
import Scriptling.Proofs.Numbering
import Scriptling.Proofs.Reading
import Scriptling.Proofs.Resolution
import Scriptling.Proofs.Watching

namespace Scriptling

variable {P : Site → Prop} {w : World} {s : Session} {source : String} {ss : List Stmt}

/-- Statements with numbers from one up to another, and names spelled as they should be. -/
structure Delivered (lo hi : ExprId) (ss : List Stmt) : Prop where
  spread : Spread lo hi (Stmt.usesAll ss)
  fair : Fair (Stmt.usesAll ss)
  proper : Stmt.ProperAll ss

theorem Session.nextId_le_read (s : Session) (source : String) :
    s.nextId ≤ (s.read source).session.nextId :=
  nextId_le_parse s.interactive s.nextId (tokensOf (scan source))

theorem Session.read_delivered (h : (s.read source).parsed = .ok ss) :
    Delivered s.nextId (s.read source).session.nextId ss := by
  have hparse : (parse s.interactive s.nextId (tokensOf (scan source))).result = .ok ss := by
    unfold Session.read at h
    dsimp only at h
    split at h
    · rename_i hresult
      cases h
      exact hresult
    · cases h
  have hwords : Words ((tokensOf (scan source)).takeWhile (·.kind ≠ .eof)) :=
    fun t ht => tokensOf_scan_spelled source t (List.takeWhile_sublist _ |>.subset ht)
  obtain ⟨hfair, hproper⟩ := Phrase.Declarations.fair (parse_program hparse) hwords
  exact ⟨parse_spread hparse, hfair, hproper⟩

namespace Delivered

variable {lo hi : ExprId} {globals : List String} (h : Delivered lo hi ss)
include h

theorem site_within {σ : Site} (hσ : σ ∈ Stmt.sitesAll [] ss) :
    lo ≤ σ.use.id ∧ σ.use.id < hi :=
  h.spread.within _ (Stmt.uses_sitesAll ss [] ▸ List.mem_map_of_mem hσ)

/-- What is noted of a program that was accepted. -/
theorem lookup_site (hclean : (resolve globals ss).faults = []) {σ : Site}
    (hσ : σ ∈ Stmt.sitesAll [] ss) :
    (resolve globals ss).distances.lookup σ.use.id = σ.distance? := by
  have hids : ((Stmt.sitesAll [] ss).map fun σ => σ.use.id).Nodup := by
    have hnodup := h.spread.nodup
    rw [← Stmt.uses_sitesAll ss [], List.map_map] at hnodup
    exact hnodup
  rw [(resolve_notes h.proper hclean).1]
  exact lookup_notesOf hids hσ

/-- Also a program that is not accepted notes its own references only. -/
theorem note_within {id : ExprId} {d : Nat} (hd : (id, d) ∈ (resolve globals ss).distances) :
    lo ≤ id ∧ id < hi := by
  obtain ⟨u, hu, rfl⟩ := List.mem_map.1 (resolve_noted hd)
  exact h.spread.within u hu

theorem lookup_outside {id : ExprId} (hid : ¬ (lo ≤ id ∧ id < hi)) :
    (resolve globals ss).distances.lookup id = none := by
  rw [List.lookup_eq_none_iff]
  rintro ⟨i, d⟩ hm
  have hi := h.note_within hm
  simp only [bne_iff_ne, ne_eq]
  rintro rfl
  exact hid hi

/-- The references of an accepted program are good where its notes are at hand. -/
theorem good {S : Setting} (hclean : (resolve globals ss).faults = [])
    (hnotes : ∀ σ ∈ Stmt.sitesAll [] ss,
      S.notes σ.use.id = (resolve globals ss).distances.lookup σ.use.id)
    (hsites : ∀ σ ∈ Stmt.sitesAll [] ss, S.sites σ) : ∀ σ ∈ Stmt.sitesAll [] ss, S.Good σ := by
  intro σ hσ
  refine ⟨hsites σ hσ, ?_, h.fair _ (Stmt.uses_sitesAll ss [] ▸ List.mem_map_of_mem hσ),
    Stmt.formed_sitesAll ss [] .outside h.proper σ hσ, (resolve_notes h.proper hclean).2 σ hσ⟩
  rw [hnotes σ hσ, h.lookup_site hclean hσ]

end Delivered

/-- A program that comes to run has numbers of its own and no faults of scope. -/
theorem Session.accepted_delivered (h : s.accepted? source = some ss) :
    Delivered s.nextId (s.read source).session.nextId ss ∧
      (resolve s.globalNames ss).faults = [] := by
  unfold Session.accepted? at h
  cases hparsed : (s.read source).parsed with
  | error reports =>
    rw [hparsed] at h
    cases h
  | ok statements =>
    rw [hparsed] at h
    dsimp only at h
    split at h
    · rename_i hclean
      cases h
      simp only [Bool.and_eq_true, List.isEmpty_iff] at hclean
      exact ⟨Session.read_delivered hparsed, hclean.2⟩
    · cases h

/-- So have all programs that come to run. -/
theorem Session.programs_delivered (below : Below) (turns : List Turn) (s : Session) :
    ∀ ss ∈ s.programs below turns, ∃ names lo hi, Delivered lo hi ss ∧
      (resolve names ss).faults = [] := by
  induction turns generalizing s with
  | nil => exact fun _ h => by cases h
  | cons t ts ih =>
    intro ss hss
    rcases List.mem_append.1 hss with hss | hss
    · exact ⟨_, _, _, Session.accepted_delivered (Option.mem_toList.1 hss)⟩
    · exact ih _ ss hss

def Setting.idle (notes : ExprId → Option Nat) (sites : Site → Prop) : Setting where
  old := ""
  new := ""
  old_plain := by decide
  new_plain := by decide
  notes
  sites

theorem Setting.idle_still (notes : ExprId → Option Nat) (sites : Site → Prop) :
    ¬ (Setting.idle notes sites).Moves := fun h => h rfl

/-- The notes of a session, and the references of programs that were read already. -/
def Session.setting (s : Session) (P : Site → Prop) : Setting :=
  .idle (fun id => s.machine.distances[id]?) fun σ => P σ ∧ σ.use.id < s.nextId

/-- What holds of a session between its programs: every function that exists is of a program that was
accepted, and the notes of its references stay as they were. -/
structure Session.Settled (P : Site → Prop) (w : World) (s : Session) : Prop where
  twins : (s.setting P).Twins w s.machine.store s.machine.store
  current : s.machine.current = .globals
  unnoted : ∀ id, s.nextId ≤ id → s.machine.distances[id]? = none

def World.blank : World := ⟨fun _ => none, fun _ _ => False, fun _ => none, 0⟩

/-- Built-in functions are known in every world. -/
theorem World.builtins_known (w : World) (builtins : List Builtin) {name : String} {v : Value}
    (h : Table.get? (builtins.map fun b => (b.name, .builtin b)) name = some v) : v.Known w := by
  induction builtins with
  | nil => cases h
  | cons b rest ih =>
    rw [List.map_cons, Table.get?] at h
    split at h
    · cases h
      trivial
    · exact ih h

theorem Setting.twins_start (S : Setting) : S.Twins .blank .start .start := by
  refine ⟨⟨fun f => ?_, fun _ _ => rfl, Nat.one_pos, rfl, rfl, ?_, ?_, fun f name v hv => ?_, ?_, ?_,
    ?_⟩, ⟨rfl, fun _ _ => rfl, ?_, ?_⟩, ⟨rfl, rfl, rfl, ?_, ?_⟩⟩
  · have hx : World.blank.exchanged f = false := rfl
    rw [hx, S.frame_false, Option.map_id, id]
  · rintro f l ⟨⟩
  · rintro f name ⟨⟩
  · obtain ⟨frame, hf, hv⟩ := Option.bind_eq_some_iff.1 hv
    have hmem := Array.mem_of_getElem? hf
    simp only [Store.start, Array.mem_singleton] at hmem
    rw [hmem] at hv
    exact World.builtins_known _ _ hv
  · rintro f l c ⟨⟩
  · rintro f l declaration ⟨⟩
  · rintro f l ⟨⟩
  · intro id c hc
    simp [Store.start] at hc
  · rintro id t ⟨⟩
  · intro c r hr
    simp [Store.start] at hr
  · intro o object ho
    simp [Store.start] at ho

/-- A new session is settled, whatever surrounds it. -/
theorem Session.settled_start (P : Site → Prop) (interactive : Bool) (input : List UInt8)
    (output : Output) (clock : Supply Int) (chances : Supply Nat) :
    (Session.start interactive (.start input output clock chances)).Settled P .blank :=
  ⟨Setting.twins_start _, rfl, fun _ _ => rfl⟩

namespace Session.Settled

theorem supply (h : s.Settled P w) (t : Turn) : (s.supply t).Settled P w :=
  ⟨h.twins, h.current, h.unnoted⟩

/-- Notes of new references change nothing for the others. -/
theorem noteDistances (h : s.Settled P w) {nextId : ExprId} (hle : s.nextId ≤ nextId)
    (notes : List (ExprId × Nat))
    (hin : ∀ id, ¬ (s.nextId ≤ id ∧ id < nextId) → notes.lookup id = none) :
    ({ s with nextId }.noteDistances notes).Settled P w := by
  have hget : ∀ id : ExprId, ({ s with nextId }.noteDistances notes).machine.distances[id]? =
      (notes.lookup id).or s.machine.distances[id]? :=
    fun id => getElem?_notes notes s.machine.distances id
  refine ⟨h.twins.transport (Setting.idle_still _ _) fun σ hσ => ?_, h.current, fun id hid => ?_⟩
  · obtain ⟨⟨hP, hlt⟩, hnoted, hspelled, hformed, hallowed⟩ := hσ
    refine ⟨⟨hP, Nat.lt_of_lt_of_le hlt hle⟩, ?_, hspelled, hformed, hallowed⟩
    refine (hget σ.use.id).trans ?_
    rw [hin _ fun hand => Nat.lt_irrefl _ (Nat.lt_of_lt_of_le hlt hand.1), Option.none_or]
    exact hnoted
  · rw [hget, hin id fun hand => Nat.lt_irrefl _ (Nat.lt_of_lt_of_le hand.2 hid),
      h.unnoted id (Nat.le_trans hle hid), Option.none_or]

/-- The references of a program that is accepted are good where it has been noted. -/
theorem good (h : s.Settled P w) {nextId : ExprId} (hd : Delivered s.nextId nextId ss)
    (hclean : (resolve s.globalNames ss).faults = []) (hP : ∀ σ ∈ Stmt.sitesAll [] ss, P σ) :
    ∀ σ ∈ Stmt.sitesAll [] ss,
      (({ s with nextId }.noteDistances (resolve s.globalNames ss).distances).setting P).Good σ := by
  refine hd.good hclean (fun σ hσ => ?_) fun σ hσ => ⟨hP σ hσ, (hd.site_within hσ).2⟩
  refine (getElem?_notes _ s.machine.distances _).trans ?_
  rw [h.unnoted _ (hd.site_within hσ).1, Option.or_none]

theorem read (h : s.Settled P w) (source : String) : (s.read source).session.Settled P w :=
  h.noteDistances (s.nextId_le_read source) [] fun _ _ => rfl

/-- A machine that was left beside itself. -/
theorem of_beside {m : Machine} {t' : Store} {w₁ : World}
    (hm : (s.setting P).Beside w₁ .globals m t') (hun : ∀ id, s.nextId ≤ id →
      s.machine.distances[id]? = none) : { s with machine := m }.Settled P w₁ := by
  have hsame : { s with machine := m }.setting P = s.setting P := by
    unfold Session.setting
    rw [show (fun id : ExprId => m.distances[id]?) = fun id => s.machine.distances[id]? from
      funext hm.noted]
  have hstore := hm.twins.store_eq (Setting.idle_still _ _)
  refine ⟨?_, hm.current, fun id hid => (hm.noted id).trans (hun id hid)⟩
  rw [hsame]
  exact hstore ▸ hm.twins

end Session.Settled

/-- Evaluation that goes side by side with evaluation up to a depth, wherever nothing moves and the
references are of the given kind. -/
def Attends (P : Site → Prop) (depth : Nat) (b' : World → Below) : Prop :=
  ∀ S : Setting, ¬ S.Moves → (∀ σ, S.sites σ → P σ) → S.Engine (.upTo depth) b'

namespace Session.Settled

variable {depth : Nat} {b' : World → Below}

/-- A program takes a settled session to a settled one, under either evaluation. -/
theorem perform (h : s.Settled P w) (hb : Attends P depth b') {nextId : ExprId}
    (hd : Delivered s.nextId nextId ss)
    (hP : (resolve s.globalNames ss).faults = [] → ∀ σ ∈ Stmt.sitesAll [] ss, P σ) :
    ∃ w₁, w ≤ w₁ ∧ ({ s with nextId }.perform (.upTo depth) ss).session.Settled P w₁ ∧
      ∀ L, w₁ ≤ L →
        { s with nextId }.perform (b' L) ss = { s with nextId }.perform (.upTo depth) ss := by
  have hnoted := h.noteDistances hd.spread.le (resolve s.globalNames ss).distances
    fun id hid => hd.lookup_outside hid
  unfold Session.perform
  dsimp only
  by_cases hclean : (resolve s.globalNames ss).faults = []
  · have hsame : ({ s with nextId } : Session).globalNames = s.globalNames := rfl
    rw [hsame, hclean]
    dsimp only [List.isEmpty_nil, Bool.not_true, Bool.false_eq_true, if_false]
    have hgood := h.good hd hclean (hP hclean)
    generalize { s with nextId }.noteDistances (resolve s.globalNames ss).distances = s₁
      at hnoted hgood ⊢
    have hfits : (s₁.setting P).FitsAll [] pickNone [] ss :=
      ⟨hgood, hd.proper, Stmt.keepsAll_unmarked ss .nil, .outside, fun _ => ⟨rfl, .nil⟩⟩
    have hengine := hb (s₁.setting P) (Setting.idle_still _ _) fun σ hσ => hσ.1
    obtain ⟨w₁, t', hw, hm, hran⟩ := hengine.interpret_beside s₁.interactive hfits
      ⟨hnoted.twins, hnoted.current, fun _ => rfl⟩
    refine ⟨w₁, hw, of_beside hm hnoted.unnoted, fun L hL => ?_⟩
    have hL := hran L hL
    rw [Stmt.renameAll_unmarked ss .nil,
      hm.twins.store_eq (Setting.idle_still _ _)] at hL
    rw [hL]
  · have hfaulty : (!(resolve ({ s with nextId } : Session).globalNames ss).faults.isEmpty) = true := by
      simpa [Session.globalNames] using hclean
    rw [hfaulty]
    exact ⟨w, w.le_refl, hnoted, fun _ _ => rfl⟩

/-- A program leaves a settled session, with more known of it. -/
theorem runBy (h : s.Settled P w) (hb : Attends P depth b') (source : String)
    (hP : ∀ ss, s.accepted? source = some ss → ∀ σ ∈ Stmt.sitesAll [] ss, P σ) :
    ∃ w₁, w ≤ w₁ ∧ (s.runBy (.upTo depth) source).session.Settled P w₁ ∧
      ∀ L, w₁ ≤ L → s.runBy (b' L) source = s.runBy (.upTo depth) source := by
  have hread := h.read source
  unfold Session.runBy
  unfold Session.accepted? at hP
  dsimp only at hP ⊢
  cases hparsed : (s.read source).parsed with
  | error reports => exact ⟨w, w.le_refl, hread, fun _ _ => rfl⟩
  | ok ss =>
    rw [hparsed] at hP
    dsimp only at hP ⊢
    by_cases hlex : (s.read source).lexReports.isEmpty = true
    · simp only [hlex, Bool.true_and, Bool.not_true, Bool.false_eq_true, if_false] at hP ⊢
      exact h.perform hb (Session.read_delivered hparsed) fun hclean => hP ss (by simp [hclean])
    · rw [Bool.not_eq_true] at hlex
      rw [hlex]
      exact ⟨w, w.le_refl, hread, fun _ _ => rfl⟩

/-- And so do programs run one after the other. -/
theorem play (h : s.Settled P w) (hb : Attends P depth b') {turns : List Turn}
    (hP : ∀ ss ∈ s.programs (.upTo depth) turns, ∀ σ ∈ Stmt.sitesAll [] ss, P σ) :
    ∃ w₁, w ≤ w₁ ∧ ∀ L, w₁ ≤ L → s.play (b' L) turns = s.play (.upTo depth) turns := by
  induction turns generalizing s w with
  | nil => exact ⟨w, w.le_refl, fun _ _ => rfl⟩
  | cons t ts ih =>
    obtain ⟨w₁, hw₁, hs, hrun⟩ := (h.supply t).runBy hb t.source fun ss hss =>
      hP ss (by simp [Session.programs, hss])
    obtain ⟨w₂, hw₂, hplay⟩ := ih hs fun ss hss => hP ss (by simp [Session.programs, hss])
    refine ⟨w₂, World.le_trans hw₁ hw₂, fun L hL => ?_⟩
    rw [Session.play, Session.play, hrun L (World.le_trans hw₂ hL), hplay L hL]

theorem after (h : s.Settled P w) (hP : ∀ σ, P σ) (depth : Nat) (turns : List Turn) :
    ∃ w₁, (s.after (.upTo depth) turns).Settled P w₁ := by
  induction turns generalizing s w with
  | nil => exact ⟨w, h⟩
  | cons t ts ih =>
    obtain ⟨w₁, -, hs, -⟩ := (h.supply t).runBy (fun S _ _ => engine_upTo S depth) t.source
      fun _ _ σ _ => hP σ
    exact ih hs

end Session.Settled

/-- A watch that holds at every single step of a session holds throughout. -/
theorem Watch.exists_holds {W : World → Watch} (interactive : Bool) (input : List UInt8)
    (output : Output) (clock : Supply Int) (chances : Supply Nat) (depth : Nat)
    (turns : List Turn) {s : Session}
    (hs : s = .start interactive (.start input output clock chances))
    (hW : ∀ S : Setting, ¬ S.Moves → (∀ σ, S.sites σ →
      ∃ ss ∈ s.programs (.upTo depth) turns, σ ∈ Stmt.sitesAll [] ss) → S.Watched W) :
    ∃ L, (W L).Holds depth s turns := by
  -- the alarm that would tell the difference may be another one for each world
  choose alarm halarm using fun L : World => (W L).exists_alarm depth s turns
  have hattends : Attends _ depth fun L => (W L).below (alarm L) depth :=
    fun S hstill hsites => (hW S hstill hsites).engine hstill alarm depth
  subst hs
  obtain ⟨w, -, hplay⟩ := (Session.settled_start _ interactive input output clock chances).play
    hattends fun ss hss σ hσ => ⟨ss, hss, hσ⟩
  exact ⟨w, halarm w (hplay w w.le_refl)⟩

end Scriptling
