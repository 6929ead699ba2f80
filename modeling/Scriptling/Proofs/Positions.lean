import Scriptling.Proofs.Blame
import Scriptling.Proofs.Scanning
import Scriptling.Proofs.Soundness

namespace Scriptling

open Text.Utf8 (encode)

def Segment.Gives (segment : Segment) : Except (Located LexFault) Token → Prop
  | .error e => segment.content = .fault e.fault
  | .ok k => segment.content = .token k.kind k.literal ∧ segment.bytes = encode k.lexeme

def Scan.placeOf : Except (Located LexFault) Token → Place
  | .error e => e.place
  | .ok k => k.place

/-- With these segments from the byte `p` of a text on, an item of the scan is of one of them and has
the place at which that begins, or it is the end marker and has the place of the end. -/
def Scan.Found (text : List UInt8) (p : Nat) (segments : List Segment)
    (item : Except (Located LexFault) Token) : Prop :=
  (∃ before segment after, segments = before ++ segment :: after ∧ segment.Gives item ∧
      (placeOf item).At text (p + (before.flatMap Segment.bytes).length)) ∨
    ∃ k, item = .ok k ∧ k.kind = .eof ∧ k.place.At text text.length

def Scan.Points (source : String) (item : Except (Located LexFault) Token) : Prop :=
  ∃ segments, Segments (encode source) segments ∧ Found (encode source) 0 segments item

/-- What is found behind a segment is found from that segment on. -/
theorem Scan.Found.behind {text : List UInt8} {p : Nat} {first : Segment} {segments : List Segment}
    {item : Except (Located LexFault) Token}
    (h : Found text (p + first.bytes.length) segments item) :
    Found text p (first :: segments) item := by
  rcases h with ⟨before, segment, after, rfl, hgives, hat⟩ | hend
  · refine .inl ⟨first :: before, segment, after, rfl, hgives, ?_⟩
    rw [List.flatMap_cons, List.length_append, ← Nat.add_assoc]
    exact hat
  · exact .inr hend

/-- Each item that segments yield has the place at which one of them begins. -/
theorem Yields.found {text : List UInt8} {p : Nat} {segments : List Segment}
    {items : List (Except (Located LexFault) Token)} (h : Yields text p segments items) :
    ∀ item ∈ items, Scan.Found text p segments item := by
  induction h with
  | done hat =>
    intro item hitem
    rw [List.mem_singleton.1 hitem]
    exact .inr ⟨_, rfl, rfl, hat⟩
  | gap _ ih =>
    intro item hitem
    exact (ih item hitem).behind
  | fault hat _ ih =>
    intro item hitem
    rcases List.mem_cons.1 hitem with rfl | hitem
    · exact .inl ⟨[], _, _, rfl, rfl, hat⟩
    · exact (ih item hitem).behind
  | token _ hlexeme hat _ ih =>
    intro item hitem
    rcases List.mem_cons.1 hitem with rfl | hitem
    · exact .inl ⟨[], _, _, rfl, ⟨rfl, hlexeme.symm⟩, hat⟩
    · exact (ih item hitem).behind

theorem scan_points (source : String) : ∀ item ∈ scan source, Scan.Points source item := by
  intro item hitem
  have hwhole := Text.Utf8.whole_encode source
  obtain ⟨segments, hsegments, hyields⟩ := Scan.items_yields [] hwhole (Scan.start_at hwhole)
  exact ⟨segments, hsegments, hyields.found item hitem⟩

/-- Lines and columns are counted from one. -/
theorem Place.At.pos {place : Place} {text : List UInt8} {p : Nat} (h : place.At text p) :
    0 < place.line ∧ 0 < place.column := by
  obtain ⟨start, -, hcolumn, -⟩ := h.column
  constructor
  · rw [h.line]
    omega
  · rw [hcolumn]
    omega

/-- Lines and columns are counted from one. -/
theorem Scan.Points.pos {source : String} {item : Except (Located LexFault) Token}
    (h : Scan.Points source item) : 0 < (placeOf item).line ∧ 0 < (placeOf item).column := by
  obtain ⟨segments, -, ⟨before, segment, after, -, -, hat⟩ | ⟨k, rfl, -, hat⟩⟩ := h
  · exact hat.pos
  · exact hat.pos

def Place.OfToken (source : String) (place : Place) : Prop :=
  ∃ k, .ok k ∈ scan source ∧ Scan.Points source (.ok k) ∧ place = k.place

/-- A report points into a program that was just run, or into one of these if it is of a failure. -/
def Report.Points (source : String) (sources : List String) : Report → Prop
  | .lex e => .error e ∈ scan source ∧ Scan.Points source (.error e)
  | .parse e => e.place.OfToken source
  | .scope e => e.place.OfToken source
  | .failure (.runtime e) => ∃ earlier ∈ sources, e.place.OfToken earlier
  | .failure (.stream _) => True

theorem Place.OfToken.pos {source : String} {place : Place} (h : place.OfToken source) :
    0 < place.line ∧ 0 < place.column := by
  obtain ⟨k, -, hpoints, rfl⟩ := h
  exact hpoints.pos

/-- And so they are in all reports. -/
theorem Report.Points.pos {source : String} {sources : List String} {report : Report}
    (h : report.Points source sources) :
    ∀ place ∈ report.place?, 0 < place.line ∧ 0 < place.column := by
  intro place hplace
  cases report with
  | lex e =>
    cases hplace
    exact h.2.pos
  | parse e =>
    cases hplace
    exact Place.OfToken.pos h
  | scope e =>
    cases hplace
    exact Place.OfToken.pos h
  | failure failure =>
    cases failure with
    | runtime e =>
      cases hplace
      obtain ⟨earlier, -, htoken⟩ := h
      exact htoken.pos
    | stream fault => cases hplace

theorem Place.Of.ofToken {source : String} {place : Place}
    (h : place.Of (· ∈ tokensOf (scan source))) : place.OfToken source := by
  obtain ⟨k, hk, rfl⟩ := h
  obtain ⟨item, hitem, hok⟩ := List.mem_filterMap.1 hk
  cases item with
  | error e => cases hok
  | ok k' =>
    cases hok
    exact ⟨k, hitem, scan_points source _ hitem, rfl⟩

namespace Session

variable {b : Below} {s : Session} {source : String} {sources : List String}

/-- Lexical faults are reported where their lexemes begin. -/
theorem points_lexReports (s : Session) (source : String) (sources : List String) :
    ∀ report ∈ (s.read source).lexReports, report.Points source sources := by
  intro report hreport
  obtain ⟨e, he, rfl⟩ := List.mem_map.1 hreport
  obtain ⟨item, hitem, herror⟩ := List.mem_filterMap.1 he
  cases item with
  | ok k => cases herror
  | error e' =>
    cases herror
    exact ⟨hitem, scan_points source _ hitem⟩

theorem points_read {reports : List Report} (h : (s.read source).parsed = .error reports) :
    ∀ report ∈ reports, report.Points source sources := by
  have hwithin := parse_within (T := (· ∈ tokensOf (scan source))) s.interactive s.nextId
    (fun _ hk => hk) (tokensOf_scan_end source)
  unfold read at h
  dsimp only at h
  cases hresult : (parse s.interactive s.nextId (tokensOf (scan source))).result with
  | ok ss =>
    rw [hresult] at h
    cases h
  | error faults =>
    rw [hresult] at h hwithin
    cases h
    intro report hreport
    obtain ⟨e, he, rfl⟩ := List.mem_map.1 hreport
    exact (hwithin e he).ofToken

/-- What is reported of one program, if that is so of what fails while it runs. -/
theorem points_runBy (hfailures : ∀ failure, .failure failure ∈ (s.runBy b source).reports →
    (Report.failure failure).Points source sources) :
    ∀ report ∈ (s.runBy b source).reports, report.Points source sources := by
  have hlex := s.points_lexReports source sources
  cases hparsed : (s.read source).parsed with
  | error reports =>
    rw [runBy_unread b hparsed]
    exact List.forall_mem_append.2 ⟨hlex, points_read hparsed⟩
  | ok ss =>
    by_cases hscanned : (s.read source).lexReports = []
    · by_cases hfaults : (resolve (s.read source).session.globalNames ss).faults = []
      · rw [runBy_read b hparsed hscanned, perform_clean b hfaults] at hfailures ⊢
        intro report hreport
        obtain ⟨failure, -, rfl⟩ := List.mem_map.1 hreport
        exact hfailures failure hreport
      · rw [runBy_read b hparsed hscanned, perform_faulty b hfaults]
        intro report hreport
        obtain ⟨e, he, rfl⟩ := List.mem_map.1 hreport
        exact (resolve_within (read_within hparsed fun _ hk => hk) _ e he).ofToken
    · rw [runBy_unscanned b hparsed hscanned]
      exact hlex

/-- An outcome depends on the programs up to its own. -/
theorem take_play (b : Below) (s : Session) (turns : List Turn) (n : Nat) :
    (s.play b turns).take n = s.play b (turns.take n) := by
  induction turns generalizing s n with
  | nil => simp [play]
  | cons turn turns ih =>
    cases n with
    | zero => rfl
    | succ n => rw [play, List.take_succ_cons, List.take_succ_cons, play, ih]

/-- An outcome of a session is that of the program given at its turn. -/
theorem exists_turn_of_play {b : Below} {s : Session} {turns : List Turn} {i : Nat} {o : Outcome}
    (h : (s.play b turns)[i]? = some o) :
    ∃ (turn : Turn) (s' : Session), turns[i]? = some turn ∧ o = s'.runBy b turn.source := by
  induction turns generalizing s i with
  | nil => simp [play] at h
  | cons turn turns ih =>
    cases i with
    | zero =>
      cases h
      exact ⟨turn, s.supply turn, rfl, rfl⟩
    | succ i => exact ih h

end Session

def Terms.ofPrograms (turns : List Turn) : Terms where
  token k := ∃ turn ∈ turns, k ∈ tokensOf (scan turn.source)
  spelled k hk := by
    obtain ⟨turn, -, hk⟩ := hk
    exact tokensOf_scan_spelled turn.source k hk
  tie _ _ := True

/-- Every report points into a program of the session. Of the program that was just run, it is a
lexeme's first byte where that is wrong, or a token where the tokens, names or statements are. What
fails while a program runs points to a token of it or of one before it. -/
theorem reports_point (interactive : Bool) (input : List UInt8) (output : Output)
    (clock : Supply Int) (chances : Supply Nat) (depth : Nat) (turns : List Turn) (i : Nat)
    (o : Outcome)
    (ho : ((Session.start interactive (.start input output clock chances)).play (.upTo depth)
      turns)[i]? = some o) :
    ∃ turn, turns[i]? = some turn ∧
      ∀ report ∈ o.reports,
        report.Points turn.source ((turns.take (i + 1)).map Turn.source) ∧
          ∀ place ∈ report.place?, 0 < place.line ∧ 0 < place.column := by
  obtain ⟨turn, s', hturn, hrun⟩ := Session.exists_turn_of_play ho
  obtain ⟨L, -, -, hplaced⟩ := (Watch.formed_answers (.ofPrograms (turns.take (i + 1)))
    fun _ _ => trivial).exists_holds (s := .start interactive (.start input output clock chances)) rfl
    (fun turn hturn k hk => ⟨turn, hturn, hk⟩) (Watch.idle_holds depth _ (turns.take (i + 1)))
  have hmem : o ∈ (Session.start interactive (.start input output clock chances)).play (.upTo depth)
      (turns.take (i + 1)) := by
    rw [← Session.take_play]
    apply List.mem_of_getElem? (i := i)
    rw [List.getElem?_take_of_lt (Nat.lt_succ_self i)]
    exact ho
  have hfailures : ∀ failure, .failure failure ∈ o.reports →
      (Report.failure failure).Points turn.source ((turns.take (i + 1)).map Turn.source) := by
    intro failure hfailure
    have hstop := (hplaced o hmem).1 failure hfailure
    cases failure with
    | stream fault => trivial
    | runtime e =>
      obtain ⟨k, ⟨earlier, hearlier, hk⟩, hplace⟩ := hstop
      exact ⟨earlier.source, List.mem_map_of_mem hearlier, Place.Of.ofToken ⟨k, hk, hplace⟩⟩
  refine ⟨turn, hturn, fun report hreport => ?_⟩
  subst hrun
  have hpoints := Session.points_runBy hfailures report hreport
  exact ⟨hpoints, hpoints.pos⟩

/-- A function made by one program fails when another one calls it. -/
def failingLater : List Turn :=
  [⟨"func f(x) \x7b return x + 1; \x7d", false, [], .unlimited, 0, 0⟩,
    ⟨"f(nil);", true, [], .unlimited, 0, 0⟩]

/-- The failure points to the operator in the program before. -/
theorem reports_point_earlier :
    ∃ o, ((Session.start false (.start [] .unlimited 0 0)).play (.upTo 9) failingLater)[1]? =
        some o ∧
      o.reports = [.failure (.runtime ⟨.operandsUnlike, 1, 22, "func f(x) \x7b return x + 1; \x7d"⟩)] ∧
      ∃ turn, failingLater[1]? = some turn ∧
        ∀ report ∈ o.reports,
          report.Points turn.source ((failingLater.take 2).map Turn.source) ∧
            ∀ place ∈ report.place?, 0 < place.line ∧ 0 < place.column := by
  have hreports : (((Session.start false (.start [] .unlimited 0 0)).play (.upTo 9)
      failingLater)[1]?).map Outcome.reports = some [.failure (.runtime
        ⟨.operandsUnlike, 1, 22, "func f(x) \x7b return x + 1; \x7d"⟩)] := by decide +kernel
  obtain ⟨o, ho, hmade⟩ := Option.map_eq_some_iff.1 hreports
  exact ⟨o, ho, hmade, reports_point false [] .unlimited 0 0 9 failingLater 1 o ho⟩

end Scriptling
