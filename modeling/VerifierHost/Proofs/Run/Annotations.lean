import Mathlib.Data.List.Induction
import VerifierHost.Proofs.Diagnostic.Places
import VerifierHost.Proofs.Run.Forgetting

/-! # What the latest run says about quantifiers

A line of the latest run may bring a report about a quantifier at a place (`reportOf?`). The two
indexes are nothing but these reports: at each place the counts of the methods, each as it was
reported last, and the triggers that were reported last. A new run starts without any, since every
file with annotations was noted. -/

namespace VerifierHost

open Wire

/-! ## Reports -/

/-- What an event says about a quantifier. -/
inductive Report where
  | instantiated (method : Text) (count : Int)
  | triggered (triggers : Triggers)
  deriving DecidableEq

/-- The report after the marker of an event, if it can be read. -/
def Report.read? : EventKind → Text → Option Report
  | .legacyInstantiations, text =>
    (payload? LegacyInstantiations.read text).map fun i => .instantiated i.quantifier i.count
  | .instantiations, text =>
    (payload? Instantiations.read text).map fun i => .instantiated i.method i.count
  | .chosenTriggers, text =>
    (payload? ChosenTriggers.read text).map fun t =>
      .triggered ⟨t.quantifier, triggersText t.triggers⟩
  | .compilerInfo, _ | .methodResult, _ => none

/-- A range of a file. -/
abbrev Place := Text × Range

/-- The report in a message, about the place of its first span. -/
def Wire.Message.report? (m : Message) (o : Origin) : Option (Place × Report) := do
  let (kind, text) ← EventKind.ofText? m.message
  let span ← m.spans.head?
  let range ← span.range.toOption
  let report ← Report.read? kind text
  return ((o.resolve span.fileName, range), report)

/-- The report on a line of a run. -/
def reportOf? (o : Origin) (line : Text) : Option (Place × Report) :=
  match parseLine o line with
  | .ok (some (m, o')) => m.report? o'
  | _ => none

/-- The counts reported for a place, one after the other. -/
def countsAt (place : Place) (reports : List (Place × Report)) : Table Text Int :=
  reports.filterMap fun
    | (p, .instantiated method count) => if p = place then some (method, count) else none
    | (_, .triggered _) => none

/-- The triggers reported for a place, one after the other. -/
def triggersAt (place : Place) (reports : List (Place × Report)) : List Triggers :=
  reports.filterMap fun
    | (p, .triggered triggers) => if p = place then some triggers else none
    | (_, .instantiated ..) => none

theorem countsAt_append (place : Place) (xs ys : List (Place × Report)) :
    countsAt place (xs ++ ys) = countsAt place xs ++ countsAt place ys := List.filterMap_append ..

theorem triggersAt_append (place : Place) (xs ys : List (Place × Report)) :
    triggersAt place (xs ++ ys) = triggersAt place xs ++ triggersAt place ys :=
  List.filterMap_append ..

theorem countsAt_instantiated (place other : Place) (method : Text) (count : Int) :
    countsAt other [(place, .instantiated method count)] =
      if place = other then [(method, count)] else [] := by
  by_cases h : place = other <;> simp [countsAt, h]

theorem countsAt_triggered (place other : Place) (t : Triggers) :
    countsAt other [(place, .triggered t)] = [] := rfl

theorem triggersAt_triggered (place other : Place) (t : Triggers) :
    triggersAt other [(place, .triggered t)] = if place = other then [t] else [] := by
  by_cases h : place = other <;> simp [triggersAt, h]

theorem triggersAt_instantiated (place other : Place) (method : Text) (count : Int) :
    triggersAt other [(place, .instantiated method count)] = [] := rfl

/-! ## Which events are accepted -/

theorem Wire.Message.report?_eq_some {m : Message} {o : Origin} {place : Place} {report : Report} :
    m.report? o = some (place, report) ↔ ∃ kind text span rest range,
      EventKind.ofText? m.message = some (kind, text) ∧ m.spans = span :: rest ∧
        span.range = .ok range ∧ Report.read? kind text = some report ∧
        place = (o.resolve span.fileName, range) := by
  unfold Message.report?
  cases EventKind.ofText? m.message with
  | none => simp
  | some event =>
    obtain ⟨kind, text⟩ := event
    cases m.spans with
    | nil => simp
    | cons span rest =>
      cases hrange : span.range with
      | error e => simp [hrange, Except.toOption]
      | ok range =>
        cases hread : Report.read? kind text with
        | none => simp [hrange, hread, Except.toOption]
        | some r => simp [hrange, hread, Except.toOption, eq_comm, and_comm]

/-- **An event is accepted** exactly if it has a span, its first span is on the map of an editor,
and what it says can be read. -/
theorem Wire.Message.report?_isSome {m : Message} {o : Origin} :
    (m.report? o).isSome ↔ ∃ kind text span rest,
      EventKind.ofText? m.message = some (kind, text) ∧ m.spans = span :: rest ∧
        (∀ v ∈ [span.lineStart, span.columnStart, span.lineEnd, span.columnEnd],
          1 ≤ v ∧ v ≤ 2147483648) ∧
        (Report.read? kind text).isSome := by
  constructor
  · intro h
    obtain ⟨⟨place, report⟩, hr⟩ := Option.isSome_iff_exists.mp h
    obtain ⟨kind, text, span, rest, range, hk, hs, hrange, hread, -⟩ := report?_eq_some.mp hr
    exact ⟨kind, text, span, rest, hk, hs, Span.range_ok.mp ⟨range, hrange⟩, by rw [hread]; rfl⟩
  · rintro ⟨kind, text, span, rest, hk, hs, hon, hread⟩
    obtain ⟨range, hrange⟩ := Span.range_ok.mpr hon
    obtain ⟨report, hread⟩ := Option.isSome_iff_exists.mp hread
    rw [report?_eq_some.mpr ⟨kind, text, span, rest, range, hk, hs, hrange, hread, rfl⟩]
    rfl

/-! ## Payloads -/

namespace AnnotationIndex

variable {π δ : Type} {x : AnnotationIndex π}

/-- What an index holds for a place. -/
def payload? (x : AnnotationIndex π) (place : Place) : Option π :=
  (x.entriesOf place.1).get? place.2

/-- An index has each file once, and for each file each range once. -/
structure Unique (x : AnnotationIndex π) : Prop where
  files : x.files.Nodup
  ranges : ∀ file, (x.entriesOf file).keys.Nodup

theorem entriesOf_update (kind : AnnotationKind π δ) (file : Text) (range : Range) (delta : δ)
    (other : Text) : (x.update kind file range delta).entriesOf other =
      if file = other then
        (x.entriesOf file).put range (kind.merge ((x.entriesOf file).get? range) delta)
      else x.entriesOf other := by
  unfold update entriesOf
  by_cases h : file = other
  · subst h
    simp
  · simp [h, Table.get?_put_of_ne _ _ h]

/-- An update is merged into what is there for its place. -/
theorem payload?_update (kind : AnnotationKind π δ) (place : Place) (delta : δ) (other : Place) :
    (x.update kind place.1 place.2 delta).payload? other =
      if place = other then some (kind.merge (x.payload? place) delta) else x.payload? other := by
  obtain ⟨file, range⟩ := place
  obtain ⟨otherFile, otherRange⟩ := other
  unfold payload?
  dsimp only
  rw [entriesOf_update]
  by_cases hf : file = otherFile
  · subst hf
    by_cases hr : range = otherRange
    · subst hr
      simp
    · simp [hr, Table.get?_put_of_ne _ _ hr]
  · simp [hf]

theorem Unique.update (h : x.Unique) (kind : AnnotationKind π δ) (file : Text) (range : Range)
    (delta : δ) : (x.update kind file range delta).Unique := by
  refine ⟨Table.nodup_keys_put h.files _ _, fun other => ?_⟩
  rw [entriesOf_update]
  split
  · exact Table.nodup_keys_put (h.ranges _) _ _
  · exact h.ranges other

theorem Unique.congr {y : AnnotationIndex π} (h : x.Unique) (he : y.entries = x.entries) :
    y.Unique := by
  refine ⟨?_, fun file => ?_⟩
  · show (y.entries.map Prod.fst).Nodup
    rw [he]
    exact h.files
  · rw [entriesOf, he]
    exact h.ranges file

theorem payload?_congr {y : AnnotationIndex π} (he : y.entries = x.entries) (place : Place) :
    y.payload? place = x.payload? place := by
  rw [payload?, payload?, entriesOf, entriesOf, he]

theorem entries_eq_nil (h : x.files = []) : x.entries = [] := List.map_eq_nil_iff.mp h

end AnnotationIndex

/-! ## Tables of what was put last -/

namespace Table

variable {κ α : Type} [DecidableEq κ]

theorem keys_put (t : Table κ α) (key : κ) (value : α) :
    (t.put key value).keys = if key ∈ t.keys then t.keys else t.keys ++ [key] := by
  by_cases hm : key ∈ t.keys
  · rw [if_pos hm]
    induction t with
    | nil => cases hm
    | cons row rest ih =>
      by_cases h : row.1 = key
      · simp [put, keys, h]
      · have hrest : key ∈ keys rest := (List.mem_cons.mp hm).resolve_left (Ne.symm h)
        rw [put, if_neg h]
        exact congrArg (row.1 :: ·) (ih hrest)
  · rw [if_neg hm, put_of_not_mem hm]
    simp [keys]

theorem putAll_concat (t rows : Table κ α) (row : κ × α) :
    t.putAll (rows ++ [row]) = (t.putAll rows).put row.1 row.2 := by
  simp [putAll]

/-- The keys of what was put into an empty table stand in the order in which they first came. -/
theorem keys_putAll_nil (rows : Table κ α) : (putAll [] rows).keys = rows.keys.eraseDups := by
  induction rows using List.reverseRecOn with
  | nil => rfl
  | append_singleton rows row ih =>
    have hkeys : keys (rows ++ [row]) = keys rows ++ [row.1] := by simp [keys]
    rw [putAll_concat, keys_put, ih, hkeys, List.eraseDups_append]
    by_cases hm : row.1 ∈ keys rows
    · simp [hm, List.mem_eraseDups, List.cons_removeAll]
    · simp [hm, List.mem_eraseDups, List.cons_removeAll, List.eraseDups_cons]

end Table

/-! ## What a board holds -/

/-- What a report leaves of the annotations. -/
def Findings.Follows (f g : Findings) : Option (Place × Report) → Prop
  | none => g.instantiations = f.instantiations ∧ g.triggers = f.triggers
  | some (place, .instantiated method count) =>
    g.instantiations =
        f.instantiations.update instantiationKind place.1 place.2 (method, count) ∧
      g.triggers = f.triggers
  | some (place, .triggered t) =>
    g.instantiations = f.instantiations ∧
      g.triggers = f.triggers.update triggerKind place.1 place.2 t

namespace Board

theorem readQuantifier_follows (b : Board) (o : Origin) {m : Message} {kind : EventKind}
    {text : Text} (hk : EventKind.ofText? m.message = some (kind, text))
    (hcompiler : kind ≠ .compilerInfo) (hresult : kind ≠ .methodResult) :
    b.findings.Follows (b.readQuantifier o kind text m.spans).findings (m.report? o) := by
  unfold readQuantifier Message.report?
  rw [hk]
  cases m.spans with
  | nil => exact ⟨rfl, rfl⟩
  | cons span rest =>
    cases hrange : span.range with
    | error e => simp [Except.toOption, hrange, Findings.Follows]
    | ok range =>
      cases kind with
      | compilerInfo => exact absurd rfl hcompiler
      | methodResult => exact absurd rfl hresult
      | legacyInstantiations =>
        cases hp : payload? LegacyInstantiations.read text <;>
          simp [Except.toOption, hrange, hp, Report.read?, Findings.Follows, addInstantiations,
            annotate, touch]
      | instantiations =>
        cases hp : payload? Instantiations.read text <;>
          simp [Except.toOption, hrange, hp, Report.read?, Findings.Follows, addInstantiations,
            annotate, touch]
      | chosenTriggers =>
        cases hp : payload? ChosenTriggers.read text <;>
          simp [Except.toOption, hrange, hp, Report.read?, Findings.Follows, addTriggers,
            annotate, touch]

theorem readCompilerInfo_annotations (b : Board) (o : Origin) (info : CompilerInfo) :
    (b.readCompilerInfo o info).findings.instantiations = b.findings.instantiations ∧
      (b.readCompilerInfo o info).findings.triggers = b.findings.triggers := by
  unfold readCompilerInfo
  rw [recordProcedures_eq]
  cases onMap info.procedures with
  | false => exact ⟨rfl, rfl⟩
  | true =>
    rw [if_pos rfl]
    dsimp only
    rw [annotateAll_findings]
    exact ⟨rfl, rfl⟩

theorem readDiagnostic_findings (b : Board) (directory : FilePath) (o : Origin) (m : Message) :
    (b.readDiagnostic directory o m).1.findings = b.findings := by
  unfold readDiagnostic
  split
  next => rfl
  next =>
    split
    next =>
      dsimp only
      split <;> rfl
    next => rfl

/-- **A line changes the annotations by its report** and by nothing else. -/
theorem readLine_follows (b : Board) (directory : FilePath) (o : Origin) (line : Text) :
    b.findings.Follows (b.readLine directory o line).1.findings (reportOf? o line) := by
  unfold readLine reportOf?
  cases parseLine o line with
  | error e => exact ⟨rfl, rfl⟩
  | ok parsed =>
    cases parsed with
    | none => exact ⟨rfl, rfl⟩
    | some message =>
      obtain ⟨m, o'⟩ := message
      dsimp only
      cases hk : EventKind.ofText? m.message with
      | none =>
        have hnone : m.report? o' = none := by simp [Message.report?, hk]
        rw [hnone]
        dsimp only
        rw [readDiagnostic_findings]
        exact ⟨rfl, rfl⟩
      | some event =>
        obtain ⟨kind, text⟩ := event
        have hother : Report.read? kind text = none → m.report? o' = none := by
          intro hread
          simp [Message.report?, hk, hread]
        cases kind with
        | compilerInfo =>
          rw [hother rfl]
          dsimp only [readEvent]
          cases payload? CompilerInfo.read text with
          | none => exact ⟨rfl, rfl⟩
          | some info => exact b.readCompilerInfo_annotations o' info
        | methodResult =>
          rw [hother rfl]
          dsimp only [readEvent]
          cases payload? MethodResult.read text with
          | none => exact ⟨rfl, rfl⟩
          | some r => exact ⟨rfl, rfl⟩
        | legacyInstantiations | instantiations | chosenTriggers =>
          exact b.readQuantifier_follows o' hk nofun nofun

/-- The annotations on a board are what was reported, and nothing else. -/
structure Reports (b : Board) (reports : List (Place × Report)) : Prop where
  uniqueCounts : b.findings.instantiations.Unique
  uniqueTriggers : b.findings.triggers.Unique
  counts : ∀ place, b.findings.instantiations.payload? place =
    if countsAt place reports = [] then none else some (.putAll [] (countsAt place reports))
  triggers : ∀ place, b.findings.triggers.payload? place = (triggersAt place reports).getLast?

namespace Reports

variable {b c : Board} {e : Engine} {reports : List (Place × Report)}

theorem congr (h : b.Reports reports)
    (hcounts : c.findings.instantiations.entries = b.findings.instantiations.entries)
    (htriggers : c.findings.triggers.entries = b.findings.triggers.entries) :
    c.Reports reports := by
  refine ⟨h.uniqueCounts.congr hcounts, h.uniqueTriggers.congr htriggers, fun place => ?_,
    fun place => ?_⟩
  · rw [AnnotationIndex.payload?_congr hcounts]
    exact h.counts place
  · rw [AnnotationIndex.payload?_congr htriggers]
    exact h.triggers place

/-- A report comes behind those that were made before. -/
theorem follows (h : b.Reports reports) {report : Option (Place × Report)}
    (hf : b.findings.Follows c.findings report) : c.Reports (reports ++ report.toList) := by
  cases report with
  | none =>
    rw [Option.toList_none, List.append_nil]
    exact h.congr (congrArg _ hf.1) (congrArg _ hf.2)
  | some r =>
    obtain ⟨place, report⟩ := r
    cases report with
    | instantiated method count =>
      obtain ⟨hcounts, htriggers⟩ := hf
      refine ⟨hcounts ▸ h.uniqueCounts.update .., h.uniqueTriggers.congr (congrArg _ htriggers),
        fun other => ?_, fun other => ?_⟩
      · rw [hcounts, AnnotationIndex.payload?_update, h.counts, h.counts, Option.toList_some,
          countsAt_append, countsAt_instantiated]
        by_cases hp : place = other
        · subst hp
          have hne : countsAt place reports ++ [(method, count)] ≠ [] := by simp
          rw [if_pos rfl, if_pos rfl, if_neg hne, Table.putAll_concat]
          by_cases hnil : countsAt place reports = []
          · simp [instantiationKind, hnil]
          · simp [instantiationKind, hnil]
        · simp [hp]
      · rw [AnnotationIndex.payload?_congr (congrArg _ htriggers), h.triggers, Option.toList_some,
          triggersAt_append, triggersAt_instantiated, List.append_nil]
    | triggered t =>
      obtain ⟨hcounts, htriggers⟩ := hf
      refine ⟨h.uniqueCounts.congr (congrArg _ hcounts), htriggers ▸ h.uniqueTriggers.update ..,
        fun other => ?_, fun other => ?_⟩
      · rw [AnnotationIndex.payload?_congr (congrArg _ hcounts), h.counts, Option.toList_some,
          countsAt_append, countsAt_triggered, List.append_nil]
      · rw [htriggers, AnnotationIndex.payload?_update, h.triggers, Option.toList_some,
          triggersAt_append, triggersAt_triggered]
        by_cases hp : place = other
        · simp [hp, triggerKind]
        · simpa [hp] using h.triggers other

theorem readAll (h : b.Reports reports) (directory : FilePath) (lines : List (Origin × Text)) :
    (b.readAll directory lines).Reports
      (reports ++ lines.filterMap fun line => reportOf? line.1 line.2) := by
  induction lines generalizing b reports with
  | nil => simpa [Board.readAll] using h
  | cons line rest ih =>
    have hcons : (line :: rest).filterMap (fun line => reportOf? line.1 line.2) =
        (reportOf? line.1 line.2).toList ++
          rest.filterMap fun line => reportOf? line.1 line.2 := by
      cases hr : reportOf? line.1 line.2 <;> simp [hr]
    rw [hcons, ← List.append_assoc]
    exact ih (h.follows (b.readLine_follows directory line.1 line.2))

/-- A new run has nothing to report yet. -/
theorem startRun {strays : Table (Text × Text) Range} (h : e.board.Tracks strays)
    (target : VerificationTarget) (name : Text) :
    (e.startRun target name).1.board.Reports [] := by
  obtain ⟨hi, ht, -, -⟩ := Engine.findings_startRun h target name
  have hi := AnnotationIndex.entries_eq_nil hi
  have ht := AnnotationIndex.entries_eq_nil ht
  have hempty : Board.Reports ⟨.empty, .empty false, [], []⟩ [] :=
    ⟨⟨.nil, fun _ => .nil⟩, ⟨.nil, fun _ => .nil⟩, fun _ => rfl, fun _ => rfl⟩
  exact hempty.congr hi ht

end Reports

end Board

/-! ## Every history -/

namespace Engine

/-- The lines of the latest run that were heard so far, after a move; a new run has said nothing. -/
def recordAfter (e : Engine) (lines : List (Origin × Text)) : Move → List (Origin × Text)
  | .launch .. | .refuse .. | .abort .. => []
  | m => lines ++ e.heard m

/-- The reports on some lines. -/
def reportsOf (lines : List (Origin × Text)) : List (Place × Report) :=
  lines.filterMap fun line => reportOf? line.1 line.2

/-- **Every move reports what it lets be heard.** -/
theorem reports_play {e : Engine} {strays : Table (Text × Text) Range}
    {lines : List (Origin × Text)} (ht : e.board.Tracks strays)
    (h : e.board.Reports (reportsOf lines)) (m : Move) :
    (e.play m).engine.board.Reports (reportsOf (e.recordAfter lines m)) := by
  cases m with
  | launch target name invocation pid moment => exact .startRun ht target name
  | abort target name => exact .startRun ht target name
  | refuse target name =>
    rw [board_refuse]
    exact .startRun ht target name
  | output pid stream chunks closed =>
    rw [board_output]
    simpa [recordAfter, reportsOf] using h.readAll e.directory (e.heard _)
  | exit pid code moment =>
    rw [board_exit]
    simpa [recordAfter, reportsOf] using h.readAll e.directory (e.heard _)
  | awaitNews file => simpa [Engine.play, recordAfter, heard] using h
  | drawHints file =>
    have hdrawn := h.congr (c := (e.play (.drawHints file)).engine.board)
      (AnnotationIndex.entries_render instantiationKind _ file) rfl
    simpa [recordAfter, heard] using hdrawn
  | takeChanged =>
    have htaken := h.congr (c := (e.play .takeChanged).engine.board) rfl rfl
    simpa [recordAfter, heard] using htaken

end Engine

namespace Chronicle

/-- The lines of the latest run that were heard in the course of some moves, after others. -/
def transcript (c : Chronicle) (lines : List (Origin × Text)) : List Move → List (Origin × Text)
  | [] => lines
  | m :: rest => (c.add m).transcript (c.engine.recordAfter lines m) rest

theorem reports_addAll {c : Chronicle} {lines : List (Origin × Text)}
    (ht : c.engine.board.Tracks c.strays) (h : c.engine.board.Reports (Engine.reportsOf lines))
    (moves : List Move) :
    (c.addAll moves).engine.board.Reports (Engine.reportsOf (c.transcript lines moves)) := by
  induction moves generalizing c lines with
  | nil => exact h
  | cons m rest ih => exact ih (Engine.tracks_play ht m) (Engine.reports_play ht h m)

/-- The first entry of each method, with the count that was reported last. -/
def LastCounts (rows counts : Table Text Int) : Prop :=
  counts.keys = rows.keys.eraseDups ∧
    ∀ method, counts.get? method = (rows.reverse.find? fun row => row.1 = method).map Prod.snd

/-- **The annotations are what the latest run has reported**, after any moves. For each range of
each file the one index has the methods in the order in which they were first reported, each with
its last count, and the other has the last triggers; what was not reported by an accepted event of
the latest run is in neither. An event is accepted exactly if it has a span, its first span is on
the map of an editor, and what it says can be read. -/
theorem annotations_eq_reports (directory : FilePath) (settings : Settings) (decorating : Bool)
    (moves : List Move) :
    let c := start (.idle directory settings decorating)
    let reports := Engine.reportsOf (c.transcript [] moves)
    let f := (c.addAll moves).engine.board.findings
    (f.instantiations.Unique ∧ ∀ place,
      match f.instantiations.payload? place with
      | none => countsAt place reports = []
      | some counts => countsAt place reports ≠ [] ∧ LastCounts (countsAt place reports) counts) ∧
    (f.triggers.Unique ∧ ∀ place,
      f.triggers.payload? place = (triggersAt place reports).getLast?) ∧
    ∀ (m : Message) (o : Origin), (m.report? o).isSome ↔ ∃ kind text span rest,
      EventKind.ofText? m.message = some (kind, text) ∧ m.spans = span :: rest ∧
        (∀ v ∈ [span.lineStart, span.columnStart, span.lineEnd, span.columnEnd],
          1 ≤ v ∧ v ≤ 2147483648) ∧
        (Report.read? kind text).isSome := by
  intro c reports f
  have hstart : c.engine.board.Reports (Engine.reportsOf []) :=
    ⟨⟨.nil, fun _ => .nil⟩, ⟨.nil, fun _ => .nil⟩, fun _ => rfl, fun _ => rfl⟩
  have h : (c.addAll moves).engine.board.Reports reports :=
    reports_addAll (tracks directory settings decorating []) hstart moves
  refine ⟨⟨h.uniqueCounts, fun place => ?_⟩, ⟨h.uniqueTriggers, h.triggers⟩,
    fun m o => Message.report?_isSome⟩
  have hcounts : f.instantiations.payload? place = _ := h.counts place
  rw [hcounts]
  by_cases hnil : countsAt place reports = []
  · rw [if_pos hnil]
    exact hnil
  · rw [if_neg hnil]
    refine ⟨hnil, Table.keys_putAll_nil _, fun method => ?_⟩
    rw [Table.get?_putAll]
    exact Option.or_none

end Chronicle

end VerifierHost
