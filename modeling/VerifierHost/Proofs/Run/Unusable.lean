import VerifierHost.Proofs.Run.Annotations
import VerifierHost.Proofs.Run.Delivery
import VerifierHost.Proofs.Run.Showing

/-! # Lines of no use

A line is of no use if it holds no message, if what its event says cannot be read, or if a place in
it is off the map or cannot be shown. All that such a line can leave behind are strays, the ranges
it recorded before it came to a bad place, and a hidden diagnostic, kept although its file has no
URI. A line that leaves neither is as if it had never been printed. -/

namespace VerifierHost

open Wire

/-! ## Use and no use -/

/-- Whether a text after an event's marker is what the event asks for. -/
def EventKind.reads : EventKind → Text → Bool
  | .compilerInfo, text => (payload? CompilerInfo.read text).isSome
  | .methodResult, text => (payload? MethodResult.read text).isSome
  | kind, text => (Report.read? kind text).isSome

/-- The events that are about a quantifier belong to a span of their message. -/
def EventKind.hasSpan : EventKind → Bool
  | .compilerInfo | .methodResult => false
  | _ => true

/-- Whether diagnostics are kept depends only on whether all are wanted or just errors. -/
def keepsOf (errorsOnly : Bool) (d : Diagnostic) : Bool := (Store.empty errorsOnly).keeps d

/-- Why a line is of no use. -/
inductive Unusable (directory : FilePath) (errorsOnly : Bool) (o : Origin) (line : Text) :
    Prop where
  | noise (h : parseLine o line = .ok none)
  /-- A number is too long or values nest too deep. -/
  | unread {e : Json.ReadError} (h : parseLine o line = .error e)
  | malformed {m : Message} {o' : Origin} {kind : EventKind} {text : Text}
      (h : parseLine o line = .ok (some (m, o')))
      (event : EventKind.ofText? m.message = some (kind, text)) (value : kind.reads text = false)
  /-- The quantifier has no place on the map. -/
  | placeless {m : Message} {o' : Origin} {kind : EventKind} {text : Text}
      (h : parseLine o line = .ok (some (m, o')))
      (event : EventKind.ofText? m.message = some (kind, text)) (kinds : kind.hasSpan = true)
      (place : ∀ span rest range, m.spans = span :: rest → span.range ≠ .ok range)
  /-- Some procedure has no place on the map. -/
  | offMap {m : Message} {o' : Origin} {text : Text} {info : CompilerInfo}
      (h : parseLine o line = .ok (some (m, o')))
      (event : EventKind.ofText? m.message = some (.compilerInfo, text))
      (value : payload? CompilerInfo.read text = some info)
      (places : onMap info.procedures = false)
  /-- A place of the message, or of one inside it, is off the map or has no URI. -/
  | unlocated {m : Message} {o' : Origin} {e : PlaceError}
      (h : parseLine o line = .ok (some (m, o'))) (event : EventKind.ofText? m.message = none)
      (place : m.locate directory o' = .error e)
  /-- The diagnostic is kept, but its file has no URI. -/
  | unshown {m : Message} {o' : Origin} {located : Located}
      (h : parseLine o line = .ok (some (m, o'))) (event : EventKind.ofText? m.message = none)
      (place : m.locate directory o' = .ok located)
      (kept : keepsOf errorsOnly located.diagnostic = true)
      (uri : Uri.ofFile? directory located.file = none)

/-- What a line can be good for. -/
inductive Usable (directory : FilePath) (errorsOnly : Bool) (o : Origin) (line : Text) :
    Prop where
  | report {found : Place × Report} (h : reportOf? o line = some found)
  | procedures {m : Message} {o' : Origin} {text : Text} {info : CompilerInfo}
      (h : parseLine o line = .ok (some (m, o')))
      (event : EventKind.ofText? m.message = some (.compilerInfo, text))
      (value : payload? CompilerInfo.read text = some info)
      (places : onMap info.procedures = true)
  | result {m : Message} {o' : Origin} {text : Text} {r : MethodResult}
      (h : parseLine o line = .ok (some (m, o')))
      (event : EventKind.ofText? m.message = some (.methodResult, text))
      (value : payload? MethodResult.read text = some r)
  | diagnostic {m : Message} {o' : Origin} {located : Located}
      (h : parseLine o line = .ok (some (m, o'))) (event : EventKind.ofText? m.message = none)
      (place : m.locate directory o' = .ok located)
      (shown : keepsOf errorsOnly located.diagnostic = true →
        (Uri.ofFile? directory located.file).isSome)

section

variable {directory : FilePath} {errorsOnly : Bool} {o : Origin} {line : Text}

/-- An event about a quantifier is reported, malformed or without a place. -/
theorem usable_or_unusable_quantifier {m : Message} {o' : Origin} {kind : EventKind} {text : Text}
    (h : parseLine o line = .ok (some (m, o')))
    (event : EventKind.ofText? m.message = some (kind, text)) (kinds : kind.hasSpan = true) :
    Usable directory errorsOnly o line ∨ Unusable directory errorsOnly o line := by
  cases hreport : m.report? o' with
  | some found =>
    refine .inl (.report (show reportOf? o line = some found from ?_))
    rw [reportOf?, h]
    exact hreport
  | none =>
    right
    cases hread : Report.read? kind text with
    | none =>
      refine .malformed h event ?_
      cases kind with
      | compilerInfo | methodResult => cases kinds
      | legacyInstantiations | instantiations | chosenTriggers =>
        exact congrArg Option.isSome hread
    | some report =>
      refine .placeless h event kinds fun span rest range hspans hrange => ?_
      have hsome : m.report? o' = some ((o'.resolve span.fileName, range), report) :=
        Message.report?_eq_some.mpr
          ⟨kind, text, span, rest, range, event, hspans, hrange, hread, rfl⟩
      rw [hreport] at hsome
      cases hsome

theorem usable_or_unusable :
    Usable directory errorsOnly o line ∨ Unusable directory errorsOnly o line := by
  cases h : parseLine o line with
  | error e => exact .inr (.unread h)
  | ok parsed =>
    cases parsed with
    | none => exact .inr (.noise h)
    | some message =>
      obtain ⟨m, o'⟩ := message
      cases event : EventKind.ofText? m.message with
      | none =>
        cases place : m.locate directory o' with
        | error e => exact .inr (.unlocated h event place)
        | ok located =>
          cases kept : keepsOf errorsOnly located.diagnostic with
          | false => exact .inl (.diagnostic h event place fun hk => by rw [kept] at hk; cases hk)
          | true =>
            cases uri : Uri.ofFile? directory located.file with
            | none => exact .inr (.unshown h event place kept uri)
            | some text => exact .inl (.diagnostic h event place fun _ => by rw [uri]; rfl)
      | some found =>
        obtain ⟨kind, text⟩ := found
        cases kind with
        | compilerInfo =>
          cases value : payload? CompilerInfo.read text with
          | none => exact .inr (.malformed h event (congrArg Option.isSome value))
          | some info =>
            cases places : onMap info.procedures with
            | false => exact .inr (.offMap h event value places)
            | true => exact .inl (.procedures h event value places)
        | methodResult =>
          cases value : payload? MethodResult.read text with
          | none => exact .inr (.malformed h event (congrArg Option.isSome value))
          | some r => exact .inl (.result h event value)
        | legacyInstantiations | instantiations | chosenTriggers =>
          exact usable_or_unusable_quantifier h event rfl

end

/-! ## What is left behind -/

/-- The diagnostic on a line that is kept although its file has no URI. -/
def hidden? (directory : FilePath) (errorsOnly : Bool) (o : Origin) (line : Text) :
    Option Located :=
  match parseLine o line with
  | .ok (some (m, o')) =>
    match EventKind.ofText? m.message, m.locate directory o' with
    | none, .ok located =>
      if keepsOf errorsOnly located.diagnostic && (Uri.ofFile? directory located.file).isNone then
        some located
      else none
    | _, _ => none
  | _ => none

theorem keeps_of_hidden? {directory : FilePath} {errorsOnly : Bool} {o : Origin} {line : Text}
    {located : Located} (h : hidden? directory errorsOnly o line = some located) :
    keepsOf errorsOnly located.diagnostic = true := by
  unfold hidden? at h
  split at h
  next =>
    split at h
    next =>
      split at h
      next hif =>
        rw [← Option.some.inj h]
        exact (Bool.and_eq_true_iff.mp hif).1
      next => cases h
    next => cases h
  next => cases h

/-! Only lines of no use leave something behind. -/

theorem Unusable.of_strays {directory : FilePath} {errorsOnly : Bool} {o : Origin} {line : Text}
    (h : strayRows o line ≠ []) : Unusable directory errorsOnly o line := by
  unfold strayRows at h
  split at h
  next m o' hparse =>
    split at h
    next text event =>
      split at h
      next info value =>
        split at h
        next => exact absurd rfl h
        next places => exact .offMap hparse event value (Bool.eq_false_iff.mpr places)
      next => exact absurd rfl h
    next => exact absurd rfl h
  next => exact absurd rfl h

namespace Store

theorem errorsOnly_add (s : Store) (l : Located) : (s.add l).errorsOnly = s.errorsOnly := by
  unfold add
  split <;> rfl

/-- A store that keeps a diagnostic holds one more of its file. -/
theorem add_ne_self {s : Store} {l : Located} (h : s.keeps l.diagnostic = true) : s.add l ≠ s := by
  intro he
  have hlength := congrArg (fun s : Store => (s.diagnosticsOf l.file).length) he
  simp [add, h, diagnosticsOf] at hlength

end Store

namespace Board

variable {b : Board} {directory : FilePath} {o : Origin} {line : Text}

/-- What a board holds after a line of no use: strays and a hidden diagnostic are added. -/
def leftBy (b : Board) (directory : FilePath) (o : Origin) (line : Text) : Board :=
  { b with
    findings := { b.findings with
      methodRanges := b.findings.methodRanges.putAll (strayRows o line) }
    store := b.store.addAll (hidden? directory b.store.errorsOnly o line).toList }

theorem readQuantifier_placeless {spans : List Span}
    (place : ∀ span rest range, spans = span :: rest → span.range ≠ .ok range) (kind : EventKind)
    (text : Text) : b.readQuantifier o kind text spans = b := by
  unfold readQuantifier
  cases spans with
  | nil => rfl
  | cons span rest =>
    cases hrange : span.range with
    | error e => simp only [hrange]
    | ok range => exact absurd hrange (place span rest range rfl)

theorem readQuantifier_malformed {kind : EventKind} {text : Text} (kinds : kind.hasSpan = true)
    (value : kind.reads text = false) (spans : List Span) :
    b.readQuantifier o kind text spans = b := by
  unfold readQuantifier
  cases spans with
  | nil => rfl
  | cons span rest =>
    cases hrange : span.range with
    | error e => simp only [hrange]
    | ok range =>
      cases kind with
      | compilerInfo | methodResult => cases kinds
      | legacyInstantiations | instantiations | chosenTriggers =>
        simp only [EventKind.reads, Report.read?, Option.isSome_map, Option.isSome_eq_false_iff,
          Option.isNone_iff_eq_none] at value
        simp only [hrange, value]

/-- A line that leaves nothing behind leaves the board as it is. -/
theorem leftBy_eq_self (strays : strayRows o line = [])
    (hidden : hidden? directory b.store.errorsOnly o line = none) :
    b.leftBy directory o line = b := by
  rw [leftBy, strays, hidden]
  rfl

/-- **A line of no use** shows nothing, and all it changes on a board is what it leaves behind. -/
theorem readLine_unusable (h : Unusable directory b.store.errorsOnly o line) :
    b.readLine directory o line = (b.leftBy directory o line, []) := by
  cases h with
  | noise h | unread h =>
    rw [leftBy_eq_self (by simp [strayRows, h]) (by simp [hidden?, h])]
    simp [readLine, h]
  | @malformed m o' kind text h event value =>
    rw [leftBy_eq_self ?_ (by simp [hidden?, h, event])]
    · cases kind with
      | compilerInfo | methodResult =>
        simp only [EventKind.reads, Option.isSome_eq_false_iff, Option.isNone_iff_eq_none] at value
        simp [readLine, h, event, readEvent, value]
      | legacyInstantiations | instantiations | chosenTriggers =>
        simp [readLine, h, event, readEvent, readQuantifier_malformed rfl value]
    · cases kind with
      | compilerInfo =>
        simp only [EventKind.reads, Option.isSome_eq_false_iff, Option.isNone_iff_eq_none] at value
        simp [strayRows, h, event, value]
      | methodResult | legacyInstantiations | instantiations | chosenTriggers =>
        simp [strayRows, h, event]
  | @placeless m o' kind text h event kinds place =>
    cases kind with
    | compilerInfo | methodResult => cases kinds
    | legacyInstantiations | instantiations | chosenTriggers =>
      rw [leftBy_eq_self (by simp [strayRows, h, event]) (by simp [hidden?, h, event])]
      simp [readLine, h, event, readEvent, readQuantifier_placeless place]
  | offMap h event value places =>
    simp [readLine, leftBy, strayRows, hidden?, h, event, readEvent, value, readCompilerInfo,
      recordProcedures_eq, places, Store.addAll]
  | unlocated h event place =>
    rw [leftBy_eq_self (by simp [strayRows, h, event]) (by simp [hidden?, h, event, place])]
    simp [readLine, h, event, readDiagnostic, place]
  | unshown h event place kept uri =>
    have hkept : b.store.keeps _ = true := kept
    simp [readLine, leftBy, strayRows, hidden?, h, event, readDiagnostic, place, kept, uri, hkept,
      Store.addAll]

/-- The board is as it was exactly if the strays were recorded before and nothing is hidden. -/
theorem leftBy_eq_self_iff : b.leftBy directory o line = b ↔
    b.findings.methodRanges.putAll (strayRows o line) = b.findings.methodRanges ∧
      hidden? directory b.store.errorsOnly o line = none := by
  constructor
  · intro h
    refine ⟨congrArg (fun c : Board => c.findings.methodRanges) h, ?_⟩
    cases hidden : hidden? directory b.store.errorsOnly o line with
    | none => rfl
    | some located =>
      have hstore : b.store.addAll [located] = b.store := by
        have := congrArg Board.store h
        rwa [leftBy, hidden] at this
      exact absurd hstore (Store.add_ne_self (keeps_of_hidden? hidden))
  · rintro ⟨strays, hidden⟩
    rw [leftBy, strays, hidden]
    rfl

/-- Nothing that a line says changes which diagnostics are wanted. -/
theorem errorsOnly_readLine (b : Board) (directory : FilePath) (o : Origin) (line : Text) :
    (b.readLine directory o line).1.store.errorsOnly = b.store.errorsOnly := by
  rw [store_readLine]
  cases located? directory o line with
  | none => rfl
  | some l => exact Store.errorsOnly_add ..

end Board

/-! ## Streams with and without such lines -/

namespace Engine

variable {e : Engine} {o : Origin}

/-- A line that is of no use and leaves nothing behind. -/
structure Traceless (directory : FilePath) (errorsOnly : Bool) (o : Origin) (line : Text) :
    Prop where
  unusable : Unusable directory errorsOnly o line
  strays : strayRows o line = []
  hidden : hidden? directory errorsOnly o line = none

theorem takeLine_traceless {line : Text} (h : Traceless e.directory e.board.store.errorsOnly o line)
    (number : Nat) : e.takeLine number o line = (e, []) := by
  unfold takeLine
  split
  next =>
    rw [Board.readLine_unusable h.unusable, Board.leftBy_eq_self h.strays h.hidden]
  next => rfl

theorem takeLine_same (e : Engine) (number : Nat) (o : Origin) (line : Text) :
    (e.takeLine number o line).1.directory = e.directory ∧
      (e.takeLine number o line).1.board.store.errorsOnly = e.board.store.errorsOnly := by
  unfold takeLine
  split
  next => exact ⟨rfl, Board.errorsOnly_readLine ..⟩
  next => exact ⟨rfl, rfl⟩

/-- **Lines without a trace may be left out of a stream.** -/
theorem takeLines_filter {lines : List Text} {kept : Text → Bool}
    (h : ∀ line ∈ lines, kept line = false →
      Traceless e.directory e.board.store.errorsOnly o line) (number : Nat) :
    e.takeLines number o (lines.filter kept) = e.takeLines number o lines := by
  induction lines generalizing e with
  | nil => rfl
  | cons line rest ih =>
    obtain ⟨hdirectory, herrors⟩ := e.takeLine_same number o line
    have hrest := ih (e := (e.takeLine number o line).1) fun l hl hk => by
      rw [hdirectory, herrors]
      exact h l (List.mem_cons_of_mem _ hl) hk
    cases hk : kept line with
    | true =>
      rw [List.filter_cons_of_pos hk]
      simp only [takeLines, hrest]
    | false =>
      have htraceless := takeLine_traceless (h line List.mem_cons_self hk) number
      rw [htraceless] at hrest
      rw [List.filter_cons_of_neg (by simp [hk]), hrest]
      simp only [takeLines, htraceless, List.nil_append]

/-- Lines without a trace do not matter for what a run comes to, signs of a crash apart. -/
theorem verdict_filter {r : ActiveRun} {printed printed' : Stream → Text.Bytes}
    {kept : Text → Bool}
    (hlines : linesIn (Text.Utf8.decode (printed' r.jsonStream)) =
      (linesIn (Text.Utf8.decode (printed r.jsonStream))).filter kept)
    (h : ∀ line ∈ linesIn (Text.Utf8.decode (printed r.jsonStream)), kept line = false →
      Traceless e.directory e.board.store.errorsOnly r.origin line)
    (hcrash : showsCrash (Text.Utf8.decode (printed' .stderr)) =
      showsCrash (Text.Utf8.decode (printed .stderr)))
    (code : ExitCode) (seconds : Option Float) :
    e.verdict r printed' code seconds = e.verdict r printed code seconds := by
  unfold verdict RunStatus.classify
  rw [hlines, takeLines_filter h, hcrash]

/-- **Lines of no use**, in whatever state an engine is. Each line is either good for something or
of no use. A line of no use shows nothing, and all it changes is what it leaves behind on the board
of the latest run, from where the lines after it are taken in as ever. So it is as if it had never
been printed exactly if its run was superseded, or if its strays were recorded before and it hides
no diagnostic. Lines without a trace may be left out of any stream, and the run comes to the same if
the error stream shows the same signs of a crash. -/
theorem unusable_leaves_exactly (e : Engine) :
    (∀ o line, Usable e.directory e.board.store.errorsOnly o line ∨
      Unusable e.directory e.board.store.errorsOnly o line) ∧
    (∀ number o line, Unusable e.directory e.board.store.errorsOnly o line →
      let left := if number = e.runCount then
        { e with board := e.board.leftBy e.directory o line } else e
      (∀ rest, e.takeLines number o (line :: rest) = left.takeLines number o rest) ∧
      (left = e ↔ number ≠ e.runCount ∨
        (e.board.findings.methodRanges.putAll (strayRows o line) = e.board.findings.methodRanges ∧
          hidden? e.directory e.board.store.errorsOnly o line = none))) ∧
    (∀ number o lines kept,
      (∀ line ∈ lines, kept line = false →
        Traceless e.directory e.board.store.errorsOnly o line) →
      e.takeLines number o (lines.filter kept) = e.takeLines number o lines) ∧
    ∀ (r : ActiveRun) (printed printed' : Stream → Text.Bytes) kept code seconds,
      linesIn (Text.Utf8.decode (printed' r.jsonStream)) =
        (linesIn (Text.Utf8.decode (printed r.jsonStream))).filter kept →
      (∀ line ∈ linesIn (Text.Utf8.decode (printed r.jsonStream)), kept line = false →
        Traceless e.directory e.board.store.errorsOnly r.origin line) →
      showsCrash (Text.Utf8.decode (printed' .stderr)) =
        showsCrash (Text.Utf8.decode (printed .stderr)) →
      e.verdict r printed' code seconds = e.verdict r printed code seconds := by
  refine ⟨fun _ _ => usable_or_unusable, fun number o line h => ?_,
    fun number o lines kept h => takeLines_filter h number,
    fun r printed printed' kept code seconds hlines h hcrash =>
      verdict_filter hlines h hcrash code seconds⟩
  intro left
  have hline : e.takeLine number o line = (left, []) := by
    unfold takeLine
    by_cases hn : number = e.runCount
    · simp only [left, if_pos hn, Board.readLine_unusable h]
    · simp only [left, if_neg hn]
  refine ⟨fun rest => by simp only [takeLines, hline, List.nil_append], ?_⟩
  by_cases hn : number = e.runCount
  · simp only [left, if_pos hn, hn, ne_eq, not_true_eq_false, false_or]
    rw [← Board.leftBy_eq_self_iff]
    exact ⟨fun he => congrArg Engine.board he, fun hb => by rw [hb]⟩
  · simp [left, if_neg hn, hn]

/-! A line about two procedures, the second of which has no place on the map. -/

/-- What a compiler says about a procedure on a line, inside of a message. -/
def procedureText (name line : String) : String :=
  "\x7b\\\"name\\\":\\\"" ++ name ++ "\\\",\\\"span\\\":\x7b\\\"file_name\\\":\\\"/w/a.rs\\\"," ++
  "\\\"line_start\\\":" ++ line ++ ",\\\"line_end\\\":2,\\\"column_start\\\":1," ++
  "\\\"column_end\\\":2,\\\"is_primary\\\":true\x7d\x7d"

def halfway : Text :=
  "\x7b\"message\":\"compilerInfo\x7b\\\"procedure_defs\\\":[" ++ procedureText "f" "1" ++ "," ++
  procedureText "g" "0" ++ "]\x7d\",\"level\":\"note\",\"spans\":[]\x7d"

def noise : String := "warning: unused\n"

/-- A run of a file that has just begun. -/
def begun : Engine :=
  ((idle (.ofText "/w") .default true).play
    (.launch .file "a.rs" (Chronicle.fileInvocation "/w/a.rs") 1 .zero)).engine

def begunOrigin : Origin := (Chronicle.fileInvocation "/w/a.rs").origin

theorem traceless_noise :
    Traceless begun.directory begun.board.store.errorsOnly begunOrigin "warning: unused" :=
  ⟨.noise rfl, rfl, rfl⟩

theorem halfway_leaves_stray :
    Unusable begun.directory begun.board.store.errorsOnly begunOrigin halfway ∧
      (begun.takeLines 1 begunOrigin [halfway]).1 ≠ begun ∧
      begun.takeLines 1 begunOrigin ["warning: unused", halfway] =
        begun.takeLines 1 begunOrigin [halfway] ∧
      ∀ r, begun.run? 1 = some r →
        begun.verdict r (fun _ => Chronicle.errorLine "/w/a.rs") (some 1) none =
          begun.verdict r (fun _ => Text.utf8 noise.toList ++ Chronicle.errorLine "/w/a.rs")
            (some 1) none := by
  have hun : Unusable begun.directory begun.board.store.errorsOnly begunOrigin halfway :=
    .of_strays (by decide +kernel)
  obtain ⟨-, hleft, hfilter, hverdict⟩ := unusable_leaves_exactly begun
  have hkept : ∀ line : Text, decide (line ≠ "warning: unused") = false →
      Traceless begun.directory begun.board.store.errorsOnly begunOrigin line := by
    intro line hk
    rw [show line = "warning: unused" by simpa using hk]
    exact traceless_noise
  refine ⟨hun, ?_, ?_, ?_⟩
  · obtain ⟨hrest, hiff⟩ := hleft 1 begunOrigin halfway hun
    rw [hrest []]
    intro he
    rcases hiff.mp he with hn | ⟨hs, -⟩
    · exact hn rfl
    · exact absurd hs (by decide +kernel)
  · exact (hfilter 1 begunOrigin ["warning: unused", halfway] (fun line => line ≠ "warning: unused")
      fun line _ hk => hkept line hk).symm
  · intro r hr
    cases hr
    exact hverdict _ (fun _ => Text.utf8 noise.toList ++ Chronicle.errorLine "/w/a.rs") _
      (fun line => line ≠ "warning: unused") (some 1) none (by decide +kernel)
      (fun line _ hk => hkept line hk) (by decide +kernel)

end Engine

end VerifierHost
