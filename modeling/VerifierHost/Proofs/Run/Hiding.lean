import VerifierHost.Proofs.Run.Classification

/-! # Hiding warnings

Two engines of which one is set up to report errors only hear the same lines of the same runs. So
the store of the one holds what the other has retained and is important, all errors among it, and
with them the causes of a crash. The one difference at the end of a run comes from what is not
hidden: a warning in a file without a URI brings the run to an early end. -/

namespace VerifierHost

open Wire

/-! ## Stores -/

namespace Store

variable {file : Text} {log : List Located}

theorem isImportant_iff {d : Diagnostic} : isImportant d = true ↔
    d.severity = some .error ∨ verifierMarker.points <:+: d.message.points := by
  simp [isImportant, Text.occursIn_iff]

theorem keepsOf_true (d : Diagnostic) : keepsOf true d = (isImportant d && keepsOf false d) := by
  simp [keepsOf, keeps, empty, Bool.and_assoc]

theorem retained_true (file : Text) (log : List Located) :
    retained true file log = (retained false file log).filter isImportant := by
  simp only [retained, List.filter_map, List.filter_filter, keepsOf_true, Function.comp_def]
  congr 2
  funext l
  ac_rfl

/-- The diagnostics that are kept when errors are wanted only. -/
theorem diagnosticsOf_hiding (log : List Located) (file : Text) :
    ((empty true).addAll log).diagnosticsOf file =
      (((empty false).addAll log).diagnosticsOf file).filter isImportant := by
  rw [diagnosticsOf_addAll, diagnosticsOf_addAll]
  exact retained_true file log

theorem count_error_hiding (log : List Located) :
    ((empty true).addAll log).count .error = ((empty false).addAll log).count .error := by
  unfold count
  rw [countP_all_addAll, countP_all_addAll]
  refine congrArg (0 + ·) (List.countP_congr fun l _ => ?_)
  by_cases he : l.diagnostic.severity = some .error
  · simp [empty, keepsOf_error he]
  · simp [he]

theorem Shows.hiding {directory : FilePath} (h : ((empty false).addAll log).Shows directory) :
    ((empty true).addAll log).Shows directory := by
  intro file hfile
  refine h file ((mem_files_addAll _ _ _).mpr (.inr fun hnone => ?_))
  rcases (mem_files_addAll _ _ _).mp hfile with hnil | hsome
  · cases hnil
  · refine hsome ((retained_true file log).trans ?_)
    rw [show retained false file log = [] from hnone]
    rfl

end Store

theorem RunStatus.settle_congr {s s' : Store} (h : s.count .error = s'.count .error)
    (status : RunStatus) : status.settle s = status.settle s' := by
  unfold settle Store.hasErrors
  rw [h]

/-! ## What the end of a run says -/

/-- The status that a run ends with, if it comes to one. -/
def Turn.status? (t : Turn) : Option RunStatus :=
  match t.ending with
  | some (.ended o) => some o.status
  | _ => none

/-- The user is told about a crash. -/
def Turn.Notices (t : Turn) : Prop := ∃ text, Effect.errorNotice text ∈ t.effects

theorem Turn.status?_eq_some {t : Turn} {status : RunStatus} :
    t.status? = some status ↔ ∃ o, t.ending = some (.ended o) ∧ o.status = status := by
  unfold status?
  split <;> simp_all

theorem Ending.notice_told {ending : Ending} :
    (∃ text, Effect.errorNotice text ∈ ending.told) ↔
      ∃ o, ending = .ended o ∧ o.status = .crash := by
  cases ending with
  | superseded | stuck file => simp [told]
  | ended o => by_cases h : o.status = .crash <;> simp [told, h]

theorem OnlyDiagnostics.not_notice {effects : List Effect} (h : OnlyDiagnostics effects)
    (text : Text) : Effect.errorNotice text ∉ effects := by
  intro hm
  obtain ⟨uri, shown, he⟩ := h _ hm
  cases he

/-- No crash is told about while runs go on. -/
theorem Engine.not_notices {e : Engine} {m : Move} (h : (e.play m).ending = none) :
    ¬ (e.play m).Notices := by
  rintro ⟨text, hm⟩
  cases m with
  | launch | abort => simp [play, startRun] at hm
  | refuse => cases h
  | awaitNews | drawHints => cases hm
  | takeChanged =>
    dsimp only [play] at hm
    split at hm <;> simp at hm
  | output pid stream chunks closed =>
    dsimp only [play] at hm
    cases hr : e.run? pid with
    | none => simp [hr] at hm
    | some r =>
      simp only [hr] at hm
      split at hm
      · cases hm
      · exact (e.onlyDiagnostics_takeOutput r stream chunks closed).not_notice text hm
  | exit pid code moment =>
    dsimp only [play] at h hm
    cases hr : e.run? pid with
    | none => simp [hr] at hm
    | some r => simp [hr] at h

/-- The user is told about a crash exactly if the run ends as one. -/
theorem Engine.notices_play (e : Engine) (m : Move) :
    (e.play m).Notices ↔ (e.play m).status? = some .crash := by
  rw [Turn.status?_eq_some]
  cases hending : (e.play m).ending with
  | none => simp [not_notices hending]
  | some ending =>
    obtain ⟨front, e', number, j, seconds, hc⟩ := exists_concludes (Option.isSome_of_mem hending)
    have htold := e'.told_conclude number j.target j.name j.status seconds
    dsimp only at htold
    rw [Option.some.inj (hc.ending.symm.trans hending)] at htold
    have hfront : ∀ text, Effect.errorNotice text ∉ front := by
      intro text
      rcases hc.shown with honly | rfl
      · exact honly.not_notice text
      · simp [startRun]
    have hnotice : ∀ text, Effect.errorNotice text ∈ (e.play m).effects ↔
        Effect.errorNotice text ∈ ending.told := by
      intro text
      rw [← htold, hc.effects]
      simp [hfront, Effect.onStatusLine]
    simp only [Turn.Notices, hnotice, Ending.notice_told, Option.some.injEq]

/-! ## Engines that do the same -/

namespace Engine

/-- The same engine, set up to report errors only or everything. -/
def reporting (e : Engine) (errorsOnly : Bool) : Engine :=
  { e with settings := { e.settings with errorsOnly } }

/-- Two engines work on the same runs. -/
structure Abreast (e e' : Engine) : Prop where
  directory : e.directory = e'.directory
  runCount : e.runCount = e'.runCount
  runs : e.runs = e'.runs

variable {e e' : Engine}

theorem Abreast.run? (h : e.Abreast e') (pid : Pid) : e.run? pid = e'.run? pid := by
  rw [Engine.run?, Engine.run?, h.runs]

theorem Abreast.play (h : e.Abreast e') (m : Move) :
    (e.play m).engine.Abreast (e'.play m).engine := by
  have hplay : (e.play m).engine.runCount = (e'.play m).engine.runCount ∧
      (e.play m).engine.runs = (e'.play m).engine.runs := by
    cases m with
    | launch | abort | awaitNews | drawHints | takeChanged =>
      simp [Engine.play, startRun, launched, setFindings, h.runCount, h.runs]
    | refuse target name =>
      obtain ⟨updates, hu, -⟩ := (e.startRun target name).1.conclude_spec
        (e.startRun target name).1.runCount target name .crash none
      obtain ⟨updates', hu', -⟩ := (e'.startRun target name).1.conclude_spec
        (e'.startRun target name).1.runCount target name .crash none
      dsimp only [Engine.play]
      rw [hu, hu']
      simp [startRun, h.runCount, h.runs]
    | output pid stream chunks closed =>
      dsimp only [Engine.play]
      rw [h.run?]
      cases e'.run? pid with
      | none => exact ⟨h.runCount, h.runs⟩
      | some r =>
        obtain ⟨board, hb⟩ := e.takeOutput_spec r stream chunks closed
        obtain ⟨board', hb'⟩ := e'.takeOutput_spec r stream chunks closed
        dsimp only
        split
        · exact ⟨h.runCount, h.runs⟩
        · dsimp only
          rw [hb, hb']
          simp [putRun, h.runCount, h.runs]
    | exit pid code moment =>
      dsimp only [Engine.play]
      rw [h.run?]
      cases e'.run? pid with
      | none => exact ⟨h.runCount, h.runs⟩
      | some r =>
        obtain ⟨board, updates, hf, -⟩ := e.finish_spec r code moment
        obtain ⟨board', updates', hf', -⟩ := e'.finish_spec r code moment
        dsimp only
        rw [hf, hf']
        simp [dropRun, h.runCount, h.runs]
  exact ⟨by rw [directory_play, directory_play, h.directory], hplay.1, hplay.2⟩

theorem Abreast.heard (h : e.Abreast e') (m : Move) : e.heard m = e'.heard m := by
  unfold Engine.heard
  cases m <;> simp only [h.run?, h.runCount]

theorem Abreast.judgement? (h : e.Abreast e') (m : Move) : e.judgement? m = e'.judgement? m := by
  unfold Engine.judgement?
  cases m <;> simp only [h.run?]

theorem Abreast.endsLatest (h : e.Abreast e') (m : Move) : e.EndsLatest m ↔ e'.EndsLatest m := by
  unfold EndsLatest
  cases m <;> simp only [h.run?, h.runCount]

/-- Two engines end a run with the same status unless only one of them gets stuck. -/
theorem Abreast.status?_play_iff (h : e.Abreast e') (m : Move)
    (hcount : (e'.play m).engine.board.store.count .error =
      (e.play m).engine.board.store.count .error)
    (hshows : (e.play m).engine.board.store.Shows e.directory →
      (e'.play m).engine.board.store.Shows e'.directory) :
    (e.play m).status? = (e'.play m).status? ↔
      ¬ ((∃ file, (e.play m).ending = some (.stuck file)) ∧
        ∃ o, (e'.play m).ending = some (.ended o)) := by
  have hlatest := h.endsLatest m
  by_cases hl : e.EndsLatest m
  · obtain ⟨j, hj, hshown, hstuck⟩ := hl.ending
    obtain ⟨j', hj', hshown', hstuck'⟩ := (hlatest.mp hl).ending
    obtain rfl : j' = j := Option.some.inj (by rw [← hj, ← hj', h.judgement?])
    by_cases hs : (e.play m).engine.board.store.Shows e.directory
    · obtain ⟨o, ho, hstatus, -⟩ := hshown hs
      obtain ⟨o', ho', hstatus', -⟩ := hshown' (hshows hs)
      have hsame : o.status = o'.status := by
        rw [hstatus, hstatus', RunStatus.settle_congr hcount]
      simp [Turn.status?, ho, ho', hsame]
    · obtain ⟨file, hfile⟩ := hstuck hs
      by_cases hs' : (e'.play m).engine.board.store.Shows e'.directory
      · obtain ⟨o', ho', -⟩ := hshown' hs'
        simp [Turn.status?, hfile, ho']
      · obtain ⟨file', hfile'⟩ := hstuck' hs'
        simp [Turn.status?, hfile, hfile']
  · have hnone : ∀ {t : Turn}, (∀ ending, t.ending = some ending → ending = .superseded) →
        t.status? = none ∧ ∀ file, t.ending ≠ some (.stuck file) := by
      intro t ht
      unfold Turn.status?
      refine ⟨?_, fun file hf => nomatch ht _ hf⟩
      split
      next o ho => cases ht _ ho
      next => rfl
    obtain ⟨hstatus, hstuck⟩ := hnone fun _ he => ending_of_not_endsLatest hl he
    obtain ⟨hstatus', -⟩ := hnone fun _ he => ending_of_not_endsLatest (mt hlatest.mpr hl) he
    rw [hstatus, hstatus']
    simp [hstuck]

end Engine

namespace Chronicle

theorem abreast_addAll {c d : Chronicle} (h : c.engine.Abreast d.engine) (moves : List Move) :
    (c.addAll moves).engine.Abreast (d.addAll moves).engine := by
  induction moves generalizing c d with
  | nil => exact h
  | cons m rest ih => exact ih (c := c.add m) (d := d.add m) (h.play m)

theorem transcript_abreast {c d : Chronicle} (h : c.engine.Abreast d.engine)
    (lines : List (Origin × Text)) (moves : List Move) :
    c.transcript lines moves = d.transcript lines moves := by
  induction moves generalizing c d lines with
  | nil => rfl
  | cons m rest ih =>
    have hrecord : c.engine.recordAfter lines m = d.engine.recordAfter lines m := by
      unfold Engine.recordAfter
      cases m <;> simp only [h.heard]
    rw [transcript, transcript, hrecord]
    exact ih (c := c.add m) (d := d.add m) (h.play m) _

/-- Whatever is wanted, the same log comes into the store once a run has begun. -/
theorem store_reporting (e : Engine) {opening : Move} (hb : opening.Begins) (moves : List Move) :
    ∃ log, ∀ errorsOnly,
      ((start (e.reporting errorsOnly)).addAll (opening :: moves)).engine.board.store =
        (Store.empty errorsOnly).addAll log := by
  let c := fun errorsOnly => (start (e.reporting errorsOnly)).add opening
  refine ⟨locatedIn e.directory ((c false).transcript [] moves), fun errorsOnly => ?_⟩
  have hsame : (e.reporting errorsOnly).Abreast (e.reporting false) := ⟨rfl, rfl, rfl⟩
  have habreast : (c errorsOnly).engine.Abreast (c false).engine := hsame.play opening
  have hretains := retains_addAll (c := c errorsOnly) (Engine.retains_begin _ hb) moves
  unfold Engine.Retains at hretains
  rw [settings_addAll, directory_addAll, transcript_abreast habreast] at hretains
  have hsettings : (c errorsOnly).engine.settings.errorsOnly = errorsOnly :=
    congrArg Settings.errorsOnly (Engine.settings_play _ opening)
  have hdirectory : (c errorsOnly).engine.directory = e.directory := Engine.directory_play _ opening
  rw [hsettings, hdirectory] at hretains
  exact hretains

/-- **Hiding warnings hides no failure.** Let two engines that differ only in whether they report
errors only go through the same moves, the first of which begins a run. For every file, the one that
reports errors only retains, in the same order, just what the other one retains and what is an error
or mentions the verifier; so both have the same errors of every file, and as many of them. If a move
ends the latest run, both end it with the same status and with the same notice of a crash, unless
the run that reports everything gets stuck at a file that cannot be shown while all files of the
other one can be shown. -/
theorem hiding_keeps_failures (e : Engine) (moves : List Move) (m : Move)
    (begins : ∃ opening ∈ (moves ++ [m]).head?, opening.Begins) :
    let full := ((start (e.reporting false)).addAll moves).engine.play m
    let brief := ((start (e.reporting true)).addAll moves).engine.play m
    let all := full.engine.board.store
    let important := brief.engine.board.store
    (∀ file, important.diagnosticsOf file = (all.diagnosticsOf file).filter Store.isImportant) ∧
    (∀ d, Store.isImportant d = true ↔
      d.severity = some .error ∨ verifierMarker.points <:+: d.message.points) ∧
    (∀ file, (important.diagnosticsOf file).filter (fun d => d.severity = some .error) =
      (all.diagnosticsOf file).filter fun d => d.severity = some .error) ∧
    important.count .error = all.count .error ∧
    (∀ o o', full.ending = some (.ended o) → brief.ending = some (.ended o') →
      (Table.get? o'.counts .error).getD 0 = (Table.get? o.counts .error).getD 0) ∧
    ((full.status? = brief.status? ∧ (full.Notices ↔ brief.Notices)) ↔
      ¬ ((∃ file, full.ending = some (.stuck file)) ∧ ∃ o, brief.ending = some (.ended o))) := by
  intro full brief all important
  obtain ⟨opening, hhead, hb⟩ := begins
  obtain ⟨rest, hmoves⟩ := List.head?_eq_some_iff.mp hhead
  obtain ⟨log, hlog⟩ := store_reporting e hb rest
  have hstore : ∀ errorsOnly, (((start (e.reporting errorsOnly)).addAll
      moves).engine.play m).engine.board.store = (Store.empty errorsOnly).addAll log := by
    intro errorsOnly
    have := hlog errorsOnly
    rwa [← hmoves, addAll_concat] at this
  have hall : all = (Store.empty false).addAll log := hstore false
  have himportant : important = (Store.empty true).addAll log := hstore true
  have hfiles : ∀ file,
      important.diagnosticsOf file = (all.diagnosticsOf file).filter Store.isImportant := by
    intro file
    rw [hall, himportant, Store.diagnosticsOf_hiding]
  have hcount : important.count .error = all.count .error := by
    rw [hall, himportant, Store.count_error_hiding]
  refine ⟨hfiles, fun d => Store.isImportant_iff, fun file => ?_, hcount, ?_, ?_⟩
  · rw [hfiles, List.filter_filter]
    refine List.filter_congr fun d _ => ?_
    by_cases hd : d.severity = some .error <;> simp [Store.isImportant, hd]
  · intro o o' ho ho'
    obtain ⟨-, -, -, -, hcounts, -⟩ := Engine.play_ended ho
    obtain ⟨-, -, -, -, hcounts', -⟩ := Engine.play_ended ho'
    rw [hcounts, hcounts', Store.getD_counts, Store.getD_counts]
    exact hcount
  · rw [Engine.notices_play, Engine.notices_play, and_iff_left_of_imp fun hs => by rw [hs]]
    have hsame : (e.reporting false).Abreast (e.reporting true) := ⟨rfl, rfl, rfl⟩
    have habreast := abreast_addAll (c := start (e.reporting false))
      (d := start (e.reporting true)) hsame moves
    refine habreast.status?_play_iff m hcount fun hs => ?_
    rw [← habreast.directory]
    change important.Shows _
    rw [himportant]
    exact Store.Shows.hiding (hall ▸ hs)

/-! The only diagnostic of a run is a warning in a file whose name has no bytes. -/

/-- A line with a warning in a file. -/
def warningLine (file : String) : Text.Bytes :=
  Text.utf8 <| String.toList <|
    "\x7b\"message\":\"unused\",\"level\":\"warning\",\"spans\":[\x7b\"file_name\":\"" ++ file ++
    "\",\"line_start\":1,\"line_end\":1,\"column_start\":1,\"column_end\":2," ++
    "\"is_primary\":true\x7d]\x7d\n"

def warned (errorsOnly : Bool) : Engine :=
  ((start ((Engine.idle (.ofText "/w") .default true).reporting errorsOnly)).addAll
    [.launch .file "a.rs" (fileInvocation "/w/a.rs") 1 .zero,
     .output 1 .stderr [warningLine "/w/\\ud800.rs"] true]).engine

theorem warned_differ :
    let full := (warned false).play (.exit 1 (some 0) .zero)
    let brief := (warned true).play (.exit 1 (some 0) .zero)
    brief.status? = some .verified ∧
      ¬ (full.status? = brief.status? ∧ (full.Notices ↔ brief.Notices)) := by
  obtain ⟨hstuck, hverified⟩ :
      ((warned false).play (.exit 1 (some 0) .zero)).stuckAt?.isSome = true ∧
      ((warned true).play (.exit 1 (some 0) .zero)).status? = some .verified := by
    decide +kernel
  obtain ⟨file, hfile⟩ := Option.isSome_iff_exists.mp hstuck
  obtain ⟨o, ho, -⟩ := Turn.status?_eq_some.mp hverified
  have h := hiding_keeps_failures (.idle (.ofText "/w") .default true)
    [.launch .file "a.rs" (fileInvocation "/w/a.rs") 1 .zero,
     .output 1 .stderr [warningLine "/w/\\ud800.rs"] true]
    (.exit 1 (some 0) .zero) ⟨_, rfl, trivial⟩
  dsimp only at h
  rw [← warned, ← warned] at h
  exact ⟨hverified, fun hsame =>
    h.2.2.2.2.2.mp hsame ⟨⟨file, Turn.stuckAt?_eq_some.mp hfile⟩, o, ho⟩⟩

end Chronicle

end VerifierHost
