import VerifierHost.Proofs.Run.Agreement
import VerifierHost.Proofs.Run.Retention
import VerifierHost.Proofs.Text.Split

/-! # How a run is classified

The status of a run follows from how its verifier fared and from what the store has retained. Signs
of a crash in the error stream outweigh the exit code, and they stay there whatever else is printed.
A run comes to a status exactly if all files of its store have URIs; if some file has none, showing
the store brings the run to an end before anything is said about it. -/

namespace VerifierHost

open Wire

/-! ## Signs of a crash -/

/-- A line by which a thread says that it panicked: its name may hold anything, quotes included. -/
def SaysPanic (line : List Char) : Prop :=
  ∃ name rest, line = "thread '".toList ++ (name ++ "' panicked at".toList ++ rest)

theorem isPanicLine_iff {line : List Char} : isPanicLine line = true ↔ SaysPanic line := by
  unfold isPanicLine SaysPanic
  rw [Option.any_eq_true]
  constructor
  · rintro ⟨tail, htail, hoccurs⟩
    obtain ⟨name, rest, rfl⟩ := Text.occursIn_iff.mp hoccurs
    exact ⟨name, rest, Text.after?_eq_some.mp htail⟩
  · rintro ⟨name, rest, h⟩
    exact ⟨_, Text.after?_eq_some.mpr h, Text.occursIn_iff.mpr ⟨name, rest, rfl⟩⟩

theorem SaysPanic.append {line : List Char} (h : SaysPanic line) (more : List Char) :
    SaysPanic (line ++ more) := by
  obtain ⟨name, rest, rfl⟩ := h
  exact ⟨name, rest ++ more, by simp⟩

/-- What in an error stream tells of a crash. -/
inductive CrashSign (stderr : List Char) : Prop where
  | compilerError (h : "error: internal compiler error".toList <:+: stderr)
  | panic {before line after : List Char} (h : Text.IsPiece '\n' stderr before line after)
      (panicked : SaysPanic line)

theorem showsCrash_iff {stderr : List Char} : showsCrash stderr = true ↔ CrashSign stderr := by
  unfold showsCrash
  rw [Bool.or_eq_true, Text.occursIn_iff, List.any_eq_true]
  constructor
  · rintro (h | ⟨line, hline, hpanic⟩)
    · exact .compilerError h
    · obtain ⟨before, after, h⟩ := Text.mem_splitOn.mp hline
      exact .panic h (isPanicLine_iff.mp hpanic)
  · rintro (h | ⟨h, panicked⟩)
    · exact .inl h
    · exact .inr ⟨_, h.mem_splitOn, isPanicLine_iff.mpr panicked⟩

/-- Signs of a crash stay, whatever is printed after them. -/
theorem CrashSign.append {stderr : List Char} (h : CrashSign stderr) (more : List Char) :
    CrashSign (stderr ++ more) := by
  rcases h with h | ⟨h, panicked⟩
  · exact .compilerError (h.trans (List.infix_append' [] stderr more))
  · obtain ⟨tail, rest, h⟩ := h.append more
    exact .panic h (panicked.append tail)

/-! ## Crashes -/

/-- How a verifier fared. -/
inductive VerifierFate where
  /-- It could not be started. -/
  | refused
  | exited (code : ExitCode) (stderr : List Char)

/-- Why a run counts as crashed. -/
inductive CrashCause (store : Store) : VerifierFate → Prop where
  | refused : CrashCause store .refused
  | code {code : ExitCode} {stderr : List Char} (verified : code ≠ some 0) (failed : code ≠ some 1)
      (aborted : code ≠ some 101) : CrashCause store (.exited code stderr)
  | sign {code : ExitCode} {stderr : List Char} (h : CrashSign stderr) :
      CrashCause store (.exited code stderr)
  /-- The verifier says that there are errors, but none was retained. -/
  | errorless {code : ExitCode} {stderr : List Char} (failed : code = some 1 ∨ code = some 101)
      (none : ∀ d ∈ store.all, d.severity ≠ some .error) : CrashCause store (.exited code stderr)

/-- What a run ends with. -/
structure Classified (store : Store) (fate : VerifierFate) (status : RunStatus) : Prop where
  crash : status = .crash ↔ CrashCause store fate
  verified : status = .verified ↔ ¬ CrashCause store fate ∧ ∃ stderr, fate = .exited (some 0) stderr
  errors : status = .errors ↔ ¬ CrashCause store fate ∧
    ∃ code stderr, fate = .exited code stderr ∧ (code = some 1 ∨ code = some 101)

namespace Store

theorem count_pos {s : Store} {v : Severity} :
    0 < s.count v ↔ ∃ d ∈ s.all, d.severity = some v := by
  simp [count, List.countP_pos_iff]

theorem hasErrors_eq_false {s : Store} :
    s.hasErrors = false ↔ ∀ d ∈ s.all, d.severity ≠ some .error := by
  rw [← Bool.not_eq_true, hasErrors_iff, count_pos]
  simp

end Store

theorem CrashCause.exited_iff {store : Store} {code : ExitCode} {stderr : List Char} :
    CrashCause store (.exited code stderr) ↔ (code ≠ some 0 ∧ code ≠ some 1 ∧ code ≠ some 101) ∨
      showsCrash stderr = true ∨ (code = some 1 ∨ code = some 101) ∧ store.hasErrors = false := by
  rw [showsCrash_iff, Store.hasErrors_eq_false]
  constructor
  · intro h
    cases h with
    | code verified failed aborted => exact .inl ⟨verified, failed, aborted⟩
    | sign h => exact .inr (.inl h)
    | errorless failed none => exact .inr (.inr ⟨failed, none⟩)
  · rintro (⟨verified, failed, aborted⟩ | h | ⟨failed, none⟩)
    · exact .code verified failed aborted
    · exact .sign h
    · exact .errorless failed none

namespace RunStatus

variable {store : Store}

theorem ofCode_cases (code : ExitCode) :
    code = some 0 ∧ ofCode code = .verified ∨
    (code = some 1 ∨ code = some 101) ∧ ofCode code = .errors ∨
    (code ≠ some 0 ∧ code ≠ some 1 ∧ code ≠ some 101) ∧ ofCode code = .crash := by
  unfold ofCode
  split <;> simp_all

theorem classified_refused : Classified store .refused (settle .crash store) := by
  constructor <;> simp [settle, CrashCause.refused]

theorem classified_exited (code : ExitCode) (stderr : List Char) :
    Classified store (.exited code stderr) ((classify code stderr).settle store) := by
  unfold classify settle
  cases hs : showsCrash stderr with
  | true => constructor <;> simp [CrashCause.exited_iff, hs]
  | false =>
    rcases ofCode_cases code with ⟨rfl, hc⟩ | ⟨hcode, hc⟩ | ⟨hcode, hc⟩
    · constructor <;> simp [CrashCause.exited_iff, hs, hc]
    · -- the code tells of errors, and now the store decides
      have hzero : code ≠ some 0 := by rcases hcode with rfl | rfl <;> simp
      have hother : ¬ (code ≠ some 1 ∧ code ≠ some 101) := by tauto
      cases he : store.hasErrors <;> constructor <;>
        simp [CrashCause.exited_iff, hs, hc, he, hcode, hzero, hother]
    · constructor <;> simp [CrashCause.exited_iff, hs, hc, hcode]

theorem classify_append_of_crash {code : ExitCode} {stderr : List Char}
    (h : classify code stderr = .crash) (more : List Char) :
    classify code (stderr ++ more) = .crash := by
  unfold classify at h ⊢
  by_cases hs : showsCrash stderr = true
  · have hmore := showsCrash_iff.mpr ((showsCrash_iff.mp hs).append more)
    rw [if_pos hmore]
  · rw [if_neg hs] at h
    rw [h, ite_self]

end RunStatus

/-! ## How runs end -/

/-- The file at which a run came to an early end. -/
def Turn.stuckAt? (t : Turn) : Option Text :=
  match t.ending with
  | some (.stuck file) => some file
  | _ => none

theorem Turn.stuckAt?_eq_some {t : Turn} {file : Text} :
    t.stuckAt? = some file ↔ t.ending = some (.stuck file) := by
  unfold stuckAt?
  split <;> simp_all

/-- All files of a store can be shown. -/
def Store.Shows (s : Store) (directory : FilePath) : Prop :=
  ∀ file ∈ s.files, (Uri.ofFile? directory file).isSome

namespace Engine

/-- What has become of the verifier whose run a move ends. -/
def fate? (e : Engine) : Move → Option VerifierFate
  | .refuse .. => some .refused
  | .exit pid code _ => (e.run? pid).map fun r => .exited code r.stderrText
  | _ => none

/-- The judgement on a verifier is that on its fate. -/
theorem classified_judgement {e : Engine} {m : Move} {j : Judgement}
    (h : e.judgement? m = some j) :
    ∃ fate, e.fate? m = some fate ∧ ∀ store, Classified store fate (j.status.settle store) := by
  cases m with
  | launch | abort | output | awaitNews | drawHints | takeChanged => cases h
  | refuse target name =>
    cases h
    exact ⟨_, rfl, fun store => RunStatus.classified_refused⟩
  | exit pid code moment =>
    obtain ⟨r, hr, rfl⟩ := Option.map_eq_some_iff.mp h
    exact ⟨.exited code r.stderrText, by rw [fate?, hr]; rfl,
      fun store => RunStatus.classified_exited code r.stderrText⟩

/-- Files are shown up to the first one that has no URI. -/
theorem stuck_showFiles (directory : FilePath) (files : Table Text (List Diagnostic)) :
    (showFiles directory files).2 =
      files.keys.find? fun file => (Uri.ofFile? directory file).isNone := by
  induction files with
  | nil => rfl
  | cons row rest ih =>
    unfold showFiles
    cases hu : Uri.ofFile? directory row.1 with
    | none => simp [Table.keys, hu]
    | some uri => simpa [Table.keys, hu] using ih

/-- The latest run comes to an outcome if all files can be shown, and gets stuck otherwise. -/
theorem ending_conclude (e : Engine) (target : VerificationTarget) (name : Text)
    (status : RunStatus) (seconds : Option Float) :
    let ending := (e.conclude e.runCount target name status seconds).2.ending
    (e.board.store.Shows e.directory → ∃ o, ending = .ended o ∧
      o.status = status.settle e.board.store ∧ o.counts = e.board.store.counts) ∧
    (¬ e.board.store.Shows e.directory → ∃ file, ending = .stuck file) := by
  have hshows : e.board.store.Shows e.directory ↔
      (showFiles e.directory e.board.store.entries).2 = none := by
    simp [stuck_showFiles, Store.Shows, Store.files, Option.isSome_iff_ne_none]
  rw [hshows]
  unfold conclude showStore
  cases showFiles e.directory e.board.store.entries with
  | mk effects stuck => cases stuck <;> simp

variable {e : Engine} {m : Move}

theorem EndsLatest.isSome_ending (h : e.EndsLatest m) : (e.play m).ending.isSome := by
  cases m with
  | refuse => rfl
  | exit pid code moment =>
    obtain ⟨r, hr, -⟩ := h
    simp [play, hr]
  | launch | abort | output | awaitNews | drawHints | takeChanged => cases h

/-- **How the latest run ends.** It comes to an outcome if all files of its store can be shown, and
gets stuck otherwise. -/
theorem EndsLatest.ending (h : e.EndsLatest m) :
    let t := e.play m
    let store := t.engine.board.store
    ∃ j, e.judgement? m = some j ∧
      (store.Shows e.directory → ∃ o, t.ending = some (.ended o) ∧
        o.status = j.status.settle store ∧ o.counts = store.counts) ∧
      (¬ store.Shows e.directory → ∃ file, t.ending = some (.stuck file)) := by
  obtain ⟨front, e', number, j, seconds, hc⟩ := exists_concludes h.isSome_ending
  obtain rfl := hc.latest.mpr h
  obtain ⟨hshown, hstuck⟩ := e'.ending_conclude j.target j.name j.status seconds
  dsimp only
  rw [hc.board, ← hc.directory, hc.ending]
  refine ⟨j, hc.judged, fun hs => ?_, fun hs => ?_⟩
  · obtain ⟨o, ho, hstatus, hcounts⟩ := hshown hs
    exact ⟨o, congrArg some ho, hstatus, hcounts⟩
  · obtain ⟨file, hfile⟩ := hstuck hs
    exact ⟨file, congrArg some hfile⟩

/-- A run that is not the latest one ends as superseded. -/
theorem ending_of_not_endsLatest (h : ¬ e.EndsLatest m) {ending : Ending}
    (hending : (e.play m).ending = some ending) : ending = .superseded := by
  obtain ⟨front, e', number, j, seconds, hc⟩ := exists_concludes (Option.isSome_of_mem hending)
  rw [← Option.some.inj (hc.ending.symm.trans hending), conclude_superseded_iff]
  exact fun he => h (hc.latest.mp he)

end Engine

namespace Chronicle

/-- **How a run is classified**, after any moves. A run that was not superseded comes to an outcome
exactly if all files of its store can be shown, and then it counts as crashed exactly if there is a
cause for it: its verifier could not be started, exited with a code that stands for neither success
nor errors, shows signs of a crash, or tells of errors while no error was retained. Otherwise its
exit code tells the status. No error is retained exactly if every error on the lines that were heard
of the run is a closing summary of the compiler; and a verifier that is classified as crashed
remains so however its error stream goes on. -/
theorem status_classified (directory : FilePath) (settings : Settings) (decorating : Bool)
    (moves : List Move) (m : Move) (ending : Ending)
    (h : (((start (.idle directory settings decorating)).addAll moves).engine.play m).ending =
      some ending) (latest : ending ≠ .superseded) :
    let c := start (.idle directory settings decorating)
    let e := (c.addAll moves).engine
    let store := (e.play m).engine.board.store
    ((∃ o, ending = .ended o) ↔ ∀ file ∈ store.files, (Uri.ofFile? directory file).isSome) ∧
    (∃ fate, e.fate? m = some fate ∧ ∀ o, ending = .ended o → Classified store fate o.status) ∧
    ((∀ d ∈ store.all, d.severity ≠ some .error) ↔
      ∀ l ∈ locatedIn directory (c.transcript [] (moves ++ [m])),
        l.diagnostic.severity = some .error →
          isAbortNotice l.diagnostic.message = true ∨ isWarningCount l.diagnostic.message = true) ∧
    ∀ code stderr more, RunStatus.classify code stderr = .crash →
      RunStatus.classify code (stderr ++ more) = .crash := by
  intro c e store
  have hdirectory : e.directory = directory := directory_addAll c moves
  have hretains : (e.play m).engine.Retains (c.transcript [] (moves ++ [m])) := by
    have := retains_addAll (show c.engine.Retains [] from rfl) (moves ++ [m])
    rwa [addAll_concat] at this
  have hlatest : e.EndsLatest m := by
    by_contra hn
    exact latest (Engine.ending_of_not_endsLatest hn h)
  obtain ⟨j, hj, hshown, hstuck⟩ := hlatest.ending
  obtain ⟨fate, hfate, hclassified⟩ := Engine.classified_judgement hj
  rw [h, hdirectory] at hshown hstuck
  refine ⟨⟨?_, ?_⟩, ⟨fate, hfate, ?_⟩, ?_, ?_⟩
  · rintro ⟨o, rfl⟩
    by_contra hnot
    obtain ⟨file, hfile⟩ := hstuck hnot
    cases hfile
  · intro hall
    obtain ⟨o, ho, -⟩ := hshown hall
    exact ⟨o, Option.some.inj ho⟩
  · rintro o rfl
    by_cases hs : store.Shows directory
    · obtain ⟨o', ho, hstatus, -⟩ := hshown hs
      cases ho
      rw [hstatus]
      exact hclassified store
    · obtain ⟨file, hfile⟩ := hstuck hs
      cases hfile
  · have herrorless := hretains.errorless_iff
    rwa [Engine.directory_play, hdirectory] at herrorless
  · exact fun code stderr more hcrash => RunStatus.classify_append_of_crash hcrash more

/-! An error is reported in a file whose name has no bytes, half of a surrogate pair being in it. -/

def namelessMoves : List Move :=
  [.launch .file "a.rs" (fileInvocation "/w/a.rs") 1 .zero,
   .output 1 .stderr [errorLine "/w/\\ud800.rs"] true]

def nameless : Engine := ((start (.idle (.ofText "/w") .default true)).addAll namelessMoves).engine

theorem nameless_unclassified : ∃ file fate,
    (nameless.play (.exit 1 (some 1) .zero)).ending = some (.stuck file) ∧
      nameless.fate? (.exit 1 (some 1) .zero) = some fate ∧
      ¬ CrashCause (nameless.play (.exit 1 (some 1) .zero)).engine.board.store fate ∧
      ∃ unnamed ∈ (nameless.play (.exit 1 (some 1) .zero)).engine.board.store.files,
        Uri.ofFile? (.ofText "/w") unnamed = none := by
  obtain ⟨hstuck, herrors, hquiet⟩ :
      (nameless.play (.exit 1 (some 1) .zero)).stuckAt?.isSome = true ∧
      (nameless.play (.exit 1 (some 1) .zero)).engine.board.store.hasErrors = true ∧
      (nameless.run? 1).map (fun r => showsCrash r.stderrText) = some false := by
    decide +kernel
  obtain ⟨file, hfile⟩ := Option.isSome_iff_exists.mp hstuck
  have h := Turn.stuckAt?_eq_some.mp hfile
  have hending := h
  rw [nameless] at hending
  have hclassified := status_classified (.ofText "/w") .default true namelessMoves
    (.exit 1 (some 1) .zero) (.stuck file) hending nofun
  dsimp only at hclassified
  rw [← nameless] at hclassified
  obtain ⟨r, hr, hquiet⟩ := Option.map_eq_some_iff.mp hquiet
  have hexited :
      nameless.fate? (.exit 1 (some 1) .zero) = some (.exited (some 1) r.stderrText) := by
    rw [Engine.fate?, hr]
    rfl
  refine ⟨file, _, h, hexited, ?_, ?_⟩
  · rw [CrashCause.exited_iff, herrors, hquiet]
    decide
  · by_contra hall
    obtain ⟨o, ho⟩ := hclassified.1.mpr fun unnamed hu =>
      Option.isSome_iff_ne_none.mpr fun hn => hall ⟨unnamed, hu, hn⟩
    cases ho

end Chronicle

end VerifierHost
