import VerifierHost.Proofs.Run.Lines
import VerifierHost.Proofs.Waiting.Updates

/-! # How runs come and go

What the engine does with the runs in progress: one is added when its verifier was started, changed
when it is read and dropped at its end. The end of the latest run either releases all who wait for
news and says in the status how the run ended, or leaves the engine as it was. -/

namespace VerifierHost

namespace Engine

variable {e : Engine} {r : ActiveRun} {pid : Pid}

theorem run?_putRun (e : Engine) (r : ActiveRun) (pid : Pid) :
    (e.putRun r).run? pid =
      if r.pid = pid then (e.run? pid).map fun _ => r else e.run? pid :=
  find?_map_replace ActiveRun.pid e.runs r pid

@[simp] theorem pids_putRun (e : Engine) (r : ActiveRun) : (e.putRun r).pids = e.pids := by
  simp only [pids, putRun, List.map_map]
  apply List.map_congr_left
  intro q _
  by_cases h : q.pid = r.pid <;> simp [h]

theorem mem_runs_putRun {q : ActiveRun} (h : q ∈ (e.putRun r).runs) :
    q = r ∨ q ∈ e.runs ∧ q.pid ≠ r.pid := by
  obtain ⟨x, hx, rfl⟩ := List.mem_map.mp h
  by_cases hp : x.pid = r.pid
  · exact .inl (if_pos hp)
  · rw [if_neg hp]
    exact .inr ⟨hx, hp⟩

theorem numbers_putRun (h : ∀ q ∈ e.runs, q.pid = r.pid → q.number = r.number) :
    (e.putRun r).runs.map ActiveRun.number = e.runs.map ActiveRun.number := by
  simp only [putRun, List.map_map]
  apply List.map_congr_left
  intro q hq
  by_cases hp : q.pid = r.pid
  · simp [hp, h q hq hp]
  · simp [hp]

theorem not_mem_pids_dropRun (e : Engine) (pid : Pid) : pid ∉ (e.dropRun pid).pids := by
  intro hm
  obtain ⟨q, hq, he⟩ := List.mem_map.mp hm
  simpa [he] using (List.mem_filter.mp hq).2

/-- What a run that ends leaves: only waits change, and whoever is expected is released if the run
was the latest and came to an outcome. -/
theorem conclude_spec (e : Engine) (number : Nat) (target : VerificationTarget) (name : Text)
    (status : RunStatus) (seconds : Option Float) :
    ∃ updates, (e.conclude number target name status seconds).1 = { e with updates } ∧
      e.updates.Notifies updates (e.conclude number target name status seconds).2.released ∧
      ((∃ outcome, (e.conclude number target name status seconds).2.ending = .ended outcome) →
        ∀ w, e.updates.Expects w → updates.book.status? w = some .released) := by
  unfold conclude
  split
  next =>
    dsimp only
    split
    next => exact ⟨e.updates, rfl, .refl _, fun ⟨_, ho⟩ => by cases ho⟩
    next =>
      have hfiles := e.updates.notifyFiles_notifies e.board.touched
      have hall := (e.updates.notifyFiles e.board.touched).1.notifyAll_notifies
      refine ⟨_, rfl, hfiles.trans hall, ?_⟩
      rintro - w ⟨file, hw⟩
      rcases hfiles.expected file w hw with hw | ⟨hr, -⟩
      · exact Updates.released_notifyAll ⟨file, hw⟩
      · exact hall.released w hr
  next => exact ⟨e.updates, rfl, .refl _, fun ⟨_, ho⟩ => by cases ho⟩

theorem conclude_superseded {number : Nat} (h : number ≠ e.runCount) (target : VerificationTarget)
    (name : Text) (status : RunStatus) (seconds : Option Float) :
    e.conclude number target name status seconds = (e, ⟨[], [], .superseded⟩) := if_neg h

theorem finish_spec (e : Engine) (r : ActiveRun) (code : ExitCode) (stop : Millis) :
    ∃ board updates, (e.finish r code stop).1 = { e.dropRun r.pid with board, updates } ∧
      e.updates.Notifies updates (e.finish r code stop).2.released ∧
      ((∃ outcome, (e.finish r code stop).2.ending = .ended outcome) →
        ∀ w, e.updates.Expects w → updates.book.status? w = some .released) := by
  unfold finish
  obtain ⟨board, hb⟩ := (e.dropRun r.pid).takeLines_eq r.number r.origin r.lastLine
  obtain ⟨updates, hu, hn, ha⟩ := ((e.dropRun r.pid).takeLines r.number r.origin r.lastLine).1
    |>.conclude_spec r.number r.target r.name (.classify code r.stderrText)
      (some (secondsBetween r.start stop))
  dsimp only
  refine ⟨board, updates, hu.trans (by rw [hb]), ?_, ?_⟩
  · rw [hb] at hn ⊢
    exact hn
  · rw [hb] at ha ⊢
    exact ha

/-- A run that was superseded ends without a trace. -/
theorem finish_superseded (h : r.number ≠ e.runCount) (code : ExitCode) (stop : Millis) :
    e.finish r code stop = (e.dropRun r.pid, ⟨[], [], .superseded⟩) := by
  have hd : r.number ≠ (e.dropRun r.pid).runCount := h
  unfold finish
  rw [takeLines_superseded _ _ _ hd]
  dsimp only
  rw [conclude_superseded hd]
  rfl

theorem takeOutput_spec (e : Engine) (r : ActiveRun) (stream : Stream) (chunks : List Text.Bytes)
    (closed : Bool) : ∃ board, (e.takeOutput r stream chunks closed).1 =
      { e.putRun (r.read stream chunks closed).1 with board } := by
  unfold takeOutput
  obtain ⟨board, hb⟩ := (e.putRun (r.read stream chunks closed).1).takeLines_eq
    (r.read stream chunks closed).1.number (r.read stream chunks closed).1.origin
    (r.read stream chunks closed).2
  exact ⟨board, hb⟩

theorem takeOutput_superseded (h : r.number ≠ e.runCount) (stream : Stream)
    (chunks : List Text.Bytes) (closed : Bool) :
    e.takeOutput r stream chunks closed = (e.putRun (r.read stream chunks closed).1, []) := by
  unfold takeOutput
  dsimp only
  rw [takeLines_superseded]
  rw [ActiveRun.read_number]
  exact h

/-- A run that is launched is the latest one, and nothing was read of it yet. -/
theorem launched_runs (e : Engine) (i : Invocation) (target : VerificationTarget) (name : Text)
    (pid : Pid) (start : Millis) :
    ∃ r : ActiveRun, (e.launched i target name pid start).runs = e.runs ++ [r] ∧
      r.number = e.runCount ∧ r.pid = pid ∧ r.stdout = .start ∧ r.stderr = .start :=
  ⟨_, rfl, rfl, rfl, rfl, rfl⟩

/-! ## What is said at the end -/

end Engine

theorem StatusText.verifying_ne_ended (target target' : VerificationTarget) (name name' : Text)
    (crashed : Bool) (store : Store) (seconds : Option Float) :
    verifying target name ≠ ended crashed store target' name' seconds := by
  intro h
  -- the texts differ in the first letter of their icons
  have hicon : (verifying target name).text.points[2]? = some (.char 's') := rfl
  rw [h] at hicon
  unfold ended at hicon
  dsimp only at hicon
  split at hicon
  · cases (show some (CodePoint.char 'e') = _ from hicon)
  · split at hicon
    · cases (show some (CodePoint.char 'e') = _ from hicon)
    · split at hicon
      · cases (show some (CodePoint.char 'w') = _ from hicon)
      · cases (show some (CodePoint.char 'c') = _ from hicon)

/-- A status that tells how a run ended. -/
def Effect.TellsEnd : Effect → Prop
  | .status text => ∃ crashed store target name seconds,
      text = .ended crashed store target name seconds
  | _ => False

theorem OnlyDiagnostics.not_tellsEnd {effects : List Effect} (h : OnlyDiagnostics effects) :
    ∀ effect ∈ effects, ¬ effect.TellsEnd := by
  intro effect he
  obtain ⟨uri, shown, rfl⟩ := h effect he
  exact not_false

namespace Engine

variable {e : Engine} {r : ActiveRun}

theorem onlyDiagnostics_takeOutput (e : Engine) (r : ActiveRun) (stream : Stream)
    (chunks : List Text.Bytes) (closed : Bool) :
    OnlyDiagnostics (e.takeOutput r stream chunks closed).2 :=
  onlyDiagnostics_takeLines _ _ _ _

theorem startRun_not_tellsEnd (e : Engine) (target : VerificationTarget) (name : Text) :
    ∀ effect ∈ (e.startRun target name).2, ¬ effect.TellsEnd := by
  intro effect he
  rcases List.mem_cons.mp he with rfl | he
  · exact not_false
  · rw [List.mem_singleton.mp he]
    rintro ⟨_, _, _, _, _, ht⟩
    exact StatusText.verifying_ne_ended _ _ _ _ _ _ _ ht

/-- The end of a run is told, or nothing has changed; and then the run was stuck or superseded. -/
theorem conclude_tells (e : Engine) (number : Nat) (target : VerificationTarget) (name : Text)
    (status : RunStatus) (seconds : Option Float) :
    ((∃ outcome, (e.conclude number target name status seconds).2.ending = .ended outcome) ∧
        ∃ effect ∈ (e.conclude number target name status seconds).2.effects, effect.TellsEnd) ∨
      (e.conclude number target name status seconds).1 = e ∧
        (∀ effect ∈ (e.conclude number target name status seconds).2.effects,
          ¬ effect.TellsEnd) ∧
        ((∃ file, (e.conclude number target name status seconds).2.ending = .stuck file) ∨
          number ≠ e.runCount) := by
  by_cases h : number = e.runCount
  · have hfiles := onlyDiagnostics_showFiles e.directory e.board.store.entries
    unfold conclude
    rw [if_pos h]
    dsimp only [showStore]
    cases hs : showFiles e.directory e.board.store.entries with
    | mk effects stuck =>
      rw [hs] at hfiles
      cases stuck with
      | none =>
        refine .inl ⟨⟨_, rfl⟩, .status _, List.mem_append_right _ (List.mem_singleton.mpr rfl), ?_⟩
        exact ⟨_, _, _, _, _, rfl⟩
      | some file =>
        refine .inr ⟨rfl, ?_, .inl ⟨file, rfl⟩⟩
        intro effect he
        simp only [List.mem_cons] at he
        rcases he with rfl | rfl | he
        · exact not_false
        · exact not_false
        · exact hfiles.not_tellsEnd effect he
  · rw [conclude_superseded h]
    exact .inr ⟨rfl, fun _ he => absurd he List.not_mem_nil, .inr h⟩

theorem finish_tells (e : Engine) (r : ActiveRun) (code : ExitCode) (stop : Millis) :
    ((∃ outcome, (e.finish r code stop).2.ending = .ended outcome) ∧
        ∃ effect ∈ (e.finish r code stop).2.effects, effect.TellsEnd) ∨
      (e.finish r code stop).1.updates = e.updates ∧
        (∀ effect ∈ (e.finish r code stop).2.effects, ¬ effect.TellsEnd) ∧
        ((∃ file, (e.finish r code stop).2.ending = .stuck file) ∨ r.number ≠ e.runCount) := by
  unfold finish
  obtain ⟨board, hb⟩ := (e.dropRun r.pid).takeLines_eq r.number r.origin r.lastLine
  have hlines := onlyDiagnostics_takeLines (e.dropRun r.pid) r.number r.origin r.lastLine
  dsimp only
  rcases ((e.dropRun r.pid).takeLines r.number r.origin r.lastLine).1.conclude_tells r.number
    r.target r.name (.classify code r.stderrText) (some (secondsBetween r.start stop)) with
    ⟨hended, effect, he, ht⟩ | ⟨hsame, hnone, hwhy⟩
  · exact .inl ⟨hended, effect, List.mem_append_right _ he, ht⟩
  · refine .inr ⟨?_, ?_, hwhy.imp_right ?_⟩
    · rw [hsame, hb]
      rfl
    · intro effect he
      rcases List.mem_append.mp he with he | he
      · exact hlines.not_tellsEnd effect he
      · exact hnone effect he
    · rw [hb]
      exact id

end Engine

/-! ## What is told on the status line -/

/-- What is told on the status line, rather than shown elsewhere. -/
def Effect.onStatusLine : Effect → Bool
  | .status _ | .busy _ | .errorNotice _ => true
  | _ => false

/-- What the end of a run tells. -/
def Ending.told : Ending → List Effect
  | .superseded => []
  | .stuck _ => [.busy false]
  | .ended o =>
    .busy false :: (if o.status = .crash then [.errorNotice crashMessage] else []) ++
      [.status o.text]

namespace Engine

theorem onStatusLine_diagnostics {effects : List Effect} (h : OnlyDiagnostics effects) :
    effects.filter Effect.onStatusLine = [] := by
  refine List.filter_eq_nil_iff.mpr fun effect he => ?_
  obtain ⟨uri, shown, rfl⟩ := h effect he
  exact Bool.false_ne_true

/-- What the end of a run tells goes by how it ended. -/
theorem told_conclude (e : Engine) (number : Nat) (target : VerificationTarget) (name : Text)
    (status : RunStatus) (seconds : Option Float) :
    let c := (e.conclude number target name status seconds).2
    c.effects.filter Effect.onStatusLine = c.ending.told := by
  have hfiles := onStatusLine_diagnostics
    (onlyDiagnostics_showFiles e.directory e.board.store.entries)
  have hdecorations : e.showDecorations.filter Effect.onStatusLine = [] := by
    unfold showDecorations
    split
    next =>
      refine List.filter_eq_nil_iff.mpr fun effect he => ?_
      obtain ⟨file, -, rfl⟩ := List.mem_map.mp he
      exact Bool.false_ne_true
    next => rfl
  unfold conclude
  by_cases h : number = e.runCount
  · rw [if_pos h]
    dsimp only [showStore]
    cases hs : showFiles e.directory e.board.store.entries with
    | mk effects stuck =>
      rw [hs] at hfiles
      cases stuck with
      | some file =>
        show [Effect.busy false] ++ effects.filter Effect.onStatusLine = _
        rw [hfiles]
        rfl
      | none =>
        dsimp only at hfiles ⊢
        by_cases hcrash : status.settle e.board.store = .crash
        · simp [hfiles, hdecorations, Ending.told, hcrash, Effect.onStatusLine, List.filter_cons]
        · simp [hfiles, hdecorations, Ending.told, hcrash, Effect.onStatusLine, List.filter_cons]
  · rw [if_neg h]
    rfl

/-- A run that concludes was superseded exactly if a later one had begun. -/
theorem conclude_superseded_iff (e : Engine) (number : Nat) (target : VerificationTarget)
    (name : Text) (status : RunStatus) (seconds : Option Float) :
    (e.conclude number target name status seconds).2.ending = .superseded ↔
      number ≠ e.runCount := by
  unfold conclude
  by_cases h : number = e.runCount
  · rw [if_pos h]
    dsimp only [showStore]
    cases showFiles e.directory e.board.store.entries with
    | mk effects stuck => cases stuck <;> simp [h]
  · rw [if_neg h]
    simp [h]

theorem told_finish (e : Engine) (r : ActiveRun) (code : ExitCode) (stop : Millis) :
    (e.finish r code stop).2.effects.filter Effect.onStatusLine =
      (e.finish r code stop).2.ending.told := by
  have hlines := onStatusLine_diagnostics
    (onlyDiagnostics_takeLines (e.dropRun r.pid) r.number r.origin r.lastLine)
  unfold finish
  dsimp only
  rw [List.filter_append, hlines, List.nil_append]
  exact told_conclude ..

theorem finish_superseded_iff (e : Engine) (r : ActiveRun) (code : ExitCode) (stop : Millis) :
    (e.finish r code stop).2.ending = .superseded ↔ r.number ≠ e.runCount := by
  obtain ⟨board, hb⟩ := (e.dropRun r.pid).takeLines_eq r.number r.origin r.lastLine
  unfold finish
  dsimp only
  rw [conclude_superseded_iff, hb]
  rfl

end Engine

end VerifierHost
