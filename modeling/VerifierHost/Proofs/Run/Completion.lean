import VerifierHost.Proofs.Run.Forgetting

/-! # How a run completes

A run is ended by one of two moves: its verifier cannot be started, or exits. All that is said then
comes from the store that the run has filled: the outcome and its text, and the diagnostics, which
are shown file by file in place of those shown before. -/

namespace VerifierHost

/-- A run that is judged: what it verified, and how its verifier fared as far as its exit and its
error stream tell. -/
structure Judgement where
  target : VerificationTarget
  name : Text
  status : RunStatus

/-- The run that a move judges; a verifier that cannot be started counts as crashed. -/
def Engine.judgement? (e : Engine) : Move → Option Judgement
  | .refuse target name => some ⟨target, name, .crash⟩
  | .exit pid code _ =>
    (e.run? pid).map fun r => ⟨r.target, r.name, .classify code r.stderrText⟩
  | _ => none

/-- The run that a move ends is the latest one. -/
def Engine.EndsLatest (e : Engine) : Move → Prop
  | .refuse .. => True
  | .exit pid _ _ => ∃ r, e.run? pid = some r ∧ r.number = e.runCount
  | _ => False

/-- A move ends a run: from an engine that has only shown the beginning of the run or diagnostics,
the run is concluded as it was judged. -/
structure Engine.Concludes (e : Engine) (m : Move) (front : List Effect) (e' : Engine)
    (number : Nat) (j : Judgement) (seconds : Option Float) : Prop where
  judged : e.judgement? m = some j
  latest : number = e'.runCount ↔ e.EndsLatest m
  directory : e'.directory = e.directory
  shown : OnlyDiagnostics front ∨ front = (e.startRun j.target j.name).2
  engine : (e.play m).engine = (e'.conclude number j.target j.name j.status seconds).1
  effects : (e.play m).effects =
    front ++ (e'.conclude number j.target j.name j.status seconds).2.effects
  ending : (e.play m).ending =
    some (e'.conclude number j.target j.name j.status seconds).2.ending

/-- No effect is about diagnostics. -/
def Undiagnosed (effects : List Effect) : Prop :=
  ∀ effect ∈ effects, effect ≠ .clearDiagnostics ∧ ∀ uri shown, effect ≠ .diagnostics uri shown

/-- The URI that a file is shown under, where it has one. -/
def shownUri (directory : FilePath) (file : Text) : Text :=
  (Uri.ofFile? directory file).getD ""

/-- What stands under each URI if files are shown one after the other. -/
def uriRows (directory : FilePath) (files : Table Text (List Diagnostic)) :
    Table Text (List Diagnostic) :=
  files.map fun row => (shownUri directory row.1, row.2)

namespace Engine

/-- **How a run is ended**, by whatever move. -/
theorem exists_concludes {e : Engine} {m : Move} (h : (e.play m).ending.isSome) :
    ∃ front e' number j seconds, e.Concludes m front e' number j seconds := by
  cases m with
  | launch | abort | awaitNews | drawHints | takeChanged => cases h
  | output pid stream chunks closed =>
    dsimp only [play] at h
    split at h
    · split at h <;> cases h
    · cases h
  | refuse target name =>
    exact ⟨(e.startRun target name).2, (e.startRun target name).1, _, ⟨target, name, .crash⟩, none,
      { judged := rfl, latest := iff_of_true rfl trivial, directory := rfl, shown := .inr rfl
        engine := rfl, effects := rfl, ending := rfl }⟩
  | exit pid code moment =>
    dsimp only [play] at h
    cases hr : e.run? pid with
    | none => simp [hr] at h
    | some r =>
      obtain ⟨board, hb⟩ := (e.dropRun r.pid).takeLines_eq r.number r.origin r.lastLine
      refine ⟨((e.dropRun r.pid).takeLines r.number r.origin r.lastLine).2,
        ((e.dropRun r.pid).takeLines r.number r.origin r.lastLine).1, r.number,
        ⟨r.target, r.name, .classify code r.stderrText⟩, some (secondsBetween r.start moment), ?_⟩
      have hlines := onlyDiagnostics_takeLines (e.dropRun r.pid) r.number r.origin r.lastLine
      constructor
      case judged => simp [judgement?, hr]
      case latest => rw [hb]; simp [EndsLatest, hr, dropRun]
      case directory => rw [hb]; rfl
      case shown => exact .inl hlines
      all_goals simp [play, hr, finish]

/-- The board that is left is the one on which the run is concluded. -/
theorem Concludes.board {e e' : Engine} {m : Move} {front : List Effect} {number : Nat}
    {j : Judgement} {seconds : Option Float} (h : e.Concludes m front e' number j seconds) :
    (e.play m).engine.board = e'.board := by
  rw [h.engine, board_conclude]

/-- Files that all have URIs are shown in their order. -/
theorem showFiles_all {directory : FilePath} {files : Table Text (List Diagnostic)}
    (h : (showFiles directory files).2 = none) :
    (∀ row ∈ files, (Uri.ofFile? directory row.1).isSome) ∧
      (showFiles directory files).1 =
        (uriRows directory files).map fun row => .diagnostics row.1 row.2 := by
  induction files with
  | nil => exact ⟨fun _ hm => absurd hm List.not_mem_nil, rfl⟩
  | cons row rest ih =>
    unfold showFiles at h ⊢
    cases hu : Uri.ofFile? directory row.1 with
    | none => simp [hu] at h
    | some uri =>
      simp only [hu] at h ⊢
      obtain ⟨hall, hrest⟩ := ih h
      refine ⟨List.forall_mem_cons.mpr ⟨by rw [hu]; rfl, hall⟩, ?_⟩
      rw [hrest, uriRows, uriRows, List.map_cons, List.map_cons, shownUri, hu]
      rfl

/-- The outcome of a run and what is shown with it, if all of its files have URIs. -/
theorem conclude_outcome {e : Engine} {number : Nat} {target : VerificationTarget} {name : Text}
    {status : RunStatus} {seconds : Option Float} {o : RunOutcome}
    (h : (e.conclude number target name status seconds).2.ending = .ended o) :
    o = ⟨number, status.settle e.board.store,
        .ended (decide (status.settle e.board.store = .crash)) e.board.store target name seconds,
        seconds, e.board.store.counts⟩ ∧
      (showFiles e.directory e.board.store.entries).2 = none ∧
      ∃ after, Undiagnosed after ∧
        (e.conclude number target name status seconds).2.effects =
          .busy false :: .clearDiagnostics ::
            (showFiles e.directory e.board.store.entries).1 ++ after := by
  unfold conclude at h ⊢
  by_cases hn : number = e.runCount
  · rw [if_pos hn] at h ⊢
    dsimp only [showStore] at h ⊢
    cases hs : showFiles e.directory e.board.store.entries with
    | mk effects stuck =>
      cases stuck with
      | some file => simp [hs] at h
      | none =>
        simp only [hs] at h ⊢
        injection h with h
        refine ⟨h.symm, trivial, _, ?_, by simp only [List.append_assoc, List.cons_append]; rfl⟩
        intro effect he
        rcases List.mem_append.mp he with he | he
        · unfold showDecorations at he
          split at he
          next =>
            obtain ⟨file, -, rfl⟩ := List.mem_map.mp he
            exact ⟨by simp, by simp⟩
          next => exact absurd he List.not_mem_nil
        · rcases List.mem_append.mp he with he | he
          · split at he
            next => rw [List.mem_singleton.mp he]; exact ⟨by simp, by simp⟩
            next => exact absurd he List.not_mem_nil
          · rw [List.mem_singleton.mp he]; exact ⟨by simp, by simp⟩
  · simp [hn] at h

/-- **How a run completes.** The judgement on its verifier and its store make the outcome; all
diagnostics of the store are shown after everything shown before was cleared. -/
theorem play_ended {e : Engine} {m : Move} {o : RunOutcome}
    (h : (e.play m).ending = some (.ended o)) :
    ∃ v, e.judgement? m = some v ∧
      o.status = v.status.settle (e.play m).engine.board.store ∧
      o.text = .ended (decide (o.status = .crash)) (e.play m).engine.board.store v.target v.name
        o.seconds ∧
      o.counts = (e.play m).engine.board.store.counts ∧
      (showFiles e.directory (e.play m).engine.board.store.entries).2 = none ∧
      ∃ before after, Undiagnosed after ∧
        (e.play m).effects = before ++ .clearDiagnostics ::
          (showFiles e.directory (e.play m).engine.board.store.entries).1 ++ after := by
  obtain ⟨front, e', number, j, seconds, hc⟩ := exists_concludes (Option.isSome_of_mem h)
  obtain ⟨rfl, hshown, after, hafter, heffects⟩ :=
    conclude_outcome (Option.some.inj (hc.ending.symm.trans h))
  rw [hc.board, ← hc.directory]
  refine ⟨j, hc.judged, rfl, rfl, rfl, hshown, front ++ [.busy false], after, hafter, ?_⟩
  rw [hc.effects, heffects]
  simp

end Engine

end VerifierHost
