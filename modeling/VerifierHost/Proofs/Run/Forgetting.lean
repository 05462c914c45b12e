import VerifierHost.Proofs.Run.Lines
import VerifierHost.Proofs.Run.Tracking

/-! # What a new run forgets

A run starts by forgetting the files that are known from the runs before it. Through every move the
findings stay noted, strays apart (`Chronicle.tracks`), so a new run finds nothing but strays in
files that nobody knows of. -/

namespace VerifierHost

open Wire

/-! ## Clearing files -/

namespace Findings

/-- What is known of the files that are not cleared stays, whichever part of it one looks at. -/
theorem mem_clearAll (known : Findings → List Text) (hclear : ∀ {f cleared file},
      file ∈ known (clearFile f cleared) ↔ file ∈ known f ∧ file ≠ cleared)
    {files : List Text} {f : Findings} {file : Text} :
    file ∈ known (files.foldl clearFile f) ↔ file ∈ known f ∧ file ∉ files := by
  induction files generalizing f with
  | nil => simp
  | cons cleared rest ih =>
    rw [List.foldl_cons, ih, List.mem_cons, not_or, ← and_assoc]
    exact and_congr_left fun _ => hclear

/-- Rows that name a file go with it. -/
theorem rows_clearAll {α : Type} (rows : Findings → List α) (fileOf : α → Text)
    (hclear : ∀ f cleared, rows (clearFile f cleared) =
      (rows f).filter fun row => fileOf row ≠ cleared) (files : List Text) (f : Findings) :
    rows (files.foldl clearFile f) = (rows f).filter fun row => fileOf row ∉ files := by
  induction files generalizing f with
  | nil => exact (List.filter_eq_self.mpr fun _ _ => by simp).symm
  | cons cleared rest ih =>
    rw [List.foldl_cons, ih, hclear, List.filter_filter]
    apply List.filter_congr
    intro row _
    by_cases h : fileOf row = cleared <;> simp [h]

theorem mem_instantiations_clearAll {files : List Text} {f : Findings} {file : Text} :
    file ∈ (files.foldl clearFile f).instantiations.files ↔
      file ∈ f.instantiations.files ∧ file ∉ files :=
  mem_clearAll (fun f => f.instantiations.files) Table.mem_keys_erase

theorem mem_triggers_clearAll {files : List Text} {f : Findings} {file : Text} :
    file ∈ (files.foldl clearFile f).triggers.files ↔
      file ∈ f.triggers.files ∧ file ∉ files :=
  mem_clearAll (fun f => f.triggers.files) Table.mem_keys_erase

theorem verdicts_clearAll (files : List Text) (f : Findings) :
    (files.foldl clearFile f).verdicts = f.verdicts.filter fun v => v.file ∉ files :=
  rows_clearAll Findings.verdicts Verdict.file (fun _ _ => rfl) files f

theorem methodRanges_clearAll (files : List Text) (f : Findings) :
    (files.foldl clearFile f).methodRanges =
      f.methodRanges.filter fun row => row.1.1 ∉ files :=
  rows_clearAll Findings.methodRanges (·.1.1) (fun _ _ => rfl) files f

end Findings

/-- What is noted stays noted as lines come in, up to what they leave halfway. -/
theorem Board.Tracks.readAll {b : Board} {strays : Table (Text × Text) Range} (h : b.Tracks strays)
    (directory : FilePath) (lines : List (Origin × Text)) :
    (b.readAll directory lines).Tracks
      (lines.foldl (fun t line => t.putAll (strayRows line.1 line.2)) strays) := by
  induction lines generalizing b strays with
  | nil => exact h
  | cons line rest ih => exact ih (h.readLine directory line.1 line.2)

/-! ## Looking at the findings does not change them -/

theorem AnnotationIndex.entries_render {π δ : Type} (kind : AnnotationKind π δ)
    (x : AnnotationIndex π) (file : Text) : (x.render kind file).index.entries = x.entries := by
  unfold AnnotationIndex.render
  split
  next => rfl
  next =>
    dsimp only
    split <;> rfl

namespace Engine

variable {e : Engine} {strays : Table (Text × Text) Range}

theorem mem_knownFiles {file : Text} :
    file ∈ e.knownFiles ↔ file ∈ e.board.store.files ∨ file ∈ e.board.annotated := by
  rw [knownFiles, mem_sortedNames, List.mem_append]

/-! ## Starts and ends -/

theorem board_conclude (e : Engine) (number : Nat) (target : VerificationTarget) (name : Text)
    (status : RunStatus) (seconds : Option Float) :
    (e.conclude number target name status seconds).1.board = e.board := by
  unfold conclude
  split
  next =>
    dsimp only
    split <;> rfl
  next => rfl

/-- A new run finds no annotations and no verdicts, and of the ranges only strays. -/
theorem findings_startRun (h : e.board.Tracks strays) (target : VerificationTarget) (name : Text) :
    let f := (e.startRun target name).1.board.findings
    f.instantiations.files = [] ∧ f.triggers.files = [] ∧ f.verdicts = [] ∧
      f.methodRanges = strays.filter fun row => row.1.1 ∉ e.knownFiles := by
  have known : ∀ {file}, file ∈ e.board.annotated → file ∈ e.knownFiles :=
    fun hf => mem_knownFiles.mpr (.inr hf)
  refine ⟨?_, ?_, ?_, ?_⟩
  · apply List.eq_nil_iff_forall_not_mem.mpr
    intro file hf
    obtain ⟨hm, hne⟩ := Findings.mem_instantiations_clearAll.mp hf
    exact hne (known (h.instantiations file hm))
  · apply List.eq_nil_iff_forall_not_mem.mpr
    intro file hf
    obtain ⟨hm, hne⟩ := Findings.mem_triggers_clearAll.mp hf
    exact hne (known (h.triggers file hm))
  · refine (Findings.verdicts_clearAll ..).trans (List.filter_eq_nil_iff.mpr ?_)
    intro v hv
    simpa using known (h.verdicts v hv)
  · refine (Findings.methodRanges_clearAll ..).trans (filter_eq_of_imp h.ranges ?_)
    intro row hrow
    simp only [decide_eq_true_eq] at hrow ⊢
    exact fun hf => hrow (known hf)

theorem tracks_startRun (h : e.board.Tracks strays) (target : VerificationTarget) (name : Text) :
    (e.startRun target name).1.board.Tracks
      (strays.filter fun row => row.1.1 ∉ e.knownFiles) := by
  obtain ⟨hi, ht, hv, hr⟩ := findings_startRun h target name
  refine ⟨?_, ?_, ?_, ?_, fun file hf => hf⟩
  · rw [hi]; exact fun _ hf => absurd hf List.not_mem_nil
  · rw [ht]; exact fun _ hf => absurd hf List.not_mem_nil
  · rw [hv]; exact fun _ hf => absurd hf List.not_mem_nil
  · rw [hr]

/-! The board after a move. -/

theorem board_refuse (e : Engine) (target : VerificationTarget) (name : Text) :
    (e.play (.refuse target name)).engine.board = (e.startRun target name).1.board :=
  board_conclude ..

theorem board_output (e : Engine) (pid : Pid) (stream : Stream) (chunks : List Text.Bytes)
    (closed : Bool) : (e.play (.output pid stream chunks closed)).engine.board =
      e.board.readAll e.directory (e.heard (.output pid stream chunks closed)) := by
  dsimp only [Engine.play, heard]
  cases e.run? pid with
  | none => rfl
  | some r =>
    dsimp only
    cases hended : (r.tap stream).ended with
    | true => simp [Board.readAll]
    | false => simp [takeOutput, board_takeLines, putRun]

theorem board_exit (e : Engine) (pid : Pid) (code : ExitCode) (moment : Millis) :
    (e.play (.exit pid code moment)).engine.board =
      e.board.readAll e.directory (e.heard (.exit pid code moment)) := by
  dsimp only [Engine.play, heard]
  cases e.run? pid with
  | none => rfl
  | some r => simp [finish, board_conclude, board_takeLines, dropRun]

/-- **Every move keeps track.** -/
theorem tracks_play (h : e.board.Tracks strays) (m : Move) :
    (e.play m).engine.board.Tracks (e.straysAfter strays m) := by
  cases m with
  | launch target name invocation pid moment => exact tracks_startRun h target name
  | abort target name => exact tracks_startRun h target name
  | refuse target name =>
    rw [board_refuse]
    exact tracks_startRun h target name
  | output pid stream chunks closed =>
    rw [board_output]
    exact h.readAll e.directory _
  | exit pid code moment =>
    rw [board_exit]
    exact h.readAll e.directory _
  | awaitNews file => exact h
  | drawHints file =>
    have hentries := AnnotationIndex.entries_render instantiationKind
      e.board.findings.instantiations file
    refine ⟨?_, h.triggers, h.verdicts, h.ranges, h.touched⟩
    intro f hf
    exact h.instantiations f (by rwa [AnnotationIndex.files, ← hentries])
  | takeChanged => exact ⟨h.instantiations, h.triggers, h.verdicts, h.ranges, h.touched⟩

end Engine

/-! ## Chronicles -/

/-- Whether something is known about a file. -/
def Findings.Mentions (f : Findings) (file : Text) : Prop :=
  file ∈ f.instantiations.files ∨ file ∈ f.triggers.files ∨ (∃ v ∈ f.verdicts, v.file = file) ∨
    ∃ row ∈ f.methodRanges, row.1.1 = file

namespace Chronicle

/-- Whatever an engine goes through, its findings stay noted, strays apart. -/
theorem tracks (directory : FilePath) (settings : Settings) (decorating : Bool)
    (moves : List Move) :
    let c := (start (.idle directory settings decorating)).addAll moves
    c.engine.board.Tracks c.strays := by
  apply addAll_induction (P := fun c => c.engine.board.Tracks c.strays)
  · refine ⟨?_, ?_, ?_, rfl, fun file hf => hf⟩
    all_goals exact fun _ hf => absurd hf List.not_mem_nil
  · exact fun c m h => Engine.tracks_play h m

/-- A stray in a file that is not noted is a range of the findings. -/
theorem mentions_of_stray {b : Board} {strays : Table (Text × Text) Range} (h : b.Tracks strays)
    {row : (Text × Text) × Range} (hrow : row ∈ strays) (hne : row.1.1 ∉ b.annotated) :
    b.findings.Mentions row.1.1 := by
  have hmem : row ∈ b.findings.methodRanges.filter fun row => row.1.1 ∉ b.annotated := by
    rw [h.ranges]
    exact List.mem_filter.mpr ⟨hrow, by simpa using hne⟩
  exact .inr (.inr (.inr ⟨row, (List.mem_filter.mp hmem).1, rfl⟩))

/-- What the findings mention is noted or a stray. -/
theorem annotated_or_stray {b : Board} {strays : Table (Text × Text) Range} (h : b.Tracks strays)
    {file : Text} (hm : b.findings.Mentions file) :
    file ∈ b.annotated ∨ ∃ row ∈ strays, row.1.1 = file := by
  by_cases ha : file ∈ b.annotated
  · exact .inl ha
  · rcases hm with hi | ht | ⟨v, hv, rfl⟩ | ⟨row, hrow, rfl⟩
    · exact .inl (h.instantiations file hi)
    · exact .inl (h.triggers file ht)
    · exact .inl (h.verdicts v hv)
    · have hmem : row ∈ strays.filter fun row => row.1.1 ∉ b.annotated := by
        rw [← h.ranges]
        exact List.mem_filter.mpr ⟨hrow, by simpa using ha⟩
      exact .inr ⟨row, (List.mem_filter.mp hmem).1, rfl⟩

/-- **A new run forgets all but strays.** After any moves, a new run finds no annotations and no
verdicts; the ranges it finds are the strays in files that nobody knows of. It starts clean, and
every file with findings was known before, exactly if no stray is in such a file. -/
theorem startRun_clean_iff (directory : FilePath) (settings : Settings) (decorating : Bool)
    (moves : List Move) (target : VerificationTarget) (name : Text) :
    let c := (start (.idle directory settings decorating)).addAll moves
    let f := (c.engine.startRun target name).1.board.findings
    (f.instantiations.files = [] ∧ f.triggers.files = [] ∧ f.verdicts = [] ∧
        f.methodRanges = c.strays.filter fun row => row.1.1 ∉ c.engine.knownFiles) ∧
      ((∀ file, ¬ f.Mentions file) ↔ ∀ row ∈ c.strays, row.1.1 ∈ c.engine.knownFiles) ∧
      ((∀ file, c.engine.board.findings.Mentions file → file ∈ c.engine.knownFiles) ↔
        ∀ row ∈ c.strays, row.1.1 ∈ c.engine.knownFiles) := by
  intro c f
  have htracks : c.engine.board.Tracks c.strays := tracks directory settings decorating moves
  obtain ⟨hi, ht, hv, hr⟩ := Engine.findings_startRun htracks target name
  refine ⟨⟨hi, ht, hv, hr⟩, ⟨?_, ?_⟩, ?_, ?_⟩
  · intro hclean row hrow
    by_cases hk : row.1.1 ∈ c.engine.knownFiles
    · exact hk
    · refine absurd (.inr (.inr (.inr ⟨row, ?_, rfl⟩))) (hclean row.1.1)
      rw [hr]
      exact List.mem_filter.mpr ⟨hrow, by simpa using hk⟩
  · rintro hknown file (h | h | ⟨v, h, -⟩ | ⟨row, h, -⟩)
    · rw [hi] at h; exact List.not_mem_nil h
    · rw [ht] at h; exact List.not_mem_nil h
    · rw [hv] at h; exact List.not_mem_nil h
    · rw [hr] at h
      obtain ⟨hrow, hne⟩ := List.mem_filter.mp h
      simp only [decide_eq_true_eq] at hne
      exact hne (hknown row hrow)
  · intro hknown row hrow
    by_cases ha : row.1.1 ∈ c.engine.board.annotated
    · exact Engine.mem_knownFiles.mpr (.inr ha)
    · exact hknown _ (mentions_of_stray htracks hrow ha)
  · intro hknown file hm
    rcases annotated_or_stray htracks hm with ha | ⟨row, hrow, rfl⟩
    · exact Engine.mem_knownFiles.mpr (.inr ha)
    · exact hknown row hrow

end Chronicle

end VerifierHost
