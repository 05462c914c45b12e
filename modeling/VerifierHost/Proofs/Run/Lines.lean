import VerifierHost.Run.Engine

/-! # Reading what verifiers print

A run that reads a chunk stays the run it is; its tap on the stream has ended once the stream was
closed or an empty chunk came. Lines of the latest run change the board of the engine and nothing
else, and lines of an older run change nothing. All that is shown while lines are read is
diagnostics. -/

namespace VerifierHost

/-- A stream ends with its closing or with an empty chunk. -/
theorem ended_readChunks (d : Text.Utf8) (closed : Bool) (chunks : List Text.Bytes) :
    (readChunks d closed chunks).ended = (closed || chunks.any List.isEmpty) := by
  induction chunks generalizing d with
  | nil => cases closed <;> rfl
  | cons chunk rest ih =>
    unfold readChunks
    cases hc : chunk.isEmpty with
    | true => simp [hc]
    | false => simpa [hc] using ih _

namespace ActiveRun

variable (r : ActiveRun) (stream : Stream) (chunks : List Text.Bytes) (closed : Bool)

theorem setTap_tap_of_ne {stream other : Stream} (h : other ≠ stream) (t : Tap) :
    (r.setTap stream t).tap other = r.tap other := by
  cases stream <;> cases other <;> first | rfl | exact absurd rfl h

/-- What reading changes in a run: a tap, the pending line and the text of the error stream. -/
theorem read_eq : ∃ lines stderrText,
    (r.read stream chunks closed).1 =
      { r.setTap stream ⟨(readChunks (r.tap stream).decoder closed chunks).decoder,
          closed || chunks.any List.isEmpty⟩ with lines, stderrText } := by
  unfold read
  rw [← ended_readChunks (r.tap stream).decoder]
  dsimp only
  split <;> split <;> exact ⟨_, _, rfl⟩

@[simp] theorem read_number : (r.read stream chunks closed).1.number = r.number := by
  obtain ⟨lines, stderrText, h⟩ := r.read_eq stream chunks closed
  rw [h]; cases stream <;> rfl

@[simp] theorem read_pid : (r.read stream chunks closed).1.pid = r.pid := by
  obtain ⟨lines, stderrText, h⟩ := r.read_eq stream chunks closed
  rw [h]; cases stream <;> rfl

@[simp] theorem read_origin : (r.read stream chunks closed).1.origin = r.origin := by
  obtain ⟨lines, stderrText, h⟩ := r.read_eq stream chunks closed
  rw [h]; cases stream <;> rfl

theorem ended_tap_read :
    ((r.read stream chunks closed).1.tap stream).ended = (closed || chunks.any List.isEmpty) := by
  obtain ⟨lines, stderrText, h⟩ := r.read_eq stream chunks closed
  rw [h]; cases stream <;> rfl

theorem tap_read_of_ne {stream other : Stream} (h : other ≠ stream) :
    (r.read stream chunks closed).1.tap other = r.tap other := by
  obtain ⟨lines, stderrText, hr⟩ := r.read_eq stream chunks closed
  rw [hr]
  exact r.setTap_tap_of_ne h _

end ActiveRun

/-! ## Lines -/

/-- Diagnostics are shown and nothing else. -/
def OnlyDiagnostics (effects : List Effect) : Prop :=
  ∀ effect ∈ effects, ∃ uri shown, effect = .diagnostics uri shown

theorem OnlyDiagnostics.nil : OnlyDiagnostics [] := fun _ he => absurd he List.not_mem_nil

theorem OnlyDiagnostics.cons {uri : Text} {shown : List Diagnostic} {effects : List Effect}
    (h : OnlyDiagnostics effects) : OnlyDiagnostics (.diagnostics uri shown :: effects) := by
  intro effect he
  rcases List.mem_cons.mp he with rfl | he
  · exact ⟨uri, shown, rfl⟩
  · exact h effect he

theorem OnlyDiagnostics.append {xs ys : List Effect} (hx : OnlyDiagnostics xs)
    (hy : OnlyDiagnostics ys) : OnlyDiagnostics (xs ++ ys) := by
  intro effect he
  rcases List.mem_append.mp he with he | he
  · exact hx effect he
  · exact hy effect he

theorem onlyDiagnostics_readLine (b : Board) (directory : FilePath) (o : Origin) (line : Text) :
    OnlyDiagnostics (b.readLine directory o line).2 := by
  unfold Board.readLine
  split
  next =>
    split
    next => exact .nil
    next =>
      unfold Board.readDiagnostic
      split
      next => exact .nil
      next =>
        split
        next =>
          dsimp only
          split
          next => exact .nil
          next => exact .cons .nil
        next => exact .nil
  next => exact .nil

/-- A board that has taken in some lines. -/
def Board.readAll (b : Board) (directory : FilePath) (lines : List (Origin × Text)) : Board :=
  lines.foldl (fun b line => (b.readLine directory line.1 line.2).1) b

theorem Board.readAll_cons (b : Board) (directory : FilePath) (line : Origin × Text)
    (rest : List (Origin × Text)) :
    b.readAll directory (line :: rest) =
      (b.readLine directory line.1 line.2).1.readAll directory rest := rfl

namespace Engine

theorem onlyDiagnostics_takeLine (e : Engine) (number : Nat) (o : Origin) (line : Text) :
    OnlyDiagnostics (e.takeLine number o line).2 := by
  unfold takeLine
  split
  next => exact onlyDiagnostics_readLine e.board e.directory o line
  next => exact .nil

theorem onlyDiagnostics_takeLines (e : Engine) (number : Nat) (o : Origin) (lines : List Text) :
    OnlyDiagnostics (e.takeLines number o lines).2 := by
  induction lines generalizing e with
  | nil => exact .nil
  | cons line rest ih => exact (onlyDiagnostics_takeLine e number o line).append (ih _)

theorem onlyDiagnostics_showFiles (directory : FilePath) (files : List (Text × List Diagnostic)) :
    OnlyDiagnostics (showFiles directory files).1 := by
  induction files with
  | nil => exact .nil
  | cons file rest ih =>
    unfold showFiles
    split
    next => exact .nil
    next => exact ih.cons

theorem takeLines_superseded {e : Engine} (number : Nat) (o : Origin) (lines : List Text)
    (h : number ≠ e.runCount) : e.takeLines number o lines = (e, []) := by
  induction lines with
  | nil => rfl
  | cons line rest ih => simp [takeLines, takeLine, h, ih]

/-- Nothing but the board changes when lines are taken in. -/
theorem takeLines_eq (e : Engine) (number : Nat) (o : Origin) (lines : List Text) :
    ∃ board, (e.takeLines number o lines).1 = { e with board } := by
  by_cases h : number = e.runCount
  · induction lines generalizing e with
    | nil => exact ⟨e.board, rfl⟩
    | cons line rest ih =>
      obtain ⟨board, hb⟩ := ih { e with board := (e.board.readLine e.directory o line).1 } h
      exact ⟨board, by simpa [takeLines, takeLine, h] using hb⟩
  · exact ⟨e.board, by rw [takeLines_superseded number o lines h]⟩

/-- The board takes in the lines of the latest run only. -/
theorem board_takeLines (e : Engine) (number : Nat) (o : Origin) (lines : List Text) :
    (e.takeLines number o lines).1.board =
      e.board.readAll e.directory (if number = e.runCount then lines.map (o, ·) else []) := by
  by_cases h : number = e.runCount
  · rw [if_pos h]
    induction lines generalizing e with
    | nil => rfl
    | cons line rest ih =>
      have hrest := ih { e with board := (e.board.readLine e.directory o line).1 } h
      simpa [takeLines, takeLine, h, Board.readAll_cons] using hrest
  · rw [if_neg h, takeLines_superseded number o lines h]
    rfl

end Engine

end VerifierHost
