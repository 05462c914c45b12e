import VerifierHost.Run.Board
import VerifierHost.Run.Invocation
import VerifierHost.Text.Lines
import VerifierHost.Waiting.Updates

/-!
The engine of verification runs. Runs may overlap: the processes of older runs are killed but may
live on for a while. Only the latest run is listened to, and only it has an outcome; each run starts
by forgetting what the runs before it have said.
-/

namespace VerifierHost

/-- Somebody who reads a stream of a verifier. -/
structure Tap where
  decoder : Text.Utf8
  ended : Bool
  deriving DecidableEq, Repr

def Tap.start : Tap := ⟨.start, false⟩

/-- A run whose verifier has not ended yet, as far as anybody has noticed. -/
structure ActiveRun where
  number : Nat
  pid : Pid
  start : Millis
  target : VerificationTarget
  name : Text
  origin : Origin
  jsonStream : Stream
  stdout : Tap
  stderr : Tap
  lines : Text.LineBuffer
  /-- All that came on the error stream so far. -/
  stderrText : List Char
  deriving DecidableEq, Repr

namespace ActiveRun

def tap (r : ActiveRun) : Stream → Tap
  | .stdout => r.stdout
  | .stderr => r.stderr

def setTap (r : ActiveRun) (stream : Stream) (t : Tap) : ActiveRun :=
  match stream with
  | .stdout => { r with stdout := t }
  | .stderr => { r with stderr := t }

/-- Reads chunks of a stream: the run, the lines that are complete now, and whether it ended. -/
def read (r : ActiveRun) (stream : Stream) (chunks : List Text.Bytes) (closed : Bool) :
    ActiveRun × List Text :=
  let reading := readChunks (r.tap stream).decoder closed chunks
  let text := reading.texts.flatten
  let r := r.setTap stream ⟨reading.decoder, reading.ended⟩
  let r := if stream = .stderr then { r with stderrText := r.stderrText ++ text } else r
  if stream = r.jsonStream then
    let (lines, buffer) := r.lines.feed text
    ({ r with lines := buffer }, lines.map Text.ofChars)
  else (r, [])

/-- The line that was not finished when the stream ended. -/
def lastLine (r : ActiveRun) : List Text := r.lines.flush.1.map Text.ofChars

end ActiveRun

structure Engine where
  directory : FilePath
  settings : Settings
  /-- Whether the host shows decorations. -/
  decorating : Bool
  board : Board
  /-- The files whose findings the latest run has cleared. -/
  cleared : List Text
  updates : Updates
  runCount : Nat
  runs : List ActiveRun

/-- How a run ended. -/
inductive Ending where
  /-- A later run has taken its place. -/
  | superseded
  /-- A file that cannot be shown, since it has no URI, brought the run to an early end. -/
  | stuck (file : Text)
  | ended (outcome : RunOutcome)

/-- What comes of a run at its end. -/
structure Conclusion where
  effects : List Effect
  released : List WaitId
  ending : Ending

namespace Engine

def idle (directory : FilePath) (settings : Settings) (decorating : Bool) : Engine where
  directory := directory
  settings := settings
  decorating := decorating
  board := ⟨.empty, .empty settings.errorsOnly, [], []⟩
  cleared := []
  updates := .empty
  runCount := 0
  runs := []

/-- The number of runs whose verifiers have not ended. -/
def inProgress (e : Engine) : Nat := e.runs.length

/-- The processes of all runs. -/
def pids (e : Engine) : List Pid := e.runs.map ActiveRun.pid

def run? (e : Engine) (pid : Pid) : Option ActiveRun := e.runs.find? fun r => r.pid = pid

def putRun (e : Engine) (r : ActiveRun) : Engine :=
  { e with runs := e.runs.map fun q => if q.pid = r.pid then r else q }

def dropRun (e : Engine) (pid : Pid) : Engine :=
  { e with runs := e.runs.filter fun r => r.pid ≠ pid }

/-- Names in their order, each once. -/
def sortedNames (names : List Text) : List Text :=
  (names.foldl insertName []).mergeSort Text.le

/-- The files that the runs so far have said something about. -/
def knownFiles (e : Engine) : List Text :=
  sortedNames (e.board.store.files ++ e.board.annotated)

/-- Starts a run: the findings on all files known so far are forgotten. -/
def startRun (e : Engine) (target : VerificationTarget) (name : Text) :
    Engine × List Effect :=
  let cleared := e.knownFiles
  ({ e with
      runCount := e.runCount + 1
      cleared
      board :=
        { findings := cleared.foldl Findings.clearFile e.board.findings
          store := .empty e.settings.errorsOnly
          annotated := []
          touched := [] } },
    [.busy true, .status (.verifying target name)])

/-- Registers the process of the run that was started last. -/
def launched (e : Engine) (i : Invocation) (target : VerificationTarget) (name : Text)
    (pid : Pid) (start : Millis) : Engine :=
  { e with
    runs := e.runs ++
      [{ number := e.runCount, pid, start, target, name
         origin := i.origin
         jsonStream := i.jsonStream
         stdout := .start
         stderr := .start
         lines := .empty
         stderrText := [] }] }

/-- Takes in a line of a run; nobody listens to a run that was superseded. -/
def takeLine (e : Engine) (number : Nat) (o : Origin) (line : Text) : Engine × List Effect :=
  if number = e.runCount then
    let (board, effects) := e.board.readLine e.directory o line
    ({ e with board }, effects)
  else (e, [])

def takeLines (e : Engine) (number : Nat) (o : Origin) : List Text → Engine × List Effect
  | [] => (e, [])
  | line :: rest =>
    let (e, effects) := e.takeLine number o line
    let (e, more) := takeLines e number o rest
    (e, effects ++ more)

/-- Takes in chunks that the process of a run has written. -/
def takeOutput (e : Engine) (r : ActiveRun) (stream : Stream) (chunks : List Text.Bytes)
    (closed : Bool) : Engine × List Effect :=
  let (r, lines) := r.read stream chunks closed
  (e.putRun r).takeLines r.number r.origin lines

/-- Shows the diagnostics of files one after the other, up to a file that has no URI. -/
def showFiles (directory : FilePath) :
    List (Text × List Diagnostic) → List Effect × Option Text
  | [] => ([], none)
  | (file, shown) :: rest =>
    match Uri.ofFile? directory file with
    | none => ([], some file)
    | some uri =>
      let (effects, stuck) := showFiles directory rest
      (.diagnostics uri shown :: effects, stuck)

/-- Shows what the store holds, in place of all that was shown before. -/
def showStore (e : Engine) : List Effect × Option Text :=
  let (effects, stuck) := showFiles e.directory e.board.store.entries
  (.clearDiagnostics :: effects, stuck)

/-- The files that look different after the latest run. -/
def changedFiles (e : Engine) : List Text := sortedNames (e.board.touched ++ e.cleared)

/-- Shows the decorations of the files that the latest run touched or cleared. -/
def showDecorations (e : Engine) : List Effect :=
  if e.decorating then
    e.changedFiles.map fun file => .decorations file (e.board.findings.decorations file)
  else []

/-- Ends a run with a status; nothing is shown for a run that was superseded. -/
def conclude (e : Engine) (number : Nat) (target : VerificationTarget) (name : Text)
    (status : RunStatus) (seconds : Option Float) : Engine × Conclusion :=
  if number = e.runCount then
    let store := e.board.store
    let status := status.settle store
    let crashed := decide (status = .crash)
    let text := StatusText.ended crashed store target name seconds
    match e.showStore with
    | (effects, some file) => (e, ⟨.busy false :: effects, [], .stuck file⟩)
    | (effects, none) =>
      let (updates, released) := e.updates.notifyFiles e.board.touched
      let (updates, others) := updates.notifyAll
      ({ e with updates },
        { effects := .busy false :: effects ++ e.showDecorations ++
            (if crashed then [.errorNotice crashMessage] else []) ++ [.status text]
          released := released ++ others
          ending := .ended ⟨number, status, text, seconds, store.counts⟩ })
  else (e, ⟨[], [], .superseded⟩)

/-- Ends the run of a process that has exited. -/
def finish (e : Engine) (r : ActiveRun) (code : ExitCode) (stop : Millis) : Engine × Conclusion :=
  let (e, effects) := (e.dropRun r.pid).takeLines r.number r.origin r.lastLine
  let (e, conclusion) := e.conclude r.number r.target r.name
    (.classify code r.stderrText) (some (secondsBetween r.start stop))
  (e, { conclusion with effects := effects ++ conclusion.effects })

/-- Forgets all findings and gives up all waits for news. -/
def dispose (e : Engine) : Engine × List WaitId :=
  let (updates, ended) := e.updates.cancelAll
  ({ e with updates, board := { e.board with findings := .empty } }, ended)

end Engine

end VerifierHost
