import VerifierHost.Process.World
import VerifierHost.Text.Lines
import VerifierHost.Waiting.Phases

/-!
The supervision of one background process. A supervisor holds at most one process; it is live
exactly while it holds one, and moving to a state that contradicts this is refused. Whoever reads
the streams of a process is let go when that process is stopped, so nothing it prints afterwards
reaches anybody.
-/

namespace VerifierHost

inductive ServerState where
  /-- A process runs that has not said yet that it is ready. -/
  | running
  | ready
  /-- No process was started, or it was stopped on purpose. -/
  | stopped
  /-- The process ended by itself. -/
  | crashed
  deriving DecidableEq, Repr

namespace ServerState

def all : List ServerState := [.running, .ready, .stopped, .crashed]

def name : ServerState → String
  | .running => "Running"
  | .ready => "Ready"
  | .stopped => "Stopped"
  | .crashed => "Crashed"

/-- Whether a process runs in this state. -/
def isLive : ServerState → Bool
  | .running | .ready => true
  | .stopped | .crashed => false

end ServerState

/-- Why a server is unusable. -/
inductive ServerError where
  /-- A live state without a process. -/
  | processMissing (state : ServerState)
  /-- A dead state with a process. -/
  | processHeld (state : ServerState)
  | diedBeforeReady
  deriving DecidableEq, Repr

/-- A complaint about a server by name. -/
def serverComplaint (server text : Text) : Text := "[" ++ server ++ "] " ++ text

def ServerError.text : ServerError → String
  | .processMissing state => "State will become " ++ state.name ++ ", but proc is undefined."
  | .processHeld state => "State will become " ++ state.name ++ ", but proc is defined."
  | .diedBeforeReady => "Server terminated before becoming ready."

/-- What becomes of the lines of a stream. -/
inductive LineUse where
  | dropped
  /-- They are handed on as they are. -/
  | reported
  /-- They may tell where the server listens. -/
  | announced
  deriving DecidableEq, Repr

/-- Somebody who reads a stream of a server line by line. -/
structure StreamReader where
  pid : Pid
  stream : Stream
  lineUse : LineUse
  decoder : Text.Utf8
  lines : Text.LineBuffer
  deriving DecidableEq, Repr

def StreamReader.start (pid : Pid) (stream : Stream) (lineUse : LineUse) : StreamReader :=
  ⟨pid, stream, lineUse, .start, .empty⟩

/-- The lines in some chunks of the stream; at its end the unfinished line is one too. -/
def StreamReader.read (r : StreamReader) (chunks : List Text.Bytes) (closed : Bool) :
    StreamReader × List Text × Bool :=
  let reading := readChunks r.decoder closed chunks
  let (lines, buffer) := r.lines.feed reading.texts.flatten
  let (rest, buffer) := if reading.ended then buffer.flush else ([], buffer)
  ({ r with decoder := reading.decoder, lines := buffer }, (lines ++ rest).map Text.ofChars,
    reading.ended)

structure Supervisor where
  name : Text
  phases : Phases ServerState
  held : Option Pid
  readers : List StreamReader

namespace Supervisor

/-- A supervisor without a process. -/
def idle (name : Text) : Supervisor := ⟨name, ⟨ServerState.all, .stopped, [], .empty⟩, none, []⟩

def state (s : Supervisor) : ServerState := s.phases.current

/-- Moves to a state and releases the wait for it, if the state agrees with what is held. -/
def mark (s : Supervisor) (state : ServerState) : Except ServerError (Supervisor × List WaitId) :=
  if state.isLive && s.held.isNone then .error (.processMissing state)
  else if !state.isLive && s.held.isSome then .error (.processHeld state)
  else
    match s.phases.set? state with
    | some (phases, ended) => .ok ({ s with phases }, ended)
    | none => .ok (s, [])

/-- Takes over a process that has just been started. -/
def adopt (s : Supervisor) (pid : Pid) (stdout stderr : LineUse) :
    Except ServerError (Supervisor × List WaitId) :=
  mark { s with
    held := some pid
    readers := s.readers ++ [.start pid .stdout stdout, .start pid .stderr stderr] } .running

/-- The process that a stop has to kill. -/
def doomed (s : Supervisor) : Option Pid := if s.state.isLive then s.held else none

/-- Gives up the process, whose streams nobody reads from now on. -/
def stop (s : Supervisor) : Except ServerError (Supervisor × List WaitId) :=
  mark { s with held := none, readers := s.readers.filter fun r => s.doomed ≠ some r.pid } .stopped

/-- A process has ended: it is a crash if that process is still held. -/
def processEnded (s : Supervisor) (pid : Pid) : Except ServerError (Supervisor × List WaitId) :=
  if s.held = some pid then mark { s with held := none } .crashed else .ok (s, [])

/-- The process has said that it is ready. -/
def setReady (s : Supervisor) : Except ServerError (Supervisor × List WaitId) :=
  if s.state.isLive then s.mark .ready else .ok (s, [])

/-- Starts to wait for a state; the waits that the new one replaces are returned too. -/
def waitFor (s : Supervisor) (state : ServerState) : Supervisor × WaitId × List WaitId :=
  match s.phases.waitFor? state with
  | some (phases, id, ended) => ({ s with phases }, id, ended)
  | none =>
    let (book, id) := s.phases.book.issue .cancelled
    ({ s with phases := { s.phases with book } }, id, [])

/-- Gives up a wait. -/
def cancelWait (s : Supervisor) (id : WaitId) : Supervisor :=
  { s with phases := s.phases.cancel id }

def cancelWaits (s : Supervisor) : Supervisor × List WaitId :=
  let (phases, ended) := s.phases.cancelAll
  ({ s with phases }, ended)

def waitStatus (s : Supervisor) (id : WaitId) : WaitStatus :=
  (s.phases.book.status? id).getD .cancelled

/-- Who reads a stream of a process. -/
def reader? (s : Supervisor) (pid : Pid) (stream : Stream) : Option StreamReader :=
  s.readers.find? fun r => r.pid = pid && r.stream = stream

/-- Puts a reader back; one that has come to the end of its stream leaves. -/
def putReader (s : Supervisor) (r : StreamReader) (ended : Bool) : Supervisor :=
  let isOther := fun q : StreamReader => q.pid ≠ r.pid || q.stream ≠ r.stream
  { s with
    readers :=
      if ended then s.readers.filter isOther
      else s.readers.map fun q => if isOther q then q else r }

end Supervisor

end VerifierHost
