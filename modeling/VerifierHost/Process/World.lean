import VerifierHost.Process.Fault
import VerifierHost.Process.Millis
import VerifierHost.Table
import VerifierHost.Text.Basic
import VerifierHost.Text.Utf8

/-!
The processes that were started, their output and a clock. What the operating system will do is
given in advance as a list of plans, one for each start. Whoever waits for output or for an exit is
woken by it.
-/

namespace VerifierHost

open Text (Bytes)

inductive Stream where
  | stdout
  | stderr
  deriving DecidableEq, Repr

/-- The code a process ends with, if it is known. -/
abbrev ExitCode := Option Int

/-- Variables of a process by name. -/
abbrev Environment := Table Text Text

/-- How a process is started; without an environment of its own it inherits the present one. -/
structure Call where
  command : Text
  args : List Text
  directory : Option Text
  environment : Option Environment
  deriving DecidableEq, Repr

/-- What a process does: the chunks it has written, its exit if it is over, and its reaction to a
kill. -/
structure Script where
  stdout : Option (List Bytes)
  stderr : Option (List Bytes)
  exit : Option ExitCode
  lasts : Millis
  diesWhenKilled : Bool
  deriving DecidableEq, Repr

/-- What comes of a start. -/
inductive Plan where
  | refused (fault : Fault)
  | started (script : Script)
  deriving DecidableEq, Repr

/-- A stream from a process to its reader. -/
structure Channel where
  chunks : List Bytes
  closed : Bool
  awaited : Bool
  deriving DecidableEq, Repr

abbrev Pid := Nat

structure Process where
  pid : Pid
  stdout : Option Channel
  stderr : Option Channel
  exit : Option ExitCode
  awaited : Bool
  diesWhenKilled : Bool
  deriving DecidableEq, Repr

/-- A reader or a waiter that can go on. -/
inductive Wake where
  | output (pid : Pid) (stream : Stream)
  | exit (pid : Pid)
  deriving DecidableEq, Repr

namespace Process

def channel (p : Process) : Stream → Option Channel
  | .stdout => p.stdout
  | .stderr => p.stderr

def setChannel (p : Process) (stream : Stream) (c : Option Channel) : Process :=
  match stream with
  | .stdout => { p with stdout := c }
  | .stderr => { p with stderr := c }

/-- The wake-up of a reader, if there is one. -/
def wakeReader (p : Process) (stream : Stream) : List Wake :=
  if (p.channel stream).any Channel.awaited then [.output p.pid stream] else []

/-- Closes the streams and sets the code: the readers of both streams wake before the waiter. -/
def finish (p : Process) (code : ExitCode) : Process × List Wake :=
  let close := Option.map fun c : Channel => { c with closed := true, awaited := false }
  ({ p with
      stdout := close p.stdout
      stderr := close p.stderr
      exit := some code
      awaited := false },
    p.wakeReader .stdout ++ p.wakeReader .stderr ++ if p.awaited then [.exit p.pid] else [])

end Process

structure World where
  plans : List Plan
  processes : List Process
  clock : Millis
  deriving DecidableEq, Repr

namespace World

def start (plans : List Plan) : World := ⟨plans, [], .zero⟩

def process? (w : World) (pid : Pid) : Option Process :=
  w.processes.find? fun p => p.pid = pid

def put (w : World) (p : Process) : World :=
  { w with processes := w.processes.map fun q => if q.pid = p.pid then p else q }

/-- The process of a script at its start. -/
def begin (pid : Pid) (s : Script) : Process where
  pid := pid
  stdout := s.stdout.map fun chunks => ⟨chunks, s.exit.isSome, false⟩
  stderr := s.stderr.map fun chunks => ⟨chunks, s.exit.isSome, false⟩
  exit := s.exit
  awaited := false
  diesWhenKilled := s.diesWhenKilled

/-- Starts the next process. Without a plan for it the command is not found. -/
def spawn (w : World) : World × Except Fault Pid :=
  match w.plans with
  | [] => (w, .error .noSuchFile)
  | .refused fault :: rest => ({ w with plans := rest }, .error fault)
  | .started script :: rest =>
    let pid := w.processes.length + 1
    ({ plans := rest
       processes := w.processes ++ [begin pid script]
       clock := if script.exit.isSome then w.clock + script.lasts else w.clock }, .ok pid)

/-- A running process writes a chunk. -/
def feed (w : World) (pid : Pid) (stream : Stream) (chunk : Bytes) : World × List Wake :=
  match w.process? pid with
  | none => (w, [])
  | some p =>
    match p.exit, p.channel stream with
    | none, some c =>
      let fed : Channel := { c with chunks := c.chunks ++ [chunk], awaited := false }
      (w.put (p.setChannel stream (some fed)), p.wakeReader stream)
    | _, _ => (w, [])

/-- A running process ends after some time. -/
def exit (w : World) (pid : Pid) (code : ExitCode) (time : Millis) : World × List Wake :=
  match w.process? pid with
  | none => (w, [])
  | some p =>
    match p.exit with
    | some _ => (w, [])
    | none =>
      let (p, wakes) := p.finish code
      ({ w.put p with clock := w.clock + time }, wakes)

/-- The code of a process that is killed. -/
def killedCode : ExitCode := some (-9)

/-- A process is told to die; it need not do so. -/
def kill (w : World) (pid : Pid) : World × List Wake :=
  if (w.process? pid).any Process.diesWhenKilled then w.exit pid killedCode .zero else (w, [])

/--
Takes what a stream holds, and tells whether it is closed. Its reader waits for more unless there is
an end to it; a stream that a process does not have is at its end from the start.
-/
def collect (w : World) (pid : Pid) (stream : Stream) : World × List Bytes × Bool :=
  match w.process? pid with
  | none => (w, [], true)
  | some p =>
    match p.channel stream with
    | none => (w, [], true)
    | some c =>
      let awaited := !c.closed && !c.chunks.any List.isEmpty
      (w.put (p.setChannel stream (some { c with chunks := [], awaited })), c.chunks, c.closed)

/-- The code of a process that has ended; otherwise its exit is waited for from now on. -/
def awaitExit (w : World) (pid : Pid) : World × Option ExitCode :=
  match w.process? pid with
  | none => (w, none)
  | some p =>
    match p.exit with
    | some code => (w, some code)
    | none => (w.put { p with awaited := true }, none)

/-- Nobody reads the streams of a process any more. -/
def abandon (w : World) (pid : Pid) : World :=
  match w.process? pid with
  | none => w
  | some p =>
    let leave := Option.map fun c : Channel => { c with awaited := false }
    w.put { p with stdout := leave p.stdout, stderr := leave p.stderr, awaited := false }

end World

/-- What a reader got: texts, the state of its decoder, and whether the stream has ended. -/
structure Reading where
  texts : List (List Char)
  decoder : Text.Utf8
  left : List Bytes
  ended : Bool
  deriving DecidableEq, Repr

/--
Reads the chunks of a stream. An empty chunk ends it, and so does the last chunk of a closed one; an
unfinished character is replaced then. Empty texts are not handed on.
-/
def readChunks (d : Text.Utf8) (closed : Bool) : List Bytes → Reading
  | [] => if closed then ⟨[d.finish].filter (!·.isEmpty), .start, [], true⟩ else ⟨[], d, [], false⟩
  | chunk :: rest =>
    if chunk.isEmpty then ⟨[d.finish].filter (!·.isEmpty), .start, rest, true⟩
    else
      let (text, d') := d.feed chunk
      let r := readChunks d' closed rest
      { r with texts := if text.isEmpty then r.texts else text :: r.texts }

end VerifierHost
