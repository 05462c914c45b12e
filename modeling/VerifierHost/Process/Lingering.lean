import VerifierHost.Process.World

/-!
Processes that end before their streams do. What a process has written may still be on its way when
it ends, and its children may hold its streams and go on writing. So its end can be noticed while
its readers wait for more, and they go on until the streams are closed.
-/

namespace VerifierHost

open Text (Bytes)

/-- Sets the code of a process and leaves its streams open: only its waiter wakes. -/
def Process.depart (p : Process) (code : ExitCode) : Process × List Wake :=
  ({ p with exit := some code, awaited := false }, if p.awaited then [.exit p.pid] else [])

/-- A stream is there and is not closed. -/
def Process.isOpen (p : Process) (stream : Stream) : Bool := (p.channel stream).any (!·.closed)

namespace World

/-- A running process ends after some time, and its streams stay open. -/
def depart (w : World) (pid : Pid) (code : ExitCode) (time : Millis) : World × List Wake :=
  match w.process? pid with
  | none => (w, [])
  | some p =>
    match p.exit with
    | some _ => (w, [])
    | none =>
      let (p, wakes) := p.depart code
      ({ w.put p with clock := w.clock + time }, wakes)

def isOpen (w : World) (pid : Pid) (stream : Stream) : Bool :=
  (w.process? pid).any (·.isOpen stream)

/-- A chunk comes in through a stream that is open, whether its process still runs or not. -/
def deliver (w : World) (pid : Pid) (stream : Stream) (chunk : Bytes) : World × List Wake :=
  match w.process? pid with
  | none => (w, [])
  | some p =>
    match p.channel stream with
    | none => (w, [])
    | some c =>
      if c.closed then (w, [])
      else
        (w.put (p.setChannel stream
          (some { c with chunks := c.chunks ++ [chunk], awaited := false })), p.wakeReader stream)

/-- A stream of a process that is over is closed at last. -/
def hangUp (w : World) (pid : Pid) (stream : Stream) : World × List Wake :=
  match w.process? pid with
  | none => (w, [])
  | some p =>
    match p.exit, p.channel stream with
    | some _, some c =>
      (w.put (p.setChannel stream (some { c with closed := true, awaited := false })),
        p.wakeReader stream)
    | _, _ => (w, [])

end World

end VerifierHost
