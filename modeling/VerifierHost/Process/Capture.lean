import VerifierHost.Process.World

/-!
Running a process to its end: both of its streams are read as they come, and their texts, the exit
code and the duration are kept.
-/

namespace VerifierHost

/-- What is known of a process that has ended; the texts are kept as they came. -/
structure Captured where
  pid : Pid
  code : ExitCode
  stdout : List (List Char)
  stderr : List (List Char)
  seconds : Float

/-- The texts of a stream, read to its end. -/
def textsOf (chunks : List Text.Bytes) : List (List Char) := (readChunks .start true chunks).texts

/-- Starts a process and reads it to its end; there is no result if it does not end. -/
def World.capture (w : World) : World × Except Fault (Option Captured) :=
  let start := w.clock
  match w.spawn with
  | (w, .error fault) => (w, .error fault)
  | (w, .ok pid) =>
    let (w, stdout, _) := w.collect pid .stdout
    let (w, stderr, _) := w.collect pid .stderr
    match w.awaitExit pid with
    | (w, none) => (w, .ok none)
    | (w, some code) =>
      (w, .ok (some
        { pid, code
          stdout := textsOf stdout
          stderr := textsOf stderr
          seconds := secondsBetween start w.clock }))

end VerifierHost
