import VerifierHost.Session.Reaction

/-!
What is done to a session from outside: processes write and end, tasks are given up, servers are
stopped. None of it lets the session go on by itself; that is what settling is for.
-/

namespace VerifierHost.Session

/-- A process writes. -/
def feed (s : Session) (pid : Pid) (stream : Stream) (chunk : Text.Bytes) : Session :=
  let (world, wakes) := s.world.feed pid stream chunk
  { s with world }.enqueue (wakes.map .wake)

/-- A process ends. -/
def exit (s : Session) (pid : Pid) (code : ExitCode) (time : Millis) : Session :=
  let (world, wakes) := s.world.exit pid code time
  { s with world }.enqueue (wakes.map .wake)

/-- Gives up what a task waits for. -/
def giveUp (s : Session) : Standing → Session
  | .awaitingNews wait =>
    { s with engine := { s.engine with updates := s.engine.updates.cancel wait } }
  | .awaitingPhase ready crashed | .phaseCame ready crashed =>
    s.setSupervisor ((s.server.supervisor.cancelWait ready).cancelWait crashed) []
  | .awaitingOutput pid _ | .awaitingExit pid =>
    { s with engine := s.engine.dropRun pid, world := s.world.abandon pid }
  | .queued | .awaitingStartup _ | .startupCame _ | .ended _ => s

/-- Ends a task before its time, unless it has ended. -/
def cancel (s : Session) (id : TaskId) : Session :=
  match s.task? id with
  | none => s
  | some t => if t.hasEnded then s else (s.giveUp t.standing).endTask id (.failed .cancelled)

/-- Stops the shared server; nobody waits for its startup any longer. -/
def stopServer (s : Session) : Session × Except ServerError Unit :=
  let s := { s with server := { s.server with announced := none } }
  let s := match s.startup with
    | some id => s.cancel id
    | none => s
  { s with startup := none }.stopSupervised

/-- Stops the supervised process and gives up all waits for its states. -/
def disposeSupervisor (s : Session) : Session × Except ServerError Unit :=
  match s.stopSupervised with
  | (s, .error e) => (s, .error e)
  | (s, .ok ()) =>
    let (supervisor, ended) := s.server.supervisor.cancelWaits
    (s.setSupervisor supervisor ended, .ok ())

/-- The supervised process has said that it is ready. -/
def markReady (s : Session) : Session × Except ServerError Unit :=
  match s.server.supervisor.setReady with
  | .ok (supervisor, ended) => (s.setSupervisor supervisor ended, .ok ())
  | .error e => (s, .error e)

/-- Moves the supervisor to a state, which has to agree with what it holds. -/
def forceState (s : Session) (state : ServerState) : Session × Except ServerError Unit :=
  match s.server.supervisor.mark state with
  | .ok (supervisor, ended) => (s.setSupervisor supervisor ended, .ok ())
  | .error e => (s, .error e)

/-- Starts to wait for a state of the supervisor. -/
def waitForState (s : Session) (state : ServerState) : Session × WaitId :=
  let (supervisor, id, ended) := s.server.supervisor.waitFor state
  (s.setSupervisor supervisor ended, id)

/-- Forgets all findings; those who wait for news are told that there will be none. -/
def disposeFindings (s : Session) : Session :=
  let (engine, ended) := s.engine.dispose
  { s with engine }.noticeNews ended

/-- Ends a session. -/
def dispose (s : Session) : Session × Except ServerError Unit :=
  let s := if s.attached then s.killRuns else s
  match s.stopServer with
  | (s, .error e) => (s, .error e)
  | (s, .ok ()) =>
    match s.disposeSupervisor with
    | (s, .error e) => (s, .error e)
    | (s, .ok ()) => (s.disposeFindings, .ok ())

/-- There is news about a file; the number of those who waited for it is returned. -/
def notify (s : Session) (file : Text) : Session × Nat :=
  let (updates, ended) := s.engine.updates.notify file
  ({ s with engine := { s.engine with updates } }.noticeNews ended, ended.length)

/-- There is news about all files. -/
def notifyAll (s : Session) : Session × Nat :=
  let (updates, ended) := s.engine.updates.notifyAll
  ({ s with engine := { s.engine with updates } }.noticeNews ended, ended.length)

/-- There will be no news. -/
def cancelNews (s : Session) : Session :=
  let (updates, ended) := s.engine.updates.cancelAll
  { s with engine := { s.engine with updates } }.noticeNews ended

/-- The events since they were last taken. -/
def takeEvents (s : Session) : Session × List Event := ({ s with events := [] }, s.events)

end VerifierHost.Session
