import VerifierHost.Session.Basic

/-!
What a session does about each notice. A run kills the verifiers before it and starts its own; a
server that is not ready is started once for all who ask for it; a request for what is known about a
file waits for news while a run is in progress.
-/

namespace VerifierHost.Session

/-- Answers a request whose run has ended. -/
def answerRun (s : Session) (id : TaskId) : Ending → Session
  | .stuck file => s.endTask id (.failed (.noUri file))
  | .superseded =>
    match s.task? id with
    | some ⟨.verify .., _⟩ => s.refreshHints.endTask id (.verified .superseded)
    | _ => s.endTask id (.outcome none)
  | .ended outcome =>
    match s.task? id with
    | some ⟨.verify .., _⟩ => s.refreshHints.endTask id (.verified (.ofOutcome outcome))
    | _ => s.endTask id (.outcome (some outcome))

/-- Shows what a run came to, wakes those who waited for it, and answers the request for it. -/
def conclude (s : Session) (id : TaskId) (c : Conclusion) : Session :=
  ((s.showAll c.effects).noticeNews c.released).answerRun id c.ending

/-- Starts the verifier of a run. -/
def startVerifier (s : Session) (id : TaskId) (invocation : Invocation)
    (target : VerificationTarget) (name : Text) : Session :=
  let start := s.world.clock
  match s.spawn invocation.call with
  | (s, .ok pid) =>
    let engine := s.engine.launched invocation target name pid start
    ({ s with engine }.setStanding id (.awaitingOutput pid 0)).enqueue
      [.wake (.output pid .stdout), .wake (.output pid .stderr)]
  | (s, .error _) =>
    let (engine, conclusion) := s.engine.conclude s.engine.runCount target name .crash none
    { s with engine }.conclude id conclusion

/-- Deletes what the compiler remembers of a crate, so that warnings about it are reported again. -/
def forgetCrate (s : Session) (path : Text) : Except FilePath.Fault Session :=
  (s.files.removeMetadata s.engine.directory path).map fun files =>
    { s with files }.record [.metadataDeleted path]

/-- Begins a run, after the processes of the runs before were killed. -/
def launch (s : Session) (id : TaskId) (path : Text) (target : VerificationTarget)
    (address : Text) : Session :=
  let s := s.killRuns
  let name := shownName path
  let (engine, effects) := s.engine.startRun target name
  let s := { s with engine }.showAll effects
  let invocation := Invocation.build s.toolchain s.settings s.inherited address path target
  match target with
  | .file => s.startVerifier id invocation target name
  | .crate =>
    match s.forgetCrate path with
    | .ok s => s.startVerifier id invocation target name
    | .error fault => s.endTask id (.failed (.badPath fault))

/-- Ends the run of a verifier that has exited. -/
def finishRun (s : Session) (id : TaskId) (r : ActiveRun) (code : ExitCode) : Session :=
  let (engine, conclusion) := s.engine.finish r code s.world.clock
  { s with engine }.conclude id conclusion

/-- The failure of a request because of the server. -/
def serverFailure (s : Session) (e : ServerError) : Failure :=
  .server s.server.supervisor.name e

/-- Takes over what a change to the supervisor left. -/
def setSupervisor (s : Session) (supervisor : Supervisor) (ended : List WaitId) : Session :=
  { s with server := { s.server with supervisor } }.noticePhases ended

/-- Stops the supervised process: its readers are let go before it is killed. -/
def stopSupervised (s : Session) : Session × Except ServerError Unit :=
  let s := match s.server.supervisor.doomed with
    | some pid => { s with world := s.world.abandon pid }.kill pid
    | none => s
  match s.server.supervisor.stop with
  | .ok (supervisor, ended) => (s.setSupervisor supervisor ended, .ok ())
  | .error e => (s, .error e)

/-- Starts a process to supervise; the one before it is stopped. -/
def superviseCall (s : Session) (call : Call) (stdout stderr : LineUse) :
    Session × Except Failure Unit :=
  let (s, stopped) := if s.server.supervisor.state.isLive then s.stopSupervised else (s, .ok ())
  match stopped with
  | .error e => (s, .error (s.serverFailure e))
  | .ok () =>
    match s.spawn call with
    | (s, .error fault) => (s, .error (.spawn call.command fault))
    | (s, .ok pid) =>
      match s.server.supervisor.adopt pid stdout stderr with
      | .error e => (s, .error (s.serverFailure e))
      | .ok (supervisor, ended) =>
        ((s.setSupervisor supervisor ended).enqueue
          [.wake (.output pid .stdout), .wake (.output pid .stderr), .wake (.exit pid)], .ok ())

/-- The call that starts the shared server, which chooses itself where to listen. -/
def serverCall (s : Session) : Call where
  command := s.toolchain.server
  args := ["--port", "0"]
  directory := none
  environment := some (s.settings.environment s.inherited none)

def startServer (s : Session) : Session × Except Failure Unit :=
  { s with server := { s.server with announced := none } }.superviseCall s.serverCall
    .announced .dropped

/-- A server that is ready should have told its address. -/
def readyAddress (s : Session) : Answer :=
  match requirePresent s.server.address "ready server without address" [] with
  | .ok a => .address a
  | .error v => .failed (.violation v)

/-- Waits until the server is ready or has died, unless it is known already. -/
def awaitPhase (s : Session) (id : TaskId) : Session :=
  match s.server.supervisor.state with
  | .crashed => s.endTask id (.failed (s.serverFailure .diedBeforeReady))
  | .ready => s.endTask id s.readyAddress
  | .running | .stopped =>
    let (supervisor, ready, replaced) := s.server.supervisor.waitFor .ready
    let (supervisor, crashed, more) := supervisor.waitFor .crashed
    (s.setSupervisor supervisor (replaced ++ more)).setStanding id (.awaitingPhase ready crashed)

/-- Goes on after one of the phases has come; what was not needed is given up. -/
def concludePhase (s : Session) (id : TaskId) (ready crashed : WaitId) : Session :=
  let status := s.server.supervisor.waitStatus ready
  let s := s.setSupervisor ((s.server.supervisor.cancelWait ready).cancelWait crashed) []
  match status with
  | .released => s.endTask id s.readyAddress
  | .pending | .cancelled => s.endTask id (.failed (s.serverFailure .diedBeforeReady))

/-- Goes on with what the startup of the server came to. -/
def useServer (s : Session) (id : TaskId) (answer : Answer) : Session :=
  match s.task? id, answer with
  | some ⟨.verify path target _, _⟩, .address a => s.launch id path target a
  | some ⟨.verify .., _⟩, .failed why =>
    match why.serverReason? with
    | some reason => s.endTask id (.verified (.unavailable reason))
    | none => s.endTask id (.failed why)
  | _, _ => s.endTask id answer

/-- The startup under way, or a new one. -/
def joinStartup (s : Session) : Session × TaskId :=
  match s.startup with
  | some id =>
    if (s.task? id).any Task.hasEnded then
      let (s, id) := s.addTask .startup
      ({ s with startup := some id }, id)
    else (s, id)
  | none =>
    let (s, id) := s.addTask .startup
    ({ s with startup := some id }, id)

/-- Uses the shared server if it is ready; otherwise waits for its startup. -/
def requireServer (s : Session) (id : TaskId) : Session :=
  match s.server.address with
  | some a => s.useServer id (.address a)
  | none =>
    let (s, startup) := s.joinStartup
    s.setStanding id (.awaitingStartup startup)

/-- Whether what is known about a file may change at any moment. -/
def expectsNews (s : Session) : Bool := s.attached && 0 < s.engine.inProgress

def awaitNews (s : Session) (id : TaskId) (file : Text) : Session :=
  let (updates, wait) := s.engine.updates.waitFor file
  { s with engine := { s.engine with updates } }.setStanding id (.awaitingNews wait)

/-- Answers a request for what is known now. -/
def answerNews (s : Session) (id : TaskId) : Session :=
  match s.task? id with
  | some ⟨.hover file position, _⟩ => s.endTask id (.ofRemark (s.remark file position))
  | some ⟨.hints file, _⟩ =>
    match s.hints file with
    | (s, some annotations) => s.endTask id (.hints annotations)
    | (s, none) => s.endTask id (.failed .unwritable)
  | _ => s.endTask id .done

def concludeNews (s : Session) (id : TaskId) (wait : WaitId) : Session :=
  match s.engine.updates.book.status? wait with
  | some .released => s.answerNews id
  | _ => s.endTask id (.failed .cancelled)

/-- What is said to an editor that comes before the session is attached. -/
def detachedViolation : Violation :=
  ⟨"verification requested before the session was attached", []⟩

/-- Ends a task that had nothing to wait for. -/
def endStart (id : TaskId) : Session × Except Failure Unit → Session
  | (s, .ok ()) => s.endTask id .done
  | (s, .error why) => s.endTask id (.failed why)

def lineUseOf (isOfInterest : Bool) : LineUse := if isOfInterest then .reported else .dropped

/-- The first step of a task. -/
def begin (s : Session) (id : TaskId) : Session :=
  match s.task? id with
  | some ⟨request, .queued⟩ =>
    match request with
    | .answered answer => s.endTask id answer
    | .verify path target address =>
      if s.attached then
        match address with
        | some a => if a.isEmpty then s.requireServer id else s.launch id path target a
        | none => s.requireServer id
      else s.endTask id (.failed (.violation detachedViolation))
    | .run path target address => s.launch id path target address
    | .hover file _ => if s.expectsNews then s.awaitNews id file else s.answerNews id
    | .hints file => if s.expectsNews then s.awaitNews id file else s.answerNews id
    | .ensureReady => s.requireServer id
    | .waitUntilReady => s.awaitPhase id
    | .startServer => endStart id s.startServer
    | .supervise call stdout stderr =>
      endStart id (s.superviseCall call (lineUseOf stdout) (lineUseOf stderr))
    | .startup =>
      match s.startServer with
      | (s, .ok ()) => s.awaitPhase id
      | (s, .error why) => s.endTask id (.failed why)
    | .news file => s.awaitNews id file
  | _ => s

/-- A task that waited goes on. -/
def resume (s : Session) (id : TaskId) : Session :=
  match (s.task? id).map Task.standing with
  | some (.awaitingNews wait) => s.concludeNews id wait
  | some (.phaseCame ready crashed) => s.concludePhase id ready crashed
  | some (.startupCame answer) => s.useServer id answer
  | _ => s

def phaseEnded (s : Session) (id : TaskId) : Session :=
  match (s.task? id).map Task.standing with
  | some (.awaitingPhase ready crashed) =>
    (s.setStanding id (.phaseCame ready crashed)).enqueue [.resume id]
  | _ => s

def startupEnded (s : Session) (id : TaskId) : Session :=
  match (s.task? id).map Task.standing with
  | some (.awaitingStartup startup) =>
    match (s.task? startup).bind Task.answer? with
    | some answer => (s.setStanding id (.startupCame answer)).enqueue [.resume id]
    | none => s
  | _ => s

/-- The reader of a verifier's stream goes on. -/
def readVerifier (s : Session) (r : ActiveRun) (stream : Stream) : Session :=
  if (r.tap stream).ended then s
  else
    let (world, chunks, closed) := s.world.collect r.pid stream
    let (engine, effects) := s.engine.takeOutput r stream chunks closed
    let s := { s with world, engine }.showAll effects
    if (engine.run? r.pid).any fun r => (r.tap stream).ended then
      s.enqueue [.streamEnded r.pid]
    else s

/-- The reader of the server's stream goes on. -/
def readServer (s : Session) (r : StreamReader) : Session :=
  let (world, chunks, closed) := s.world.collect r.pid r.stream
  let (r', lines, ended) := r.read chunks closed
  let (server, waits) := s.server.takeLines r.lineUse lines
  let server := { server with supervisor := server.supervisor.putReader r' ended }
  let s := { s with world, server }.noticePhases waits
  match r.lineUse with
  | .reported => s.record (lines.map (.line r.stream))
  | .dropped | .announced => s

def read (s : Session) (pid : Pid) (stream : Stream) : Session :=
  match s.engine.run? pid, s.server.supervisor.reader? pid stream with
  | some r, _ => s.readVerifier r stream
  | none, some r => s.readServer r
  | none, none => s

/-- Counts the streams of a verifier that have ended; there are two. -/
def streamEnded (s : Session) (pid : Pid) : Session :=
  match s.taskOfRun? pid with
  | none => s
  | some id =>
    match (s.task? id).map Task.standing with
    | some (.awaitingOutput _ 0) => s.setStanding id (.awaitingOutput pid 1)
    | some (.awaitingOutput _ n) =>
      (s.setStanding id (.awaitingOutput pid (n + 1))).enqueue [.outputEnded pid]
    | _ => s

/-- The waiter for the exit of a process goes on. -/
def awaitExit (s : Session) (pid : Pid) : Session :=
  match s.world.awaitExit pid, s.engine.run? pid, s.taskOfRun? pid with
  | (_, some code), some r, some id => s.finishRun id r code
  | (world, none), some _, some id => { s with world }.setStanding id (.awaitingExit pid)
  | (_, some _), _, _ =>
    match s.server.supervisor.processEnded pid with
    | .ok (supervisor, ended) => s.setSupervisor supervisor ended
    | .error _ => s
  | (world, none), _, _ => { s with world }

/-- What is done about a notice. -/
def react (s : Session) : Notice → Session
  | .begin id => s.begin id
  | .wake (.output pid stream) => s.read pid stream
  | .wake (.exit pid) => s.awaitExit pid
  | .streamEnded pid => s.streamEnded pid
  | .outputEnded pid => s.awaitExit pid
  | .phaseEnded id => s.phaseEnded id
  | .startupEnded id => s.startupEnded id
  | .resume id => s.resume id

/-- Takes the first notice from the queue. -/
def step (s : Session) : Session :=
  match s.queue with
  | [] => s
  | notice :: rest => { s with queue := rest }.react notice

/-- Takes a number of steps, or fewer if the queue runs empty. -/
def run : Nat → Session → Session
  | 0, s => s
  | n + 1, s => if s.queue.isEmpty then s else run n s.step

/--
More steps than a session can take without news from outside: a task takes a handful of steps of its
own, and it starts at most two processes, whose readers and waiters wake a few times.
-/
def patience (s : Session) : Nat :=
  64 * (s.queue.length + s.tasks.length + s.world.plans.length + s.world.processes.length + 1)

/-- Lets a session go on until nothing can move any more. -/
def settle (s : Session) : Session := s.run s.patience

end VerifierHost.Session
