import VerifierHost.Files.Crate
import VerifierHost.Run.Engine
import VerifierHost.Server.Address
import VerifierHost.Session.Task

/-!
A session: the engine of runs, the shared server, the files and processes of both, and the tasks
that requests have become. All that happens goes through one queue of notices, first in first out; a
session is settled when the queue is empty.
-/

namespace VerifierHost

/-- What can be seen of a session from outside. -/
inductive Event where
  | spawned (pid : Pid) (call : Call)
  | refused (call : Call)
  | killed (pid : Pid)
  | shown (effect : Effect)
  /-- A line of a supervised process that somebody is interested in. -/
  | line (stream : Stream) (text : Text)
  /-- What the compiler remembers of the crate in a directory was deleted. -/
  | metadataDeleted (root : Text)
  deriving DecidableEq, Repr

/-- A step that a task, a reader or a waiter can take now. -/
inductive Notice where
  | begin (task : TaskId)
  | wake (wake : Wake)
  /-- A stream of a verifier has ended. -/
  | streamEnded (pid : Pid)
  /-- All streams of a verifier have ended. -/
  | outputEnded (pid : Pid)
  | phaseEnded (task : TaskId)
  | startupEnded (task : TaskId)
  | resume (task : TaskId)
  deriving DecidableEq, Repr

structure Session where
  files : FileTree
  world : World
  engine : Engine
  /-- Whether the commands of an editor reach the engine. -/
  attached : Bool
  server : SharedServer
  startup : Option TaskId
  toolchain : Toolchain
  inherited : Environment
  tasks : List Task
  queue : List Notice
  events : List Event

namespace Session

/-- What a session is made of; nothing has happened in it yet. -/
def start (files : FileTree) (plans : List Plan) (engine : Engine) (attached : Bool)
    (serverName : Text) (toolchain : Toolchain) (inherited : Environment) : Session where
  files := files
  world := .start plans
  engine := engine
  attached := attached
  server := .idle serverName
  startup := none
  toolchain := toolchain
  inherited := inherited
  tasks := []
  queue := []
  events := []

def settings (s : Session) : Settings := s.engine.settings

def enqueue (s : Session) (notices : List Notice) : Session :=
  { s with queue := s.queue ++ notices }

def record (s : Session) (events : List Event) : Session :=
  { s with events := s.events ++ events }

def showAll (s : Session) (effects : List Effect) : Session := s.record (effects.map .shown)

def task? (s : Session) (id : TaskId) : Option Task := s.tasks[id]?

def setStanding (s : Session) (id : TaskId) (standing : Standing) : Session :=
  { s with tasks := s.tasks.modify id fun t => { t with standing } }

/-- The tasks whose standing passes a test, in the order of their creation. -/
def tasksWhere (s : Session) (test : Standing → Bool) : List TaskId :=
  (List.range s.tasks.length).filter fun id => (s.tasks[id]?).any fun t => test t.standing

/-- Makes a task out of a request; it will begin in its turn. -/
def addTask (s : Session) (request : Request) : Session × TaskId :=
  let id := s.tasks.length
  ({ s with tasks := s.tasks ++ [⟨request, .queued⟩], queue := s.queue ++ [.begin id] }, id)

def awaitsStartup (startup : TaskId) : Standing → Bool
  | .awaitingStartup id => id = startup
  | _ => false

/-- Ends a task; those who wait for it will hear of that. -/
def endTask (s : Session) (id : TaskId) (answer : Answer) : Session :=
  let waiting := s.tasksWhere (awaitsStartup id)
  (s.setStanding id (.ended answer)).enqueue (waiting.map .startupEnded)

/-- Notifies the tasks that wait for news, given the waits that ended. -/
def noticeNews (s : Session) (waits : List WaitId) : Session :=
  s.enqueue <| waits.flatMap fun wait =>
    (s.tasksWhere fun
      | .awaitingNews w => w = wait
      | _ => false).map .resume

/-- Notifies the tasks that wait for the server, given the waits that ended. -/
def noticePhases (s : Session) (waits : List WaitId) : Session :=
  s.enqueue <| waits.flatMap fun wait =>
    (s.tasksWhere fun
      | .awaitingPhase ready crashed => ready = wait || crashed = wait
      | _ => false).map .phaseEnded

/-- The task that runs a verifier. -/
def taskOfRun? (s : Session) (pid : Pid) : Option TaskId :=
  (s.tasksWhere fun
    | .awaitingOutput p _ => p = pid
    | .awaitingExit p => p = pid
    | _ => false).head?

/-- Kills a process, whoever waits for it. -/
def kill (s : Session) (pid : Pid) : Session :=
  let (world, wakes) := s.world.kill pid
  ({ s with world }.record [.killed pid]).enqueue (wakes.map .wake)

/-- Starts a process; the attempt can be seen whether it succeeds or not. -/
def spawn (s : Session) (call : Call) : Session × Except Fault Pid :=
  match s.world.spawn with
  | (world, .ok pid) => ({ s with world }.record [.spawned pid call], .ok pid)
  | (world, .error fault) => ({ s with world }.record [.refused call], .error fault)

/-- Kills the verifiers of all runs, which may outlive that. -/
def killRuns (s : Session) : Session := s.engine.pids.foldl kill s

def findings (s : Session) : Findings := s.engine.board.findings

def setFindings (s : Session) (findings : Findings) : Session :=
  { s with engine := { s.engine with board := { s.engine.board with findings } } }

/-- The hints of a file, which are drawn anew if they changed; there are none if one is too long. -/
def hints (s : Session) (file : Text) : Session × Option (List Annotation) :=
  let r := s.findings.instantiations.render instantiationKind file
  (s.setFindings { s.findings with instantiations := r.index }, r.annotations)

/-- What is known about a position: triggers rather than counts. -/
def remark (s : Session) (file : Text) (p : Position) : Remark :=
  match s.findings.triggers.hoverText triggerKind file p with
  | .silent => s.findings.instantiations.hoverText instantiationKind file p
  | r => r

/-- Asks for the hints anew if there are new ones. -/
def refreshHints (s : Session) : Session :=
  let (changed, instantiations) := s.findings.instantiations.takeChanged
  let s := s.setFindings { s.findings with instantiations }
  if changed then s.showAll [.refreshHints] else s

end Session

end VerifierHost
