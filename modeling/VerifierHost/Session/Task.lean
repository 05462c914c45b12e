import VerifierHost.Annotation.Index
import VerifierHost.Location.Uri
import VerifierHost.Run.Status
import VerifierHost.Server.Supervisor
import VerifierHost.Text.Quoted
import VerifierHost.Violation
import VerifierHost.Waiting.Book
import VerifierHost.Wire.Commands

/-!
What is asked of a session and what it answers. A request becomes a task, which goes on until it has
to wait for something and ends with one answer.
-/

namespace VerifierHost

abbrev TaskId := Nat

/-- Why a request came to nothing. -/
inductive Failure where
  | violation (v : Violation)
  | server (name : Text) (e : ServerError)
  /-- A command could not be started. -/
  | spawn (command : Text) (fault : Fault)
  | badUri (e : Uri.AuthorityError)
  | badPosition (e : CoordinateError)
  | unknownTarget (target : Text)
  | badPath (fault : FilePath.Fault)
  /-- A file cannot be shown, since it has no URI. -/
  | noUri (file : Text)
  /-- A number in the answer is too long to be written. -/
  | unwritable
  | cancelled

/-- The answer to a request to verify. -/
inductive VerifyReply where
  | invalid (faults : List Wire.Fault)
  | unknownTarget (target : Text)
  /-- No server could be reached, for the reason given. -/
  | unavailable (reason : Text)
  | superseded
  | finished (response : Wire.VerifyResponse)

inductive Answer where
  | done
  | address (text : Text)
  | hover (text : Option Text)
  | hints (annotations : List Annotation)
  | outcome (outcome : Option RunOutcome)
  | verified (reply : VerifyReply)
  | failed (why : Failure)

inductive Request where
  /-- A request that is answered without further ado. -/
  | answered (answer : Answer)
  /-- To verify a path, with the server at an address or else the shared one. -/
  | verify (path : Text) (target : VerificationTarget) (address : Option Text)
  /-- To verify a path with a server that is known to run. -/
  | run (path : Text) (target : VerificationTarget) (address : Text)
  | hover (file : Text) (position : Position)
  | hints (file : Text)
  /-- To hand out the address of the shared server, which is started if need be. -/
  | ensureReady
  | waitUntilReady
  | startServer
  /-- To supervise any process; the flags tell which of its streams are of interest. -/
  | supervise (call : Call) (stdout stderr : Bool)
  /-- To start the shared server for all who ask for its address meanwhile. -/
  | startup
  /-- To be told of the next news about a file. -/
  | news (file : Text)

/-- How far a task has come. -/
inductive Standing where
  | queued
  | awaitingNews (wait : WaitId)
  | awaitingPhase (ready crashed : WaitId)
  /-- One of the two phases has come; the task is about to look which. -/
  | phaseCame (ready crashed : WaitId)
  | awaitingStartup (startup : TaskId)
  /-- The startup has ended with an answer; the task is about to go on with it. -/
  | startupCame (answer : Answer)
  /-- The streams of a verifier are read; so many of them have ended. -/
  | awaitingOutput (pid : Pid) (ended : Nat)
  | awaitingExit (pid : Pid)
  | ended (answer : Answer)

structure Task where
  request : Request
  standing : Standing

namespace Task

def answer? (t : Task) : Option Answer :=
  match t.standing with
  | .ended a => some a
  | _ => none

def hasEnded (t : Task) : Bool := t.answer?.isSome

end Task

namespace VerifyReply

/-- The complaint about a target that is none. -/
def unknownTargetText (target : Text) : Text :=
  Text.quoted target ++ " is not a valid VerificationTarget"

def status : VerifyReply → Text
  | .invalid _ | .unknownTarget _ => "invalid"
  | .unavailable _ => "crash"
  | .superseded => "superseded"
  | .finished r => r.status

/-- The reply as an editor gets it. -/
def toJson : VerifyReply → Json
  | .finished r => r.toJson
  | .superseded => .object [("status", .string superseded.status)]
  | r@(.invalid faults) =>
    .object [("status", .string r.status), ("errors", .array (faults.map Wire.Fault.toJson))]
  | r@(.unknownTarget target) =>
    .object [("status", .string r.status), ("errors", Json.strings [unknownTargetText target])]
  | r@(.unavailable reason) =>
    .object [("status", .string r.status), ("errors", Json.strings [reason])]

/-- The reply to a run that came to an end. -/
def ofOutcome (o : RunOutcome) : VerifyReply :=
  .finished
    { status := o.status.name
      text := o.text.text
      counts := o.counts.map fun (severity, n) => (severity.label, n) }

end VerifyReply

/-- What is said about a request that came to nothing. -/
def Failure.text : Failure → Text
  | .violation v => v.message
  | .server name e => serverComplaint name e.text
  | .spawn command fault => command ++ ": " ++ fault.text
  | .badUri e => e.text
  | .badPosition e => e.message?.getD "position out of range"
  | .unknownTarget target => VerifyReply.unknownTargetText target
  | .badPath fault => fault.text
  | .noUri file => "no URI for " ++ Text.quoted file
  | .unwritable => "a number is too long"
  | .cancelled => "cancelled"

/-- What was printed about a failure to reach a server; other failures are not the server's. -/
def Failure.serverReason? : Failure → Option Text
  | .server name e => some (serverComplaint name e.text)
  | .spawn command fault => if fault.isSystem then some command else none
  | _ => none

/-- The answer that a remark gives. -/
def Answer.ofRemark : Remark → Answer
  | .silent => .hover none
  | .text t => .hover (some t)
  | .unwritable => .failed .unwritable

end VerifierHost
