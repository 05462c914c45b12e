import VerifierHost.CommandLine.Command
import VerifierHost.CommandLine.Output
import VerifierHost.Config.Load
import VerifierHost.Files.Crate
import VerifierHost.Host.Editor
import VerifierHost.Host.Recorder
import VerifierHost.Session.Control

/-!
A run of the program: its files, its environment and what the processes it starts will do are given,
and what it prints and its exit code come out.
-/

namespace VerifierHost.CommandLine

/-- What a run of the program finds. -/
structure Surroundings where
  files : FileTree
  directory : FilePath
  environment : Environment
  plans : List Plan

/-- Why a run came to an early end. -/
inductive Abort where
  | settings (e : SettingsError)
  | request (why : Failure)
  | badUri (e : Uri.AuthorityError)
  | badPath (fault : FilePath.Fault)
  /-- A text to be printed cannot be encoded. -/
  | unprintable
  /-- The server neither became ready nor died. -/
  | timedOut

def Abort.text : Abort → Text
  | .settings e => e.text
  | .request why => why.text
  | .badUri e => e.text
  | .badPath fault => fault.text
  | .unprintable => "the output cannot be encoded"
  | .timedOut => "the server did not become ready"

/-- What a run of the program leaves behind. -/
structure Report where
  exitCode : Nat
  printed : List String
  abort : Option Abort
  events : List Event
  offer : Option Offer
  files : FileTree

/-- The exit code when a run of the program was aborted. -/
def abortCode : Nat := 1

def misuseCode : Nat := 2

/-- The exit code that tells how a verification ended. -/
def exitCodeOf : RunStatus → Nat
  | .verified => 0
  | .errors => 1
  | .crash => 2

def Report.quiet (w : Surroundings) (exitCode : Nat) : Report :=
  ⟨exitCode, [], none, [], none, w.files⟩

def Report.aborted (w : Surroundings) (why : Abort) : Report :=
  { Report.quiet w abortCode with abort := some why }

/-- The name of the server that all verifications share. -/
def sharedServerName : Text := "Prusti Server"

/-- Submits a request and lets the session go on with it. -/
def ask (s : Session) (request : Request) : Session × Option Answer :=
  let (s, id) := s.addTask request
  let s := s.settle
  (s, (s.task? id).bind Task.answer?)

/-- The address of the server to use: the one given, or that of the shared server. -/
def findServer (s : Session) (given : Option Text) : Session × Except Abort Text :=
  match given with
  | some a => (s, .ok a)
  | none =>
    match ask s .ensureReady with
    | (s, some (.address a)) => (s, .ok a)
    | (s, some (.failed why)) => (s, .error (.request why))
    | (s, _) => (s, .error .timedOut)

/-- Verifies a path, absolute by now, with a server that is started if none is given. -/
def verifyWith (s : Session) (path : Text) (target : VerificationTarget)
    (serverAddress : Option Text) : Session × Except Abort (Option RunOutcome) :=
  match findServer s serverAddress with
  | (s, .error why) => (s, .error why)
  | (s, .ok address) =>
    match ask s (.run path target address) with
    | (s, some (.outcome outcome)) => (s, .ok outcome)
    | (s, some (.failed why)) => (s, .error (.request why))
    | (s, _) => (s, .ok none)

/-- What a host has recorded of a session. -/
def recordingOf (events : List Event) : Recorder :=
  events.foldl (fun r e =>
    match e with
    | .shown effect => r.note effect
    | _ => r) .start

def summaryOf (outcome : RunOutcome) (r : Recorder) : Except Uri.AuthorityError Summary :=
  (diagnosticLines r.shown).map fun lines =>
    { status := outcome.status.name
      text := outcome.text.text
      counts := outcome.counts.map fun (severity, n) => (severity.label, (n : Int))
      diagnostics := lines
      errors := r.errors }

/-- Prints a summary; the exit code tells how the verification ended, unless printing fails. -/
def reportSummary (w : Surroundings) (status : RunStatus) (summary : Summary) (asJson : Bool) :
    Report :=
  match writtenAll (summary.texts asJson) with
  | (printed, true) => { Report.quiet w (exitCodeOf status) with printed }
  | (printed, false) => { Report.aborted w .unprintable with printed }

/-- Reports what came of a verification. -/
def reportOutcome (w : Surroundings) (events : List Event) (asJson : Bool) :
    Except Abort (Option RunOutcome) → Report
  | .error why => .aborted w why
  | .ok none => .quiet w misuseCode
  | .ok (some outcome) =>
    match summaryOf outcome (recordingOf events) with
    | .error e => .aborted w (.badUri e)
    | .ok summary => reportSummary w outcome.status summary asJson

/-- Verifies a path that is there as a target of some kind. -/
def verifyTarget (w : Surroundings) (o : VerifyOptions) (settings : Settings)
    (target : VerificationTarget) : Report :=
  let toolchain := Toolchain.locate w.files w.directory w.environment settings.verifierHome
  let s := Session.start w.files w.plans (.idle w.directory settings false) true sharedServerName
    toolchain w.environment
  let path := FilePath.resolve w.directory (.ofText o.path)
  let (s, outcome) := verifyWith s path.toText target o.serverAddress
  let s := s.dispose.1.settle
  { reportOutcome w s.events o.asJson outcome with events := s.events, files := s.files }

/-- Verifies a path that is there. -/
def verifyPath (w : Surroundings) (o : VerifyOptions) : Report :=
  match Settings.load w.files w.directory (some o.root) o.settingsFile w.environment with
  | .error e => .aborted w (.settings e)
  | .ok settings =>
    match VerificationTarget.detect w.files w.directory (.ofText o.path) o.isCrate with
    | .error fault => .aborted w (.badPath fault)
    | .ok target =>
      verifyTarget w o { settings with errorsOnly := o.errorsOnly.getD settings.errorsOnly } target

/-- Whether a path could be that of a file; it may be too long for one. -/
def isPath (path : Text) : Bool :=
  match (FilePath.ofText path).fault? with
  | none | some .tooLong => true
  | some .unencodable | some .holdsNul => false

def verify (w : Surroundings) (o : VerifyOptions) : Report :=
  if (w.files.entry? w.directory (.ofText o.path)).isSome && isPath o.root &&
      o.settingsFile.all isPath then
    verifyPath w o
  else .quiet w misuseCode

/-- Offers the services for an editor. -/
def serve (w : Surroundings) (root : Text) : Report :=
  if isPath root then
    match Settings.load w.files w.directory (some root) none w.environment with
    | .error e => .aborted w (.settings e)
    | .ok _ => { Report.quiet w 0 with offer := some editorOffer }
  else .quiet w misuseCode

def Command.run (w : Surroundings) : Command → Report
  | .misused => .quiet w misuseCode
  | .help => .quiet w 0
  | .verify o => CommandLine.verify w o
  | .serve root => CommandLine.serve w root

def run (w : Surroundings) (args : List Text) : Report := (Command.parse args).run w

/-- The paths that a command looks at. -/
def Command.places (environment : Environment) : Command → List FilePath
  | .misused | .help => []
  | .serve root => [settingsPath (some root) none]
  | .verify o =>
    let path := FilePath.ofText o.path
    [path, path.child manifestName, settingsPath (some o.root) o.settingsFile] ++
      ([cargoProgram, rustcProgram, serverProgram].flatMap (programPlaces environment)).map .ofText

end VerifierHost.CommandLine
