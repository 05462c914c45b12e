import VerifierHost.Diagnostic.Store
import VerifierHost.Process.World
import VerifierHost.Decimal.Shortest
import VerifierHost.Run.Invocation

/-!
How a verification ended: by the exit of the verifier, the crash signatures in its error stream and
the diagnostics it left, and what the user is told about it.
-/

namespace VerifierHost

inductive RunStatus where
  | crash
  | verified
  | errors
  deriving DecidableEq, Repr

def RunStatus.name : RunStatus → String
  | .crash => "crash"
  | .verified => "verified"
  | .errors => "errors"

/-- The status that an exit code alone stands for. -/
def RunStatus.ofCode : ExitCode → RunStatus
  | some 0 => .verified
  | some 1 => .errors
  | some 101 => .errors
  | _ => .crash

/-- A line by which a thread says that it panicked. -/
def isPanicLine (line : List Char) : Bool :=
  (Text.after? "thread '".toList line).any (Text.occursIn "' panicked at".toList)

/-- Signs of a crash in an error stream. -/
def showsCrash (stderr : List Char) : Bool :=
  Text.occursIn "error: internal compiler error".toList stderr ||
    (Text.splitOn '\n' stderr).any isPanicLine

/-- The status of a verifier that ended; signs of a crash outweigh the code. -/
def RunStatus.classify (code : ExitCode) (stderr : List Char) : RunStatus :=
  if showsCrash stderr then .crash else .ofCode code

/-- A verifier that found errors has to report one; otherwise something went wrong in it. -/
def RunStatus.settle (s : RunStatus) (store : Store) : RunStatus :=
  if s = .errors && !store.hasErrors then .crash else s

/-- A line for the status bar and the command behind it. -/
structure StatusText where
  text : Text
  command : Option Text
  deriving DecidableEq, Repr

/-- Tells the user about a crash. -/
def crashMessage : String :=
  "Prusti encountered an unexpected error. " ++
    "We would appreciate a [bug report](https://github.com/viperproject/prusti-dev/issues/new). " ++
    "See the log for more details."

def showLogCommand : String := "workbench.action.output.toggleOutput"

def showProblemsCommand : String := "workbench.action.problems.focus"

def plural (n : Nat) (noun : String) : String :=
  toString n ++ " " ++ noun ++ if n = 1 then "" else "s"

def subject (target : VerificationTarget) (name : Text) : Text :=
  target.name ++ " '" ++ name ++ "'"

def StatusText.verifying (target : VerificationTarget) (name : Text) : StatusText :=
  ⟨"$(sync~spin) Verifying " ++ subject target name ++ "...", none⟩

/-- What is said about a verification that ended. -/
def StatusText.ended (crashed : Bool) (store : Store) (target : VerificationTarget) (name : Text)
    (seconds : Option Float) : StatusText :=
  let opening := "Verification of " ++ subject target name
  let elapsed := match seconds with
    | some s => Decimal.oneDecimal s ++ " s"
    | none => "unknown duration"
  if crashed then
    ⟨"$(error) " ++ opening ++ " failed with an unexpected error", some showLogCommand⟩
  else if store.hasErrors then
    ⟨"$(error) " ++ opening ++ " failed with " ++ plural (store.count .error) "error" ++ " (" ++
      elapsed ++ ")", some showProblemsCommand⟩
  else if store.hasWarnings then
    ⟨"$(warning) " ++ opening ++ " succeeded with " ++ plural (store.count .warning) "warning" ++
      " (" ++ elapsed ++ ")", some showProblemsCommand⟩
  else ⟨"$(check) " ++ opening ++ " succeeded (" ++ elapsed ++ ")", none⟩

/-- A code point in a status line, where a dollar sign would start an icon. -/
def escapeIcon (c : CodePoint) : List CodePoint :=
  if c = .char '$' then [.char '\\', c] else [c]

/-- The name of a path in a status line. -/
def shownName (path : Text) : Text := ⟨(FilePath.ofText path).name.points.flatMap escapeIcon⟩

/-- The outcome of a verification that no later one has superseded. -/
structure RunOutcome where
  run : Nat
  status : RunStatus
  text : StatusText
  seconds : Option Float
  counts : List (Severity × Nat)

end VerifierHost
