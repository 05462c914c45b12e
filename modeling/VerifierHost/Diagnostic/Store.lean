import VerifierHost.Diagnostic.Basic
import VerifierHost.Table
import VerifierHost.Text.Digit
import VerifierHost.Text.Split

/-!
The diagnostics of one run, by file. Summaries that the compiler prints at its end are left out, and
if only errors are wanted, so is everything else that does not mention the verifier.
-/

namespace VerifierHost

/-- A text after the decimal digits it starts with, if there are any. -/
def afterDigits? (cs : List CodePoint) : Option (List CodePoint) :=
  match cs.span (·.isIn Text.isDigit) with
  | ([], _) => none
  | (_, rest) => some rest

/-- A text after a word it starts with. -/
def afterWord? (word : Text) (cs : List CodePoint) : Option (List CodePoint) :=
  Text.after? word.points cs

/-- The closing line of a failed compilation: a count of errors may be missing. -/
def isAbortNotice (message : Text) : Bool :=
  match afterWord? "aborting due to " message.points with
  | none => false
  | some rest =>
    let counted := (afterDigits? rest).bind (afterWord? " ")
    (counted.bind (afterWord? "previous error")).isSome ||
      (afterWord? "previous error" rest).isSome

/-- The closing line that counts warnings. -/
def isWarningCount (message : Text) : Bool :=
  ((afterDigits? message.points).bind (afterWord? " warning")).any fun rest =>
    (afterWord? "s emitted" rest).isSome || (afterWord? " emitted" rest).isSome

/-- Diagnostics that mention this come from the verifier itself. -/
def verifierMarker : Text := "Prusti"

structure Store where
  errorsOnly : Bool
  entries : Table Text (List Diagnostic)
  deriving DecidableEq, Repr

namespace Store

def empty (errorsOnly : Bool) : Store := ⟨errorsOnly, []⟩

/-- Errors, and what the verifier itself says. -/
def isImportant (d : Diagnostic) : Bool :=
  d.severity = some .error || Text.occursIn verifierMarker.points d.message.points

/-- Which diagnostics are kept. -/
def keeps (s : Store) (d : Diagnostic) : Bool :=
  (!s.errorsOnly || isImportant d) && !isAbortNotice d.message && !isWarningCount d.message

def diagnosticsOf (s : Store) (file : Text) : List Diagnostic := (s.entries.get? file).getD []

def add (s : Store) (l : Located) : Store :=
  if s.keeps l.diagnostic then
    { s with entries := s.entries.put l.file (s.diagnosticsOf l.file ++ [l.diagnostic]) }
  else s

def addAll (s : Store) (ls : List Located) : Store := ls.foldl add s

def files (s : Store) : List Text := s.entries.keys

def all (s : Store) : List Diagnostic := s.entries.flatMap Prod.snd

def count (s : Store) (severity : Severity) : Nat :=
  s.all.countP fun d => d.severity = some severity

/-- The severities that occur, by first occurrence, each with its number of diagnostics. -/
def counts (s : Store) : List (Severity × Nat) :=
  ((s.all.filterMap Diagnostic.severity).foldl (fun seen v =>
    if seen.contains v then seen else seen ++ [v]) []).map fun v => (v, s.count v)

def hasErrors (s : Store) : Bool := 0 < s.count .error

def hasWarnings (s : Store) : Bool := 0 < s.count .warning

def isEmpty (s : Store) : Bool := s.entries.isEmpty

/-- The store without its diagnostics. -/
def clear (s : Store) : Store := { s with entries := [] }

end Store

end VerifierHost
