import VerifierHost.Source.Range
import VerifierHost.Text.Basic

/-!
Diagnostics as an editor shows them.
-/

namespace VerifierHost

inductive Severity where
  | error
  | warning
  | information
  | hint
  deriving DecidableEq, Repr

namespace Severity

def name : Severity → String
  | .error => "Error"
  | .warning => "Warning"
  | .information => "Information"
  | .hint => "Hint"

/-- The name in lower case, as summaries print it. -/
def label : Severity → String
  | .error => "error"
  | .warning => "warning"
  | .information => "information"
  | .hint => "hint"

def number : Severity → Int
  | .error => 1
  | .warning => 2
  | .information => 3
  | .hint => 4

/-- The severity of a compiler's level; a level without a rule of its own is an error. -/
def ofLevel (level : Text) : Severity :=
  if level = "error" then .error
  else if level = "warning" then .warning
  else if level = "note" ∨ level = "" then .information
  else if level = "help" then .hint
  else .error

end Severity

/-- A place that a diagnostic refers to besides its own. -/
structure Related where
  uri : Text
  range : Range
  message : Text
  deriving DecidableEq, Repr

structure Diagnostic where
  range : Range
  message : Text
  severity : Option Severity
  source : Option Text
  related : List Related
  deriving DecidableEq, Repr

/-- A diagnostic and the file it belongs to. -/
structure Located where
  file : Text
  diagnostic : Diagnostic
  deriving DecidableEq, Repr

end VerifierHost
