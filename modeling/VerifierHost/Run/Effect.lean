import VerifierHost.Findings
import VerifierHost.Run.Status

/-!
What a host is asked to show.
-/

namespace VerifierHost

inductive Effect where
  /-- These are all diagnostics of a file now. -/
  | diagnostics (uri : Text) (shown : List Diagnostic)
  | clearDiagnostics
  | status (text : StatusText)
  | busy (isBusy : Bool)
  | errorNotice (text : Text)
  /-- These are all decorations of a file now. -/
  | decorations (file : Text) (shown : List Decoration)
  /-- The hints in the text have changed and should be asked for again. -/
  | refreshHints
  deriving DecidableEq, Repr

end VerifierHost
