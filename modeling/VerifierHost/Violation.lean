import VerifierHost.Text.Basic

/-!
A broken rule of the program's own use: a command without its payload, or a state that does not
exist.
-/

namespace VerifierHost

/-- What was broken, with the values involved in their printed form. -/
structure Violation where
  reason : Text
  details : List (Text × String)
  deriving DecidableEq, Repr

def Violation.message (v : Violation) : Text :=
  if v.details.isEmpty then v.reason
  else v.reason ++ " (" ++ Text.join ", " (v.details.map fun (k, t) => k ++ "=" ++ t) ++ ")"

/-- A violation whose reason may be left open. -/
def Violation.because (reason : Text) (details : List (Text × String)) : Violation :=
  ⟨if reason.isEmpty then "never() marker reached" else reason, details⟩

/-- A value that has to be there. -/
def requirePresent {α : Type} (value : Option α) (reason : Text)
    (details : List (Text × String)) : Except Violation α :=
  match value with
  | some a => .ok a
  | none => .error ⟨if reason.isEmpty then "required value is None" else reason, details⟩

end VerifierHost
