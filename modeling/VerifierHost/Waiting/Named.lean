import VerifierHost.Text.Quoted
import VerifierHost.Waiting.Phases

/-!
A variable with a name whose states are texts. Only its own states can be moved to or waited for;
any other is complained about, with the name, and changes nothing.
-/

namespace VerifierHost

structure NamedPhases where
  name : Text
  phases : Phases Text

namespace NamedPhases

/-- The complaint about a state that a variable does not have. -/
def unknown (reason name state : Text) : Violation :=
  ⟨reason, [("machine", Text.quoted name), ("state", Text.quoted state)]⟩

/-- The variable at the start. -/
def start (name : Text) (states : List Text) (initial : Text) : Except Violation NamedPhases :=
  match Phases.start? states initial with
  | some phases => .ok ⟨name, phases⟩
  | none => .error (unknown "unknown initial state" name initial)

def set (m : NamedPhases) (state : Text) : Except Violation NamedPhases :=
  match m.phases.set? state with
  | some (phases, _) => .ok { m with phases }
  | none => .error (unknown "unknown state" m.name state)

def waitFor (m : NamedPhases) (state : Text) : Except Violation (NamedPhases × WaitId) :=
  match m.phases.waitFor? state with
  | some (phases, id, _) => .ok ({ m with phases }, id)
  | none => .error (unknown "unknown state" m.name state)

def cancel (m : NamedPhases) (id : WaitId) : NamedPhases := { m with phases := m.phases.cancel id }

def cancelAll (m : NamedPhases) : NamedPhases := { m with phases := m.phases.cancelAll.1 }

end NamedPhases

end VerifierHost
