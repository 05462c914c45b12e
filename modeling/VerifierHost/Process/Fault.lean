/-!
Faults of the operating system, and how a tree of processes is killed in spite of them.
-/

namespace VerifierHost

/-- Why a call to the operating system did not succeed. -/
inductive Fault where
  | noSuchFile
  | notPermitted
  | noSuchProcess
  /-- Another fault that the operating system reports. -/
  | system (name : String)
  /-- The platform lacks the call. -/
  | unsupported
  /-- A fault of another kind. -/
  | foreign (name : String)
  deriving DecidableEq, Repr

def Fault.text : Fault → String
  | .noSuchFile => "no such file"
  | .notPermitted => "not permitted"
  | .noSuchProcess => "no such process"
  | .unsupported => "not supported"
  | .system name | .foreign name => name

/-- Whether the operating system reported the fault. -/
def Fault.isSystem : Fault → Bool
  | .noSuchFile | .notPermitted | .noSuchProcess | .system _ => true
  | .unsupported | .foreign _ => false

/-- The calls that end processes. -/
inductive KillCall where
  | group
  | single
  deriving DecidableEq, Repr

/--
Ends a process and its descendants, given how each call fails, if it does. When the group cannot be
killed the process itself is, and it does not matter if that one is gone already. The calls made are
returned, and the fault that nobody handles.
-/
def killTree (group single : Option Fault) : List KillCall × Option Fault :=
  match group with
  | none => ([.group], none)
  | some f =>
    if f.isSystem || f = .unsupported then
      ([.group, .single], if single = some .noSuchProcess then none else single)
    else ([.group], some f)

end VerifierHost
