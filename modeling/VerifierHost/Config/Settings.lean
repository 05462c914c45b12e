import VerifierHost.Process.World

/-!
The settings of the host and the environment they give to a verifier.
-/

namespace VerifierHost

structure Settings where
  errorsOnly : Bool
  cargoArgs : List Text
  rustcArgs : List Text
  extraEnvironment : Environment
  javaHome : Option Text
  verifierHome : Option Text
  deriving DecidableEq, Repr

def Settings.default : Settings := ⟨false, [], [], [], none, none⟩

/-- The programs of a verifier. -/
structure Toolchain where
  cargo : Text
  rustc : Text
  server : Text
  deriving DecidableEq, Repr

/--
The environment of a verifier. The variables it inherits come first; what the user asked for
overrides all others.
-/
def Settings.environment (s : Settings) (inherited : Environment) (serverAddress : Option Text) :
    Environment :=
  let withAddress : Environment := match serverAddress with
    | some a => Table.put inherited "PRUSTI_SERVER_ADDRESS" a
    | none => inherited
  let quiet : Environment := Table.put withAddress "PRUSTI_QUIET" "true"
  let withJava : Environment := match s.javaHome with
    | some home => Table.put quiet "JAVA_HOME" home
    | none => quiet
  s.extraEnvironment.foldl (fun env row => Table.put env row.1 row.2) withJava

end VerifierHost
