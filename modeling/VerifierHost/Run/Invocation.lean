import VerifierHost.Config.Settings
import VerifierHost.Diagnostic.Located

/-!
How a verifier is called: on a crate through the build tool, which reports on its output stream, or
on a single file, where the compiler reports on its error stream.
-/

namespace VerifierHost

inductive VerificationTarget where
  | file
  | crate
  deriving DecidableEq, Repr

namespace VerificationTarget

def name : VerificationTarget → String
  | .file => "file"
  | .crate => "crate"

def ofName? (name : Text) : Option VerificationTarget :=
  if name = "file" then some .file else if name = "crate" then some .crate else none

end VerificationTarget

structure Invocation where
  command : Text
  args : List Text
  directory : Text
  environment : Environment
  jsonStream : Stream
  origin : Origin
  deriving DecidableEq, Repr

def Invocation.call (i : Invocation) : Call :=
  ⟨i.command, i.args, some i.directory, some i.environment⟩

/-- The call that verifies a path with the help of a server. -/
def Invocation.build (tools : Toolchain) (settings : Settings) (inherited : Environment)
    (serverAddress path : Text) (target : VerificationTarget) : Invocation :=
  let environment :=
    Table.put (settings.environment inherited (some serverAddress)) "PRUSTI_SHOW_IDE_INFO" "true"
  match target with
  | .crate =>
    { command := tools.cargo
      args := "--message-format=json" :: settings.cargoArgs
      directory := path
      environment
      jsonStream := .stdout
      origin := ⟨path, .crate, path, none⟩ }
  | .file =>
    let directory := (FilePath.ofText path).parent.toText
    { command := tools.rustc
      args := "--crate-type=lib" :: "--error-format=json" :: path :: settings.rustcArgs
      directory
      environment
      jsonStream := .stderr
      origin := ⟨directory, .standalone, path, none⟩ }

end VerifierHost
