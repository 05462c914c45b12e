import VerifierHost.CommandLine.Options

/-!
The commands of the command line: to verify a path, and to serve an editor.
-/

namespace VerifierHost.CommandLine

structure VerifyOptions where
  path : Text
  isCrate : Option Bool
  serverAddress : Option Text
  errorsOnly : Option Bool
  root : Text
  settingsFile : Option Text
  asJson : Bool
  deriving DecidableEq, Repr

inductive Command where
  /-- The arguments make no sense. -/
  | misused
  | help
  | verify (options : VerifyOptions)
  | serve (root : Text)
  deriving DecidableEq, Repr

def helpOption : Options := [("--help", .switch "help" true)]

def serveOptions : Options :=
  ("--root", .valued "root") :: ("--verbose", .switch "verbose" true) ::
    ("-v", .switch "verbose" true) :: helpOption

def verifyOptions : Options :=
  ("--crate", .switch "crate" true) :: ("--file", .switch "crate" false) ::
    ("--server-address", .valued "server-address") ::
    ("--errors-only", .switch "errors-only" true) ::
    ("--all-diagnostics", .switch "errors-only" false) ::
    ("--config", .valued "config") :: ("--json", .switch "json" true) :: serveOptions

/-- The directory that is searched for settings if none is given. -/
def defaultRoot : Text := "."

/-- The verify command takes exactly one path. -/
def verifyCommand (a : Arguments) : Command :=
  match a.positionals with
  | [path] => .verify
    { path
      isCrate := a.switches.get? "crate"
      serverAddress := a.values.get? "server-address"
      errorsOnly := a.switches.get? "errors-only"
      root := (a.values.get? "root").getD defaultRoot
      settingsFile := a.values.get? "config"
      asJson := a.isOn "json" }
  | _ => .misused

/-- The command that serves an editor takes no arguments but options. -/
def serveCommand (a : Arguments) : Command :=
  if a.positionals.isEmpty then .serve ((a.values.get? "root").getD defaultRoot) else .misused

/-- A command with its arguments; help is given whatever else they say. -/
def commandOf (options : Options) (command : Arguments → Command) (args : List Text) : Command :=
  match readArguments options true .empty args with
  | none => .misused
  | some a => if a.isOn "help" then .help else command a

/-- The command of some name with its arguments. -/
def namedCommand (name : Text) (args : List Text) : Command :=
  if name = "verify" then commandOf verifyOptions verifyCommand args
  else if name = "lsp" then commandOf serveOptions serveCommand args
  else .misused

/-- The command in the arguments of the program. -/
def Command.parse (args : List Text) : Command :=
  match readArguments helpOption false .empty args with
  | none => .misused
  | some a =>
    if a.isOn "help" then .help
    else
      match a.positionals with
      | [] => .misused
      | name :: rest => namedCommand name rest

end VerifierHost.CommandLine
