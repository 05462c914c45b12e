import VerifierHost.Config.Section
import VerifierHost.Files.Tree
import VerifierHost.Toml.Document

/-!
Settings from a file. A file that is missing or breaks the rules of its format counts as empty, so
the defaults apply.
-/

namespace VerifierHost

/-- Why the settings in a file cannot be used at all. -/
inductive SettingsError where
  | notUtf8
  | numberTooLong
  | tooDeep
  | badPath (fault : FilePath.Fault)
  deriving DecidableEq, Repr

def SettingsError.text : SettingsError → String
  | .notUtf8 => "settings are not UTF-8"
  | .numberTooLong => "a number in the settings is too long"
  | .tooDeep => "the settings nest too deep"
  | .badPath fault => fault.text

def settingsFileName : Text := "prusti-bridge.toml"

/-- A text whose lines all end with a newline alone. -/
def uniformBreaks : List Char → List Char
  | [] => []
  | '\r' :: '\n' :: rest => '\n' :: uniformBreaks rest
  | '\r' :: rest => '\n' :: uniformBreaks rest
  | c :: rest => c :: uniformBreaks rest

/-- The settings in the content of a file. -/
def Settings.ofContent (content : Option Text.Bytes) (environment : Environment) :
    Except SettingsError Settings :=
  match content with
  | none => .ok (.ofSection [] environment)
  | some bytes =>
    match Text.Bytes.text? bytes with
    | none => .error .notUtf8
    | some text =>
      match Toml.read (uniformBreaks text.toList) with
      | .ok rows =>
        let inner := verificationSection rows
        if isWritable inner then .ok (.ofSection inner environment)
        else .error .numberTooLong
      | .error .malformed => .ok (.ofSection [] environment)
      | .error .numberTooLong => .error .numberTooLong
      | .error .tooDeep => .error .tooDeep

/-- Where the settings are: in a file of its own, or in that of the usual name in a directory. -/
def settingsPath (root file : Option Text) : FilePath :=
  match file with
  | some f => .ofText f
  | none => (FilePath.ofText (root.getD "")).child settingsFileName

def Settings.load (t : FileTree) (directory : FilePath) (root file : Option Text)
    (environment : Environment) : Except SettingsError Settings :=
  match t.content directory (settingsPath root file) with
  | .error fault => .error (.badPath fault)
  | .ok content => Settings.ofContent content environment

/-- Where a program is searched for if its directory is not known. -/
def programPlaces (environment : Environment) (name : Text) : List Text :=
  match Table.get? environment "PATH" with
  | none => []
  | some path =>
    if path.isEmpty then []
    else (Text.splitOn (.char ':') path.points).map fun d => FilePath.joinText ⟨d⟩ name

/-- Where a program is: in the given directory, or else in the first one that has it. -/
def locateProgram (t : FileTree) (directory : FilePath) (environment : Environment)
    (home : Option Text) (name : Text) : Text :=
  match home with
  | some h => ((FilePath.ofText h).child name).toText
  | none =>
    ((programPlaces environment name).find? fun p =>
      t.isExecutable directory (.ofText p)).getD name

def cargoProgram : Text := "cargo-prusti"

def rustcProgram : Text := "prusti-rustc"

def serverProgram : Text := "prusti-server"

/-- The programs that the settings lead to. -/
def Toolchain.locate (t : FileTree) (directory : FilePath) (environment : Environment)
    (home : Option Text) : Toolchain :=
  let locate := locateProgram t directory environment home
  ⟨locate cargoProgram, locate rustcProgram, locate serverProgram⟩

end VerifierHost
