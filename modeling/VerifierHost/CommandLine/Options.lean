import VerifierHost.Table
import VerifierHost.Text.Basic
import VerifierHost.Text.Split

/-!
Options on a command line. Long options may carry their value behind an equals sign; short ones may
be joined, and a value may follow the last of them directly. A double dash ends the options. Of an
option given twice the last one counts.
-/

namespace VerifierHost.CommandLine

inductive OptionKind where
  /-- Sets a flag. -/
  | switch (field : String) (on : Bool)
  /-- Takes a value. -/
  | valued (field : String)
  deriving DecidableEq, Repr

/-- The options of a command by their names, dashes included. -/
abbrev Options := Table Text OptionKind

structure Arguments where
  switches : Table String Bool
  values : Table String Text
  positionals : List Text
  deriving DecidableEq, Repr

namespace Arguments

def empty : Arguments := ⟨[], [], []⟩

def switchTo (a : Arguments) (field : String) (on : Bool) : Arguments :=
  { a with switches := a.switches.put field on }

def setValue (a : Arguments) (field : String) (value : Text) : Arguments :=
  { a with values := a.values.put field value }

def addPositionals (a : Arguments) (more : List Text) : Arguments :=
  { a with positionals := a.positionals ++ more }

def isOn (a : Arguments) (field : String) : Bool := (a.switches.get? field).getD false

end Arguments

/-- What an option on its own leads to. -/
inductive Step where
  | taken (a : Arguments)
  /-- The next argument is the value of a field. -/
  | wantsValue (a : Arguments) (field : String)
  | refused

def dash : CodePoint := .char '-'

/-- Short options joined behind one dash. -/
def shortOptions (options : Options) : Arguments → List CodePoint → Step
  | a, [] => .taken a
  | a, c :: rest =>
    match options.get? ⟨[dash, c]⟩ with
    | none => .refused
    | some (.switch field on) => shortOptions options (a.switchTo field on) rest
    | some (.valued field) =>
      if rest.isEmpty then .wantsValue a field else .taken (a.setValue field ⟨rest⟩)

/-- The name of an option and the value behind an equals sign. -/
def nameAndValue (arg : Text) : Text × Option Text :=
  match Text.cutAt? (.char '=') arg.points with
  | none => (arg, none)
  | some (name, value) => (⟨name⟩, some ⟨value⟩)

def startsWithTwoDashes (arg : Text) : Bool := [dash, dash].isPrefixOf arg.points

/-- Whether a name is that of a long option: two dashes, or one and a word. -/
def isLong (name : Text) : Bool := startsWithTwoDashes name || 2 < name.points.length

/-- Reads an argument that starts with a dash. -/
def optionStep (options : Options) (a : Arguments) (arg : Text) : Step :=
  let (name, value) := nameAndValue arg
  match (if isLong name then options.get? name else none), value with
  | some (.switch field on), none => .taken (a.switchTo field on)
  | some (.switch ..), some _ => .refused
  | some (.valued field), none => .wantsValue a field
  | some (.valued field), some v => .taken (a.setValue field v)
  | none, _ =>
    if startsWithTwoDashes arg then .refused else shortOptions options a (arg.points.drop 1)

/-- Whether an argument is an option; a single dash is none. -/
def isOption (arg : Text) : Bool := arg.points.head? = some dash && arg ≠ "-"

/--
Reads arguments. Unless options may stand behind other arguments, the first one that is no option
ends them.
-/
def readArguments (options : Options) (interspersed : Bool) :
    Arguments → List Text → Option Arguments
  | a, [] => some a
  | a, arg :: rest =>
    if arg = "--" then some (a.addPositionals rest)
    else if isOption arg then
      match optionStep options a arg with
      | .taken a => readArguments options interspersed a rest
      | .wantsValue a field =>
        match rest with
        | [] => none
        | value :: rest => readArguments options interspersed (a.setValue field value) rest
      | .refused => none
    else if interspersed then
      readArguments options interspersed (a.addPositionals [arg]) rest
    else some (a.addPositionals (arg :: rest))

end VerifierHost.CommandLine
