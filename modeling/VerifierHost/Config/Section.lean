import VerifierHost.Config.Settings
import VerifierHost.Config.Value
import VerifierHost.Text.Blank

/-!
Settings from a section of a configuration. Values are taken as they come: where one is of a kind
that makes no sense the setting keeps its default. Two variables of the environment take precedence.
-/

namespace VerifierHost

open Config (Value)

/-- The words that stand for yes. -/
def yesWords : List Text := ["1", "true", "yes", "on"]

def isYes (text : Text) : Bool := yesWords.contains (Text.trim text).toLower

/-- Whether a value stands for yes. -/
def flagOf : Value → Bool
  | .bool b => b
  | .int n => n ≠ 0
  | .string s => isYes s
  | _ => false

/-- Arguments: the words of a string, or the texts of the items of a list. -/
def argsOf : Value → List Text
  | .string s => Text.words s
  | .list items => items.filterMap fun
    | .null => none
    | v => some v.text
  | _ => []

/-- The text of a variable; truth values are written in lower case. -/
def variableText? : Value → Option Text
  | .null => none
  | .bool b => some (if b then "true" else "false")
  | v => some v.text

def variablesOf : Value → Environment
  | .table rows => rows.filterMap fun (name, v) => (variableText? v).map (name, ·)
  | _ => []

/-- A text with something in it. -/
def nonBlank? (text : Text) : Option Text :=
  let trimmed := Text.trim text
  if trimmed.isEmpty then none else some trimmed

def textOf? : Value → Option Text
  | .string s => nonBlank? s
  | _ => none

def errorsOnlyVariable : Text := "PRUSTI_BRIDGE_REPORT_ERRORS_ONLY"

def verifierHomeVariable : Text := "PRUSTI_BRIDGE_PRUSTI_HOME"

def cargoArgsField : Text := "extra_cargo_prusti_args"

def rustcArgsField : Text := "extra_prusti_rustc_args"

def environmentField : Text := "extra_prusti_env"

/-- A variable of the environment, unless it is blank. -/
def textInEnvironment? (environment : Environment) (name : Text) : Option Text :=
  (Table.get? environment name).bind nonBlank?

/-- Whether all texts that the settings in a section consist of can be written. -/
def isWritable (rows : List (Text × Value)) : Bool :=
  let value := fun name => (Table.get? rows name).getD .null
  let isGoodList := fun
    | .list items => !Value.itemsHaveLongNumber items
    | _ => true
  let isGoodTable := fun
    | .table rows => !Value.rowsHaveLongNumber rows
    | _ => true
  isGoodList (value cargoArgsField) && isGoodList (value rustcArgsField) &&
    isGoodTable (value environmentField)

/-- The settings in a section. -/
def Settings.ofSection (rows : List (Text × Value)) (environment : Environment) : Settings :=
  let value := fun name => (Table.get? rows name).getD .null
  { errorsOnly := ((textInEnvironment? environment errorsOnlyVariable).map isYes).getD
      (flagOf (value "report_errors_only"))
    cargoArgs := argsOf (value cargoArgsField)
    rustcArgs := argsOf (value rustcArgsField)
    extraEnvironment := variablesOf (value environmentField)
    javaHome := textOf? (value "java_home")
    verifierHome := (textInEnvironment? environment verifierHomeVariable).or
      (textOf? (value "prusti_home")) }

/-- The rows of the section about verification; anything that is no table counts as empty. -/
def verificationSection (rows : List (Text × Value)) : List (Text × Value) :=
  match Table.get? rows "verification" with
  | some (.table inner) => inner
  | _ => []

end VerifierHost
