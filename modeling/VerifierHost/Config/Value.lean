import VerifierHost.Config.Moment
import VerifierHost.Json.Reader
import VerifierHost.Text.Quoted

/-!
The values of a configuration and their texts. A string stands for itself; inside lists and tables
it is quoted.
-/

namespace VerifierHost.Config

inductive Value where
  | null
  | bool (b : Bool)
  | int (n : Int)
  | float (x : Float)
  | string (s : Text)
  | moment (m : Moment)
  | list (items : List Value)
  | table (rows : List (Text × Value))
  deriving Inhabited

namespace Value

mutual

/-- A configuration can also be given as JSON. -/
def ofJson : Json → Value
  | .null => .null
  | .bool b => .bool b
  | .int n => .int n
  | .float x => .float x
  | .string s => .string s
  | .array items => .list (ofItems items)
  | .object fields => .table (ofFields fields)

def ofItems : List Json → List Value
  | [] => []
  | v :: rest => ofJson v :: ofItems rest

def ofFields : List (Text × Json) → List (Text × Value)
  | [] => []
  | (name, v) :: rest => (name, ofJson v) :: ofFields rest

end

mutual

/-- The text of a value inside another. -/
def detail : Value → String
  | .null => "None"
  | .bool b => if b then "True" else "False"
  | .int n => toString n
  | .float x => Decimal.plainFormat.text x
  | .string s => Text.quoted s
  | .moment m => m.detail
  | .list items => "[" ++ ", ".intercalate (detailItems items) ++ "]"
  | .table rows => "\x7b" ++ ", ".intercalate (detailRows rows) ++ "\x7d"

def detailItems : List Value → List String
  | [] => []
  | v :: rest => detail v :: detailItems rest

def detailRows : List (Text × Value) → List String
  | [] => []
  | (key, v) :: rest => (Text.quoted key ++ ": " ++ detail v) :: detailRows rest

end

mutual

/-- Whether a value holds a whole number that is too long to be written. -/
def hasLongNumber : Value → Bool
  | .int n => Decimal.isTooLong n
  | .list items => itemsHaveLongNumber items
  | .table rows => rowsHaveLongNumber rows
  | _ => false

def itemsHaveLongNumber : List Value → Bool
  | [] => false
  | v :: rest => hasLongNumber v || itemsHaveLongNumber rest

def rowsHaveLongNumber : List (Text × Value) → Bool
  | [] => false
  | (_, v) :: rest => hasLongNumber v || rowsHaveLongNumber rest

end

/-- The text of a value on its own. -/
def text : Value → Text
  | .string s => s
  | .moment m => m.text
  | v => v.detail

end Value

end VerifierHost.Config
