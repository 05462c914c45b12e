import VerifierHost.Table
import VerifierHost.Text.Basic

/-!
JSON values. Whole numbers are kept apart from numbers with a fraction or an exponent, and the
fields of an object keep the order in which their names first appeared.
-/

namespace VerifierHost

inductive Json where
  | null
  | bool (b : Bool)
  | int (n : Int)
  | float (x : Float)
  | string (s : Text)
  | array (items : List Json)
  | object (fields : List (Text × Json))
  deriving Inhabited

namespace Json

/-- The value of a field of an object. -/
def get? : Json → Text → Option Json
  | .object fields, name => Table.get? fields name
  | _, _ => none

def strings (items : List Text) : Json := .array (items.map .string)

def optional {α : Type} (encode : α → Json) : Option α → Json
  | none => .null
  | some a => encode a

end Json

end VerifierHost
