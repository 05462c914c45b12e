import VerifierHost.Json.Value
import VerifierHost.Decimal.Shortest

/-!
Values with their fractional numbers spelled out, so that a reader of any kind gets every digit.
-/

namespace VerifierHost.Json

mutual

/-- A value in which an object with a text stands for every fractional number. -/
def spelled : Json → Json
  | .float x => .object [("float", .string (Decimal.plainFormat.text x))]
  | .array items => .array (spelledItems items)
  | .object fields => .object (spelledFields fields)
  | v => v

def spelledItems : List Json → List Json
  | [] => []
  | v :: rest => spelled v :: spelledItems rest

def spelledFields : List (Text × Json) → List (Text × Json)
  | [] => []
  | (name, v) :: rest => (name, spelled v) :: spelledFields rest

end

end VerifierHost.Json
