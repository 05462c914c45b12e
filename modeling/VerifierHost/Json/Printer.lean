import VerifierHost.Json.Value
import VerifierHost.Decimal.Shortest

/-!
Writing JSON in ASCII, on one line or indented. Code points outside printable ASCII are escaped as
the UTF-16 units they consist of, so a lone half of a surrogate pair stands for itself.
-/

namespace VerifierHost.Json

/-- Numbers are written as plain text is, infinities and NaN by name. -/
def numberFormat : Decimal.FloatFormat :=
  { Decimal.plainFormat with infinite := "Infinity", nan := "NaN" }

def hexQuad (n : Nat) : List Char :=
  Decimal.padLeft 4 (Nat.toDigits 16 n)

/-- A character inside a string. -/
def escape (c : Char) : List Char :=
  if c = '"' then ['\\', '"']
  else if c = '\\' then ['\\', '\\']
  else if ' ' ≤ c ∧ c ≤ '~' then [c]
  else if c = '\n' then ['\\', 'n']
  else if c = '\r' then ['\\', 'r']
  else if c = '\t' then ['\\', 't']
  else if c = '\x08' then ['\\', 'b']
  else if c = '\x0c' then ['\\', 'f']
  else if c.toNat < 0x10000 then '\\' :: 'u' :: hexQuad c.toNat
  else
    let n := c.toNat - 0x10000
    '\\' :: 'u' :: hexQuad (0xD800 + n / 0x400) ++ '\\' :: 'u' :: hexQuad (0xDC00 + n % 0x400)

def escapePoint : CodePoint → List Char
  | .char c => escape c
  | half@(.surrogate _) => '\\' :: 'u' :: hexQuad half.toNat

def quoted (t : Text) : String :=
  String.ofList ('"' :: (t.points.foldr (fun c rest => escapePoint c ++ rest) ['"']))

/-- How the parts of a container are laid out. -/
structure Layout where
  /-- Between a name and its value. -/
  colon : String
  /-- Between the parts of a container. -/
  comma : String
  /-- The width of one level of indentation, if the parts stand on lines of their own. -/
  indent : Option Nat

def compact : Layout := ⟨": ", ", ", none⟩

def indented (width : Nat) : Layout := ⟨": ", ",", some width⟩

def Layout.newline (l : Layout) (level : Nat) : String :=
  match l.indent with
  | none => ""
  | some w => "\n" ++ String.ofList (List.replicate (w * level) ' ')

/-- The parts of a container between its brackets. -/
def Layout.enclose (l : Layout) (level : Nat) (opening closing : String) (parts : List String) :
    String :=
  if parts.isEmpty then opening ++ closing
  else
    opening ++ l.newline (level + 1) ++ (l.comma ++ l.newline (level + 1)).intercalate parts ++
      l.newline level ++ closing

mutual

def render (l : Layout) (level : Nat) : Json → String
  | .null => "null"
  | .bool b => if b then "true" else "false"
  | .int n => toString n
  | .float x => numberFormat.text x
  | .string s => quoted s
  | .array items => l.enclose level "[" "]" (renderItems l (level + 1) items)
  | .object fields => l.enclose level "\x7b" "\x7d" (renderFields l (level + 1) fields)

def renderItems (l : Layout) (level : Nat) : List Json → List String
  | [] => []
  | v :: rest => render l level v :: renderItems l level rest

def renderFields (l : Layout) (level : Nat) : List (Text × Json) → List String
  | [] => []
  | (name, v) :: rest =>
    (quoted name ++ l.colon ++ render l level v) :: renderFields l level rest

end

/-- The text of a value on one line. -/
def text (v : Json) : String := render compact 0 v

end VerifierHost.Json
