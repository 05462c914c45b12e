import VerifierHost.Text.Basic
import VerifierHost.Text.Printable
import VerifierHost.Decimal.Shortest

/-!
Quoted text: a text between single quotes, or between double quotes if it holds a single quote and
no double one. The backslash, the enclosing quote and what cannot be printed are escaped, so the
result is a string even where the text itself is none.
-/

namespace VerifierHost.Text

/-- A code point in a fixed number of hexadecimal digits. -/
def hexDigits (width n : Nat) : List Char := Decimal.padLeft width (Nat.toDigits 16 n)

/-- The quote that encloses a text. -/
def enclosingQuote (cs : List CodePoint) : Char :=
  if cs.contains (.char '\'') && !cs.contains (.char '"') then '"' else '\''

def quoteChar (quote c : Char) : List Char :=
  if c = quote ∨ c = '\\' then ['\\', c]
  else if c = '\t' then ['\\', 't']
  else if c = '\n' then ['\\', 'n']
  else if c = '\r' then ['\\', 'r']
  else if isPrintable c then [c]
  else if c.toNat < 0x100 then '\\' :: 'x' :: hexDigits 2 c.toNat
  else if c.toNat < 0x10000 then '\\' :: 'u' :: hexDigits 4 c.toNat
  else '\\' :: 'U' :: hexDigits 8 c.toNat

def quotePoint (quote : Char) : CodePoint → List Char
  | .char c => quoteChar quote c
  | half@(.surrogate _) => '\\' :: 'u' :: hexDigits 4 half.toNat

def quoted (t : Text) : String :=
  let quote := enclosingQuote t.points
  String.ofList (quote :: (t.points.foldr (fun c rest => quotePoint quote c ++ rest) [quote]))

end VerifierHost.Text
