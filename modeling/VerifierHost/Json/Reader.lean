import VerifierHost.Json.Value
import VerifierHost.Decimal.Binary
import VerifierHost.Decimal.Whole
import VerifierHost.Text.Split

/-!
Reading JSON text. Besides the grammar of the format, the names `NaN`, `Infinity` and `-Infinity`
are numbers, and of fields with one name the last value counts. A text is refused because it breaks
the grammar, because a whole number in it has too many digits or because its containers nest too
deep; whichever fault comes first in the text is reported.
-/

namespace VerifierHost.Json

inductive ReadError where
  | malformed
  | numberTooLong
  | tooDeep
  deriving DecidableEq, Repr

/-- A reader's result and the text that is left. -/
abbrev Reading (α : Type) := Except ReadError (α × List CodePoint)

def isBlank (c : Char) : Bool := c = ' ' || c = '\t' || c = '\n' || c = '\r'

def skipBlank (cs : List CodePoint) : List CodePoint := cs.dropWhile (·.isIn isBlank)

def hexDigit? (c : Char) : Option Nat :=
  if '0' ≤ c ∧ c ≤ '9' then some (c.toNat - '0'.toNat)
  else if 'a' ≤ c ∧ c ≤ 'f' then some (c.toNat - 'a'.toNat + 10)
  else if 'A' ≤ c ∧ c ≤ 'F' then some (c.toNat - 'A'.toNat + 10)
  else none

/-- The four hexadecimal digits after `\u`. -/
def hexQuad? : List CodePoint → Option (Nat × List CodePoint)
  | .char a :: .char b :: .char c :: .char d :: rest => do
    let a ← hexDigit? a
    let b ← hexDigit? b
    let c ← hexDigit? c
    let d ← hexDigit? d
    pure (((a * 16 + b) * 16 + c) * 16 + d, rest)
  | _ => none

/-- The character of a surrogate pair, given its two halves. -/
def joinHalves (high low : Nat) : CodePoint :=
  .ofNat (0x10000 + (high - 0xD800) * 0x400 + (low - 0xDC00))

/-- The code point that `\u` and its digits stand for; two halves of a surrogate pair join. -/
def unicodeEscape? (cs : List CodePoint) : Option (CodePoint × List CodePoint) := do
  let (high, rest) ← hexQuad? cs
  let alone := (CodePoint.ofNat high, rest)
  if 0xD800 ≤ high ∧ high < 0xDC00 then
    match rest with
    | .char '\\' :: .char 'u' :: more =>
      match hexQuad? more with
      | some (low, rest') =>
        pure (if 0xDC00 ≤ low ∧ low < 0xE000 then (joinHalves high low, rest') else alone)
      | none => pure alone
    | _ => pure alone
  else pure alone

def simpleEscape? : Char → Option Char
  | '"' => some '"'
  | '\\' => some '\\'
  | '/' => some '/'
  | 'b' => some '\x08'
  | 'f' => some '\x0c'
  | 'n' => some '\n'
  | 'r' => some '\r'
  | 't' => some '\t'
  | _ => none

/--
The code points of a string up to its closing quote. The first argument bounds their number, and
control characters have to be escaped.
-/
def stringRest : Nat → List CodePoint → List CodePoint → Reading Text
  | 0, _, _ => .error .malformed
  | _ + 1, _, [] => .error .malformed
  | _ + 1, read, .char '"' :: rest => .ok (⟨read.reverse⟩, rest)
  | n + 1, read, .char '\\' :: .char 'u' :: rest =>
    match unicodeEscape? rest with
    | some (c, rest') => stringRest n (c :: read) rest'
    | none => .error .malformed
  | n + 1, read, .char '\\' :: c :: rest =>
    match c.char?.bind simpleEscape? with
    | some c' => stringRest n (.char c' :: read) rest
    | none => .error .malformed
  | n + 1, read, c :: rest =>
    if c.isIn (· < ' ') then .error .malformed else stringRest n (c :: read) rest

/-- The string that starts after an opening quote. -/
def stringBody (cs : List CodePoint) : Reading Text := stringRest (cs.length + 1) [] cs

def natOfDigits (ds : List Char) : Nat :=
  ds.foldl (fun n d => n * 10 + (d.toNat - '0'.toNat)) 0

/-- The digits after a point, if there are any. -/
def fraction (cs : List Char) : List Char × List Char :=
  match cs with
  | '.' :: rest =>
    match rest.span Char.isDigit with
    | ([], _) => ([], cs)
    | (ds, rest') => (ds, rest')
  | _ => ([], cs)

/-- The exponent after an `e`, if it has digits. -/
def exponent? (cs : List Char) : Option (Int × List Char) :=
  match cs with
  | c :: rest =>
    if c = 'e' || c = 'E' then
      let (negative, rest) := match rest with
        | '-' :: r => (true, r)
        | '+' :: r => (false, r)
        | r => (false, r)
      match rest.span Char.isDigit with
      | ([], _) => none
      | (ds, rest') =>
        let n : Int := natOfDigits ds
        some (if negative then -n else n, rest')
    else none
  | [] => none

/-- The digits before the point: a zero stands alone. -/
def wholeDigits (cs : List Char) : List Char × List Char :=
  match cs with
  | '0' :: rest => (['0'], rest)
  | _ => cs.span Char.isDigit

/-- A word or a number and the characters that are left. -/
abbrev ScalarReading := Except ReadError (Json × List Char)

/-- A number without its sign. -/
def magnitude (negative : Bool) (cs : List Char) : ScalarReading :=
  match wholeDigits cs with
  | ([], _) => .error .malformed
  | (whole, rest) =>
    let (places, rest') := fraction rest
    match places, exponent? rest' with
    | [], none =>
      if Decimal.maxDigits < whole.length then .error .numberTooLong
      else
        let n : Int := natOfDigits whole
        .ok (.int (if negative then -n else n), rest')
    | _, e =>
      let (power, rest'') := e.getD (0, rest')
      .ok (.float (Decimal.ofScientific negative (natOfDigits (whole ++ places))
        (power - places.length)), rest'')

/-- A value that is neither a string nor a container, spelled in characters. -/
def scalarIn (cs : List Char) : ScalarReading :=
  let words : List (String × Json) :=
    [("null", .null), ("true", .bool true), ("false", .bool false),
      ("NaN", .float (0.0 / 0.0)), ("Infinity", .float (1.0 / 0.0)),
      ("-Infinity", .float (-1.0 / 0.0))]
  match words.findSome? fun (w, v) => (Text.after? w.toList cs).map (v, ·) with
  | some r => .ok r
  | none =>
    match cs with
    | '-' :: rest => magnitude true rest
    | _ => magnitude false cs

/-- The characters that words and numbers consist of. -/
def isScalarChar (c : Char) : Bool := c.isAlphanum || c = '-' || c = '+' || c = '.'

/-- A value that is neither a string nor a container. -/
def scalar (cs : List CodePoint) : Reading Json :=
  let (word, rest) := cs.span (·.isIn isScalarChar)
  (scalarIn (word.map CodePoint.toChar)).map fun (v, left) => (v, left.map .char ++ rest)

/-- Containers may nest this deep. -/
def maxDepth : Nat := 985

mutual

/--
A value. The first argument bounds the number of values and separators, the second how deep
containers may nest.
-/
def value : Nat → Nat → List CodePoint → Reading Json
  | 0, _, _ => .error .malformed
  | n + 1, depth, cs =>
    match cs with
    | .char '"' :: rest => (stringBody rest).map fun (s, rest') => (.string s, rest')
    | .char '[' :: rest =>
      match depth, skipBlank rest with
      | 0, _ => .error .tooDeep
      | _ + 1, .char ']' :: rest' => .ok (.array [], rest')
      | depth + 1, rest' => items n depth [] rest'
    | .char '{' :: rest =>
      match depth, skipBlank rest with
      | 0, _ => .error .tooDeep
      | _ + 1, .char '}' :: rest' => .ok (.object [], rest')
      | depth + 1, rest' => fields n depth [] rest'
    | _ => scalar cs

/-- The items of a list from the next one on. -/
def items : Nat → Nat → List Json → List CodePoint → Reading Json
  | 0, _, _, _ => .error .malformed
  | n + 1, depth, read, cs =>
    match value n depth cs with
    | .error e => .error e
    | .ok (v, rest) =>
      match skipBlank rest with
      | .char ',' :: rest' => items n depth (v :: read) (skipBlank rest')
      | .char ']' :: rest' => .ok (.array (v :: read).reverse, rest')
      | _ => .error .malformed

/-- The fields of an object from the next one on. -/
def fields : Nat → Nat → List (Text × Json) → List CodePoint → Reading Json
  | 0, _, _, _ => .error .malformed
  | n + 1, depth, read, cs =>
    match cs with
    | .char '"' :: rest =>
      match stringBody rest with
      | .error e => .error e
      | .ok (name, rest') =>
        match skipBlank rest' with
        | .char ':' :: rest'' =>
          match value n depth (skipBlank rest'') with
          | .error e => .error e
          | .ok (v, rest) =>
            match skipBlank rest with
            | .char ',' :: rest' => fields n depth (Table.put read name v) (skipBlank rest')
            | .char '}' :: rest' => .ok (.object (Table.put read name v), rest')
            | _ => .error .malformed
        | _ => .error .malformed
    | _ => .error .malformed

end

/-- Reads a whole text as one value with blanks around it. -/
def read (text : Text) : Except ReadError Json :=
  let cs := skipBlank text.points
  match value (2 * cs.length + 2) maxDepth cs with
  | .error e => .error e
  | .ok (v, rest) => if (skipBlank rest).isEmpty then .ok v else .error .malformed

end VerifierHost.Json
