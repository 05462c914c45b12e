import VerifierHost.Config.Value
import VerifierHost.Toml.Quoted

/-!
Values of a TOML document that are no strings and hold no others: truth values, moments and numbers.
-/

namespace VerifierHost.Toml

open Config (Value)

/-- A number of exactly so many digits between two bounds. -/
def fixed? (count low high : Nat) (cs : List Char) : Option (Nat × List Char) :=
  let digits := cs.take count
  let n := Json.natOfDigits digits
  if digits.length = count && digits.all Char.isDigit && low ≤ n && n ≤ high then
    some (n, cs.drop count)
  else none

/-- The text after a character. -/
def skip? (c : Char) : List Char → Option (List Char)
  | [] => none
  | d :: rest => if d = c then some rest else none

/-- Parts of a second after a point; only the first six digits count. -/
def micros (cs : List Char) : Nat × List Char :=
  match Json.fraction cs with
  | ([], _) => (0, cs)
  | (digits, rest) =>
    let six := digits.take 6
    (Json.natOfDigits (six ++ List.replicate (6 - six.length) '0'), rest)

def timeOfDay? (cs : List Char) : Option (TimeOfDay × List Char) := do
  let (hour, cs) ← fixed? 2 0 23 cs
  let cs ← skip? ':' cs
  let (minute, cs) ← fixed? 2 0 59 cs
  let cs ← skip? ':' cs
  let (second, cs) ← fixed? 2 0 59 cs
  let (micros, cs) := micros cs
  pure (⟨hour, minute, second, micros⟩, cs)

/-- An offset from universal time in minutes. -/
def offset? : List Char → Option (Int × List Char)
  | [] => none
  | c :: rest =>
    if c = 'Z' || c = 'z' then some (0, rest)
    else if c = '+' || c = '-' then do
      let (hours, cs) ← fixed? 2 0 23 rest
      let cs ← skip? ':' cs
      let (minutes, cs) ← fixed? 2 0 59 cs
      let total : Int := hours * 60 + minutes
      pure (if c = '-' then -total else total, cs)
    else none

def date? (cs : List Char) : Option (Date × List Char) := do
  let (year, cs) ← fixed? 4 0 9999 cs
  let cs ← skip? '-' cs
  let (month, cs) ← fixed? 2 1 12 cs
  let cs ← skip? '-' cs
  let (day, cs) ← fixed? 2 1 31 cs
  pure (⟨year, month, day⟩, cs)

/-- The time of day that follows a date, if one does. -/
def timeAfterDate? : List Char → Option (TimeOfDay × List Char)
  | [] => none
  | c :: rest => if c = 'T' || c = 't' || c = ' ' then timeOfDay? rest else none

/-- A date with the time and the offset that follow it, or a time of day. -/
def moment? (cs : List Char) : Option (Moment × List Char) :=
  match date? cs with
  | none => (timeOfDay? cs).map fun (t, rest) => (.time t, rest)
  | some (d, rest) =>
    match timeAfterDate? rest with
    | none => some (.date d, rest)
    | some (t, rest) =>
      match offset? rest with
      | none => some (.both d t none, rest)
      | some (offset, rest) => some (.both d t (some offset), rest)

/-- Whether the date in a moment is in the calendar. -/
def isInCalendar : Moment → Bool
  | .date d | .both d .. => d.isValid
  | .time _ => true

/-- Digits of a class, single underscores between them left out. -/
def digitsFrom (isDigit : Char → Bool) : List Char → List Char × List Char
  | [] => ([], [])
  | '_' :: d :: rest =>
    if isDigit d then
      let (ds, more) := digitsFrom isDigit rest
      (d :: ds, more)
    else ([], '_' :: d :: rest)
  | d :: rest =>
    if isDigit d then
      let (ds, more) := digitsFrom isDigit rest
      (d :: ds, more)
    else ([], d :: rest)

/-- Digits that start with a digit. -/
def digits (isDigit : Char → Bool) (cs : List Char) : List Char × List Char :=
  if cs.head? = some '_' then ([], cs) else digitsFrom isDigit cs

def isHexDigit (c : Char) : Bool := (Json.hexDigit? c).isSome

def isOctalDigit (c : Char) : Bool := '0' ≤ c && c ≤ '7'

def isBinaryDigit (c : Char) : Bool := c = '0' || c = '1'

/-- The base that a letter after a zero stands for, and its digits. -/
def base? : Char → Option (Nat × (Char → Bool))
  | 'x' => some (16, isHexDigit)
  | 'o' => some (8, isOctalDigit)
  | 'b' => some (2, isBinaryDigit)
  | _ => none

def valueInBase (base : Nat) (ds : List Char) : Nat :=
  ds.foldl (fun n c => n * base + (Json.hexDigit? c).getD 0) 0

/-- A whole number in a base other than ten. -/
def based? : List Char → Option (Nat × List Char)
  | '0' :: letter :: rest =>
    (base? letter).bind fun (base, isDigit) =>
      match digits isDigit rest with
      | ([], _) => none
      | (ds, more) => some (valueInBase base ds, more)
  | _ => none

/-- The digits before a point: a zero stands alone. -/
def wholeDigits : List Char → List Char × List Char
  | '0' :: rest => (['0'], rest)
  | cs => digits Char.isDigit cs

/-- The digits after a point, if there are any. -/
def places (cs : List Char) : List Char × List Char :=
  match cs with
  | '.' :: rest =>
    match digits Char.isDigit rest with
    | ([], _) => ([], cs)
    | (ds, more) => (ds, more)
  | _ => ([], cs)

def sign : List Char → Bool × List Char
  | '-' :: rest => (true, rest)
  | '+' :: rest => (false, rest)
  | cs => (false, cs)

/-- The exponent after an `e`, if it has digits. -/
def exponent? : List Char → Option (Int × List Char)
  | [] => none
  | c :: rest =>
    if c = 'e' || c = 'E' then
      let (negative, rest) := sign rest
      match digits Char.isDigit rest with
      | ([], _) => none
      | (ds, more) =>
        let n : Int := Json.natOfDigits ds
        some (if negative then -n else n, more)
    else none

/-- A number that is not written as a decimal. -/
def special? (negative : Bool) (cs : List Char) : Option (Float × List Char) :=
  match cs with
  | 'i' :: 'n' :: 'f' :: rest => some (if negative then -1.0 / 0.0 else 1.0 / 0.0, rest)
  | 'n' :: 'a' :: 'n' :: rest => some (0.0 / 0.0, rest)
  | _ => none

/-- A decimal number; without a point and an exponent it is whole, and limited in length. -/
def decimal (cs : List Char) : Reading Value :=
  let (negative, cs) := sign cs
  match wholeDigits cs with
  | ([], _) =>
    match special? negative cs with
    | some (x, rest) => .ok (.float x, rest)
    | none => .error .malformed
  | (whole, rest) =>
    let (places, rest) := places rest
    match places, exponent? rest with
    | [], none =>
      if Decimal.maxDigits < whole.length then .error .numberTooLong
      else
        let n : Int := Json.natOfDigits whole
        .ok (.int (if negative then -n else n), rest)
    | _, e =>
      let (power, rest) := e.getD (0, rest)
      .ok (.float (Decimal.ofScientific negative (Json.natOfDigits (whole ++ places))
        (power - places.length)), rest)

/-- A value that is neither a string nor a container. -/
def scalar (cs : List Char) : Reading Value :=
  match Text.after? "true".toList cs, Text.after? "false".toList cs with
  | some rest, _ => .ok (.bool true, rest)
  | none, some rest => .ok (.bool false, rest)
  | none, none =>
    match moment? cs with
    | some (m, rest) => if isInCalendar m then .ok (.moment m, rest) else .error .malformed
    | none =>
      match based? cs with
      | some (n, rest) => .ok (.int n, rest)
      | none => decimal cs

end VerifierHost.Toml
