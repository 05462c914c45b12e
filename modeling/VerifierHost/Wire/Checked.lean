import VerifierHost.Json.Value
import VerifierHost.Json.Reader
import VerifierHost.Text.Blank
import VerifierHost.Text.Split

/-!
Reading typed data out of JSON. A reading either succeeds or lists every fault of the value, each
with the place where it occurs; faults come in the order of the declared fields and of list items,
inner ones in place of the whole. Whole numbers and truth values are also read from strings and
numbers that spell them.
-/

namespace VerifierHost.Wire

/-- One step from a value into a part of it. -/
inductive Step where
  | field (name : Text)
  | item (index : Nat)
  deriving DecidableEq, Repr

inductive FaultKind where
  | missing
  | notObject
  | notList
  | notDictionary
  | notString
  /-- A text with a lone half of a surrogate pair, which spells nothing. -/
  | notUnicode
  | notBool
  | unknownBoolWord
  | notInt
  | unreadableInt
  | oversizedInt
  | fractionalInt
  | notFinite
  | tooDeep
  deriving DecidableEq, Repr

structure Fault where
  place : List Step
  kind : FaultKind
  deriving DecidableEq, Repr

def Step.toJson : Step → Json
  | .field name => .string name
  | .item index => .int index

/-- The kind of a fault, as editors know it. -/
def FaultKind.name : FaultKind → String
  | .missing => "missing"
  | .notObject => "model_type"
  | .notList => "list_type"
  | .notDictionary => "dict_type"
  | .notString => "string_type"
  | .notUnicode => "string_unicode"
  | .notBool => "bool_type"
  | .unknownBoolWord => "bool_parsing"
  | .notInt => "int_type"
  | .unreadableInt => "int_parsing"
  | .oversizedInt => "int_parsing_size"
  | .fractionalInt => "int_from_float"
  | .notFinite => "finite_number"
  | .tooDeep => "recursion_loop"

def Fault.toJson (f : Fault) : Json :=
  .object [("loc", .array (f.place.map Step.toJson)), ("type", .string f.kind.name)]

inductive Checked (α : Type) where
  | valid (value : α)
  | invalid (faults : List Fault)

namespace Checked

protected def map {α β : Type} (f : α → β) : Checked α → Checked β
  | .valid a => .valid (f a)
  | .invalid faults => .invalid faults

/-- The faults of both parts, those of the first part before those of the second. -/
protected def seq {α β : Type} : Checked (α → β) → Checked α → Checked β
  | .valid f, .valid a => .valid (f a)
  | .valid _, .invalid faults => .invalid faults
  | .invalid faults, .valid _ => .invalid faults
  | .invalid faults, .invalid more => .invalid (faults ++ more)

instance : Applicative Checked where
  pure := .valid
  seq f a := Checked.seq f (a ())

/-- A reading of a part, its faults placed in the whole. -/
def under {α : Type} (step : Step) : Checked α → Checked α
  | .valid a => .valid a
  | .invalid faults => .invalid (faults.map fun f => { f with place := step :: f.place })

def fault {α : Type} (kind : FaultKind) : Checked α := .invalid [⟨[], kind⟩]

def toOption {α : Type} : Checked α → Option α
  | .valid a => some a
  | .invalid _ => none

end Checked

open Checked

/-- How a value of a type is read. -/
abbrev Reader (α : Type) := Json → Checked α

def any : Reader Json := .valid

def string : Reader Text
  | .string s => .valid s
  | _ => fault .notString

/-- The first whole number beyond a signed word of 64 bits. -/
def wordBound : Nat := Nat.pow 2 63

/-- Whether a number fits in a signed word. -/
def fitsInWord (n : Int) : Bool := -(wordBound : Int) ≤ n && n < wordBound

/-- The whole number that a double stands for, if it has the size of a word. -/
def intOfFloat (x : Float) : Except FaultKind Int :=
  match Decimal.Binary.ofFloat x with
  | .finite negative mantissa exponent =>
    let (num, den) := Decimal.scaled mantissa 1 2 (-exponent)
    if num % den ≠ 0 then .error .fractionalInt
    else if wordBound ≤ num / den then .error .oversizedInt
    else .ok (if negative then -(num / den : Int) else (num / den : Int))
  | _ => .error .notFinite

/-- The characters of a text that is to spell something. -/
def spelling (s : Text) : Except FaultKind (List Char) :=
  match s.chars? with
  | some cs => .ok cs
  | none => .error .notUnicode

/-- A whole number in plain form: a minus sign or none, and digits that do not start with a zero. -/
def plainInt (cs : List Char) : Except FaultKind Int :=
  let (negative, cs) := match cs with
    | '-' :: rest => (true, rest)
    | _ => (false, cs)
  let (digits, rest) := Json.wholeDigits cs
  if digits.isEmpty then .error .unreadableInt
  else if Decimal.maxDigits < digits.length then .error .oversizedInt
  else if !rest.isEmpty then .error .unreadableInt
  else
    let n : Int := Json.natOfDigits digits
    .ok (if negative then -n else n)

/--
What follows the zeros and underscores at the start of a number, of which the last one is given: it
goes on with another digit or a minus sign. Where nothing or a point follows, the last one stays.
-/
def afterZeros? (last : Char) : List Char → Option (List Char)
  | [] => some [last]
  | c :: rest =>
    if c = '0' || c = '_' then afterZeros? c rest
    else if c.isDigit || c = '-' then some (c :: rest)
    else if c = '.' then some (last :: c :: rest)
    else none

/-- A number that starts with a digit, without the zeros in front. -/
def withoutZeros? : List Char → Option (List Char)
  | [] => none
  | c :: rest =>
    if c = '0' then afterZeros? c rest else if c.isDigit then some (c :: rest) else none

/-- A number without a point that only zeros follow. -/
def withoutPlaces (cs : List Char) : List Char :=
  match cs.span (· ≠ '.') with
  | (whole, _ :: zeros) => if !zeros.isEmpty && zeros.all (· = '0') then whole else cs
  | (_, []) => cs

/-- A number without its underscores, unless one stands at an end or next to another. -/
def withoutUnderscores (cs : List Char) : List Char :=
  if (Text.splitOn '_' cs).any List.isEmpty then cs else cs.filter (· ≠ '_')

/-- The digits of a number in plain form. -/
def plainDigits? (cs : List Char) : Option (List Char) :=
  (withoutZeros? cs).map fun rest => withoutUnderscores (withoutPlaces rest)

/-- A number in plain form: without blanks, a plus sign, and what its digits can do without. -/
def plainForm? (cs : List Char) : Option (List Char) :=
  match Text.trimWith Text.isWhiteSpace cs with
  | '+' :: rest => plainDigits? rest
  | '-' :: rest => (plainDigits? rest).map ('-' :: ·)
  | rest => plainDigits? rest

/-- The whole number that characters spell, in plain form or one that can be brought into it. -/
def intOfChars (cs : List Char) : Except FaultKind Int :=
  match plainInt cs with
  | .error .unreadableInt =>
    match (plainForm? cs).map plainInt with
    | some (.ok n) => .ok n
    | _ => .error .unreadableInt
  | r => r

/-- The whole number that a text spells. -/
def intOfText (s : Text) : Except FaultKind Int := (spelling s).bind intOfChars

def ofExcept {α : Type} : Except FaultKind α → Checked α
  | .ok a => .valid a
  | .error kind => fault kind

def int : Reader Int
  | .int n => .valid n
  | .bool b => .valid (if b then 1 else 0)
  | .float x => ofExcept (intOfFloat x)
  | .string s => ofExcept (intOfText s)
  | _ => fault .notInt

def boolOfInt (n : Int) : Checked Bool :=
  if n = 0 then .valid false
  else if n = 1 then .valid true
  else if fitsInWord n then fault .unknownBoolWord
  else fault .notBool

/-- The truth value that a text spells. -/
def boolOfText (s : Text) : Except FaultKind Bool :=
  (spelling s).bind fun cs =>
    let word := String.ofList (cs.map Char.toLower)
    if ["0", "off", "f", "false", "n", "no"].contains word then .ok false
    else if ["1", "on", "t", "true", "y", "yes"].contains word then .ok true
    else .error .unknownBoolWord

def bool : Reader Bool
  | .bool b => .valid b
  | .int n => boolOfInt n
  | .float x =>
    match intOfFloat x with
    | .ok n => boolOfInt n
    | .error _ => fault .notBool
  | .string s => ofExcept (boolOfText s)
  | _ => fault .notBool

def nullable {α : Type} (read : Reader α) : Reader (Option α)
  | .null => .valid none
  | v => (read v).map some

/-- Reads the items of a list from the one at an index on. -/
def itemsFrom {α : Type} (read : Reader α) : Nat → List Json → Checked (List α)
  | _, [] => .valid []
  | i, v :: rest =>
    Checked.seq (((read v).under (.item i)).map List.cons) (itemsFrom read (i + 1) rest)

def list {α : Type} (read : Reader α) : Reader (List α)
  | .array items => itemsFrom read 0 items
  | _ => fault .notList

/-- Reads the entries of a dictionary; a fault is placed by a name that can be encoded. -/
def entries {α : Type} (read : Reader α) : List (Text × Json) → Checked (List (Text × α))
  | [] => .valid []
  | (name, v) :: rest =>
    Checked.seq (((read v).under (.field name.encodable)).map fun a more => (name, a) :: more)
      (entries read rest)

def dictionary {α : Type} (read : Reader α) : Reader (List (Text × α))
  | .object fields => entries read fields
  | _ => fault .notDictionary

/-- Reads a record from the fields of an object; fields it does not know are passed over. -/
def record {α : Type} (read : List (Text × Json) → Checked α) : Reader α
  | .object fields => read fields
  | _ => fault .notObject

def required {α : Type} (fields : List (Text × Json)) (name : Text) (read : Reader α) :
    Checked α :=
  match Table.get? fields name with
  | some v => (read v).under (.field name)
  | none => Checked.under (.field name) (fault .missing)

def withDefault {α : Type} (fields : List (Text × Json)) (name : Text) (default : α)
    (read : Reader α) : Checked α :=
  match Table.get? fields name with
  | some v => (read v).under (.field name)
  | none => .valid default

end VerifierHost.Wire
