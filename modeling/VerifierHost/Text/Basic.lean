/-!
Texts. A text is a sequence of code points: characters, and halves of surrogate pairs that stand
alone. JSON can spell such a half, but no encoding of text can hold it, so texts are not strings;
those without lone halves are, by `chars?`.
-/

namespace VerifierHost

inductive CodePoint where
  | char (c : Char)
  /-- The half of a surrogate pair, by its distance from the first of all halves. -/
  | surrogate (offset : Fin 2048)
  deriving DecidableEq, Repr

namespace CodePoint

/-- The first half of a surrogate pair. -/
def firstSurrogate : Nat := 0xD800

def toNat : CodePoint → Nat
  | .char c => c.toNat
  | .surrogate offset => firstSurrogate + offset.val

/-- The code point of a number below the end of the code space. -/
def ofNat (n : Nat) : CodePoint :=
  if h : firstSurrogate ≤ n ∧ n < firstSurrogate + 2048 then
    .surrogate ⟨n - firstSurrogate, by omega⟩
  else .char (Char.ofNat n)

/-- Whether a code point is a character of a class. -/
def isIn (isMember : Char → Bool) : CodePoint → Bool
  | .char c => isMember c
  | .surrogate _ => false

def char? : CodePoint → Option Char
  | .char c => some c
  | .surrogate _ => none

/-- The character, or the one that stands in for what is none. -/
def toChar : CodePoint → Char
  | .char c => c
  | .surrogate _ => '\uFFFD'

end CodePoint

structure Text where
  points : List CodePoint
  deriving DecidableEq, Repr, Inhabited

namespace Text

def ofChars (cs : List Char) : Text := ⟨cs.map .char⟩

def ofString (s : String) : Text := ofChars s.toList

instance : Coe String Text := ⟨ofString⟩

instance : Append Text := ⟨fun a b => ⟨a.points ++ b.points⟩⟩

@[simp] theorem points_append (a b : Text) : (a ++ b).points = a.points ++ b.points := rfl

def isEmpty (t : Text) : Bool := t.points.isEmpty

/-- The characters of a text; a stand-in takes the place of each lone half. -/
def chars (t : Text) : List Char := t.points.map CodePoint.toChar

/-- A text that can be encoded: each of the three bytes that would spell a lone half is replaced. -/
def encodable (t : Text) : Text :=
  ⟨t.points.flatMap fun
    | .char c => [.char c]
    | .surrogate _ => List.replicate 3 (.char '\uFFFD')⟩

/-- The characters of a text without lone halves. -/
def chars? (t : Text) : Option (List Char) := t.points.mapM CodePoint.char?

/-- A text as a string, with a stand-in for each lone half. -/
def toString (t : Text) : String := String.ofList t.chars

/-- A text with its ASCII letters in lower case. -/
def toLower (t : Text) : Text :=
  ⟨t.points.map fun
    | .char c => .char c.toLower
    | half => half⟩

/-- The texts one after the other, with a separator between them. -/
def join (separator : Text) : List Text → Text
  | [] => ""
  | [t] => t
  | t :: rest => t ++ separator ++ join separator rest

/-- Whether a list of code points comes before another or equals it, as in a dictionary. -/
def isSorted : List CodePoint → List CodePoint → Bool
  | [], _ => true
  | _ :: _, [] => false
  | a :: as, b :: bs => a.toNat < b.toNat || (a.toNat == b.toNat && isSorted as bs)

/-- Whether a text comes before another or equals it. -/
def le (a b : Text) : Bool := isSorted a.points b.points

end Text

end VerifierHost
