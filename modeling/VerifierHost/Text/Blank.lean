import VerifierHost.Text.Basic

/-!
Blank characters. Two sets are in use: the characters with the property White_Space, and those
together with the four information separators, which also part the words of a text.
-/

namespace VerifierHost.Text

/-- The characters with the property White_Space. -/
def isWhiteSpace (c : Char) : Bool :=
  let n := c.toNat
  (0x09 ≤ n && n ≤ 0x0D) || n == 0x20 || n == 0x85 || n == 0xA0 || n == 0x1680 ||
    (0x2000 ≤ n && n ≤ 0x200A) || n == 0x2028 || n == 0x2029 || n == 0x202F || n == 0x205F ||
    n == 0x3000

/-- The characters that part words. -/
def isBlank (c : Char) : Bool :=
  isWhiteSpace c || (0x1C ≤ c.toNat && c.toNat ≤ 0x1F)

/-- A sequence without the members of a class at its two ends. -/
def trimWith {α : Type} (isEnd : α → Bool) (cs : List α) : List α :=
  ((cs.dropWhile isEnd).reverse.dropWhile isEnd).reverse

/-- A text without the blanks at its two ends. -/
def trim (t : Text) : Text := ⟨trimWith (·.isIn isBlank) t.points⟩

/-- The runs of code points between blanks. -/
def wordsOf : List CodePoint → List CodePoint → List (List CodePoint)
  | [], current => if current.isEmpty then [] else [current.reverse]
  | c :: rest, current =>
    if c.isIn isBlank then
      if current.isEmpty then wordsOf rest [] else current.reverse :: wordsOf rest []
    else wordsOf rest (c :: current)

def words (t : Text) : List Text := (wordsOf t.points []).map Text.mk

end VerifierHost.Text
