/-!
Lines out of chunks of text. A buffer holds what follows the last newline; a chunk hands out the
lines it completes, without the carriage returns at their ends, or gives them to a handler of lines.
-/

namespace VerifierHost.Text

/-- A line without the carriage returns at its end. -/
def stripReturns (line : List Char) : List Char :=
  (line.reverse.dropWhile (· = '\r')).reverse

/-- The text after the last newline, its latest character first. -/
structure LineBuffer where
  reversed : List Char
  deriving DecidableEq, Repr

namespace LineBuffer

def empty : LineBuffer := ⟨[]⟩

/-- The text received since the last newline. -/
def pending (b : LineBuffer) : List Char := b.reversed.reverse

/-- Reads characters in front of lines that were completed before, the latest first. -/
def readOnto : List (List Char) → LineBuffer → List Char → List (List Char) × LineBuffer
  | lines, b, [] => (lines, b)
  | lines, b, c :: rest =>
    if c = '\n' then readOnto (stripReturns b.pending :: lines) empty rest
    else readOnto lines ⟨c :: b.reversed⟩ rest

/-- The lines that a chunk of text completes. -/
def feed (b : LineBuffer) (chunk : List Char) : List (List Char) × LineBuffer :=
  let (lines, b') := readOnto [] b chunk
  (lines.reverse, b')

/-- At the end of the text the pending characters are a line, unless nothing is left of them. -/
def flush (b : LineBuffer) : List (List Char) × LineBuffer :=
  let rest := stripReturns b.pending
  (if rest.isEmpty then [] else [rest], empty)

section Handler

variable {m : Type → Type} [Monad m]

/-- Hands the lines that a chunk completes to a handler, one after the other. -/
def relay (onLine : List Char → m Unit) (b : LineBuffer) (chunk : List Char) : m LineBuffer := do
  let (lines, b') := b.feed chunk
  lines.forM onLine
  return b'

/-- Hands on the line that is left at the end of the text. -/
def relayRest (onLine : List Char → m Unit) (b : LineBuffer) : m LineBuffer := do
  let (lines, b') := b.flush
  lines.forM onLine
  return b'

end Handler

end LineBuffer

/-- Whether a character ends a line by itself. -/
def isLineEnd (c : Char) : Bool :=
  let n := c.toNat
  (0x0A ≤ n && n ≤ 0x0D) || (0x1C ≤ n && n ≤ 0x1E) || n == 0x85 || n == 0x2028 || n == 0x2029

/-- A text in which every pair of a carriage return and a newline is a newline. -/
def joinBreaks : List Char → List Char
  | [] => []
  | '\r' :: '\n' :: rest => '\n' :: joinBreaks rest
  | c :: rest => c :: joinBreaks rest

/-- The lines of a text, the one before it given latest character first. -/
def linesFrom : List Char → List Char → List (List Char)
  | line, [] => if line.isEmpty then [] else [line.reverse]
  | line, '\r' :: '\n' :: rest => line.reverse :: linesFrom [] rest
  | line, c :: rest =>
    if isLineEnd c then line.reverse :: linesFrom [] rest else linesFrom (c :: line) rest

/-- The lines of a text, by all the characters that end lines. -/
def linesOf (cs : List Char) : List (List Char) := linesFrom [] (joinBreaks cs)

end VerifierHost.Text
