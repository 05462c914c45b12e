import VerifierHost.Json.Reader

/-!
Strings of a TOML document: basic ones with escapes and literal ones without, each on one line or
on several. No string may hold control characters other than tabs, and newlines where it spans
lines.
-/

namespace VerifierHost.Toml

inductive Fault where
  | malformed
  | numberTooLong
  | tooDeep
  deriving DecidableEq, Repr

/-- What was read and the text that is left. -/
abbrev Reading (α : Type) := Except Fault (α × List Char)

def isControl (c : Char) : Bool := c < ' ' || c = '\x7f'

/-- Characters that may stand in a string or a comment. -/
def isPlain (spansLines : Bool) (c : Char) : Bool :=
  !isControl c || c = '\t' || (spansLines && c = '\n')

def isBlank (c : Char) : Bool := c = ' ' || c = '\t'

def isBlankOrBreak (c : Char) : Bool := isBlank c || c = '\n'

def simpleEscape? : Char → Option Char
  | 'b' => some '\x08'
  | 't' => some '\t'
  | 'n' => some '\n'
  | 'f' => some '\x0c'
  | 'r' => some '\r'
  | '"' => some '"'
  | '\\' => some '\\'
  | _ => none

/-- The value of some hexadecimal digits. -/
def hexValue? (digits : List Char) : Option Nat :=
  digits.foldlM (fun n c => (Json.hexDigit? c).map (n * 16 + ·)) 0

/-- The character whose code point is written in so many digits. -/
def codePoint? (count : Nat) (cs : List Char) : Option (Char × List Char) :=
  let digits := cs.take count
  if digits.length = count then
    (hexValue? digits).bind fun n =>
      if n.isValidChar then some (Char.ofNat n, cs.drop count) else none
  else none

/-- An escaped line end swallows all blanks and line ends after it. -/
def afterEscapedBreak? (cs : List Char) : Option (List Char) :=
  match cs.dropWhile isBlank with
  | '\n' :: rest => some (rest.dropWhile isBlankOrBreak)
  | _ => none

/-- What an escape stands for, read after its backslash. -/
def escape? (spansLines : Bool) : List Char → Option (List Char × List Char)
  | [] => none
  | c :: rest =>
    if spansLines && isBlankOrBreak c then (afterEscapedBreak? (c :: rest)).map ([], ·)
    else if c = 'u' then (codePoint? 4 rest).map fun (d, more) => ([d], more)
    else if c = 'U' then (codePoint? 8 rest).map fun (d, more) => ([d], more)
    else (simpleEscape? c).map fun d => ([d], rest)

/-- A text after three quotes that it starts with. -/
def afterTriple? (quote : Char) (cs : List Char) : Option (List Char) :=
  if cs.take 3 = [quote, quote, quote] then some (cs.drop 3) else none

/--
The characters of a basic string up to its closing quotes, in front of those read before, the latest
first. The first argument bounds the number of steps.
-/
def basicRest (spansLines : Bool) : Nat → List Char → List Char → Reading (List Char)
  | 0, _, _ => .error .malformed
  | _ + 1, _, [] => .error .malformed
  | n + 1, read, c :: rest =>
    if c = '"' then
      if spansLines then
        match afterTriple? '"' (c :: rest) with
        | some more => .ok (read.reverse, more)
        | none => basicRest spansLines n (c :: read) rest
      else .ok (read.reverse, rest)
    else if c = '\\' then
      match escape? spansLines rest with
      | some (cs, more) => basicRest spansLines n (cs ++ read) more
      | none => .error .malformed
    else if isPlain spansLines c then basicRest spansLines n (c :: read) rest
    else .error .malformed

def basic (spansLines : Bool) (cs : List Char) : Reading (List Char) :=
  basicRest spansLines (cs.length + 1) [] cs

/-- The characters of a literal string on one line. -/
def literal (cs : List Char) : Reading (List Char) :=
  match cs.span (· ≠ '\'') with
  | (text, _ :: rest) => if text.all (isPlain false) then .ok (text, rest) else .error .malformed
  | (_, []) => .error .malformed

/-- The characters of a literal string that may span lines. -/
def literalLines : List Char → Reading (List Char)
  | [] => .error .malformed
  | c :: rest =>
    match afterTriple? '\'' (c :: rest) with
    | some more => .ok ([], more)
    | none =>
      if isPlain true c then (literalLines rest).map fun (cs, more) => (c :: cs, more)
      else .error .malformed

/-- Up to two more quotes right after the closing ones belong to the string. -/
def withExtraQuotes (quote : Char) (text : List Char) (cs : List Char) : Text × List Char :=
  let extra := (cs.take 2).takeWhile (· = quote)
  (Text.ofChars (text ++ extra), cs.drop extra.length)

/-- A line end right after the opening quotes is no part of the string. -/
def afterFirstBreak (cs : List Char) : List Char :=
  match cs with
  | '\n' :: rest => rest
  | _ => cs

/-- A string on one line, read after its opening quote. -/
def oneLine (quote : Char) (cs : List Char) : Reading Text :=
  (if quote = '"' then basic false cs else literal cs).map fun (text, rest) =>
    (Text.ofChars text, rest)

/-- A string of either kind, read after its first quote. -/
def string (quote : Char) (cs : List Char) : Reading Text :=
  match afterTriple? quote (quote :: cs) with
  | none => oneLine quote cs
  | some rest =>
    let body := afterFirstBreak rest
    (if quote = '"' then basic true body else literalLines body).map fun (text, more) =>
      withExtraQuotes quote text more

end VerifierHost.Toml
