import VerifierHost.Toml.Scalar
import VerifierHost.Toml.Table

/-!
Keys and values of a TOML document. Lists may spread over lines and hold comments; tables between
braces may not.
-/

namespace VerifierHost.Toml

open Config (Value)

def skipBlank (cs : List Char) : List Char := cs.dropWhile isBlank

def isBareKeyChar (c : Char) : Bool := c.isAlphanum || c = '-' || c = '_'

def bareKey (cs : List Char) : Reading Text :=
  match cs.span isBareKeyChar with
  | ([], _) => .error .malformed
  | (name, rest) => .ok (Text.ofChars name, rest)

/-- One part of a key: quoted on one line, or bare. -/
def keyPart : List Char → Reading Text
  | '"' :: rest => oneLine '"' rest
  | '\'' :: rest => oneLine '\'' rest
  | cs => bareKey cs

/-- The parts of a key and the blanks around them. The first argument bounds their number. -/
def keyParts : Nat → List Char → Reading Path
  | 0, _ => .error .malformed
  | n + 1, cs =>
    match keyPart cs with
    | .error e => .error e
    | .ok (part, rest) =>
      match skipBlank rest with
      | '.' :: more => (keyParts n (skipBlank more)).map fun (parts, rest) => (part :: parts, rest)
      | rest => .ok ([part], rest)

def key (cs : List Char) : Reading Path := keyParts (cs.length + 1) cs

/-- A key and the text after the equals sign. -/
def keyOfPair (cs : List Char) : Reading Path :=
  match key cs with
  | .error e => .error e
  | .ok (path, '=' :: rest) => .ok (path, skipBlank rest)
  | .ok _ => .error .malformed

/-- The text after a comment, which ends with the line. -/
def skipComment? : List Char → Option (List Char)
  | '#' :: rest =>
    match rest.span (· ≠ '\n') with
    | (comment, more) => if comment.all (isPlain false) then some more else none
  | cs => some cs

/-- The text after blanks, line ends and comments. The first argument bounds their number. -/
def skipGaps : Nat → List Char → Except Fault (List Char)
  | 0, _ => .error .malformed
  | n + 1, cs =>
    match skipComment? (cs.dropWhile isBlankOrBreak) with
    | none => .error .malformed
    | some rest => if rest.length = cs.length then .ok rest else skipGaps n rest

/-- The text after all that may stand between the items of a list. -/
def skipGap (cs : List Char) : Except Fault (List Char) := skipGaps (cs.length + 1) cs

/-- Adds a pair to the rows of a table between braces. -/
def addPair? (closed : List Path) (path : Path) (value : Value) (rows : Rows) : Option Rows :=
  if isClosed closed path then none
  else
    (Path.cut? path).bind fun (parent, key) => alter false (addRow key value) parent rows

/-- How deep lists and tables may nest: a list counts two and a table three. -/
def maxDepth : Nat := 980

mutual

/--
A value. The first argument bounds the number of values and separators, the second is what is left
for lists and tables to nest.
-/
def value : Nat → Nat → List Char → Reading Value
  | 0, _, _ => .error .malformed
  | n + 1, depth, cs =>
    match cs with
    | '"' :: rest => (string '"' rest).map fun (s, more) => (.string s, more)
    | '\'' :: rest => (string '\'' rest).map fun (s, more) => (.string s, more)
    | '[' :: rest =>
      if depth < 2 then .error .tooDeep
      else
        match skipGap rest with
        | .error e => .error e
        | .ok (']' :: more) => .ok (.list [], more)
        | .ok more => items n (depth - 2) [] more
    | '{' :: rest =>
      if depth < 3 then .error .tooDeep
      else
        match skipBlank rest with
        | '}' :: more => .ok (.table [], more)
        | more => pairs n (depth - 3) [] [] more
    | _ => scalar cs

/-- The items of a list from the next one on, after those read before, the latest first. -/
def items : Nat → Nat → List Value → List Char → Reading Value
  | 0, _, _, _ => .error .malformed
  | n + 1, depth, read, cs =>
    match value n depth cs with
    | .error e => .error e
    | .ok (v, rest) =>
      match skipGap rest with
      | .error e => .error e
      | .ok (']' :: more) => .ok (.list (v :: read).reverse, more)
      | .ok (',' :: more) =>
        match skipGap more with
        | .error e => .error e
        | .ok (']' :: more) => .ok (.list (v :: read).reverse, more)
        | .ok more => items n depth (v :: read) more
      | .ok _ => .error .malformed

/-- The pairs of a table between braces from the next one on. -/
def pairs : Nat → Nat → List Path → Rows → List Char → Reading Value
  | 0, _, _, _, _ => .error .malformed
  | n + 1, depth, closed, rows, cs =>
    match keyOfPair cs with
    | .error e => .error e
    | .ok (path, rest) =>
      match value n depth rest with
      | .error e => .error e
      | .ok (v, rest) =>
        match addPair? closed path v rows with
        | none => .error .malformed
        | some rows =>
          match skipBlank rest with
          | '}' :: more => .ok (.table rows, more)
          | ',' :: more =>
            let closed := if isContainer v then path :: closed else closed
            pairs n depth closed rows (skipBlank more)
          | _ => .error .malformed

end

end VerifierHost.Toml
