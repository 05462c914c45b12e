import VerifierHost.Toml.Grammar

/-!
A TOML document read statement by statement. A header opens a table, which may not be opened twice;
a pair of a key and a value goes into the table opened last. What was written between brackets or
braces is closed for good.
-/

namespace VerifierHost.Toml

open Config (Value)

/--
A document as far as it is read. Tables in `opened` may not be opened again, those in `pending` not
after the next header, and nothing may be added at or below a path in `closed`.
-/
structure Draft where
  rows : Rows
  header : Path
  closed : List Path
  opened : List Path
  pending : List Path

namespace Draft

def empty : Draft := ⟨[], [], [], [], []⟩

/-- A header ends the statements before it. -/
def finishHeader (d : Draft) : Draft := { d with opened := d.pending ++ d.opened, pending := [] }

/-- Opens the table at a path. -/
def openTable? (d : Draft) (path : Path) : Option Draft :=
  if d.opened.contains path || isClosed d.closed path then none
  else
    (alter true some path d.rows).map fun rows =>
      { d with rows, header := path, opened := path :: d.opened }

/-- Opens a new table at the end of the list at a path; what was said below the path is void. -/
def openItem? (d : Draft) (path : Path) : Option Draft :=
  if isClosed d.closed path then none
  else
    (Path.cut? path).bind fun (parent, key) =>
      (alter true (addItem key) parent d.rows).map fun rows =>
        { d with
          rows
          header := path
          opened := path :: d.opened.filter (!path.isPrefixOf ·)
          closed := d.closed.filter (!path.isPrefixOf ·) }

/-- The paths that a key with several parts leads through. -/
def waypoints (header path : Path) : List Path :=
  (List.range (path.length - 1)).map fun i => header ++ path.take (i + 1)

/-- Adds a pair to the table opened last. -/
def addPair? (d : Draft) (path : Path) (value : Value) : Option Draft :=
  let through := waypoints d.header path
  let full := d.header ++ path
  if through.any d.opened.contains then none
  else
    (Path.cut? full).bind fun (parent, key) =>
      if isClosed d.closed parent then none
      else
        (alter true (addRow key value) parent d.rows).map fun rows =>
          { d with
            rows
            pending := through ++ d.pending
            closed := if isContainer value then full :: d.closed else d.closed }

end Draft

/-- A result, or else the fault of a document that breaks the rules. -/
def orMalformed {α : Type} : Option α → Except Fault α
  | some a => .ok a
  | none => .error .malformed

/-- A header after its opening brackets, up to its closing ones. -/
def header (begin : Path → Option Draft) (closing : List Char) (cs : List Char) :
    Reading Draft :=
  match key (skipBlank cs) with
  | .error e => .error e
  | .ok (path, rest) =>
    match begin path with
    | none => .error .malformed
    | some d' =>
      if closing.isPrefixOf rest then .ok (d', rest.drop closing.length) else .error .malformed

/-- A pair of a key and a value. -/
def pair (d : Draft) (cs : List Char) : Reading Draft :=
  match keyOfPair cs with
  | .error e => .error e
  | .ok (path, rest) =>
    match value (2 * rest.length + 2) maxDepth rest with
    | .error e => .error e
    | .ok (v, more) => (orMalformed (d.addPair? path v)).map (·, more)

/-- One statement without the blanks before it. -/
def statement (d : Draft) (cs : List Char) : Reading Draft :=
  match cs with
  | '[' :: '[' :: rest => header d.finishHeader.openItem? "]]".toList rest
  | '[' :: rest => header d.finishHeader.openTable? "]".toList rest
  | '#' :: _ => .ok (d, cs)
  | _ => pair d cs

/--
The statements of a document, each on lines of its own. The first argument bounds their number.
-/
def statements : Nat → Draft → List Char → Except Fault Draft
  | 0, _, _ => .error .malformed
  | n + 1, d, cs =>
    match skipBlank cs with
    | [] => .ok d
    | '\n' :: rest => statements n d rest
    | cs =>
      match statement d cs with
      | .error e => .error e
      | .ok (d, rest) =>
        match skipComment? (skipBlank rest) with
        | none => .error .malformed
        | some [] => .ok d
        | some ('\n' :: more) => statements n d more
        | some _ => .error .malformed

/-- The rows of a document. -/
def read (cs : List Char) : Except Fault Rows :=
  (statements (cs.length + 1) .empty cs).map Draft.rows

end VerifierHost.Toml
