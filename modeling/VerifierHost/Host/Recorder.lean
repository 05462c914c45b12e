import VerifierHost.Json.Printer
import VerifierHost.Run.Effect

/-!
A host that keeps what it is shown, for a summary at the end.
-/

namespace VerifierHost

/-- What is shown: diagnostics by URI, the number of times they were set, the status lines so far
and the errors. -/
structure Recorder where
  shown : Table Text (List Diagnostic)
  setCalls : Nat
  statuses : List StatusText
  errors : List Text

namespace Recorder

def start : Recorder := ⟨[], 0, [], []⟩

/-- Shows the diagnostics of a URI in place of those shown before. -/
def set (r : Recorder) (uri : Text) (ds : List Diagnostic) : Recorder :=
  { r with shown := r.shown.put uri ds, setCalls := r.setCalls + 1 }

def note (r : Recorder) : Effect → Recorder
  | .diagnostics uri ds => r.set uri ds
  | .clearDiagnostics => { r with shown := [] }
  | .status text => { r with statuses := r.statuses ++ [text] }
  | .errorNotice text => { r with errors := r.errors ++ [text] }
  | .busy _ | .decorations .. | .refreshHints => r

/-- The status line that is shown now. -/
def status? (r : Recorder) : Option StatusText := r.statuses.getLast?

end Recorder

/-- A diagnostic on a line; people count lines and columns from one. -/
def Diagnostic.line (path : Text) (d : Diagnostic) : Text :=
  path ++ ":" ++ toString (d.range.start.line.val + 1) ++ ":" ++
    toString (d.range.start.character.val + 1) ++ ": " ++ (d.severity.getD .error).label ++ ": " ++
    d.message

/-- The lines about the diagnostics of some URIs in order; the URIs have to make sense. -/
def linesInOrder : Table Text (List Diagnostic) → Except Uri.AuthorityError (List Text)
  | [] => .ok []
  | (_, []) :: rest => linesInOrder rest
  | (uri, ds) :: rest =>
    match Uri.fileName uri with
    | .error e => .error e
    | .ok path => (linesInOrder rest).map (ds.map (·.line path) ++ ·)

/-- The lines about all diagnostics, sorted by URI. -/
def diagnosticLines (shown : Table Text (List Diagnostic)) :
    Except Uri.AuthorityError (List Text) :=
  linesInOrder (shown.mergeSort fun a b => Text.le a.1 b.1)

/-- What is reported at the end of a verification. -/
structure Summary where
  status : Text
  text : Text
  counts : List (Text × Int)
  diagnostics : List Text
  errors : List Text

namespace Summary

/-- The summary as an object with sorted fields. -/
def toJson (s : Summary) : Json :=
  .object
    [("counts", .object ((s.counts.mergeSort fun a b => Text.le a.1 b.1).map fun (name, n) =>
        (name, .int n))),
      ("diagnostics", Json.strings s.diagnostics),
      ("errors", Json.strings s.errors),
      ("status", .string s.status),
      ("text", .string s.text)]

/-- The texts to print: one JSON document, or a line for each thing to say. -/
def texts (s : Summary) (asJson : Bool) : List Text :=
  if asJson then [Json.render (Json.indented 2) 0 s.toJson]
  else s.diagnostics ++ s.errors ++ [s.text]

end Summary

end VerifierHost
