import VerifierHost.Diagnostic.Basic
import VerifierHost.Wire.Compiler
import VerifierHost.Location.Uri

/-!
Compiler messages as diagnostics. A tree of messages becomes one diagnostic: its range joins the
places that the primary spans were called from, and its related places are those of the other spans
and of the direct children. A child without a place of its own takes over its parent's. A message
with a place off the map, or with a related file that has no URI, has no diagnostic.
-/

namespace VerifierHost

/-- How a verifier was started: on a crate, whose spans name files in it, or on one file. -/
inductive Mode where
  | crate
  | standalone
  deriving DecidableEq, Repr

/-- What a message is read against. -/
structure Origin where
  rootPath : Text
  mode : Mode
  defaultFile : Text
  defaultRange : Option Range
  deriving DecidableEq, Repr

/-- Where a span of a message points to. -/
def Origin.resolve (o : Origin) (file : Text) : Text :=
  match o.mode with
  | .crate => FilePath.joinText o.rootPath file
  | .standalone => file

/-- Why a message has no diagnostic. -/
inductive PlaceError where
  | offMap (e : CoordinateError)
  | noUri (file : Text)
  deriving DecidableEq, Repr

/-- The URI of a file that is to be shown. -/
def uriOf (directory : FilePath) (file : Text) : Except PlaceError Text :=
  match Uri.ofFile? directory file with
  | some uri => .ok uri
  | none => .error (.noUri file)

namespace Wire

/-- The place outside of all macros that a span was called from. -/
def Span.callSite : Span → Span
  | s@⟨_, _, _, _, _, _, _, expansion⟩ =>
    match expansion with
    | none => s
    | some e => e.callSite

def Span.range (s : Span) : Except PlaceError Range :=
  (Range.ofSpan s.lineStart s.columnStart s.lineEnd s.columnEnd).mapError .offMap

/-- The ranges of spans in order, up to the first that has none. -/
def rangesOf : List Span → Except PlaceError (List Range)
  | [] => .ok []
  | s :: rest =>
    match s.range with
    | .error e => .error e
    | .ok r => (rangesOf rest).map (r :: ·)

/-- The smallest range around all of the spans. -/
def mergedRange (spans : List Span) : Except PlaceError (Option Range) :=
  (rangesOf spans).map fun
    | [] => none
    | r :: rest => some (rest.foldl Range.union r)

def primarySpans (m : Message) : List Span := m.spans.filter Span.isPrimary

def otherSpans (m : Message) : List Span := m.spans.filter fun s => !s.isPrimary

/-- The text of a message: its code in front, the labels of its primary spans below. -/
def Message.fullText (m : Message) : Text :=
  let text := match m.code with
    | some c => "[" ++ c.code ++ "] " ++ m.message ++ "."
    | none => m.message
  (primarySpans m).foldl (fun t s =>
    match s.label with
    | some l => t ++ "\n[Note] " ++ l
    | none => t) text

/-- What is said about a span without a label. -/
def fallbackLabel : Text := "related expression"

/-- The related place of a span. -/
def Span.related (directory : FilePath) (o : Origin) (s : Span) : Except PlaceError Related :=
  let site := s.callSite
  match uriOf directory (o.resolve site.fileName) with
  | .error e => .error e
  | .ok uri =>
    site.range.map fun range =>
      { uri
        range
        message := "[Note] " ++ (match s.label with
          | some l => if l.isEmpty then fallbackLabel else l
          | none => fallbackLabel) }

def relatedSpans (directory : FilePath) (o : Origin) :
    List Span → Except PlaceError (List Related)
  | [] => .ok []
  | s :: rest =>
    match s.related directory o with
    | .error e => .error e
    | .ok r => (relatedSpans directory o rest).map (r :: ·)

/-- Who speaks in the diagnostics. -/
def diagnosticSource : Text := "prusti"

/-- The file and the range of a message: where its primary spans were called from. -/
def Message.place (m : Message) (o : Origin) : Except PlaceError (Text × Range) :=
  let sites := (primarySpans m).map Span.callSite
  (mergedRange sites).map fun merged =>
    match merged, sites with
    | some r, site :: _ => (o.resolve site.fileName, r)
    | _, _ => (o.defaultFile, o.defaultRange.getD Range.dummy)

/-- What the children of a message are read against. -/
def Origin.ofChildren (o : Origin) (file : Text) (range : Range) : Origin :=
  { o with
    defaultRange := some range
    defaultFile := match o.mode with
      | .crate => file
      | .standalone => o.defaultFile }

mutual

/-- The diagnostic of a message; the first place that cannot be shown stops it. -/
def Message.locate (directory : FilePath) (o : Origin) : Message →
    Except PlaceError Located
  | m@⟨_, _, _, _, children⟩ =>
    match m.place o with
    | .error e => .error e
    | .ok (file, range) =>
      match relatedSpans directory o (otherSpans m) with
      | .error e => .error e
      | .ok places =>
        match relatedChildren directory (Origin.ofChildren o file range) children with
        | .error e => .error e
        | .ok more =>
          .ok
            { file
              diagnostic :=
                { range
                  message := m.fullText
                  severity := some (Severity.ofLevel m.level)
                  source := some diagnosticSource
                  related := places ++ more } }

def relatedChildren (directory : FilePath) (o : Origin) :
    List Message → Except PlaceError (List Related)
  | [] => .ok []
  | child :: rest =>
    match child.locate directory o with
    | .error e => .error e
    | .ok located =>
      match uriOf directory located.file with
      | .error e => .error e
      | .ok uri =>
        let place : Related := ⟨uri, located.diagnostic.range, located.diagnostic.message⟩
        (relatedChildren directory o rest).map (place :: ·)

end

end Wire

end VerifierHost
