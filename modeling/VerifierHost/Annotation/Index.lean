import VerifierHost.Source.Range
import VerifierHost.Table
import VerifierHost.Text.Basic

/-!
Annotations of source files. An index keeps a payload for each range of each file; updates are
merged into the payload, and a file's annotations are drawn anew only after it changed.
-/

namespace VerifierHost

structure Annotation where
  range : Range
  label : Text
  tooltip : Text
  deriving DecidableEq, Repr

/-- An annotation stands at the start of its range. -/
def Annotation.position (a : Annotation) : Position := a.range.start

/--
How updates `δ` are merged into payloads `π` and how payloads are shown. A payload with a number
that is too long to be written has no text.
-/
structure AnnotationKind (π δ : Type) where
  merge : Option π → δ → π
  describe : π → Option Text
  label : π → Option Text

/-- What is said about a position. -/
inductive Remark where
  /-- Nothing is known about it. -/
  | silent
  | text (t : Text)
  /-- What is known cannot be written. -/
  | unwritable
  deriving DecidableEq, Repr

def Remark.ofText? : Option Text → Remark
  | some t => .text t
  | none => .unwritable

/--
The payloads by file and range, each file in the order of its first updates. `drawn` holds the
annotations as they were last drawn, `stale` the files updated since, and `changed` tells whether
anything changed since somebody last asked.
-/
structure AnnotationIndex (π : Type) where
  entries : Table Text (Table Range π)
  drawn : Table Text (List Annotation)
  stale : List Text
  changed : Bool

namespace AnnotationIndex

variable {π δ : Type}

def empty : AnnotationIndex π := ⟨[], [], [], false⟩

/-- The payloads of a file. -/
def entriesOf (x : AnnotationIndex π) (file : Text) : Table Range π :=
  (x.entries.get? file).getD []

def files (x : AnnotationIndex π) : List Text := x.entries.keys

def update (kind : AnnotationKind π δ) (x : AnnotationIndex π) (file : Text) (range : Range)
    (delta : δ) : AnnotationIndex π :=
  let payloads := x.entriesOf file
  { x with
    entries := x.entries.put file (payloads.put range (kind.merge (payloads.get? range) delta))
    stale := if file ∈ x.stale then x.stale else x.stale ++ [file]
    changed := true }

/-- The payload of the innermost range around a position. -/
def lookup (x : AnnotationIndex π) (file : Text) (p : Position) : Option (Range × π) :=
  Range.innermost (x.entriesOf file) p

def hoverText (kind : AnnotationKind π δ) (x : AnnotationIndex π) (file : Text) (p : Position) :
    Remark :=
  match x.lookup file p with
  | none => .silent
  | some (_, payload) => .ofText? (kind.describe payload)

/-- The annotation of a payload. -/
def annotation? (kind : AnnotationKind π δ) (range : Range) (payload : π) : Option Annotation :=
  match kind.label payload, kind.describe payload with
  | some label, some tooltip => some { range, label, tooltip }
  | _, _ => none

/-- The annotations of some payloads, if all of them can be written. -/
def draw? (kind : AnnotationKind π δ) (payloads : Table Range π) : Option (List Annotation) :=
  payloads.mapM fun (range, payload) => annotation? kind range payload

/-- The payloads that are labelled for a drawing: all up to the first that cannot be written. -/
def labelled (kind : AnnotationKind π δ) : Table Range π → List π
  | [] => []
  | (range, payload) :: rest =>
    payload :: if (annotation? kind range payload).isSome then labelled kind rest else []

/--
The annotations of a file, unless one of them cannot be written; the index that remembers them, and
the payloads that were labelled.
-/
structure Rendering (π : Type) where
  annotations : Option (List Annotation)
  index : AnnotationIndex π
  drawnNow : List π

/-- The annotations of a file; a file that did not change is not drawn again. -/
def render (kind : AnnotationKind π δ) (x : AnnotationIndex π) (file : Text) : Rendering π :=
  match x.drawn.get? file, decide (file ∈ x.stale) with
  | some annotations, false => ⟨some annotations, x, []⟩
  | _, _ =>
    let payloads := x.entriesOf file
    let drawn := labelled kind payloads
    match draw? kind payloads with
    | none => ⟨none, x, drawn⟩
    | some annotations =>
      ⟨some annotations,
        { x with drawn := x.drawn.put file annotations, stale := x.stale.filter (· ≠ file) },
        drawn⟩

/-- Whether anything changed since the last time this was asked. -/
def takeChanged (x : AnnotationIndex π) : Bool × AnnotationIndex π :=
  (x.changed, { x with changed := false })

def clearFile (x : AnnotationIndex π) (file : Text) : AnnotationIndex π :=
  { entries := x.entries.erase file
    drawn := x.drawn.erase file
    stale := x.stale.filter (· ≠ file)
    changed := x.changed || !(x.entriesOf file).isEmpty }

/-- Forgets all files, and that anything has changed. -/
def clear (x : AnnotationIndex π) : AnnotationIndex π :=
  { x with entries := [], drawn := [], stale := [], changed := false }

end AnnotationIndex

end VerifierHost
