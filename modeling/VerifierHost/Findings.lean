import VerifierHost.Annotation.Quantifiers

/-!
What a verifier has said about the files: annotations, the ranges of the methods and the verdicts on
them. A decoration joins the two for the first line of a method.
-/

namespace VerifierHost

/-- The outcome for one method of a file. -/
structure Verdict where
  file : Text
  method : Text
  success : Bool
  timeMs : Option Int
  cached : Bool
  deriving DecidableEq, Repr

structure Findings where
  instantiations : AnnotationIndex (Table Text Int)
  triggers : AnnotationIndex Triggers
  verdicts : List Verdict
  methodRanges : Table (Text × Text) Range

inductive DecorationStyle where
  | success
  | failure
  | notVerified
  deriving DecidableEq, Repr

def DecorationStyle.name : DecorationStyle → String
  | .success => "success"
  | .failure => "failure"
  | .notVerified => "not-verified"

structure Decoration where
  range : Range
  style : DecorationStyle
  timeMs : Option Int
  cached : Option Bool
  deriving DecidableEq, Repr

namespace Findings

def empty : Findings := ⟨.empty, .empty, [], []⟩

def recordMethod (f : Findings) (file method : Text) (range : Range) : Findings :=
  { f with methodRanges := f.methodRanges.put (file, method) range }

/-- Puts a verdict at the end, in place of the older one on the same method. -/
def recordVerdict (f : Findings) (v : Verdict) : Findings :=
  { f with
    verdicts := f.verdicts.filter (fun w => (w.file, w.method) ≠ (v.file, v.method)) ++ [v] }

def verdictsOf (f : Findings) (file : Text) : List Verdict :=
  f.verdicts.filter fun v => v.file = file

/-- The first file with a method of that name. -/
def fileOfMethod? (f : Findings) (method : Text) : Option Text :=
  (f.methodRanges.keys.find? fun key => key.2 = method).map Prod.fst

/-- Forgets all that is known about a file. -/
def clearFile (f : Findings) (file : Text) : Findings where
  instantiations := f.instantiations.clearFile file
  triggers := f.triggers.clearFile file
  verdicts := f.verdicts.filter fun v => v.file ≠ file
  methodRanges := f.methodRanges.filter fun row => row.1.1 ≠ file

/-- The latest verdict on a method. -/
def verdict? (f : Findings) (file method : Text) : Option Verdict :=
  f.verdicts.reverse.find? fun v => v.file = file && v.method = method

/-- How a method is decorated: the rest of its first line tells the verdict. -/
def decorationOf (f : Findings) (file method : Text) (range : Range) : Decoration :=
  match f.verdict? file method with
  | none => ⟨range.restOfLine, .notVerified, none, none⟩
  | some v =>
    ⟨range.restOfLine, if v.success then .success else .failure, v.timeMs, some v.cached⟩

/-- The decorations of the methods of a file, in the order in which their ranges came. -/
def decorations (f : Findings) (file : Text) : List Decoration :=
  (f.methodRanges.filter fun row => row.1.1 = file).map fun ((_, method), range) =>
    f.decorationOf file method range

end Findings

end VerifierHost
