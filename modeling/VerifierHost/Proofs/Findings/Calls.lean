import VerifierHost.Findings
import VerifierHost.Proofs.Annotation.Log

/-! # Calls of the findings

What may happen to the findings, one call after the other: their indexes are called, ranges of
methods and verdicts are recorded, and files are cleared. Asking for verdicts, ranges or decorations
leaves them as they were. -/

namespace VerifierHost

/-- A call by which findings may change. -/
inductive FindingsCall where
  | instantiations (c : IndexCall (Text × Int))
  | triggers (c : IndexCall Triggers)
  | recordMethod (file method : Text) (range : Range)
  | recordVerdict (v : Verdict)
  | clearFile (file : Text)
  /-- Everything is forgotten. -/
  | clear

/-- Whether a call of an index names a file. -/
def IndexCall.isAbout {δ : Type} (file : Text) : IndexCall δ → Bool
  | .update f .. | .entries f | .lookup f _ | .hoverText f _ | .render f | .clearFile f => f = file
  | .files | .takeChanged | .clear => false

namespace FindingsCall

/-- Whether a call names a file. -/
def isAbout (file : Text) : FindingsCall → Bool
  | .instantiations c => c.isAbout file
  | .triggers c => c.isAbout file
  | .recordMethod f .. | .clearFile f => f = file
  | .recordVerdict v => v.file = file
  | .clear => false

/-- Whether all that is known about a file is forgotten. -/
def forgets (file : Text) : FindingsCall → Bool
  | .clearFile f => f = file
  | .clear => true
  | _ => false

end FindingsCall

namespace Findings

/-- The findings after a call. -/
def call (f : Findings) : FindingsCall → Findings
  | .instantiations c => { f with instantiations := f.instantiations.call instantiationKind c }
  | .triggers c => { f with triggers := f.triggers.call triggerKind c }
  | .recordMethod file method range => f.recordMethod file method range
  | .recordVerdict v => f.recordVerdict v
  | .clearFile file => f.clearFile file
  | .clear => .empty

/-- The findings that were called so from their beginning on. -/
def after (calls : List FindingsCall) : Findings := calls.foldl call .empty

theorem after_append (calls more : List FindingsCall) :
    after (calls ++ more) = more.foldl call (after calls) := List.foldl_append

theorem after_concat (calls : List FindingsCall) (c : FindingsCall) :
    after (calls ++ [c]) = (after calls).call c := after_append calls [c]

end Findings

end VerifierHost
