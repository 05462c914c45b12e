import VerifierHost.Text.NameBytes
import VerifierHost.Text.Split

/-!
Paths in normal form: empty and single-dot segments are gone, two leading slashes are kept as they
are and more of them count as one. Segments of two dots stay, since a link may lead elsewhere. A
path that cannot be given to the operating system, or that is too long for it, has a fault.
-/

namespace VerifierHost

/-- How a path starts. -/
inductive PathRoot where
  | relative
  | single
  | double
  deriving DecidableEq, Repr

def PathRoot.text : PathRoot → String
  | .relative => ""
  | .single => "/"
  | .double => "//"

structure FilePath where
  root : PathRoot
  segments : List Text
  deriving DecidableEq, Repr

namespace FilePath

def rootOf : List CodePoint → PathRoot
  | .char '/' :: .char '/' :: .char '/' :: _ => .single
  | .char '/' :: .char '/' :: _ => .double
  | .char '/' :: _ => .single
  | _ => .relative

/-- Segments that name something. -/
def isNamed (segment : Text) : Bool := !segment.isEmpty && segment != "."

/-- The segments of a text, those included that name nothing. -/
def segmentsOf (path : Text) : List Text :=
  (Text.splitOn (.char '/') path.points).map Text.mk

/-- The normal form of a path. -/
def ofText (path : Text) : FilePath where
  root := rootOf path.points
  segments := (segmentsOf path).filter isNamed

def isAbsolute (p : FilePath) : Bool := p.root != .relative

/-- A path without root and segments is the current directory. -/
def toText (p : FilePath) : Text :=
  if p.root = .relative ∧ p.segments = [] then "."
  else p.root.text ++ Text.join "/" p.segments

/-- A path seen from a directory; an absolute one does not depend on it. -/
def under (directory p : FilePath) : FilePath :=
  if p.isAbsolute then p else ⟨directory.root, directory.segments ++ p.segments⟩

/-- The last segment, empty if there is none. -/
def name (p : FilePath) : Text := p.segments.getLast?.getD ""

/-- The path without its last segment. -/
def parent (p : FilePath) : FilePath := ⟨p.root, p.segments.dropLast⟩

def child (p : FilePath) (segment : Text) : FilePath := ⟨p.root, p.segments ++ [segment]⟩

/-- The segment that steps up. -/
def stepUp : Text := ".."

/-- Segments with every step up taken; above the root there is nothing. -/
def walk (segments : List Text) : List Text :=
  (segments.foldl (fun up s => if s = stepUp then up.drop 1 else s :: up) []).reverse

/-- The place an absolute path leads to where there are no links. -/
def resolve (directory p : FilePath) : FilePath :=
  ⟨.single, walk (under directory p).segments⟩

/-- Why nothing can be at a path. -/
inductive Fault where
  /-- A lone half in it stands for no byte. -/
  | unencodable
  | holdsNul
  | tooLong
  deriving DecidableEq, Repr

def Fault.text : Fault → String
  | .unencodable => "unencodable path"
  | .holdsNul => "path with a NUL"
  | .tooLong => "path too long"

/-- A path may have this many bytes. -/
def maxBytes : Nat := 4095

/-- The fault of a path as a whole. -/
def fault? (p : FilePath) : Option Fault :=
  match p.toText.nameBytes? with
  | none => some .unencodable
  | some bytes =>
    if bytes.contains 0 then some .holdsNul
    else if maxBytes < bytes.length then some .tooLong
    else none

/-- The name of a file may have this many bytes. -/
def maxNameBytes : Nat := 255

/-- Whether a segment is too long for the name of a file. -/
def isLongName (segment : Text) : Bool := segment.nameBytes?.any fun bytes =>
  maxNameBytes < bytes.length

def slash : CodePoint := .char '/'

/-- A file named relative to a directory, written as the names are. -/
def joinText (directory file : Text) : Text :=
  if file.points.head? = some slash then file
  else if directory.isEmpty || directory.points.getLast? = some slash then directory ++ file
  else directory ++ "/" ++ file

end FilePath

end VerifierHost
