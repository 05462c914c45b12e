import VerifierHost.Location.Path
import VerifierHost.Table
import VerifierHost.Text.Utf8

/-!
A tree of directories and files without links. A path is followed from segment to segment, and every
segment but the last has to be a directory, also where the next one steps up again.
-/

namespace VerifierHost

inductive Entry where
  | directory
  | file (content : Text.Bytes) (isExecutable : Bool)
  deriving DecidableEq, Repr

/-- The entries by their segments from the root, which itself is always there. -/
structure FileTree where
  entries : Table (List Text) Entry
  deriving DecidableEq, Repr

namespace FileTree

def empty : FileTree := ⟨[]⟩

def get? (t : FileTree) (place : List Text) : Option Entry :=
  if place.isEmpty then some .directory else Table.get? t.entries place

def isDirectoryAt (t : FileTree) (place : List Text) : Bool := t.get? place = some .directory

/-- Makes a directory and those above it, where they are missing. -/
def makeDirectory (t : FileTree) (place : List Text) : FileTree :=
  (List.range place.length).foldl (fun t i =>
    let above := place.take (i + 1)
    if (t.get? above).isSome then t else ⟨t.entries.put above .directory⟩) t

/-- Puts an entry at a place, and directories above it. -/
def put (t : FileTree) (place : List Text) (e : Entry) : FileTree :=
  ⟨(t.makeDirectory place.dropLast).entries.put place e⟩

/-- Follows segments from a place that is there. A name that is too long is refused on the way. -/
def follow (t : FileTree) : List Text → List Text → Except FilePath.Fault (Option (List Text))
  | place, [] => .ok (some place)
  | place, segment :: rest =>
    if t.isDirectoryAt place then
      if FilePath.isLongName segment then .error .tooLong
      else
        let next := if segment = FilePath.stepUp then place.dropLast else place ++ [segment]
        if (t.get? next).isSome then t.follow next rest else .ok none
    else .ok none

/-- The place a path leads to, seen from a directory, if there is something. -/
def find (t : FileTree) (directory path : FilePath) : Except FilePath.Fault (Option (List Text)) :=
  match path.fault? with
  | some fault => .error fault
  | none => t.follow [] (FilePath.under directory path).segments

def entry (t : FileTree) (directory path : FilePath) : Except FilePath.Fault (Option Entry) :=
  (t.find directory path).map fun place => place.bind t.get?

/-- What there is at a path; a path with any fault leads to nothing. -/
def entry? (t : FileTree) (directory path : FilePath) : Option Entry :=
  match t.entry directory path with
  | .ok e => e
  | .error _ => none

/-- What there is at a path; only for a path that is too long this cannot be told. -/
def probe (t : FileTree) (directory path : FilePath) : Except FilePath.Fault (Option Entry) :=
  match t.entry directory path with
  | .error .tooLong => .error .tooLong
  | .error .unencodable | .error .holdsNul => .ok none
  | .ok e => .ok e

/-- The content of a file; a path that is too long leads to none. -/
def content (t : FileTree) (directory path : FilePath) :
    Except FilePath.Fault (Option Text.Bytes) :=
  match t.entry directory path with
  | .ok (some (.file content _)) => .ok (some content)
  | .ok _ | .error .tooLong => .ok none
  | .error fault => .error fault

def isExecutable (t : FileTree) (directory path : FilePath) : Bool :=
  match t.entry? directory path with
  | some (.file _ isExecutable) => isExecutable
  | _ => false

/-- What a place is called in a listing: directories end with a slash. -/
def lineOf (place : List Text) (e : Entry) : Text :=
  "/" ++ Text.join "/" place ++ if e = .directory then "/" else ""

/-- The lines about all entries below a place, sorted. -/
def listing (t : FileTree) (place : List Text) : List Text :=
  ((t.entries.filter fun row => place.isPrefixOf row.1 && row.1 ≠ place).map fun (p, e) =>
    lineOf p e).mergeSort Text.le

end FileTree

end VerifierHost
