import VerifierHost.Files.Tree
import VerifierHost.Process.Recording

/-!
Snapshots of a tree of files as JSON: an object from paths to contents, where null stands for a
directory and an object with an `exec` field for a file that can be executed.
-/

namespace VerifierHost

def Entry.ofJson (v : Json) : Entry :=
  match v, v.get? "exec" with
  | .null, _ => .directory
  | _, some content => .file (bytesOfJson content) true
  | _, none => .file (bytesOfJson v) false

/-- Adds an entry of a snapshot; directories may have been made before. -/
def FileTree.addEntry (t : FileTree) (path : Text) (e : Entry) : FileTree :=
  let place := (FilePath.ofText path).segments
  if e = .directory then t.makeDirectory place else t.put place e

/-- The tree of a snapshot; the directory of work is there in any case. -/
def FileTree.ofSnapshot (work : FilePath) (entries : List (Text × Json)) : FileTree :=
  entries.foldl (fun t (path, v) => t.addEntry path (.ofJson v))
    (FileTree.empty.makeDirectory work.segments)

end VerifierHost
