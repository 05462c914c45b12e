import VerifierHost.Files.Tree
import VerifierHost.Run.Invocation

/-!
Crates in a tree of files: how to tell one from a single file, and the metadata that the compiler
leaves in it.
-/

namespace VerifierHost

/-- The file that makes a crate of a directory. -/
def manifestName : Text := "Cargo.toml"

/-- What there is at a path: a directory with a manifest is a crate. -/
def VerificationTarget.ofPath (t : FileTree) (directory path : FilePath) :
    Except FilePath.Fault VerificationTarget :=
  match t.probe directory path with
  | .error fault => .error fault
  | .ok (some .directory) =>
    (t.probe directory (path.child manifestName)).map fun manifest =>
      if manifest.isSome then .crate else .file
  | .ok _ => .ok .file

/-- What to verify at a path, if the user does not say so. -/
def VerificationTarget.detect (t : FileTree) (directory path : FilePath)
    (isCrate : Option Bool) : Except FilePath.Fault VerificationTarget :=
  match isCrate with
  | some isCrate => .ok (if isCrate then .crate else .file)
  | none => VerificationTarget.ofPath t directory path

/-- What the name of a file of metadata ends with. -/
def metadataEnding : Text := ".rmeta"

/-- Whether a file is metadata, to judge by its name. -/
def isMetadataName (name : Text) : Bool := metadataEnding.points.isSuffixOf name.points

/-- Where the compiler leaves the metadata of the crate in a directory. -/
def metadataDirectory (root : Text) : FilePath :=
  ((FilePath.ofText root).child "target").child "debug"

/-- Whether an entry is a file of metadata in a directory. -/
def isMetadata (directory : List Text) (place : List Text) (e : Entry) : Bool :=
  place.dropLast = directory && e ≠ .directory && isMetadataName (place.getLast?.getD "")

/-- Deletes the metadata of a crate, so that warnings about it are reported again. -/
def FileTree.removeMetadata (t : FileTree) (directory : FilePath) (root : Text) :
    Except FilePath.Fault FileTree :=
  match t.find directory (metadataDirectory root) with
  | .error .tooLong => .error .tooLong
  | .error .unencodable | .error .holdsNul | .ok none => .ok t
  | .ok (some place) => .ok ⟨t.entries.filter fun row => !isMetadata place row.1 row.2⟩

end VerifierHost
