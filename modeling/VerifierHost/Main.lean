import VerifierHost.CommandLine.Run
import VerifierHost.Files.Snapshot

/-!
The program. It looks at the files that its command names, takes the processes from recordings on
standard input, one to a line, and prints what the run of the command reports.
-/

namespace VerifierHost

/-- The variables that decide anything in a run of the program. -/
def namedVariables : List Text := ["PATH", errorsOnlyVariable, verifierHomeVariable]

def readEnvironment : IO Environment :=
  namedVariables.filterMapM fun name => do
    return (← IO.getEnv name.toString).map fun value => (name, value)

/-- What is on the disk at a path. -/
def lookAt (path : String) : IO (Option Entry) := do
  if let .ok content ← (IO.FS.readBinFile path).toBaseIO then
    return some (.file content.toList true)
  let .ok place ← (IO.FS.realPath path).toBaseIO | return none
  return if ← place.isDir then some .directory else none

def readFiles (directory : FilePath) (paths : List FilePath) : IO FileTree :=
  paths.foldlM (fun t path => do
    return match ← lookAt path.toText.toString with
      | some e => t.addEntry (FilePath.resolve directory path).toText e
      | none => t) (FileTree.empty.makeDirectory directory.segments)

/-- Reads recordings of processes; a start that was refused counts as that of a missing program. -/
partial def readPlans (input : IO.FS.Stream) : IO (List Plan) := do
  let line ← input.getLine
  if line.isEmpty then return []
  let rest ← readPlans input
  return match Json.read line with
    | .ok v => Plan.ofJson (fun _ => .noSuchFile) v :: rest
    | .error _ => rest

/-- Deletes the metadata of a crate; what cannot be deleted stays. -/
def deleteMetadata (root : Text) : IO Unit := do
  let .ok place ← (IO.FS.realPath (metadataDirectory root).toText.toString).toBaseIO | return
  let .ok files ← place.readDir.toBaseIO | return
  for file in files do
    if isMetadataName file.fileName then
      discard (IO.FS.removeFile file.path).toBaseIO

def runProgram (args : List String) : IO UInt32 := do
  let command := CommandLine.Command.parse (args.map .ofString)
  let directory := FilePath.ofText (← IO.currentDir).toString
  let environment ← readEnvironment
  let files ← readFiles directory (command.places environment)
  let plans ← match command with
    | .verify _ => readPlans (← IO.getStdin)
    | _ => pure []
  let report := command.run ⟨files, directory, environment, plans⟩
  for event in report.events do
    if let .metadataDeleted root := event then deleteMetadata root
  for text in report.printed do
    IO.println text
  if let some why := report.abort then IO.eprintln why.text.toString
  return report.exitCode.toUInt32

end VerifierHost

def main (args : List String) : IO UInt32 := VerifierHost.runProgram args
