import ChartLift.Cli.Session

/-!
# The program

The files that a call may look at are named on the standard input, one on a line. They are read, the
program is called on them, and what it has changed is written.
-/

namespace ChartLift.Cli

/-- The lines of the standard input. -/
partial def inputLines (input : IO.FS.Stream) (lines : List String) : IO (List String) := do
  let line ← input.getLine
  if line.isEmpty then return lines.reverse
  inputLines input ((if line.endsWith "\n" then (line.dropEnd 1).toString else line) :: lines)

/-- Files with one more, if it can be read. -/
def withFile (files : FileTree) (name : String) : IO FileTree := do
  match ← (IO.FS.readBinFile name).toBaseIO with
  | .error _ => return files
  | .ok data =>
    let path : FilePath := ⟨name⟩
    let ready := (files.makeDirectories path.parent).toOption.getD files
    return (ready.write path data.toList).toOption.getD ready

/-- Writes the files and directories that are new or have changed, the oldest first. -/
def writeChanges (before after : FileTree) : IO Unit := do
  for (place, node) in after.nodes.reverse do
    if before.at? place != some node then
      match node with
      | .directory => IO.FS.createDirAll place.display
      | .file data => IO.FS.writeBinFile place.display ⟨data.toArray⟩

end ChartLift.Cli

open ChartLift Cli in
/-- Calls the program with arguments. -/
def main (arguments : List String) : IO UInt32 := do
  let named ← inputLines (← IO.getStdin) []
  let files ← ((configPath? arguments).toList ++ named).foldlM withFile .empty
  let session := call arguments (← IO.getEnv "HELM_DUMP_LOG") files
  writeChanges files session.files
  for part in session.errors do IO.eprintln part
  for part in session.output do IO.println part
  return session.status.toUInt32
