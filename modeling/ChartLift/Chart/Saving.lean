import ChartLift.Chart.Loading

/-!
# Saving charts

Files are written one after the other, each with the directories above it. What has been written
before a failure stays.
-/

namespace ChartLift

/-- What came of writing files: all files as they are now, what was said, and how many were written.
-/
structure Saved where
  files : FileTree
  notes : List Note
  count : Except RunFault Nat

namespace Chart

/-- Writes one file below a directory. -/
def saveFile (directory : FilePath) (file : Manifest) (files : FileTree) :
    FileTree × Except RunFault FilePath :=
  let path := directory.join ⟨file.name⟩
  match files.makeDirectories path.parent with
  | .error _ => (files, .error (.directoryNotMade path.parent))
  | .ok files =>
    match files.write path file.raw with
    | .error _ => (files, .error (.fileNotWritten path))
    | .ok files => (files, .ok path)

/-- Writes files below a directory, up to the first one that cannot be written. -/
def save (directory : FilePath) : List Manifest → FileTree → Saved
  | [], files => ⟨files, [], .ok 0⟩
  | file :: rest, files =>
    match saveFile directory file files with
    | (files, .error fault) => ⟨files, [], .error fault⟩
    | (files, .ok path) =>
      let saved := save directory rest files
      { saved with
        notes := ⟨.debug, topic, "wrote " ++ path.text⟩ :: saved.notes
        count := saved.count.map (· + 1) }

end Chart

end ChartLift
