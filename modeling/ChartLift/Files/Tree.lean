import ChartLift.Files.Path
import ChartLift.Text.Utf8

/-!
# Trees of files

The files and directories that a program works on, as a value. Places are lists of names from the
working directory; what lies outside of it is known only where it has been made.
-/

namespace ChartLift

open Text (Bytes)

/-- A place, as the names that lead there from the working directory. Above it, each `..` leads one
directory up; `/` begins the places named from the root. -/
abbrev Place := List String

/-- What stands at a place. -/
inductive FileNode where
  | file (data : Bytes)
  | directory
  deriving DecidableEq, Repr

/-- Files and directories, by their places. -/
structure FileTree where
  nodes : List (Place × FileNode)
  deriving Inhabited

/-- What keeps an operation on files from being done. -/
inductive FileFault where
  | missing
  | alreadyThere
  | notDirectory
  | isDirectory
  | nameTooLong
  deriving DecidableEq, Repr

/-- The fault in words. -/
def FileFault.message : FileFault → String
  | missing => "No such file or directory (os error 2)"
  | alreadyThere => "File exists (os error 17)"
  | notDirectory => "Not a directory (os error 20)"
  | isDirectory => "Is a directory (os error 21)"
  | nameTooLong => "File name too long (os error 36)"

namespace Place

/-- Names that lead out of the working directory. -/
def isOutward (name : String) : Bool := name == ".." || name == "/"

/-- The place one directory up. -/
def up (place : Place) : Place :=
  match place.getLast? with
  | none => [".."]
  | some ".." => place ++ [".."]
  | some "/" => place
  | some _ => place.dropLast

/-- A place inside the working directory as a name. -/
def display (place : Place) : String := "/".intercalate place

end Place

namespace FileTree

/-- The working directory, with nothing in it. -/
def empty : FileTree := ⟨[]⟩

/-- What stands at a place. The working directory and those above it are always there. -/
def at? (tree : FileTree) (place : Place) : Option FileNode :=
  if place.all Place.isOutward then some .directory else tree.nodes.lookup place

/-- A tree with another node at a place. -/
def put (tree : FileTree) (place : Place) (node : FileNode) : FileTree :=
  ⟨(place, node) :: tree.nodes.filter (·.1 != place)⟩

/-- A node that has been put inside the working directory stands at its place. -/
theorem at?_put_self (tree : FileTree) {place : Place} (node : FileNode)
    (inside : place.all Place.isOutward = false) : (tree.put place node).at? place = some node := by
  simp [at?, put, inside]

/-- Putting a node leaves what stands at every other place. -/
theorem at?_put_of_ne (tree : FileTree) {place other : Place} (node : FileNode) (ne : other ≠ place) :
    (tree.put place node).at? other = tree.at? other := by
  have kept (nodes : List (Place × FileNode)) :
      (nodes.filter (·.1 != place)).lookup other = nodes.lookup other := by
    induction nodes with
    | nil => rfl
    | cons entry rest ih =>
      obtain ⟨there, what⟩ := entry
      by_cases here : there = place
      · subst here
        simp [List.lookup_cons, beq_eq_false_iff_ne.mpr ne, ih]
      · by_cases found : other = there
        · subst found
          simp [here]
        · simp [List.lookup_cons, here, beq_eq_false_iff_ne.mpr found, ih]
  simp only [at?, put, List.lookup_cons, beq_eq_false_iff_ne.mpr ne, kept]

/-- The longest name, in bytes. -/
def longestName : Nat := 255

/-- The place that a part of a path leads to. -/
def step (place : Place) (part : String) : Place :=
  if part = "." then place else if part = ".." then place.up else place ++ [part]

/-- Follows the parts of a path from a place; each must lead on from a directory. What they lead to
may be missing. -/
def follow (tree : FileTree) (place : Place) : List String → Except FileFault Place
  | [] => .ok place
  | part :: rest =>
    match tree.at? place with
    | none => .error .missing
    | some (.file _) => .error .notDirectory
    | some .directory =>
      if longestName < (Text.bytes part).length then .error .nameTooLong
      else follow tree (step place part) rest

/-- The place where a path begins. -/
def start (path : FilePath) : Place := if path.isAbsolute then ["/"] else []

/-- The parts that a path must be able to take: behind a slash at its end stands a directory. -/
def partsOf (path : FilePath) : List String :=
  if path.text.toList.getLast? == some '/' then path.parts ++ ["."] else path.parts

/-- The place that a path leads to. -/
def resolve (tree : FileTree) (path : FilePath) : Except FileFault Place :=
  if path.text.isEmpty then .error .missing else tree.follow (start path) (partsOf path)

/-- The place of what stands at the end of a path. -/
def existing? (tree : FileTree) (path : FilePath) : Option Place :=
  match tree.resolve path with
  | .error _ => none
  | .ok place => if (tree.at? place).isSome then some place else none

/-- Whether a path leads to a file or a directory. -/
def contains (tree : FileTree) (path : FilePath) : Bool := (tree.existing? path).isSome

/-- The place of the directory that a path leads to. -/
def directory? (tree : FileTree) (path : FilePath) : Option Place :=
  (tree.existing? path).filter fun place => tree.at? place == some .directory

/-- The bytes of the file that a path leads to. -/
def read (tree : FileTree) (path : FilePath) : Except FileFault Bytes :=
  match tree.resolve path with
  | .error fault => .error fault
  | .ok place =>
    match tree.at? place with
    | none => .error .missing
    | some .directory => .error .isDirectory
    | some (.file data) => .ok data

/-- Writes a file; one that is there already is replaced. -/
def write (tree : FileTree) (path : FilePath) (data : Bytes) : Except FileFault FileTree :=
  match tree.resolve path with
  | .error fault => .error fault
  | .ok place =>
    match tree.at? place with
    | some .directory => .error .isDirectory
    | _ => .ok (tree.put place (.file data))

/-- Creates a file where nothing is. -/
def create (tree : FileTree) (path : FilePath) (data : Bytes) : Except FileFault FileTree :=
  match tree.resolve path with
  | .error fault => .error fault
  | .ok place =>
    match tree.at? place with
    | some _ => .error .alreadyThere
    | none => .ok (tree.put place (.file data))

/-- Makes the directories that parts of a path lead through from a place. -/
def makeAlong (tree : FileTree) (place : Place) : List String → Except FileFault FileTree
  | [] => .ok tree
  | part :: rest =>
    let next := step place part
    match tree.at? next with
    | some .directory => makeAlong tree next rest
    | some (.file _) => .error (if rest.isEmpty then .alreadyThere else .notDirectory)
    | none =>
      if longestName < (Text.bytes part).length then .error .nameTooLong
      else makeAlong (tree.put next .directory) next rest

/-- Makes a directory and those above it, as far as they are missing. -/
def makeDirectories (tree : FileTree) (path : FilePath) : Except FileFault FileTree :=
  tree.makeAlong (start path) path.parts

/-- The files below a place, by their names from there on. -/
def filesBelow (tree : FileTree) (place : Place) : List (Place × Bytes) :=
  tree.nodes.filterMap fun (there, node) =>
    match node with
    | .directory => none
    | .file data =>
      let rest := there.drop place.length
      if place.isPrefixOf there && !rest.any Place.isOutward then some (rest, data) else none

/-- All files of the working directory, sorted by name. -/
def listing (tree : FileTree) : List (String × Bytes) :=
  ((tree.filesBelow []).map fun (place, data) => (place.display, data)).mergeSort
    fun a b => decide (a.1 ≤ b.1)

end FileTree

end ChartLift
