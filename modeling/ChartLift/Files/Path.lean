import ChartLift.Text.Split

/-!
# File paths

Paths as they are written, and the steps that they take. Slashes in a row count as one, and a `.`
counts only where a path begins with it.
-/

namespace ChartLift

/-- A path in a file system, as it is written. -/
structure FilePath where
  text : String
  deriving DecidableEq, Repr, Inhabited

namespace FilePath

/-- A step of a path. -/
inductive Step where
  /-- To the root of all directories. -/
  | top
  /-- Nowhere, from the directory in which the path begins. -/
  | here
  | up
  | down (name : String)
  deriving DecidableEq, Repr

/-- Whether a path begins at the root of all directories. -/
def isAbsolute (path : FilePath) : Bool := path.text.toList.head? == some '/'

/-- The parts of a path between its slashes, where anything stands there. -/
def parts (path : FilePath) : List String :=
  ((Text.splitAt '/' path.text.toList).filter (!·.isEmpty)).map String.ofList

/-- A part as a step. -/
def stepOf (part : String) : Step :=
  if part = "." then .here else if part = ".." then .up else .down part

/-- The steps of a path. -/
def steps (path : FilePath) : List Step :=
  let steps := path.parts.map stepOf
  let moves := steps.filter (· != .here)
  if path.isAbsolute then .top :: moves
  else if steps.head? = some .here then .here :: moves
  else moves

/-- Whether two paths take the same steps. -/
def sameSteps (a b : FilePath) : Bool := a.steps == b.steps

/-- The path that `other` takes from a path on; an absolute one stands for itself. -/
def join (path other : FilePath) : FilePath :=
  if other.isAbsolute then other
  else if path.text.isEmpty || path.text.toList.getLast? == some '/' then ⟨path.text ++ other.text⟩
  else ⟨path.text ++ "/" ++ other.text⟩

/-- The steps behind those of another path, where a path begins with them. -/
def stepsBehind? (path other : FilePath) : Option (List Step) :=
  if other.steps.isPrefixOf path.steps then some (path.steps.drop other.steps.length) else none

/-- The names among steps, with a slash between them. -/
def nameOf (steps : List Step) : String :=
  "/".intercalate <| steps.filterMap fun step => match step with
    | .down name => some name
    | _ => none

/-- Characters in reverse, without the slashes and single dots that lead nowhere. -/
def trimEnd : List Char → List Char
  | '/' :: c :: rest => trimEnd (c :: rest)
  | '.' :: '/' :: c :: rest => trimEnd ('/' :: c :: rest)
  | text => text

/-- The path of the directory that a path's last part stands in. -/
def parent (path : FilePath) : FilePath :=
  let before := path.text.toList.reverse.dropWhile (· != '/')
  ⟨String.ofList (trimEnd before).reverse⟩

end FilePath

end ChartLift
