import ChartLift.Text.Integer

/-!
# Field paths

A field path names one place inside a document, as the fields and positions that lead to it from
the root, and is written in one canonical form, such as `$.spec.containers[0]['app/name']`.
-/

namespace ChartLift

/-- One step of a path. -/
inductive Segment where
  /-- The value of a mapping under a key. -/
  | field (name : String)
  /-- An item of a sequence; a negative position counts from the end. -/
  | index (position : Int)
  deriving DecidableEq, Repr, Inhabited

/-- A place in a document, as the steps that lead to it from the root. -/
structure Path where
  /-- The steps, outermost first. -/
  segments : List Segment
  deriving DecidableEq, Repr, Inhabited

namespace Segment

/-- Names that stand behind a dot as they are: ASCII letters, digits, underscores and dashes. -/
def isPlainName (name : List Char) : Bool :=
  !name.isEmpty && name.all fun c => c.isAlphanum || c == '_' || c == '-'

/-- A name between single quotes keeps its characters, quotes and backslashes behind a backslash. -/
def escapeName : List Char → List Char
  | [] => []
  | c :: rest =>
    if c = '\'' ∨ c = '\\' then '\\' :: c :: escapeName rest else c :: escapeName rest

/-- A step as the canonical form writes it. -/
def write : Segment → List Char
  | .field name =>
    if isPlainName name.toList then '.' :: name.toList
    else '[' :: '\'' :: (escapeName name.toList ++ ['\'', ']'])
  | .index position => '[' :: (Text.decimal position ++ [']'])

end Segment

namespace Path

/-- The place of the document itself. -/
def root : Path := ⟨[]⟩

/-- Whether a path is the place of the document itself. -/
def isRoot (path : Path) : Bool := path.segments.isEmpty

/-- The place one step below a path. -/
def child (path : Path) (segment : Segment) : Path :=
  ⟨path.segments ++ [segment]⟩

/-- The place one step above a path; the root has none. -/
def parent (path : Path) : Path :=
  ⟨path.segments.dropLast⟩

/-- The last step of a path. -/
def last? (path : Path) : Option Segment :=
  path.segments.getLast?

/-- The canonical form, character by character. -/
def write (path : Path) : List Char :=
  '$' :: path.segments.flatMap Segment.write

/-- The canonical form of a path. -/
def canonical (path : Path) : String :=
  String.ofList path.write

end Path

end ChartLift
