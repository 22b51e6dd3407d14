/-!
# Log notes

What the library has to say about its work while it runs. The notes of a computation are part of its
result; whether and where they are shown is decided elsewhere.
-/

namespace ChartLift

/-- How much a note matters. -/
inductive Level where
  | error
  | warn
  | info
  | debug
  | trace
  deriving DecidableEq, Repr, Inhabited

/-- A note: how much it matters, the topic it belongs to, and its text. -/
structure Note where
  level : Level
  topic : String
  text : String
  deriving DecidableEq, Repr, Inhabited

namespace Level

/-- The position of a level, the weightiest first. -/
def rank : Level → Nat
  | error => 1
  | warn => 2
  | info => 3
  | debug => 4
  | trace => 5

/-- All levels, the weightiest first. -/
def all : List Level := [error, warn, info, debug, trace]

/-- The level in capitals. -/
def label : Level → String
  | error => "ERROR"
  | warn => "WARN"
  | info => "INFO"
  | debug => "DEBUG"
  | trace => "TRACE"

end Level

namespace Note

/-- A text whose further lines are indented by four columns. -/
def indented (text : String) : String :=
  String.ofList (text.toList.flatMap fun c => if c = '\n' then "\n    ".toList else [c])

/-- A note as a line, the level padded to five columns. -/
def display (note : Note) : String :=
  let label := note.level.label
  let padding := String.ofList (List.replicate (5 - label.length) ' ')
  "[" ++ label ++ padding ++ " " ++ note.topic ++ "] " ++ indented note.text

end Note

end ChartLift
