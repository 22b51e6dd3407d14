/-!
# Cache policies

What a cached copy of a template is kept for.
-/

namespace ChartLift

/-- How templates are cached. -/
inductive CachePolicy where
  /-- One copy for each name and content. -/
  | byContent
  /-- One copy for each name, the first one. -/
  | byName
  | off
  deriving DecidableEq, Repr, Inhabited

namespace CachePolicy

/-- The policy in one word. -/
def label : CachePolicy → String
  | byContent => "by-content"
  | byName => "by-name"
  | off => "off"

/-- The policy that a word stands for. -/
def ofLabel? (word : String) : Option CachePolicy :=
  [byContent, byName, off].find? (·.label == word)

end CachePolicy

end ChartLift
