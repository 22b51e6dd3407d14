import ChartLift.Number.Double

/-!
# Values

The values that documents hold: scalars, sequences, and mappings from texts. A mapping lists its
entries by ascending key.
-/

namespace ChartLift

/-- A value of a document. -/
inductive Value where
  | null
  | bool (b : Bool)
  | integer (i : Int)
  | float (x : Double)
  | string (s : String)
  | sequence (items : List Value)
  | mapping (entries : List (String × Value))
  deriving Repr, Inhabited

/-- The entries of a mapping, by ascending key. -/
abbrev Entries := List (String × Value)

namespace Entries

/-- The value under a key. -/
def find? : Entries → String → Option Value
  | [], _ => none
  | (k, v) :: rest, key => if k = key then some v else find? rest key

/-- The entries with a key bound to a value: an entry of that key is replaced, a new one goes before
the first greater key. -/
def bind : Entries → String → Value → Entries
  | [], key, value => [(key, value)]
  | (k, v) :: rest, key, value =>
    if k = key then (key, value) :: rest
    else if key < k then (key, value) :: (k, v) :: rest
    else (k, v) :: bind rest key value

/-- A key that has been bound is found with its value. -/
theorem find?_bind_self (entries : Entries) (key : String) (value : Value) :
    (entries.bind key value).find? key = some value := by
  induction entries with
  | nil => simp [bind, find?]
  | cons entry rest ih =>
    obtain ⟨k, v⟩ := entry
    by_cases same : k = key
    · simp [bind, find?, same]
    · by_cases before : key < k
      · simp [bind, find?, same, before]
      · simp [bind, find?, same, before, ih]

/-- Binding a key leaves what is found under every other one. -/
theorem find?_bind_of_ne (entries : Entries) {key other : String} (value : Value) (ne : other ≠ key) :
    (entries.bind key value).find? other = entries.find? other := by
  induction entries with
  | nil => simp [bind, find?, ne.symm]
  | cons entry rest ih =>
    obtain ⟨k, v⟩ := entry
    by_cases same : k = key
    · subst same
      simp [bind, find?, ne.symm]
    · by_cases before : key < k
      · simp [bind, find?, same, before, ne.symm]
      · simp [bind, find?, same, before, ih]

/-- The mapping that a list of keys and values writes; of equal keys the last one counts. -/
def ofList (pairs : List (String × Value)) : Entries :=
  pairs.foldl (fun entries (key, value) => entries.bind key value) []

end Entries

namespace Value

/-- The value under a key of a mapping. -/
def get? : Value → String → Option Value
  | .mapping entries, key => Entries.find? entries key
  | _, _ => none

/-- The text of a string value. -/
def asString? : Value → Option String
  | .string s => some s
  | _ => none

/-- The kind of a value in words. -/
def kindName : Value → String
  | .null => "null"
  | .bool _ => "a boolean"
  | .integer _ => "a number"
  | .float _ => "a number"
  | .string _ => "a string"
  | .sequence _ => "a sequence"
  | .mapping _ => "a mapping"

end Value

end ChartLift
