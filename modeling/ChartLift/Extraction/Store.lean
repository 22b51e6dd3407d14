import ChartLift.Extraction.Failure
import ChartLift.Value.Json

/-!
# The store of a run

The tree of values, and which document of the run stored each key first. What the run has stored
never changes: another value under the same key is refused. Values from before the run may be
replaced.
-/

namespace ChartLift

/-- The values of a run and, by key, the document that stored it first. -/
structure Store where
  values : ValuesTree
  owners : List (String × String)
  deriving Inhabited

namespace Store

/-- A store before the run. -/
def ofValues (values : ValuesTree) : Store := ⟨values, []⟩

/-- The document that stored a key, and the value there, if it is another one than the literal. -/
def rival? (store : Store) (key literal : String) : Option (String × Value) :=
  match store.owners.lookup key, store.values.get? key with
  | some owner, some existing =>
    if existing.asString? = some literal then none else some (owner, existing)
  | _, _ => none

/-- Stores a literal for a document: the store after it, and the value that gave way to it, if there
was one under the key. -/
def put (store : Store) (key literal document : String) : Except Failure (Store × Option Value) :=
  match store.rival? key literal with
  | some (owner, existing) => .error (.valueConflict key existing.render literal owner)
  | none =>
    match store.values.insert key (.string literal) with
    | .error fault => .error (.insertion fault)
    | .ok (values, previous) =>
      let owners := match store.owners.lookup key with
        | some _ => store.owners
        | none => (key, document) :: store.owners
      .ok (⟨values, owners⟩, previous.filter (·.asString? != some literal))

end Store

end ChartLift
