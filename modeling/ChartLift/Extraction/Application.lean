import ChartLift.Extraction.Report
import ChartLift.Extraction.Rule
import ChartLift.Extraction.Store
import ChartLift.Log.Basic

/-!
# Applying a rule to a document

The value at the rule's path is read, the key rendered, the value stored under it, the entries at
the path found and their patches planned, in this order. The first step that fails ends the
application: up to the storing it leaves everything as it was, behind it the key stays stored but
orphaned.
-/

namespace ChartLift

/-- How an application fails. -/
structure RuleFault where
  stage : Stage
  failure : Failure
  /-- The key that was stored before the failure. -/
  orphan : Option String

/-- What an application comes to. -/
structure Application where
  store : Store
  plan : Rewrite.Plan
  fault : Option RuleFault
  notes : List Note

/-- The topic of notes about runs. -/
def extractTopic : String := "helm_dump::extract"

/-- The topic of notes about patches. -/
def patchTopic : String := "helm_dump::patch"

namespace Application

/-- What is said of a value that gave way. -/
def replacedNote (document key literal : String) (previous : Value) : Note :=
  ⟨.warn, extractTopic, document ++ ": values key " ++ key ++ " replaced (" ++ previous.json ++ " -> "
    ++ Text.quoted literal ++ ")"⟩

/-- What is said of a patch. -/
def patchNote (patch : Rewrite.Patch) : Note :=
  ⟨.debug, patchTopic, patch.path ++ ": bytes " ++ toString patch.keep ++ ".." ++ toString patch.resume⟩

/-- The application of a rule to a decoded document, from a store and the patches planned so far. -/
def run (document : Manifest) (object : Value) (tree : Yaml.Layout.Tree) (rule : ReadyRule)
    (store : Store) (plan : Rewrite.Plan) : Application :=
  let refuse (stage : Stage) (failure : Failure) : Application :=
    ⟨store, plan, some ⟨stage, failure, none⟩, []⟩
  match object.locate rule.path with
  | .error fault => refuse .read (.unlocated rule.path fault)
  | .ok (concrete, value) =>
    let literal := value.render
    match rule.template.render object with
    | .error fault => refuse .render (.template fault)
    | .ok key =>
      match store.put key literal document.name with
      | .error failure => refuse .store failure
      | .ok (store, previous) =>
        let said := (previous.map (replacedNote document.name key literal)).toList
        match Rewrite.patchesAt tree document.raw concrete with
        | .error fault => ⟨store, plan, some ⟨.find, .unmatched fault, some key⟩, said⟩
        | .ok patches =>
          let said := said ++ patches.map patchNote
          match plan.add patches key with
          | .error overlap => ⟨store, plan, some ⟨.plan, .overlap overlap, some key⟩, said⟩
          | .ok plan =>
            let done := document.name ++ ": " ++ concrete.canonical ++ " -> " ++ key
            ⟨store, plan, none, said ++ [⟨.debug, extractTopic, done⟩]⟩

end Application

end ChartLift
