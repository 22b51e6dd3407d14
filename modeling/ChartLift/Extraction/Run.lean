import ChartLift.Extraction.Application

/-!
# Runs

A run takes documents one after the other through the same store. All patches of a document are
planned against the bytes it came with and applied together. A rule that fails is recorded, and
neither the other rules nor the other documents fail with it.
-/

namespace ChartLift

/-- The usual name of the document that the values are written to. -/
def valuesName : String := "values.yaml"

/-- What a run may choose. -/
structure RunOptions where
  /-- Whether a path without an entry is only worth a warning. -/
  lenient : Bool
  /-- The name of the document that the values are written to. -/
  valuesName : String
  deriving DecidableEq, Repr, Inhabited

/-- Rules that are ready to run, and what is on record about those that are not. -/
structure Extractor where
  rules : List ReadyRule
  rejected : List Diagnostic
  options : RunOptions

/-- What became of a document. -/
structure Treated where
  document : Manifest
  state : DocumentState
  diagnostics : List Diagnostic
  warnings : List Diagnostic
  notes : List Note

/-- What came of a run. -/
structure Outcome where
  /-- The documents in their order, rewritten or as they were. -/
  documents : List Manifest
  valuesDocument : Manifest
  values : ValuesTree
  report : Report
  notes : List Note

namespace Extractor

/-- Makes rules ready. A rule whose path or template is malformed takes part in no document. -/
def ofRules (rules : List Rule) (options : RunOptions) : Extractor :=
  { rules := rules.filterMap fun rule => rule.ready.toOption
    rejected := rules.filterMap fun rule => match rule.ready with
      | .ok _ => none
      | .error failure => some ⟨.compile, none, some rule.display, failure, none⟩
    options := options }

/-- What is said of the rules that are not ready. -/
def rejectionNotes (extractor : Extractor) : List Note :=
  extractor.rejected.map fun diagnostic =>
    let rule := diagnostic.rule.getD ""
    ⟨.warn, extractTopic, "rule " ++ rule ++ " rejected: " ++ diagnostic.failure.message⟩

/-- Whether a failure is only worth a warning. -/
def tolerates (options : RunOptions) : Failure → Bool
  | .unmatched (.notFound _) => options.lenient
  | _ => false

/-- What the rules did to one document. -/
structure Rewriting where
  store : Store
  plan : Rewrite.Plan
  /-- What is on record about the rules that failed, in their order. -/
  faults : List Diagnostic
  notes : List Note

/-- Applies rules to a document one after the other. -/
def applyAll (options : RunOptions) (document : Manifest) (object : Value) (tree : Yaml.Layout.Tree) :
    List ReadyRule → Store → Rewrite.Plan → Rewriting
  | [], store, plan => ⟨store, plan, [], []⟩
  | rule :: rules, store, plan =>
    let applied := Application.run document object tree rule store plan
    let rest := applyAll options document object tree rules applied.store applied.plan
    match applied.fault with
    | none => { rest with notes := applied.notes ++ rest.notes }
    | some fault =>
      let diagnostic : Diagnostic :=
        ⟨fault.stage, some document.name, some rule.rule.display, fault.failure, fault.orphan⟩
      let level := if tolerates options fault.failure then Level.warn else Level.error
      let said : Note := ⟨level, extractTopic, diagnostic.display⟩
      { rest with faults := diagnostic :: rest.faults, notes := applied.notes ++ said :: rest.notes }

/-- Why a document is left alone by its name. -/
def skipReason? (document : Manifest) : Option SkipReason :=
  if document.isInternal then some .internal
  else if !document.isYaml then some .notYaml
  else none

/-- A document that cannot be read: it stays as it is, and the failure is on record. -/
def unreadable (document : Manifest) (stage : Stage) (failure : Failure) : Treated :=
  { document := document
    state := .skipped .undecodable
    diagnostics := [⟨stage, some document.name, none, failure, none⟩]
    warnings := []
    notes := [⟨.warn, extractTopic, document.name ++ ": " ++ failure.message⟩] }

/-- A document with its plan applied. -/
def rewrite (document : Manifest) (plan : Rewrite.Plan) : Manifest :=
  if plan.size = 0 then document else ⟨document.name, plan.apply document.raw⟩

/-- Takes one document through a run. -/
def treat (extractor : Extractor) (document : Manifest) (store : Store) : Store × Treated :=
  match skipReason? document with
  | some reason =>
    let said := document.name ++ ": skipped (" ++ reason.name ++ ")"
    (store, ⟨document, .skipped reason, [], [], [⟨.debug, extractTopic, said⟩]⟩)
  | none =>
    match document.decode with
    | .error fault => (store, unreadable document .decode (.decode fault))
    | .ok decoded =>
      let selecting := extractor.rules.filter (·.rule.selects decoded.selector)
      if selecting.isEmpty then (store, ⟨document, .unmatched, [], [], []⟩)
      else
        match decoded.tree? with
        | none => (store, unreadable document .parse .unindexed)
        | some tree =>
          let done := applyAll extractor.options document decoded.object tree selecting store .empty
          let isWarning (diagnostic : Diagnostic) : Bool :=
            tolerates extractor.options diagnostic.failure
          let diagnostics := done.faults.filter fun diagnostic => !isWarning diagnostic
          let said : List Note :=
            if done.plan.size = 0 then []
            else [⟨.debug, extractTopic,
              document.name ++ ": applying " ++ toString done.plan.size ++ " patches"⟩]
          (done.store,
            { document := rewrite document done.plan
              state := .rewritten done.plan.size diagnostics.length
              diagnostics := diagnostics
              warnings := done.faults.filter isWarning
              notes := done.notes ++ said })

/-- Takes documents through a run, one after the other. -/
def treatAll (extractor : Extractor) : List Manifest → Store → Store × List Treated
  | [], store => (store, [])
  | document :: documents, store =>
    let (store, treated) := extractor.treat document store
    let (store, rest) := treatAll extractor documents store
    (store, treated :: rest)

/-- Runs over documents, from the values there are already. -/
def run (extractor : Extractor) (documents : List Manifest) (values : ValuesTree) : Outcome :=
  let (store, treated) := extractor.treatAll documents (.ofValues values)
  let report : Report :=
    { documents := treated.map fun one => (one.document.name, one.state)
      diagnostics := extractor.rejected ++ treated.flatMap (·.diagnostics)
      warnings := treated.flatMap (·.warnings) }
  let said := toString store.values.size ++ " values extracted, " ++ toString report.rewrittenCount
    ++ " documents rewritten"
  { documents := treated.map (·.document)
    valuesDocument := ⟨extractor.options.valuesName, Text.bytes store.values.document⟩
    values := store.values
    report := report
    notes := treated.flatMap (·.notes) ++ [⟨.info, extractTopic, said⟩] }

end Extractor

end ChartLift
