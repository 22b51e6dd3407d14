import ChartLift.Cache.Basic
import ChartLift.Chart.Basic

/-!
# Pristine templates

The templates of a chart with the bytes that the cache keeps of them, so that a run always begins
with what was there before the first one. What a rule never applies to is not cached, and a template
that cannot be cached is taken as it is.
-/

namespace ChartLift

/-- What came of looking up templates: the files as they are now, what was said, and the templates.
-/
structure Pristine where
  files : FileTree
  notes : List Note
  templates : List Manifest

namespace Cache

/-- Whether a template is looked up at all. -/
def covers (template : Manifest) : Bool := !template.isInternal && template.isYaml

/-- One template with its cached bytes. -/
def pristine (cache : Cache) (template : Manifest) (files : FileTree) : FileTree × List Note × Manifest :=
  if covers template then
    let fetched := cache.fetch template.name template.raw files
    match fetched.data with
    | .ok data => (fetched.files, fetched.notes, { template with raw := data })
    | .error fault =>
      (fetched.files, fetched.notes ++ [⟨.warn, topic, fault.explanation⟩], template)
  else (files, [], template)

/-- Templates with their cached bytes, one after the other. -/
def pristineAll (cache : Cache) : List Manifest → FileTree → Pristine
  | [], files => ⟨files, [], []⟩
  | template :: rest, files =>
    let (files, notes, template) := cache.pristine template files
    let others := cache.pristineAll rest files
    ⟨others.files, notes ++ others.notes, template :: others.templates⟩

end Cache

end ChartLift
