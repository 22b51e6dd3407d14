import ChartLift.Text.Split
import ChartLift.Text.Utf8
import ChartLift.Value.Basic
import ChartLift.Yaml.Content.Value
import ChartLift.Yaml.Layout.Node

/-!
# Manifests

The files of a chart, and the object that a manifest decodes to. Rules select manifests by the type
that their first document declares.
-/

namespace ChartLift

open Text (Bytes)

/-- A file: its name within the chart and its bytes. -/
structure Manifest where
  name : String
  raw : Bytes
  deriving DecidableEq, Inhabited

/-- The type of an object. -/
structure TypeSelector where
  apiVersion : String
  kind : String
  deriving DecidableEq, Repr, Inhabited

/-- What keeps a manifest from being decoded. -/
inductive DecodeFault where
  | notUtf8 (fault : Text.Utf8Fault)
  /-- The first document is malformed, or means no value. -/
  | malformed
  | emptyDocument
  | notAMapping
  | noType
  /-- A values document of some other kind than a mapping. -/
  | valuesNotAMapping (kind : String)
  deriving DecidableEq, Repr

/-- What messages say in place of a description of malformed YAML. -/
def malformedYaml : String := "<yaml>"

/-- The reason in words. -/
def DecodeFault.message : DecodeFault → String
  | .notUtf8 fault => "not UTF-8: " ++ fault.message
  | .malformed => malformedYaml
  | .emptyDocument => "empty document"
  | .notAMapping => "top level of a manifest must be a mapping"
  | .noType => "document has no string apiVersion and kind"
  | .valuesNotAMapping kind => "values document must be a mapping, found " ++ kind

/-- The type in words. -/
def TypeSelector.display (selector : TypeSelector) : String :=
  selector.apiVersion ++ "/" ++ selector.kind

/-- The type that an object declares. -/
def Value.typeSelector? (object : Value) : Option TypeSelector :=
  match object.get? "apiVersion", object.get? "kind" with
  | some (.string apiVersion), some (.string kind) => some ⟨apiVersion, kind⟩
  | _, _ => none

namespace Manifest

/-- The name without directories. -/
def baseName (manifest : Manifest) : String :=
  String.ofList ((Text.splitAt '/' manifest.name.toList).getLastD [])

/-- Helpers, whose name begins with an underscore, are never rewritten. -/
def isInternal (manifest : Manifest) : Bool :=
  manifest.baseName.toList.head? == some '_'

/-- Whether the name is that of a YAML file. -/
def isYaml (manifest : Manifest) : Bool :=
  ".yaml".toList.isSuffixOf manifest.name.toList || ".yml".toList.isSuffixOf manifest.name.toList

/-- The object that the first document of a text means. -/
def decodeText (text : List Char) : Except DecodeFault Value :=
  match Yaml.Content.firstValue? text with
  | none => .error .malformed
  | some .null => .error .emptyDocument
  | some (.mapping entries) => .ok (.mapping entries)
  | some _ => .error .notAMapping

/-- A decoded manifest. -/
structure Decoded where
  text : List Char
  object : Value
  selector : TypeSelector

/-- The layout tree of a decoded manifest. -/
def Decoded.tree? (decoded : Decoded) : Option Yaml.Layout.Tree :=
  Yaml.Layout.Tree.ofText? decoded.text

/-- Decodes a manifest. -/
def decode (manifest : Manifest) : Except DecodeFault Decoded :=
  match Text.Utf8.decode manifest.raw with
  | .error fault => .error (.notUtf8 fault)
  | .ok text =>
    match decodeText text with
    | .error fault => .error fault
    | .ok object =>
      match object.typeSelector? with
      | none => .error .noType
      | some selector => .ok ⟨text, object, selector⟩

end Manifest

end ChartLift
