import ChartLift.Yaml.Token

/-!
# Events

The nodes of a YAML stream as a sequence of events, each with its place in the text.
-/

namespace ChartLift.Yaml

/-- What an event says. -/
inductive EventKind where
  | documentStart
  | documentEnd
  | streamEnd
  | alias (name : String)
  | scalar (text : String) (style : ScalarStyle) (tag anchor : Option String)
  | sequenceStart (tag anchor : Option String)
  | sequenceEnd
  | mappingStart (tag anchor : Option String)
  | mappingEnd
  deriving DecidableEq, Repr

/-- An event and how many characters stand before its place. -/
structure Event where
  kind : EventKind
  place : Nat
  deriving DecidableEq, Repr

/-- The events of a text, up to its end or to the first place that is malformed. -/
structure EventStream where
  events : List Event
  /-- Whether the text is malformed behind the last event. -/
  broken : Bool
  deriving Repr

end ChartLift.Yaml
