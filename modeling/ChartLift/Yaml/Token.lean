/-!
# Tokens

The tokens of a YAML stream, each with the place where it starts.
-/

namespace ChartLift.Yaml

/-- How a scalar is written. -/
inductive ScalarStyle where
  | plain
  | singleQuoted
  | doubleQuoted
  | block
  deriving DecidableEq, Repr

/-- What a token is. -/
inductive TokenKind where
  | streamStart
  | streamEnd
  | versionDirective (major minor : Nat)
  | tagDirective (handle stem : String)
  | documentStart
  | documentEnd
  | blockSequenceStart
  | blockMappingStart
  | blockEnd
  | flowSequenceStart
  | flowSequenceEnd
  | flowMappingStart
  | flowMappingEnd
  | blockEntry
  | flowEntry
  | key
  | value
  | alias (name : String)
  | anchor (name : String)
  | tag (handle suffix : String)
  | scalar (text : String) (style : ScalarStyle)
  deriving DecidableEq, Repr

/-- A token. -/
structure Token where
  kind : TokenKind
  /-- How many characters stand before it. -/
  start : Nat
  /-- How many characters had been read when it became certain. -/
  reached : Nat
  deriving DecidableEq, Repr

/-- The tokens of a text, up to its end or to the first place that is malformed. -/
structure TokenStream where
  tokens : List Token
  /-- Whether the text is malformed behind the last token. -/
  broken : Bool
  deriving Repr

end ChartLift.Yaml
