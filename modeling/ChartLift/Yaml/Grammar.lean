import ChartLift.Yaml.Event

/-!
# Grammar

From tokens to events. A stack says what may come next; each step looks at the next token, takes it
or not, and says at most one event. Two dialects share the grammar: they differ in how freely keys
may be left out, and in what directives may do.
-/

namespace ChartLift.Yaml

/-- What the readings of YAML disagree on. -/
structure Dialect where
  /-- Whether a `:` may stand without a key before it. -/
  missingKeys : Bool
  /-- Whether directives are held to the known versions and to distinct tag handles, and may follow
  a document without an explicit end. -/
  strictDirectives : Bool
  /-- Whether only the last tag directive of a document counts. -/
  lastHandleOnly : Bool

/-- What may come next. -/
inductive Expect where
  /-- A document or the end; the first document needs no marker. -/
  | document (first : Bool)
  /-- What follows a document marker. -/
  | content
  | documentEnd
  /-- A node; in a block, and where a sequence may go without indentation. -/
  | node (block indentless : Bool)
  | blockItem
  | indentlessItem
  | blockKey
  | blockValue
  | flowItem (first : Bool)
  /-- The key, value and end of a pair that stands alone in a flow sequence. -/
  | pairKey
  | pairValue
  | pairEnd
  | flowKey (first : Bool)
  /-- The value of a flow mapping's key; none where the key stands alone. -/
  | flowValue (absent : Bool)
  deriving DecidableEq, Repr

/-- Where the reading of a token list stands. -/
structure Reading where
  tokens : List Token
  /-- How far the text has been read for the tokens looked at so far. -/
  reached : Nat
  expects : List Expect
  /-- The tag handles that directives declare. -/
  handles : List (String × String)
  /-- The anchors seen in the document. -/
  anchors : List String

/-- One step: at most one event, and the reading after it. -/
abbrev Step := Option (Option Event × Reading)

namespace Reading

/-- Says an event. -/
def say (r : Reading) (kind : EventKind) (place : Nat) : Step :=
  some (some ⟨kind, place⟩, r)

/-- Goes on without an event. -/
def silent (r : Reading) : Step := some (none, r)

/-- Takes the next token. -/
def take (r : Reading) : Reading := { r with tokens := r.tokens.tail }

/-- Puts expectations on top of the stack. -/
def expect (r : Reading) (more : List Expect) : Reading := { r with expects := more ++ r.expects }

/-- Looks at the next token; without one the text is malformed here. -/
def look (r : Reading) (next : Token → Reading → Step) : Step :=
  match r.tokens with
  | [] => none
  | token :: _ => next token { r with reached := token.reached }

/-- A scalar that is not written. -/
def absent (r : Reading) (place : Nat) : Step :=
  r.say (.scalar "" .plain none none) place

end Reading

/-- Handles of the shape `!name!`. -/
def isNamedHandle (handle : String) : Bool :=
  let chars := handle.toList
  decide (2 ≤ chars.length) && chars.head? == some '!' && chars.getLast? == some '!'

/-- The full tag that a handle and a suffix write. -/
def resolveTag (handles : List (String × String)) (handle suffix : String) : Option String :=
  if handle = "" then some suffix
  else
    match handles.lookup handle with
    | some stem => some (stem ++ suffix)
    | none =>
      if handle = "!!" then some ("tag:yaml.org,2002:" ++ suffix)
      else if isNamedHandle handle then none
      else some (handle ++ suffix)

/-- Reads directives up to the next other token. -/
def directives (dialect : Dialect) (version : Bool) : Reading → Nat → Option Reading
  | _, 0 => none
  | r, fuel + 1 =>
    match r.tokens with
    | [] => none
    | token :: _ =>
      let r := { r with reached := token.reached }
      match token.kind with
      | .versionDirective major minor =>
        if version then none
        else if dialect.strictDirectives && !(major == 1 && (minor == 1 || minor == 2)) then none
        else directives dialect true r.take fuel
      | .tagDirective handle stem =>
        if dialect.strictDirectives && (r.handles.lookup handle).isSome then none
        else
          let known := if dialect.lastHandleOnly then [] else r.handles
          directives dialect version { r.take with handles := (handle, stem) :: known } fuel
      | _ => some r

/-- A document behind its directives and marker. -/
def markedDocument (dialect : Dialect) (r : Reading) : Step :=
  match directives dialect false r (r.tokens.length + 1) with
  | none => none
  | some r =>
    r.look fun token r =>
      match token.kind with
      | .documentStart => (r.take.expect [.content, .documentEnd]).say .documentStart token.start
      | _ => none

/-- Tokens that may not start a document's content. -/
def endsContent : TokenKind → Bool
  | .versionDirective .. | .tagDirective .. | .documentStart | .documentEnd | .streamEnd => true
  | _ => false

/-- Reading without the document ends that stand before the next document. -/
def skipDocumentEnds (r : Reading) : Reading :=
  { r with tokens := r.tokens.dropWhile (·.kind == .documentEnd) }

/-- A document or the end of the stream. -/
def documentStep (dialect : Dialect) (first : Bool) (r : Reading) : Step :=
  let r := if first && dialect.strictDirectives then r else skipDocumentEnds r
  let r := { r with handles := [], anchors := [] }
  r.look fun token r =>
    match token.kind with
    | .streamEnd => r.take.say .streamEnd token.start
    | .versionDirective .. | .tagDirective .. | .documentStart => markedDocument dialect r
    | _ =>
      if first then (r.expect [.node true false, .documentEnd]).say .documentStart token.start
      else none

/-- The end of a document. -/
def documentEndStep (dialect : Dialect) (r : Reading) : Step :=
  r.look fun token r =>
    match token.kind with
    | .documentEnd => (r.take.expect [.document (!dialect.strictDirectives)]).say .documentEnd token.start
    | .versionDirective .. | .tagDirective .. =>
      if dialect.strictDirectives then (r.expect [.document false]).say .documentEnd token.start
      else none
    | _ => (r.expect [.document false]).say .documentEnd token.start

/-- The properties before a node: an anchor and a tag, in either order. -/
def properties (r : Reading) : Option (Option String × Option (String × String) × Reading) :=
  match r.tokens with
  | ⟨.anchor name, _, _⟩ :: ⟨.tag handle suffix, _, reached⟩ :: rest =>
    some (some name, some (handle, suffix), { r with tokens := rest, reached := reached })
  | ⟨.anchor name, _, reached⟩ :: rest =>
    some (some name, none, { r with tokens := rest, reached := reached })
  | ⟨.tag handle suffix, _, _⟩ :: ⟨.anchor name, _, reached⟩ :: rest =>
    some (some name, some (handle, suffix), { r with tokens := rest, reached := reached })
  | ⟨.tag handle suffix, _, reached⟩ :: rest =>
    some (none, some (handle, suffix), { r with tokens := rest, reached := reached })
  | _ => some (none, none, r)

/-- A node that is no alias, behind its properties. -/
def contentStep (block indentless : Bool) (tag anchor : Option String) (r : Reading) : Step :=
  r.look fun token r =>
    match token.kind with
    | .blockEntry =>
      if indentless then (r.expect [.indentlessItem]).say (.sequenceStart tag anchor) token.start
      else if tag.isSome || anchor.isSome then r.say (.scalar "" .plain tag anchor) token.start
      else none
    | .scalar text style =>
      let tag := if tag = some "!" then none else tag
      r.take.say (.scalar text style tag anchor) token.start
    | .flowSequenceStart =>
      (r.take.expect [.flowItem true]).say (.sequenceStart tag anchor) token.start
    | .flowMappingStart =>
      (r.take.expect [.flowKey true]).say (.mappingStart tag anchor) token.start
    | .blockSequenceStart =>
      if block then (r.take.expect [.blockItem]).say (.sequenceStart tag anchor) token.start
      else if tag.isSome || anchor.isSome then r.say (.scalar "" .plain tag anchor) token.start
      else none
    | .blockMappingStart =>
      if block then (r.take.expect [.blockKey]).say (.mappingStart tag anchor) token.start
      else if tag.isSome || anchor.isSome then r.say (.scalar "" .plain tag anchor) token.start
      else none
    | _ =>
      if tag.isSome || anchor.isSome then r.say (.scalar "" .plain tag anchor) token.start else none

/-- A node. -/
def nodeStep (block indentless : Bool) (r : Reading) : Step :=
  r.look fun token r =>
    match token.kind with
    | .alias name =>
      if r.anchors.contains name then r.take.say (.alias name) token.start else none
    | _ =>
      match properties r with
      | none => none
      | some (anchor, shorthand, r) =>
        let r := { r with anchors := anchor.toList ++ r.anchors }
        match shorthand with
        | none => contentStep block indentless none anchor r
        | some (handle, suffix) =>
          match resolveTag r.handles handle suffix with
          | none => none
          | some tag => contentStep block indentless (some tag) anchor r

/-- An item of a block sequence, or its end. -/
def blockItemStep (r : Reading) : Step :=
  r.look fun token r =>
    match token.kind with
    | .blockEntry =>
      r.take.look fun next r =>
        match next.kind with
        | .blockEntry | .blockEnd => (r.expect [.blockItem]).absent next.start
        | _ => (r.expect [.node true false, .blockItem]).silent
    | .blockEnd => r.take.say .sequenceEnd token.start
    | _ => none

/-- An item of a sequence without indentation, or its end. -/
def indentlessItemStep (r : Reading) : Step :=
  r.look fun token r =>
    match token.kind with
    | .blockEntry =>
      r.take.look fun next r =>
        match next.kind with
        | .blockEntry | .key | .value | .blockEnd =>
          (r.expect [.indentlessItem]).absent next.start
        | _ => (r.expect [.node true false, .indentlessItem]).silent
    | _ => r.say .sequenceEnd token.start

/-- A key of a block mapping, or its end. -/
def blockKeyStep (dialect : Dialect) (r : Reading) : Step :=
  r.look fun token r =>
    match token.kind with
    | .key =>
      r.take.look fun next r =>
        match next.kind with
        | .key | .value | .blockEnd => (r.expect [.blockValue]).absent next.start
        | _ => (r.expect [.node true true, .blockValue]).silent
    | .value =>
      if dialect.missingKeys then (r.expect [.blockValue]).absent token.start else none
    | .blockEnd => r.take.say .mappingEnd token.start
    | _ => none

/-- A value of a block mapping. -/
def blockValueStep (r : Reading) : Step :=
  r.look fun token r =>
    match token.kind with
    | .value =>
      r.take.look fun next r =>
        match next.kind with
        | .key | .value | .blockEnd => (r.expect [.blockKey]).absent next.start
        | _ => (r.expect [.node true true, .blockKey]).silent
    | _ => (r.expect [.blockKey]).absent token.start

/-- The comma before every item or key but the first; a closing bracket needs none. -/
def behindComma (first : Bool) (close : TokenKind) (r : Reading) (next : Token → Reading → Step) :
    Step :=
  r.look fun token r =>
    if first || token.kind == close then next token r
    else if token.kind == .flowEntry then r.take.look next
    else none

/-- An item of a flow sequence, or its end. -/
def flowItemStep (first : Bool) (r : Reading) : Step :=
  behindComma first .flowSequenceEnd r fun token r =>
    match token.kind with
    | .flowSequenceEnd => r.take.say .sequenceEnd token.start
    | .key => (r.take.expect [.pairKey, .flowItem false]).say (.mappingStart none none) token.start
    | _ => (r.expect [.node false false, .flowItem false]).silent

/-- The key of a pair that stands alone in a flow sequence; a key that is not written takes the next
token with it. -/
def pairKeyStep (r : Reading) : Step :=
  r.look fun token r =>
    match token.kind with
    | .value | .flowEntry | .flowSequenceEnd => (r.take.expect [.pairValue]).absent token.start
    | _ => (r.expect [.node false false, .pairValue]).silent

/-- The value of a pair that stands alone in a flow sequence. -/
def pairValueStep (r : Reading) : Step :=
  r.look fun token r =>
    match token.kind with
    | .value =>
      r.take.look fun next r =>
        match next.kind with
        | .flowEntry | .flowSequenceEnd => (r.expect [.pairEnd]).absent next.start
        | _ => (r.expect [.node false false, .pairEnd]).silent
    | _ => (r.expect [.pairEnd]).absent token.start

/-- A key of a flow mapping, or its end, which lies at the comma where one stands before it. -/
def flowKeyStep (dialect : Dialect) (first : Bool) (r : Reading) : Step :=
  r.look fun early r =>
    behindComma first .flowMappingEnd r fun token r =>
      match token.kind with
      | .flowMappingEnd => r.take.say .mappingEnd early.start
      | .key =>
        r.take.look fun next r =>
          match next.kind with
          | .value | .flowEntry | .flowMappingEnd =>
            (r.expect [.flowValue false]).absent next.start
          | _ => (r.expect [.node false false, .flowValue false]).silent
      | .value =>
        if dialect.missingKeys then (r.expect [.flowValue false]).absent token.start
        else (r.expect [.node false false, .flowValue true]).silent
      | _ => (r.expect [.node false false, .flowValue true]).silent

/-- A value of a flow mapping. -/
def flowValueStep (absent : Bool) (r : Reading) : Step :=
  r.look fun token r =>
    let r := r.expect [.flowKey false]
    if absent then r.absent token.start
    else
      match token.kind with
      | .value =>
        r.take.look fun next r =>
          match next.kind with
          | .flowEntry | .flowMappingEnd => r.absent token.start
          | _ => (r.expect [.node false false]).silent
      | _ => r.absent token.start

/-- The step that an expectation asks for. -/
def step (dialect : Dialect) (expected : Expect) (r : Reading) : Step :=
  match expected with
  | .document first => documentStep dialect first r
  | .content =>
    r.look fun token r =>
      if endsContent token.kind then r.absent token.start
      else (r.expect [.node true false]).silent
  | .documentEnd => documentEndStep dialect r
  | .node block indentless => nodeStep block indentless r
  | .blockItem => blockItemStep r
  | .indentlessItem => indentlessItemStep r
  | .blockKey => blockKeyStep dialect r
  | .blockValue => blockValueStep r
  | .flowItem first => flowItemStep first r
  | .pairKey => pairKeyStep r
  | .pairValue => pairValueStep r
  | .pairEnd => r.say .mappingEnd r.reached
  | .flowKey first => flowKeyStep dialect first r
  | .flowValue absent => flowValueStep absent r

/-- The events that follow, for at most `fuel` steps. -/
def run (dialect : Dialect) : Nat → Reading → EventStream
  | 0, _ => ⟨[], true⟩
  | fuel + 1, r =>
    match r.expects with
    | [] => ⟨[], false⟩
    | expected :: expects =>
      match step dialect expected { r with expects := expects } with
      | none => ⟨[], true⟩
      | some (said, r) =>
        let later := run dialect fuel r
        ⟨said.toList ++ later.events, later.broken⟩

/-- The events that tokens say. The number of steps is bounded, since between two tokens only a few
expectations are met or put up. -/
def TokenStream.events (dialect : Dialect) (stream : TokenStream) : EventStream :=
  let tokens := stream.tokens.dropWhile (·.kind == .streamStart)
  run dialect (8 * (tokens.length + 4)) ⟨tokens, 0, [.document true], [], []⟩

end ChartLift.Yaml
