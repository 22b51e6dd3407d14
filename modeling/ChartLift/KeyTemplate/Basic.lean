import ChartLift.Value.Json
import ChartLift.Text.Quoted

/-!
# Key templates

A key template names the values key of an object: literal text with actions in it. An action is a
pipeline: an argument or a call, whose result each further call takes as its last argument. The only
function is `resourceName`.
-/

namespace ChartLift

/-- What keeps a template from being read or rendered. -/
inductive TemplateFault where
  /-- An action that does not end. -/
  | unclosedAction (source : String)
  /-- A closing delimiter behind the last action. -/
  | strayClose (source : String)
  /-- An action with nothing in it. -/
  | emptyAction
  /-- Nothing before, between or behind pipes. -/
  | missingCommand (body : String)
  /-- A second operand, or a pipe, where the first operand is no function. -/
  | argumentToNonFunction (body : String)
  /-- A function among the arguments. -/
  | nestedCall (body : String)
  /-- A quoted text that does not end. -/
  | unclosedText
  /-- A backslash at the end of an action. -/
  | danglingEscape
  /-- A text between backquotes that does not end. -/
  | unclosedRawText
  /-- A field chain with something that is no identifier. -/
  | badChain (word : String)
  /-- An identifier that names no function. -/
  | undefinedFunction (name : String)
  /-- A word that is no operand. -/
  | unexpectedWord (word : String)
  /-- A mapping without a field of the chain. -/
  | noEntry (name : String)
  /-- A value that has no fields. -/
  | noFields (name : String) (value : Value)
  /-- A call with none or several arguments. -/
  | argumentCount (count : Nat)

/-- The reason in words. -/
def TemplateFault.message : TemplateFault → String
  | .unclosedAction source => "unclosed action in " ++ Text.quoted source
  | .strayClose source => "unexpected '\x7d\x7d' in " ++ Text.quoted source
  | .emptyAction => "empty action"
  | .missingCommand body => "missing command in " ++ Text.quoted body
  | .argumentToNonFunction body => "can't give argument to non-function in " ++ Text.quoted body
  | .nestedCall body =>
    "nested function calls need parentheses, which are not supported: " ++ Text.quoted body
  | .unclosedText => "unterminated string literal"
  | .danglingEscape => "dangling escape"
  | .unclosedRawText => "unterminated raw string"
  | .badChain word => "bad field chain " ++ Text.quoted word
  | .undefinedFunction name => "function " ++ Text.quoted name ++ " not defined"
  | .unexpectedWord word => "unexpected " ++ Text.quoted word ++ " in action"
  | .noEntry name => "map has no entry for key " ++ Text.quoted name
  | .noFields name value => "can't evaluate field " ++ name ++ " in " ++ value.kindName
  | .argumentCount count =>
    "wrong number of args for resourceName: want 1 got " ++ String.ofList (Text.decimal count)

/-- The annotation that carries the name of a resource. -/
def nameAnnotation : String := "helm-dump/name"

/-- The name of a resource without the annotation. -/
def unknownName : String := "unknown"

/-- The name that an object's annotations record for it. -/
def resourceName (object : Value) : String :=
  match object.get? "metadata" with
  | none => unknownName
  | some metadata =>
    match metadata.get? "annotations" with
    | none => unknownName
    | some annotations =>
      match annotations.get? nameAnnotation with
      | some (.string name) => name
      | _ => unknownName

/-- An argument: a chain of fields that starts at the object, or a literal. -/
inductive Argument where
  | chain (names : List String)
  | literal (value : Value)

/-- A call of `resourceName`. -/
structure Call where
  arguments : List Argument

/-- What an action starts with. -/
inductive Source where
  | argument (argument : Argument)
  | call (call : Call)

/-- A pipeline: each call takes the result before it as its last argument. -/
structure Pipeline where
  source : Source
  calls : List Call

/-- A part of a template. -/
inductive Piece where
  | text (text : String)
  | action (pipeline : Pipeline)

/-- A template as read from its source. -/
structure KeyTemplate where
  source : String
  pieces : List Piece

/-- The value that a chain of fields leads to. -/
def Value.follow (value : Value) : List String → Except TemplateFault Value
  | [] => .ok value
  | name :: rest =>
    match value with
    | .mapping entries =>
      match Entries.find? entries name with
      | some found => Value.follow found rest
      | none => .error (.noEntry name)
    | other => .error (.noFields name other)

/-- The value of an argument. -/
def Argument.eval (object : Value) : Argument → Except TemplateFault Value
  | .literal value => .ok value
  | .chain names => object.follow names

/-- The result of a call, `piped` being what stands before its pipe. -/
def Call.eval (object : Value) (call : Call) (piped : Option Value) : Except TemplateFault Value := do
  let given ← call.arguments.mapM (Argument.eval object)
  match given ++ piped.toList with
  | [value] => .ok (.string (resourceName value))
  | values => .error (.argumentCount values.length)

/-- The result of what an action starts with. -/
def Source.eval (object : Value) : Source → Except TemplateFault Value
  | .argument given => given.eval object
  | .call asked => asked.eval object none

/-- The result of a pipeline. -/
def Pipeline.eval (object : Value) (pipeline : Pipeline) : Except TemplateFault Value := do
  let first ← pipeline.source.eval object
  pipeline.calls.foldlM (fun value call => call.eval object (some value)) first

/-- The text of a part. -/
def Piece.render (object : Value) : Piece → Except TemplateFault String
  | .text written => .ok written
  | .action pipeline => (pipeline.eval object).map Value.render

/-- The key that a template names for an object. -/
def KeyTemplate.render (template : KeyTemplate) (object : Value) : Except TemplateFault String :=
  (template.pieces.mapM (Piece.render object)).map String.join

end ChartLift
