import ChartLift.Glob.Matching
import ChartLift.Log.Basic
import ChartLift.Text.Quoted

/-!
# Sets of patterns

Patterns that are tried together. What is said about a set counts its patterns by their shapes.
-/

namespace ChartLift.Glob

/-- The shape of a pattern, with the text that it takes for granted. -/
inductive Shape where
  /-- One file name in any directory. -/
  | fileName (text : String)
  /-- One name. -/
  | whole (text : String)
  /-- Any name with an extension. -/
  | extension (text : String)
  /-- Any name that begins with a text. -/
  | beginning (text : String)
  /-- Any name that ends with a text; `part` tells that it does so as whole parts. -/
  | ending (text : String) (part : Bool)
  /-- A pattern that ends with an extension. -/
  | withExtension (text : String)
  | general
  deriving DecidableEq, Repr

/-- The text of tokens that are all literal. -/
def literals? (tokens : List GlobToken) : Option (List Char) :=
  tokens.mapM fun token => match token with
    | .literal c => some c
    | _ => none

/-- A text, unless it is empty. -/
def nonempty? (text : List Char) : Option String :=
  if text.isEmpty then none else some (String.ofList text)

/-- A file name behind any directories. -/
def fileName? : List GlobToken → Option String
  | .leading :: tokens =>
    (literals? tokens).bind fun text => if text.contains '/' then none else nonempty? text
  | _ => none

/-- An extension behind anything. -/
def extension? (tokens : List GlobToken) : Option String :=
  let tokens := match tokens with
    | .leading :: rest => rest
    | tokens => tokens
  match tokens with
  | .many :: .literal '.' :: rest =>
    (literals? rest).bind fun text =>
      if text.contains '.' || text.contains '/' then none else some (String.ofList ('.' :: text))
  | _ => none

/-- A beginning before anything. -/
def beginning? (tokens : List GlobToken) : Option String :=
  match tokens.getLast? with
  | some .many => (literals? tokens.dropLast).bind nonempty?
  | some .trailing => (literals? tokens.dropLast).map fun text => String.ofList (text ++ ['/'])
  | _ => (literals? tokens).bind nonempty?

/-- An ending behind anything, and whether it is made of whole parts. -/
def ending? (tokens : List GlobToken) : Option (String × Bool) :=
  let (before, whole, tokens) : List Char × Bool × List GlobToken := match tokens with
    | .leading :: .literal c :: rest => (['/'], true, .literal c :: rest)
    | .leading :: rest => ([], false, rest)
    | tokens => ([], false, tokens)
  let rest? := match tokens with
    | [] => none
    | .many :: rest => some rest
    | tokens => some tokens
  match rest?.bind literals? with
  | none => none
  | some text =>
    let text := before ++ text
    if text.isEmpty || text = ['/'] then none else some (String.ofList text, whole)

/-- An extension at the end. -/
def withExtension? (tokens : List GlobToken) : Option String :=
  let last := tokens.reverse.takeWhile fun token => match token with
    | .literal '.' => false
    | .literal '/' => false
    | .literal _ => true
    | _ => false
  match tokens.reverse.drop last.length with
  | .literal '.' :: _ => (literals? last.reverse).map fun text => String.ofList ('.' :: text)
  | _ => none

/-- The shape of a pattern. -/
def shape (glob : Glob) : Shape :=
  let tokens := glob.tokens
  match fileName? tokens, (literals? tokens).bind nonempty?, extension? tokens, beginning? tokens,
      ending? tokens, withExtension? tokens with
  | some text, _, _, _, _, _ => .fileName text
  | _, some text, _, _, _, _ => .whole text
  | _, _, some text, _, _, _ => .extension text
  | _, _, _, some text, _, _ => .beginning text
  | _, _, _, _, some (text, part), _ => .ending text part
  | _, _, _, _, _, some text => .withExtension text
  | _, _, _, _, _, _ => .general

/-- The topic of notes about patterns. -/
def topic : String := "globset"

/-- What is said about a set of patterns. -/
def setNotes (globs : List Glob) : List Note :=
  if globs.isEmpty then []
  else
    let shapes := globs.map shape
    let count (select : Shape → Option String) : String := toString (shapes.filterMap select).length
    let countTexts (select : Shape → Option String) : String :=
      toString (shapes.filterMap select).eraseDups.length
    let converted := globs.filterMap fun glob =>
      if shape glob = .general then
        some ⟨.debug, topic, "glob converted to regex: Glob(" ++ Text.quoted glob.source ++ ")"⟩
      else none
    let wholes := countTexts fun s => match s with
      | .whole text => some text
      | .ending text true => some (String.ofList (text.toList.drop 1))
      | _ => none
    let fileNames := countTexts fun s => match s with
      | .fileName text => some text
      | _ => none
    let extensions := countTexts fun s => match s with
      | .extension text => some text
      | _ => none
    let beginnings := count fun s => match s with
      | .beginning text => some text
      | _ => none
    let endings := count fun s => match s with
      | .ending text _ => some text
      | _ => none
    let withExtensions := countTexts fun s => match s with
      | .withExtension text => some text
      | _ => none
    let generals := count fun s => match s with
      | .general => some ""
      | _ => none
    let text := "built glob set; " ++ wholes ++ " literals, " ++ fileNames ++ " basenames, "
      ++ extensions ++ " extensions, " ++ beginnings ++ " prefixes, " ++ endings ++ " suffixes, "
      ++ withExtensions ++ " required extensions, " ++ generals ++ " regexes"
    converted ++ [⟨.debug, topic, text⟩]

/-- Reads patterns, up to the first one that is malformed. -/
def readAll : List String → Except (String × GlobFault) (List Glob)
  | [] => .ok []
  | source :: rest =>
    match read source, readAll rest with
    | .error fault, _ => .error (source, fault)
    | _, .error fault => .error fault
    | .ok glob, .ok globs => .ok (glob :: globs)

/-- Whether one of some patterns matches a name. -/
def anyMatch (globs : List Glob) (name : String) : Bool := globs.any (·.isMatch name)

end ChartLift.Glob
