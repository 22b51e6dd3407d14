import ChartLift.Log.Basic
import ChartLift.Text.Split
import ChartLift.TextPattern.Reading

/-!
# Log filters

Which notes are shown. A filter is a list of directives, each of which gives the lightest level that
is shown for the topics that begin with a name. Of the directives for a topic the one with the
longest name decides.
-/

namespace ChartLift.Log

/-- The lightest level that is shown; nothing is where there is none. -/
abbrev Threshold := Option Level

/-- A rule on what is shown. -/
structure Directive where
  /-- What the topics begin with that it is about; it is about all of them where nothing is said. -/
  name : Option String
  threshold : Threshold
  deriving DecidableEq, Repr

/-- Which notes are shown. -/
structure Filter where
  directives : List Directive
  /-- What the text of a note must contain. -/
  wanted : Option TextPattern

/-- What is shown if it is asked for more often. -/
def levelFor (verbosity : Nat) : Level :=
  match verbosity with
  | 0 => .warn
  | 1 => .info
  | 2 => .debug
  | _ => .trace

/-- The threshold that a word stands for, in letters of either case. -/
def thresholdOf? (word : String) : Option Threshold :=
  let capitals := String.ofList (word.toList.map Char.toUpper)
  if capitals = "OFF" then some none
  else (Level.all.find? (·.label == capitals)).map some

/-- A directive from its text, or what is wrong with it. -/
def directive (text : String) : Except String Directive :=
  match (Text.splitAt '=' text.toList).map String.ofList with
  | [word] =>
    match thresholdOf? word with
    | some threshold => .ok ⟨none, threshold⟩
    | none => .ok ⟨some word, some .trace⟩
  | [name, word] =>
    let word := String.ofList (Text.trim word.toList)
    if word.isEmpty then .ok ⟨some name, some .trace⟩
    else
      match thresholdOf? word with
      | some threshold => .ok ⟨some name, threshold⟩
      | none => .error ("invalid logging spec '" ++ word ++ "'")
  | _ => .error ("invalid logging spec '" ++ text ++ "'")

/-- Directives with another one; it takes the place of the one of its name. -/
def place (directives : List Directive) (new : Directive) : List Directive :=
  if directives.any (·.name == new.name) then
    directives.map fun old => if old.name = new.name then new else old
  else directives ++ [new]

namespace Filter

/-- The filter that shows all notes down to a level. -/
def ofLevel (level : Level) : Filter := ⟨[⟨none, some level⟩], none⟩

/-- The pattern behind the slash of a specification, and what is wrong with it. -/
def readWanted (text : Option (List Char)) : Option TextPattern × List String :=
  match text with
  | none => (none, [])
  | some text =>
    match TextPattern.read? text with
    | some pattern => (some pattern, [])
    | none => (none, ["invalid regex filter - regex parse error"])

/-- A filter with what a specification says besides, and what is wrong with the specification. -/
def refine (filter : Filter) (spec : String) : Filter × List String :=
  match Text.splitAt '/' spec.toList with
  | [] => (filter, [])
  | _ :: _ :: _ :: _ => (filter, ["invalid logging spec '" ++ spec ++ "' (too many '/'s)"])
  | directives :: rest =>
    let texts := ((Text.splitAt ',' directives).map Text.trim).filter (!·.isEmpty)
    let read := texts.map fun text => directive (String.ofList text)
    let good := read.filterMap Except.toOption
    let faults := read.filterMap fun one => match one with
      | .ok _ => none
      | .error fault => some fault
    let (pattern, patternFaults) := readWanted rest.head?
    (⟨good.foldl place filter.directives, pattern⟩, faults ++ patternFaults)

/-- How long the name of a directive is. -/
def nameLength (directive : Directive) : Nat := (directive.name.map (·.utf8ByteSize)).getD 0

/-- Whether a directive is about a topic. -/
def concerns (topic : String) (directive : Directive) : Bool :=
  directive.name.all fun name => name.toList.isPrefixOf topic.toList

/-- The directive that decides about a topic: the one with the longest name, of equally long ones
the last. -/
def deciding? (filter : Filter) (topic : String) : Option Directive :=
  (filter.directives.filter (concerns topic)).foldl (fun best directive =>
    match best with
    | none => some directive
    | some other => if nameLength directive < nameLength other then some other else some directive) none

/-- Whether a note is shown. -/
def shows (filter : Filter) (note : Note) : Bool :=
  let loud := match filter.deciding? note.topic with
    | some ⟨_, some level⟩ => decide (note.level.rank ≤ level.rank)
    | _ => false
  loud && filter.wanted.all fun pattern => pattern.isWithin note.text.toList

end Filter

end ChartLift.Log
