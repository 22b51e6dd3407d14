import ChartLift.KeyTemplate.Basic
import ChartLift.Text.Blank
import ChartLift.Text.Letter
import ChartLift.Text.Split

/-!
# Reading key templates

A source is cut at the leftmost opening delimiter and then the leftmost closing one, again and
again, into texts and action bodies. A dash behind the opening delimiter or before the closing one,
with a blank on its inner side, trims the text next to it. A body between `/*` and `*/` is a
comment.
-/

namespace ChartLift

/-- The texts and action bodies of a source: the text before the first action, then each body with
the text behind it. -/
structure Segmentation where
  lead : List Char
  actions : List (List Char × List Char)
  /-- Whether an opening delimiter behind the last text has no closing one. -/
  unclosed : Bool
  deriving DecidableEq, Repr

/-- Cuts a source into texts and action bodies. -/
def Segmentation.ofSource (source : List Char) : Segmentation :=
  match _h : Text.cutAtDouble '\x7b' source with
  | none => ⟨source, [], false⟩
  | some (text, behind) =>
    match _h2 : Text.cutAtDouble '\x7d' behind with
    | none => ⟨text, [], true⟩
    | some (body, rest) =>
      let tail := ofSource rest
      ⟨text, (body, tail.lead) :: tail.actions, tail.unclosed⟩
termination_by source.length
decreasing_by
  have := Text.cutAtDouble_length _h
  have := Text.cutAtDouble_length _h2
  omega

namespace Segmentation

/-- Whether a body asks for the text before it to be trimmed. -/
def trimsBefore : List Char → Bool
  | '-' :: c :: _ => Text.isBlank c
  | _ => false

/-- A body without its opening trim marker. -/
def withoutOpeningMarker (body : List Char) : List Char :=
  if trimsBefore body then body.drop 1 else body

/-- Whether a body, its opening trim marker aside, asks for the text behind it to be trimmed. -/
def trimsBehind (body : List Char) : Bool :=
  trimsBefore (withoutOpeningMarker body).reverse

/-- A body without its trim markers and the blanks around it. -/
def bareBody (body : List Char) : List Char :=
  let opened := withoutOpeningMarker body
  Text.trim (if trimsBehind body then opened.dropLast else opened)

/-- Whether a bare body is a comment. -/
def isComment : List Char → Bool
  | '/' :: '*' :: rest =>
    match rest.reverse with
    | '/' :: '*' :: _ => true
    | _ => false
  | _ => false

/-- A text, trimmed at its start or its end as the actions next to it ask. -/
def trimText (atStart atEnd : Bool) (text : List Char) : List Char :=
  let started := if atStart then Text.trimLeft text else text
  if atEnd then Text.trimRight started else started

end Segmentation

/-- A word of an action. -/
inductive Operand where
  | argument (argument : Argument)
  | resourceName

/-- What an action is made of. -/
inductive ActionToken where
  | pipe
  | operand (operand : Operand)

namespace KeyTemplate

/-- Letters and underscores start an identifier, numerals may follow. -/
def isIdentifier : List Char → Bool
  | [] => false
  | c :: rest =>
    (Text.isLetter c || c == '_') && rest.all fun c => Text.isLetterOrNumeral c || c == '_'

/-- The fields behind the first dot of a chain, which may have a dollar sign before it. -/
def chainBody? : List Char → Option (List Char)
  | '$' :: '.' :: rest => some rest
  | '.' :: rest => some rest
  | _ => none

/-- An operand without quotes. -/
def readWord (word : List Char) : Except TemplateFault Operand :=
  if word = ['.'] ∨ word = ['$'] then .ok (.argument (.chain []))
  else
    match chainBody? word with
    | some body =>
      let names := Text.splitAt '.' body
      if names.all isIdentifier then .ok (.argument (.chain (names.map String.ofList)))
      else .error (.badChain (String.ofList word))
    | none =>
      if word = "true".toList then .ok (.argument (.literal (.bool true)))
      else if word = "false".toList then .ok (.argument (.literal (.bool false)))
      else
        match Text.integer64? word with
        | some i => .ok (.argument (.literal (.integer i)))
        | none =>
          if isIdentifier word then
            if word = "resourceName".toList then .ok .resourceName
            else .error (.undefinedFunction (String.ofList word))
          else .error (.unexpectedWord (String.ofList word))

/-- What a backslash and a character stand for in a quoted text. -/
def escaped : Char → Char
  | 'n' => '\n'
  | 't' => '\t'
  | c => c

/-- The rest of a quoted text and what follows its quote. -/
def readText : List Char → Except TemplateFault (List Char × List Char)
  | [] => .error .unclosedText
  | '"' :: rest => .ok ([], rest)
  | ['\\'] => .error .danglingEscape
  | '\\' :: c :: rest => (readText rest).map fun (text, after) => (escaped c :: text, after)
  | c :: rest => (readText rest).map fun (text, after) => (c :: text, after)

/-- What follows a quoted text is shorter than the text it was read from. -/
theorem readText_length {body text after : List Char} (h : readText body = .ok (text, after)) :
    after.length < body.length := by
  fun_induction readText body generalizing text with
  | case1 => simp at h
  | case2 => simp only [Except.ok.injEq, Prod.mk.injEq] at h; simp [← h.2]
  | case3 => simp at h
  | case4 c rest ih =>
    cases hr : readText rest with
    | error fault => simp [hr, Except.map] at h
    | ok pair =>
      simp only [hr, Except.map, Except.ok.injEq, Prod.mk.injEq] at h
      have := @ih pair.1 (by rw [hr, ← h.2])
      simp only [List.length_cons]; omega
  | case5 c rest _ _ _ ih =>
    cases hr : readText rest with
    | error fault => simp [hr, Except.map] at h
    | ok pair =>
      simp only [hr, Except.map, Except.ok.injEq, Prod.mk.injEq] at h
      have := @ih pair.1 (by rw [hr, ← h.2])
      simp only [List.length_cons]; omega

/-- Characters that end a word. -/
def endsWord (c : Char) : Bool :=
  Text.isBlank c || c == '|'

/-- The words and pipes of an action body. -/
def tokens : List Char → Except TemplateFault (List ActionToken)
  | [] => .ok []
  | c :: rest =>
    if Text.isBlank c then tokens rest
    else if c = '|' then (tokens rest).map (.pipe :: ·)
    else if c = '"' then
      match _h : readText rest with
      | .error fault => .error fault
      | .ok (text, after) =>
        (tokens after).map (.operand (.argument (.literal (.string (String.ofList text)))) :: ·)
    else if c = '\x60' then
      match _h : rest.dropWhile (· != '\x60') with
      | [] => .error .unclosedRawText
      | _ :: after =>
        let text := rest.takeWhile (· != '\x60')
        (tokens after).map (.operand (.argument (.literal (.string (String.ofList text)))) :: ·)
    else
      match readWord (c :: rest.takeWhile (!endsWord ·)) with
      | .error fault => .error fault
      | .ok operand => (tokens (rest.dropWhile (!endsWord ·))).map (.operand operand :: ·)
termination_by body => body.length
decreasing_by
  · simp
  · simp
  · have := readText_length _h
    simp only [List.length_cons]; omega
  · have : (rest.dropWhile (· != '\x60')).length ≤ rest.length :=
      (List.dropWhile_sublist _).length_le
    rw [_h] at this
    simp only [List.length_cons] at this ⊢; omega
  · have := (List.dropWhile_sublist (l := rest) (!endsWord ·)).length_le
    simp only [List.length_cons]; omega

/-- The operands between the pipes; none of the commands may be empty. -/
def commands (body : String) (seen : List Operand) :
    List ActionToken → Except TemplateFault (List (List Operand))
  | [] => if seen.isEmpty then .error (.missingCommand body) else .ok [seen]
  | .pipe :: rest =>
    if seen.isEmpty then .error (.missingCommand body)
    else (commands body [] rest).map (seen :: ·)
  | .operand operand :: rest => commands body (seen ++ [operand]) rest

/-- Operands that must all be arguments. -/
def arguments (body : String) : List Operand → Except TemplateFault (List Argument)
  | [] => .ok []
  | .argument argument :: rest => (arguments body rest).map (argument :: ·)
  | .resourceName :: _ => .error (.nestedCall body)

/-- The command that an action starts with. -/
def readSource (body : String) : List Operand → Except TemplateFault Source
  | [.argument argument] => .ok (.argument argument)
  | .resourceName :: rest => (arguments body rest).map fun given => .call ⟨given⟩
  | _ => .error (.argumentToNonFunction body)

/-- A command behind a pipe. -/
def readCall (body : String) : List Operand → Except TemplateFault Call
  | .resourceName :: rest => (arguments body rest).map Call.mk
  | _ => .error (.argumentToNonFunction body)

/-- The pipeline of a bare action body. -/
def readPipeline (body : List Char) : Except TemplateFault Pipeline :=
  if body.isEmpty then .error .emptyAction
  else do
    let name := String.ofList body
    match ← commands name [] (← tokens body) with
    | [] => .error (.missingCommand name)
    | first :: rest =>
      let source ← readSource name first
      return ⟨source, ← rest.mapM (readCall name)⟩

/-- The part that a text makes; an empty one makes none. -/
def textPiece (text : List Char) : List Piece :=
  if text.isEmpty then [] else [.text (String.ofList text)]

/-- The part that an action body makes; a comment makes none. -/
def actionPiece (body : List Char) : Except TemplateFault (List Piece) :=
  let bare := Segmentation.bareBody body
  if Segmentation.isComment bare then .ok []
  else (readPipeline bare).map fun pipeline => [.action pipeline]

/-- The parts from a text on: `text` follows an action that trims it or not, and `actions` follow
it, with the text behind each. -/
def readPieces (source : String) (unclosed trimStart : Bool) (text : List Char) :
    List (List Char × List Char) → Except TemplateFault (List Piece)
  | [] =>
    if unclosed then .error (.unclosedAction source)
    else
      let last := Segmentation.trimText trimStart false text
      match Text.cutAtDouble '\x7d' last with
      | some _ => .error (.strayClose source)
      | none => .ok (textPiece last)
  | (body, behind) :: actions => do
    let before := textPiece (Segmentation.trimText trimStart (Segmentation.trimsBefore body) text)
    let action ← actionPiece body
    let rest ← readPieces source unclosed (Segmentation.trimsBehind body) behind actions
    return before ++ action ++ rest

/-- Reads a template. -/
def read (source : String) : Except TemplateFault KeyTemplate :=
  let cut := Segmentation.ofSource source.toList
  (readPieces source cut.unclosed false cut.lead cut.actions).map fun pieces => ⟨source, pieces⟩

end KeyTemplate

end ChartLift
