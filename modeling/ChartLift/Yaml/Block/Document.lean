import ChartLift.Number.Layout
import ChartLift.Text.Utf8
import ChartLift.Value.Basic
import ChartLift.Yaml.Block.Scalar

/-!
# Documents in block style

A value as a YAML document. Each level of nesting has a margin of two more blanks; a sequence
directly below a key stays at the margin of the key. Empty collections stand as a pair of brackets.
-/

namespace ChartLift.Yaml.Block

/-- A scalar or an empty collection with the end of its line; a collection with parts has none. -/
def flat? (indent : Nat) : Value → Option (List Char)
  | .null => some "null\n".toList
  | .bool b => some (if b then "true\n".toList else "false\n".toList)
  | .integer i => some (Text.decimal i ++ ['\n'])
  | .float x => some ((NumberLayout.yaml.write x).toList ++ ['\n'])
  | .string s => some (scalar indent s)
  | .sequence [] => some "[]\n".toList
  | .mapping [] => some "\x7b\x7d\n".toList
  | _ => none

/-- The longest key, in bytes, that stands on one line with its value. -/
def longestKey : Nat := 128

/-- Whether a key stands on one line with its `:`. -/
def isShortKey (key : String) : Bool :=
  !key.toList.any isBreak && decide ((Text.bytes key).length ≤ longestKey)

/-- A key up to the `:` behind it. -/
def keyText (indent : Nat) (key : String) : List Char :=
  let written := scalar (indent + 2) key
  if isShortKey key then written.dropLast ++ [':']
  else '?' :: ' ' :: (written ++ margin indent ++ [':'])

mutual

/-- A value behind a dash or behind the `:` of a long key: its first line goes on there. -/
def inline (indent : Nat) : Value → List Char
  | .sequence (item :: rest) => ' ' :: items (indent + 2) (item :: rest)
  | .mapping (entry :: rest) => ' ' :: entries (indent + 2) (entry :: rest)
  | value => ' ' :: (flat? (indent + 2) value).getD []

/-- A value behind the `:` of a key on one line. -/
def below (indent : Nat) : Value → List Char
  | .sequence (item :: rest) => '\n' :: (margin indent ++ items indent (item :: rest))
  | .mapping (entry :: rest) => '\n' :: (margin (indent + 2) ++ entries (indent + 2) (entry :: rest))
  | value => ' ' :: (flat? (indent + 2) value).getD []

/-- The items of a sequence; the margin of the first one is already there. -/
def items (indent : Nat) : List Value → List Char
  | [] => []
  | [item] => '-' :: inline indent item
  | item :: rest => '-' :: (inline indent item ++ margin indent ++ items indent rest)

/-- The entries of a mapping; the margin of the first one is already there. -/
def entries (indent : Nat) : List (String × Value) → List Char
  | [] => []
  | [(key, value)] =>
    keyText indent key ++ (if isShortKey key then below indent value else inline indent value)
  | (key, value) :: rest =>
    keyText indent key ++ (if isShortKey key then below indent value else inline indent value)
      ++ margin indent ++ entries indent rest

end

/-- A value as a document. -/
def document : Value → String
  | .sequence (item :: rest) => String.ofList (items 0 (item :: rest))
  | .mapping (entry :: rest) => String.ofList (entries 0 (entry :: rest))
  | value => String.ofList ((flat? 2 value).getD [])

end ChartLift.Yaml.Block
