import ChartLift.Value.Basic
import ChartLift.Number.Layout
import ChartLift.Text.Integer

/-!
# Compact JSON

The JSON text of a value without spaces, and the text of a value where a template puts it in.
-/

namespace ChartLift.Value

/-- A character inside a JSON string: quotes, backslashes and controls are escaped. -/
def jsonCharacter (c : Char) : String :=
  if c == '"' then "\\\""
  else if c == '\\' then "\\\\"
  else if c == '\x08' then "\\b"
  else if c == '\x0c' then "\\f"
  else if c == '\n' then "\\n"
  else if c == '\r' then "\\r"
  else if c == '\t' then "\\t"
  else if c.toNat < 16 then "\\u000" ++ String.ofList (Nat.toDigits 16 c.toNat)
  else if c.toNat < 32 then "\\u00" ++ String.ofList (Nat.toDigits 16 c.toNat)
  else String.singleton c

/-- A JSON string. -/
def jsonString (s : String) : String :=
  s.foldl (fun written c => written ++ jsonCharacter c) "\"" ++ "\""

mutual

/-- The compact JSON text of a value. -/
def json : Value → String
  | .null => "null"
  | .bool true => "true"
  | .bool false => "false"
  | .integer i => String.ofList (Text.decimal i)
  | .float x => NumberLayout.json.write x
  | .string s => jsonString s
  | .sequence items => "[" ++ jsonItems items ++ "]"
  | .mapping entries => "\x7b" ++ jsonEntries entries ++ "\x7d"

/-- Items with commas between them. -/
def jsonItems : List Value → String
  | [] => ""
  | [item] => item.json
  | item :: rest => item.json ++ "," ++ jsonItems rest

/-- Entries with commas between them. -/
def jsonEntries : List (String × Value) → String
  | [] => ""
  | [(key, value)] => jsonString key ++ ":" ++ value.json
  | (key, value) :: rest => jsonString key ++ ":" ++ value.json ++ "," ++ jsonEntries rest

end

/-- The text that stands for a value: strings as they are, scalars in literal form, null as nothing,
collections as compact JSON. -/
def render : Value → String
  | .null => ""
  | .string s => s
  | value => value.json

end ChartLift.Value
