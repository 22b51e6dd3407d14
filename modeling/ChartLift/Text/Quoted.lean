import ChartLift.Text.Hidden

/-!
# Quoted text in messages

A text or a character as messages show it: between quotes, with a backslash before the quote and
before a backslash, and by number where the character has no shape of its own.
-/

namespace ChartLift.Text

/-- A number in lower-case hexadecimal, without leading zeros. -/
def hexadecimal (n : Nat) : String :=
  String.ofList (Nat.toDigits 16 n)

/-- One character of a text quoted with `quote`. -/
def escapeFor (quote c : Char) : String :=
  if c == '\x00' then "\\0"
  else if c == '\t' then "\\t"
  else if c == '\n' then "\\n"
  else if c == '\r' then "\\r"
  else if c == '\\' || c == quote then String.ofList ['\\', c]
  else if isHidden c then "\\u\x7b" ++ hexadecimal c.toNat ++ "\x7d"
  else String.singleton c

/-- A text between double quotes. -/
def quoted (text : String) : String :=
  text.foldl (fun written c => written ++ escapeFor '"' c) "\"" ++ "\""

/-- A character between single quotes. -/
def quotedChar (c : Char) : String :=
  "'" ++ escapeFor '\'' c ++ "'"

end ChartLift.Text
