import ChartLift.Text.Utf8

/-!
# Byte offsets

From the number of characters before a place to the number of bytes before it. A text of ASCII
characters needs no table.
-/

namespace ChartLift.Yaml.Layout

/-- The byte offsets of the characters of a text. -/
structure ByteOffsets where
  /-- The offset of each character; none for a text in which they are the indices themselves. -/
  table : Option (Array Nat)
  /-- The number of bytes. -/
  length : Nat

namespace ByteOffsets

/-- The offsets of characters, the first of them standing at `offset`. -/
def offsetsFrom (offset : Nat) : List Char → List Nat
  | [] => []
  | c :: rest => offset :: offsetsFrom (offset + Text.Utf8.charWidth c) rest

/-- The byte offsets of a text. -/
def ofText (text : List Char) : ByteOffsets :=
  if text.all (·.toNat < 128) then ⟨none, text.length⟩
  else ⟨some (offsetsFrom 0 text).toArray, Text.Utf8.textWidth text⟩

/-- The byte offset of the character with an index; beyond the text it is the number of bytes. -/
def byte (offsets : ByteOffsets) (index : Nat) : Nat :=
  match offsets.table with
  | none => min index offsets.length
  | some table => table[index]?.getD offsets.length

end ByteOffsets

end ChartLift.Yaml.Layout
