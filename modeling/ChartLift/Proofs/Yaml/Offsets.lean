import ChartLift.Proofs.Text.Utf8
import ChartLift.Proofs.Yaml.Building
import Mathlib.Data.Nat.Basic
import Mathlib.Order.Monotone.Defs

/-!
# Offsets of characters

In the table of a text the offset of a character is the number of bytes of the characters before it
(`byte_tabled`). Without a table the same offsets come out for the texts of ASCII characters and for no
others (`byte_untabled_eq_iff`). So the offsets of every text are those of its table, in ascending
order, and they are all the places between its characters (`byte_ofText`). Hence the places in the tree
of a text stand between characters (`ends_of_ofText?`).
-/

namespace ChartLift.Yaml.Layout

open Text (Bytes)
open Text.Utf8

namespace ByteOffsets

/-- The offsets of a text in a table of all its characters. -/
def tabled (text : List Char) : ByteOffsets :=
  ⟨some (offsetsFrom 0 text).toArray, textWidth text⟩

/-- The offsets of a text without a table, as if each of its characters were one byte. -/
def untabled (text : List Char) : ByteOffsets := ⟨none, textWidth text⟩

variable (text : List Char)

/-- An ASCII text does without the table. -/
lemma ofText_eq :
    ofText text = if text.all (·.toNat < 128) then untabled text else tabled text := by
  rw [ofText]
  split
  next ascii => rw [untabled, textWidth_eq, (length_encode_eq_iff text).mpr ascii]
  next => rfl

/-! ## With and without a table -/

/-- The table has an offset for each character: the bytes of the characters before it are added to
where the first one stands. -/
lemma getElem?_offsetsFrom (start index : Nat) : (offsetsFrom start text)[index]? =
    if index < text.length then some (start + (encode (text.take index)).length) else none := by
  induction text generalizing start index with
  | nil => rfl
  | cons c rest ih =>
    cases index with
    | zero => rfl
    | succ index =>
      rw [offsetsFrom, List.getElem?_cons_succ, ih, List.take_succ_cons, encode_cons,
        List.length_append, charWidth, List.length_cons, Nat.add_assoc]
      simp only [Nat.add_lt_add_iff_right]

/-- With a table the offset of a character is the number of bytes before it. -/
lemma byte_tabled (index : Nat) : (tabled text).byte index = (encode (text.take index)).length := by
  rw [byte, tabled]
  simp only [List.getElem?_toArray, getElem?_offsetsFrom, textWidth_eq]
  split
  next => exact Nat.zero_add _
  next beyond => rw [List.take_of_length_le (Nat.le_of_not_lt beyond), Option.getD_none]

lemma byte_untabled (index : Nat) :
    (untabled text).byte index = min index (encode text).length := by
  rw [byte, untabled, textWidth_eq]

/-- Without a table the offsets of ASCII texts come out, and those of no other ones. -/
lemma byte_untabled_eq_iff :
    (untabled text).byte = (tabled text).byte ↔ text.all (·.toNat < 128) = true := by
  constructor
  · intro same
    have last := congrFun same text.length
    rw [byte_untabled, byte_tabled, List.take_length, Nat.min_eq_left (length_le_encode text)] at last
    exact (length_encode_eq_iff text).mp last.symm
  · intro ascii
    funext index
    have front : (text.take index).all (·.toNat < 128) = true :=
      List.all_eq_true.mpr fun c mem => List.all_eq_true.mp ascii c (List.mem_of_mem_take mem)
    rw [byte_untabled, byte_tabled, (length_encode_eq_iff _).mpr ascii,
      (length_encode_eq_iff _).mpr front, List.length_take]

/-- The offsets of a text are those of its table. -/
lemma byte_ofText_eq_tabled : (ofText text).byte = (tabled text).byte := by
  rw [ofText_eq]
  split
  next ascii => exact (byte_untabled_eq_iff text).mpr ascii
  next => rfl

/-- The offset of a character is the number of bytes before it. -/
lemma byte_eq (index : Nat) : (ofText text).byte index = (encode (text.take index)).length := by
  rw [byte_ofText_eq_tabled, byte_tabled]

/-! ## Order and range -/

/-- The offsets of two characters differ by the bytes of those from the first up to the second. -/
lemma byte_add (index more : Nat) : (ofText text).byte (index + more) =
    (ofText text).byte index + (encode ((text.drop index).take more)).length := by
  rw [byte_eq, byte_eq, List.take_add, encode_append, List.length_append]

lemma monotone_byte : Monotone (ofText text).byte := by
  intro index later le
  obtain ⟨more, rfl⟩ := Nat.exists_eq_add_of_le le
  rw [byte_add]
  exact Nat.le_add_right _ _

/-- The offset is the number of all bytes from the end of the text on, and not before. -/
lemma byte_eq_length_iff (index : Nat) :
    (ofText text).byte index = (encode text).length ↔ text.length ≤ index := by
  have whole : (encode text).length =
      (encode (text.take index)).length + (encode (text.drop index)).length := by
    rw [← List.length_append, ← encode_append, List.take_append_drop]
  have least := length_le_encode (text.drop index)
  rw [List.length_drop] at least
  rw [byte_eq]
  constructor
  · intro last
    omega
  · intro beyond
    rw [List.take_of_length_le beyond]

/-- The offsets are the places between characters. -/
lemma exists_byte_eq_iff (offset : Nat) :
    (∃ index, (ofText text).byte index = offset) ↔ Between text offset := by
  constructor
  · rintro ⟨index, rfl⟩
    exact ⟨text.take index, text.drop index, (List.take_append_drop ..).symm, (byte_eq text index).symm⟩
  · rintro ⟨front, rest, rfl, rfl⟩
    exact ⟨front.length, by rw [byte_eq, List.take_left]⟩

/-- Bytes that are cut at the offset of a character are those of the text cut before it. -/
lemma cut_byte (index : Nat) :
    (encode text).take ((ofText text).byte index) = encode (text.take index) ∧
      (encode text).drop ((ofText text).byte index) = encode (text.drop index) := by
  have split : encode text = encode (text.take index) ++ encode (text.drop index) := by
    rw [← encode_append, List.take_append_drop]
  rw [byte_eq, split]
  exact ⟨List.take_left, List.drop_left⟩

/-- The offset of the character with an index is the number of bytes of the characters before it, and
from the end of the text on that of all bytes. It is the same with a table, and a table can be done
without exactly for ASCII texts. Offsets grow with the index, they are the positions of the text, and
the bytes cut there are the text cut before the character. -/
theorem byte_ofText :
    (∀ index, (ofText text).byte index = (String.ofList (text.take index)).utf8ByteSize) ∧
      (∀ index, (ofText text).byte index = (String.ofList text).utf8ByteSize ↔
        text.length ≤ index) ∧
      (ofText text).byte = (tabled text).byte ∧
      ((untabled text).byte = (tabled text).byte ↔ text.all (·.toNat < 128) = true) ∧
      Monotone (ofText text).byte ∧
      (∀ offset, (∃ index, (ofText text).byte index = offset) ↔
        (String.Pos.Raw.mk offset).IsValid (String.ofList text)) ∧
      ∀ index, (encode text).take ((ofText text).byte index) = encode (text.take index) ∧
        (encode text).drop ((ofText text).byte index) = encode (text.drop index) := by
  refine ⟨fun index => ?_, fun index => ?_, byte_ofText_eq_tabled text, byte_untabled_eq_iff text,
    monotone_byte text, fun offset => ?_, cut_byte text⟩
  · rw [byte_eq, length_encode]
  · rw [← length_encode, byte_eq_length_iff]
  · rw [exists_byte_eq_iff, between_iff_isValid]

/-- Characters of one, two, three and four bytes. -/
example : (List.range 6).map (ofText ['a', 'é', '☕', '🍵', '\n']).byte = [0, 1, 3, 6, 10, 11] := by
  decide

end ByteOffsets

/-! ## Places in trees -/

/-- A property that both ends of a span have. -/
structure Span.Ends (P : Nat → Prop) (span : Span) : Prop where
  start : P span.start
  stop : P span.stop

/-- A property that both ends of the span of a node have, and those of its parts and their keys. -/
inductive Node.Ends (P : Nat → Prop) : Node → Prop where
  | scalar {span text} :
    span.Ends P →
    Ends P (.scalar span text)
  | alias {span} :
    span.Ends P →
    Ends P (.alias span)
  | sequence {span flow} {items : List Node} :
    span.Ends P →
    (∀ item ∈ items, Ends P item) →
    Ends P (.sequence span flow items)
  | mapping {span flow} {entries : List Entry} :
    span.Ends P →
    (∀ entry ∈ entries, entry.keySpan.Ends P) →
    (∀ entry ∈ entries, Ends P entry.value) →
    Ends P (.mapping span flow entries)

/-- A property of the offsets of events and of the length of the source. -/
structure Marks (P : Nat → Prop) (source : Bytes) (events : List Located) : Prop where
  offset : ∀ event ∈ events, P event.offset
  length : P source.length

section Written

variable {P : Nat → Prop} {source : Bytes} {front behind : List Located}

lemma Marks.append_right (marks : Marks P source (front ++ behind)) : Marks P source behind :=
  ⟨fun event mem => marks.offset event (List.mem_append_right front mem), marks.length⟩

lemma Marks.following (marks : Marks P source behind) : P (following source behind) := by
  cases behind with
  | nil => exact marks.length
  | cons event behind => exact marks.offset event List.mem_cons_self

/-- The span of a written node lies from an event to an event, or to the end of the source. -/
lemma Written.span_ends (written : Written) (marks : Marks P source (written.events ++ behind)) :
    (written.node source behind).span.Ends P := by
  rw [written.span_node]
  exact ⟨marks.following, marks.append_right.following⟩

/-- Behind the event that opens a collection stand its parts and the event that closes it. -/
lemma Marks.parts {opens closes : Located} {parts : List Located}
    (marks : Marks P source (opens :: (parts ++ [closes]) ++ behind)) :
    Marks P source (parts ++ closes :: behind) := by
  rw [enclosed_append] at marks
  exact marks.append_right

mutual

/-- What the offsets of its events have, the ends of the spans in a written node have. -/
lemma Written.ends (written : Written) (behind : List Located)
    (marks : Marks P source (written.events ++ behind)) : (written.node source behind).Ends P :=
  match written with
  | .scalar .. => .scalar (Written.span_ends _ marks)
  | .alias .. => .alias (Written.span_ends _ marks)
  | .sequence start tag anchor items stop => by
    have here := Written.span_ends _ marks
    rw [Written.events] at marks
    exact .sequence here (ends_itemNodes items _ marks.parts)
  | .mapping start tag anchor entries stop => by
    have here := Written.span_ends _ marks
    rw [Written.events] at marks
    have each := ends_entryNodes entries _ marks.parts
    exact .mapping here (fun entry mem => (each entry mem).1) fun entry mem => (each entry mem).2

lemma ends_itemNodes (items : List Written) (behind : List Located)
    (marks : Marks P source (itemEvents items ++ behind)) :
    ∀ item ∈ itemNodes source behind items, item.Ends P :=
  match items with
  | [] => List.forall_mem_nil _
  | item :: items => by
    rw [itemEvents, List.append_assoc] at marks
    exact List.forall_mem_cons.mpr
      ⟨item.ends _ marks, ends_itemNodes items behind marks.append_right⟩

lemma ends_entryNodes (entries : List (Written × Written)) (behind : List Located)
    (marks : Marks P source (entryEvents entries ++ behind)) :
    ∀ entry ∈ entryNodes source behind entries, entry.keySpan.Ends P ∧ entry.value.Ends P :=
  match entries with
  | [] => List.forall_mem_nil _
  | (key, value) :: entries => by
    rw [entryEvents, List.append_assoc, List.append_assoc] at marks
    have atValue := marks.append_right
    exact List.forall_mem_cons.mpr ⟨⟨key.span_ends marks, value.ends _ atValue⟩,
      ends_entryNodes entries behind atValue.append_right⟩

end

end Written

/-- In the tree of a text both ends of every span stand between characters, and so does every
indicator. -/
theorem ends_of_ofText? {text : List Char} {tree : Tree} {root : Node}
    (read : Tree.ofText? text = some tree) (rooted : tree.root = some root) :
    root.Ends (Between text) ∧
      root.Everywhere fun entry => ∀ c, entry.indicator = some c → Between text c := by
  constructor
  · obtain ⟨events, _, made⟩ := Option.bind_eq_some_iff.mp read
    obtain ⟨front, written, rest, split, rfl⟩ := exists_written_of_ofEvents? made rooted
    have marks : Marks (Between text) (encode text) (front ++ (written.events ++ rest)) := by
      rw [← split]
      refine ⟨fun located mem => ?_, between_length text⟩
      obtain ⟨event, _, rfl⟩ := List.mem_map.mp mem
      exact (ByteOffsets.exists_byte_eq_iff text _).mp ⟨event.place, rfl⟩
    exact written.ends rest marks.append_right
  · refine (Tree.built_of_ofText? read rooted).colon.imp fun entry colon c recorded => ?_
    exact between_of_lt (colon c recorded) (by decide)

end ChartLift.Yaml.Layout
