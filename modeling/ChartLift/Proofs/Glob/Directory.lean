import ChartLift.Glob.Set
import Mathlib.Tactic.Lemma
import Mathlib.Tactic.Tauto

/-!
# Patterns of directories

A directory whose name has no character with a meaning in patterns is read by its pattern as the name
itself with anything below (`read_below`), and the pattern matches the names that begin with that name
and a slash, and no others (`isMatch_below_iff`).
-/

namespace ChartLift.Glob

open Text (Bytes)

/-- The characters that have a meaning in patterns wherever they stand. -/
def special : List Char := ['*', '?', '[', '\x7b', '\x7d', '\\']

/-- A name in which each character stands for itself. -/
def Plain (name : String) : Prop := ∀ c ∈ name.toList, c ∉ special

instance (name : String) : Decidable (Plain name) :=
  decidable_of_iff (name.toList.all fun c => !special.contains c) (by simp [Plain])

/-! ## Reading -/

lemma readOn_cons {c : Char} (plain : c ∉ special) (tokens : List GlobToken) (previous : Option Char)
    (rest : List Char) :
    readOn ⟨tokens, []⟩ previous (c :: rest) = readOn ⟨.literal c :: tokens, []⟩ (some c) rest := by
  rw [readOn.eq_def]
  split <;> simp_all [special, Reading.comma, Reading.push]

/-- Characters that stand for themselves are read one after the other. -/
lemma readOn_append {text : List Char} (plain : ∀ c ∈ text, c ∉ special) (tokens : List GlobToken)
    (previous : Option Char) (rest : List Char) :
    readOn ⟨tokens, []⟩ previous (text ++ rest) =
      readOn ⟨(text.map .literal).reverse ++ tokens, []⟩ (text.getLast?.or previous) rest := by
  induction text generalizing tokens previous with
  | nil => rfl
  | cons c text ih =>
    obtain ⟨here, others⟩ := List.forall_mem_cons.mp plain
    rw [List.cons_append, readOn_cons here, ih others]
    cases text <;> simp [List.getLast?_cons]

/-- The pattern of what is below a name stands for the characters of the name and anything behind a
slash. -/
lemma read_below {name : String} (plain : Plain name) :
    read (name ++ "/**") =
      .ok ⟨name ++ "/**", name.toList.map .literal ++ [.trailing]⟩ := by
  have text : (name ++ "/**").toList = (name.toList ++ ['/']) ++ ['*', '*'] := by simp
  have each : ∀ c ∈ name.toList ++ ['/'], c ∉ special := by
    intro c mem
    rcases List.mem_append.mp mem with mem | mem
    · exact plain c mem
    · obtain rfl := List.mem_singleton.mp mem
      decide
  rw [read, text, readOn_append each]
  simp [readOn, Reading.twoStars, Reading.wholePart]

/-! ## Matching -/

lemma bytes_append (a b : String) : Text.bytes (a ++ b) = Text.bytes a ++ Text.bytes b := by
  simp [Text.bytes, Text.Utf8.encode]

lemma afterAll_append (rests : Rests) (first last : List GlobToken) :
    afterAll rests (first ++ last) = afterAll (afterAll rests first) last := by
  induction first generalizing rests with
  | nil => rw [afterAll]; rfl
  | cons token first ih => rw [List.cons_append, afterAll, afterAll, ih]

lemma behind?_eq_some_iff {bytes rest more : Bytes} :
    behind? bytes rest = some more ↔ rest = bytes ++ more := by
  rw [behind?]
  constructor
  · intro h
    split at h
    · rename_i begins
      obtain ⟨more, rfl⟩ := List.isPrefixOf_iff_prefix.mp begins
      cases h
      simp
    · cases h
  · rintro rfl
    simp

/-- Characters lead to what is behind their bytes. -/
lemma mem_afterAll_literals {text : List Char} {rests : Rests} {more : Bytes} :
    more ∈ afterAll rests (text.map .literal) ↔ Text.Utf8.encode text ++ more ∈ rests := by
  induction text generalizing rests more with
  | nil => rw [List.map_nil, afterAll]; rfl
  | cons c text ih =>
    rw [List.map_cons, afterAll, ih, after, List.mem_filterMap]
    simp [behind?_eq_some_iff, Text.bytes, Text.Utf8.encode]

lemma nil_mem_tails (bytes : Bytes) : [] ∈ tails bytes := by
  induction bytes with
  | nil => exact List.mem_singleton_self _
  | cons b rest ih => exact List.mem_cons_of_mem _ ih

/-- Leaving out repeated positions keeps the end of a name. -/
lemma nil_mem_distinct_iff {rests : Rests} : [] ∈ distinct rests ↔ [] ∈ rests := by
  have along : ∀ rests seen : Rests,
      [] ∈ rests.foldl
        (fun seen rest => if seen.any (·.length == rest.length) then seen else rest :: seen) seen ↔
      [] ∈ rests ∨ [] ∈ seen := by
    intro rests
    induction rests with
    | nil => simp
    | cons first rests ih =>
      intro seen
      rw [List.foldl_cons, ih]
      split
      · rename_i known
        obtain ⟨other, mem, same⟩ := List.any_eq_true.mp known
        -- a position that is left out is as far from the end as one that is kept
        have kept : [] = first → [] ∈ seen := by
          rintro rfl
          exact List.length_eq_zero_iff.mp (eq_of_beq same) ▸ mem
        rw [List.mem_cons]
        tauto
      · simp only [List.mem_cons]
        tauto
  rw [distinct, along]
  simp

/-- What is below a directory goes on behind a slash, to the end. -/
lemma nil_mem_after_trailing_iff {rests : Rests} :
    [] ∈ after rests .trailing ↔ ∃ more, 47 :: more ∈ rests := by
  rw [after, nil_mem_distinct_iff, List.mem_flatMap]
  simp only [List.mem_filterMap, behind?_eq_some_iff, List.singleton_append]
  constructor
  · rintro ⟨more, ⟨rest, mem, rfl⟩, -⟩
    exact ⟨more, mem⟩
  · rintro ⟨more, mem⟩
    exact ⟨more, ⟨_, mem, rfl⟩, nil_mem_tails more⟩

/-- A pattern of what is below a name matches the names that begin with that name and a slash. -/
lemma isMatch_below_iff {name other source : String} (nonempty : name ≠ "") :
    isMatch ⟨source, name.toList.map .literal ++ [.trailing]⟩ other = true ↔
      Text.bytes (name ++ "/") <+: Text.bytes other := by
  have literal : ∃ c tokens, name.toList.map GlobToken.literal ++ [.trailing] = .literal c :: tokens := by
    obtain ⟨c, chars, e⟩ := List.exists_cons_of_ne_nil
      (mt String.toList_eq_nil_iff.mp nonempty)
    exact ⟨c, _, by rw [e]; rfl⟩
  have spelled : isMatch ⟨source, name.toList.map .literal ++ [.trailing]⟩ other =
      (afterAll [Text.bytes other] (name.toList.map .literal ++ [.trailing])).any (·.isEmpty) := by
    obtain ⟨c, tokens, e⟩ := literal
    rw [isMatch, e]
  have slash : ∀ more, Text.Utf8.encode name.toList ++ 47 :: more =
      Text.bytes (name ++ "/") ++ more := by
    intro more
    rw [bytes_append, List.append_assoc]
    rfl
  rw [spelled, afterAll_append, afterAll, afterAll]
  simp only [List.any_eq_true, List.isEmpty_iff, exists_eq_right]
  rw [nil_mem_after_trailing_iff]
  simp only [mem_afterAll_literals, List.mem_singleton, slash]
  rfl

end ChartLift.Glob
