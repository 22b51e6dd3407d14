import ChartLift.Proofs.Path.Grammar

/-!
# Canonical forms read back

The canonical form of a path spells the path, as long as its positions fit 64 bits, so reading gives
the path back (`Path.read_canonical`).
-/

namespace ChartLift

namespace Segment

/-- Characters of plain names can be seen. -/
lemma toNat_of_plain {c : Char} (plain : (c.isAlphanum || c == '_' || c == '-') = true) :
    32 < c.toNat ∧ c.toNat < 127 := by
  have between : ∀ low high : Char, 32 < low.toNat → high.toNat < 127 →
      low.val ≤ c.val ∧ c.val ≤ high.val → 32 < c.toNat ∧ c.toNat < 127 := by
    rintro low high above below ⟨first, last⟩
    exact ⟨Nat.lt_of_lt_of_le above (UInt32.le_iff_toNat_le.mp first),
      Nat.lt_of_le_of_lt (UInt32.le_iff_toNat_le.mp last) below⟩
  rcases Bool.or_eq_true_iff.mp plain with plain | dash
  · rcases Bool.or_eq_true_iff.mp plain with plain | underscore
    · rcases Bool.or_eq_true_iff.mp (show (c.isAlpha || c.isDigit) = true from plain) with
        letter | digit
      · rcases Bool.or_eq_true_iff.mp (show (c.isUpper || c.isLower) = true from letter) with
          upper | lower
        · exact between 'A' 'Z' (by decide) (by decide) (of_decide_eq_true upper)
        · exact between 'a' 'z' (by decide) (by decide)
            ((Bool.and_eq_true_iff.mp lower).imp of_decide_eq_true of_decide_eq_true)
      · obtain ⟨low, high⟩ := Char.isDigit_iff_toNat.mp digit
        exact ⟨Nat.lt_of_lt_of_le (by decide) low, Nat.lt_of_le_of_lt high (by decide)⟩
    · obtain rfl := eq_of_beq underscore
      decide
  · obtain rfl := eq_of_beq dash
    decide

/-- A plain name may stand behind a dot. -/
lemma dottable_of_plain {name : List Char} (plain : isPlainName name = true) : Dottable name := by
  obtain ⟨some, all⟩ := Bool.and_eq_true_iff.mp plain
  refine ⟨by simpa using some, ?_, fun c mem => ?_⟩
  · rintro rfl
    cases all
  · have ok := List.all_eq_true.mp all c mem
    refine ⟨?_, fun special => ?_⟩
    · obtain ⟨above, below⟩ := toNat_of_plain ok
      exact Text.isBlank_eq_false above below
    · simp only [List.mem_cons, List.not_mem_nil, or_false] at special
      rcases special with rfl | rfl | rfl | rfl | rfl <;> cases ok

/-- A name with its quotes and backslashes escaped spells the name. -/
lemma quotes_escapeName (name : List Char) : Quotes '\'' (escapeName name) name := by
  induction name with
  | nil => exact .nil
  | cons c rest ih =>
    rw [escapeName]
    split_ifs with special
    · exact .escaped ih
    · exact .plain (fun same => special (.inl same)) (fun same => special (.inr same)) ih

lemma trims_of_numeral {digits : List Char} {i : Int} (numeral : Text.Numeral digits i) :
    Text.Trims digits digits := by
  have solid : ∀ c ∈ digits, Text.isBlank c = false := by
    intro c mem
    rcases numeral.mem mem with digit | rfl | rfl
    · obtain ⟨low, high⟩ := Char.isDigit_iff_toNat.mp digit
      have low : 48 ≤ c.toNat := low
      have high : c.toNat ≤ 57 := high
      exact Text.isBlank_eq_false (by omega) (by omega)
    · rfl
    · rfl
  exact Text.trims_self (fun c mem => solid c (List.mem_of_head? mem))
    (fun c mem => solid c (List.mem_of_getLast? mem))

/-- A step as the canonical form writes it spells the step. -/
lemma spells_write {segment : Segment}
    (fits : ∀ i, segment = .index i → Text.fits64 i = true) : Spells segment.write segment := by
  cases segment with
  | field name =>
    by_cases plain : isPlainName name.toList = true
    · have spells := Spells.dotted (dottable_of_plain plain)
      rw [String.ofList_toList] at spells
      rw [write_plain plain]
      exact spells
    · have spells := Spells.quoted (.inl rfl) (quotes_escapeName name.toList)
      rw [String.ofList_toList] at spells
      rw [write_quoted plain]
      exact spells
  | index i =>
    have numeral := Text.numeral_decimal i
    exact .position (trims_of_numeral numeral) numeral (fits i rfl)

/-- What spells a step does not end with a blank. -/
lemma Spells.isBlank_getLast? {text : List Char} {segment : Segment} (spells : Spells text segment) :
    ∀ c ∈ text.getLast?, Text.isBlank c = false := by
  intro c mem
  cases spells with
  | @dotted name dottable =>
    rw [List.getLast?_cons_of_ne_nil dottable.some] at mem
    exact (dottable.clean c (List.mem_of_getLast? mem)).1
  | position _ _ _ =>
    obtain rfl : ']' = c := by simpa [List.getLast?_cons] using mem
    rfl
  | quoted _ _ =>
    obtain rfl : ']' = c := by simpa [List.getLast?_cons] using mem
    rfl

end Segment

namespace Path

lemma steps_flatMap_write {segments : List Segment}
    (fits : ∀ i, .index i ∈ segments → Text.fits64 i = true) :
    Steps (segments.flatMap Segment.write) segments := by
  induction segments with
  | nil => exact .nil
  | cons segment rest ih =>
    refine .cons (Segment.spells_write ?_) (ih fun i mem => fits i (List.mem_cons_of_mem _ mem))
    rintro i rfl
    exact fits i (List.mem_cons_self ..)

/-- What spells steps does not end with a blank. -/
lemma Steps.isBlank_getLast? {text : List Char} {segments : List Segment}
    (steps : Steps text segments) : ∀ c ∈ text.getLast?, Text.isBlank c = false := by
  induction steps with
  | nil => intro c mem; cases mem
  | @cons text rest _ _ spells _ ih =>
    intro c mem
    rw [List.getLast?_append] at mem
    cases last : rest.getLast? with
    | none =>
      rw [last] at mem
      exact spells.isBlank_getLast? c mem
    | some d =>
      rw [last] at mem
      cases mem
      exact ih c last

/-- The canonical form of a path spells the path. -/
lemma spells_write {path : Path} (fits : ∀ i, .index i ∈ path.segments → Text.fits64 i = true) :
    Spells path.write path := by
  have steps := steps_flatMap_write fits
  refine .steps (Text.trims_self ?_ ?_) (.bare ?_) .dollar steps
  · intro c mem
    cases mem
    rfl
  · intro c mem
    rw [write, List.getLast?_cons] at mem
    cases last : (path.segments.flatMap Segment.write).getLast? with
    | none =>
      rw [last] at mem
      cases mem
      rfl
    | some d =>
      rw [last] at mem
      cases mem
      exact steps.isBlank_getLast? d last
  · intro brace
    cases brace

/-- A path is read from its canonical form, whatever its names and positions, and from no other
path's. -/
theorem read_canonical (path : Path) (fits : ∀ i, .index i ∈ path.segments → Text.fits64 i = true) :
    read path.canonical = .ok path ∧
      ∀ other : Path, other.canonical = path.canonical → other = path := by
  refine ⟨?_, fun other same => canonical_injective same⟩
  have spells := spells_write fits
  rw [← String.toList_ofList (l := path.write)] at spells
  exact read_eq_ok_iff_spells.mpr spells

/-- A path with an empty name, a name full of marks, the least position and a star for a name. -/
def oddPath : Path :=
  ⟨[.field "", .field "it's [a].\x7bb\x7d\\ é", .index (-9223372036854775808), .field "*"]⟩

/-- Odd names and the least position are read back too. -/
theorem read_canonical_odd :
    oddPath.canonical = "$['']['it\\'s [a].\x7bb\x7d\\\\ é'][-9223372036854775808]['*']" ∧
      (∀ i, .index i ∈ oddPath.segments → Text.fits64 i = true) ∧
      read oddPath.canonical = .ok oddPath := by
  have fits : ∀ i, .index i ∈ oddPath.segments → Text.fits64 i = true := by
    intro i mem
    simp only [oddPath, List.mem_cons, reduceCtorEq, Segment.index.injEq, List.not_mem_nil,
      false_or, or_false] at mem
    subst mem
    decide
  exact ⟨by decide, fits, (read_canonical oddPath fits).1⟩

end Path

end ChartLift
