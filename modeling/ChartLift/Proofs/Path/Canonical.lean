import ChartLift.Path.Basic
import ChartLift.Proofs.Text.Integer

/-!
# Canonical forms of paths

Different paths have different canonical forms (`Path.canonical_injective`), whatever their names
and positions: each step is written so that its end can be told from the text (`write_append_inj`).
-/

namespace ChartLift

/-- Texts that end where a property of characters does are cut there. -/
lemma Text.append_inj_of_all {p : Char → Prop} {a b r s : List Char} (ha : ∀ c ∈ a, p c)
    (hb : ∀ c ∈ b, p c) (hr : ∀ c ∈ r.head?, ¬ p c) (hs : ∀ c ∈ s.head?, ¬ p c)
    (h : a ++ r = b ++ s) : a = b ∧ r = s := by
  induction a generalizing b with
  | nil =>
    cases b with
    | nil => exact ⟨rfl, h⟩
    | cons d b =>
      rw [List.nil_append] at h
      subst h
      exact absurd (hb d (List.mem_cons_self ..)) (hr d rfl)
  | cons c a ih =>
    cases b with
    | nil =>
      rw [List.nil_append] at h
      subst h
      exact absurd (ha c (List.mem_cons_self ..)) (hs c rfl)
    | cons d b =>
      simp only [List.cons_append, List.cons.injEq] at h
      obtain ⟨rfl, h⟩ := h
      obtain ⟨rfl, same⟩ := ih (fun c mem => ha c (List.mem_cons_of_mem _ mem))
        (fun c mem => hb c (List.mem_cons_of_mem _ mem)) h
      exact ⟨rfl, same⟩

/-! ## Names -/

namespace Segment

/-- A name between quotes ends where its closing quote stands. -/
lemma escapeName_append_inj {a b r s : List Char}
    (h : escapeName a ++ '\'' :: r = escapeName b ++ '\'' :: s) : a = b ∧ r = s := by
  induction a generalizing b with
  | nil =>
    cases b with
    | nil => exact ⟨rfl, (List.cons.inj h).2⟩
    | cons d b =>
      by_cases special : d = '\'' ∨ d = '\\'
      · simp [escapeName, special] at h
      · simp only [escapeName, special, ↓reduceIte, List.nil_append, List.cons_append,
          List.cons.injEq] at h
        exact absurd (.inl h.1.symm) special
  | cons c a ih =>
    cases b with
    | nil =>
      by_cases special : c = '\'' ∨ c = '\\'
      · simp [escapeName, special] at h
      · simp only [escapeName, special, ↓reduceIte, List.nil_append, List.cons_append,
          List.cons.injEq] at h
        exact absurd (.inl h.1) special
    | cons d b =>
      by_cases special : c = '\'' ∨ c = '\\' <;> by_cases special' : d = '\'' ∨ d = '\\' <;>
        simp only [escapeName, special, special', ↓reduceIte, List.cons_append,
          List.cons.injEq, true_and] at h
      · obtain ⟨rfl, h⟩ := h
        obtain ⟨rfl, rfl⟩ := ih h
        exact ⟨rfl, rfl⟩
      · exact absurd (.inr h.1.symm) special'
      · exact absurd (.inr h.1) special
      · obtain ⟨rfl, h⟩ := h
        obtain ⟨rfl, rfl⟩ := ih h
        exact ⟨rfl, rfl⟩

/-! ## Steps -/

/-- Characters that a step begins with. -/
def Begins (c : Char) : Prop := c = '.' ∨ c = '['

/-- A written step begins with a dot or a bracket. -/
lemma exists_write (segment : Segment) : ∃ c rest, segment.write = c :: rest ∧ Begins c := by
  cases segment with
  | field name =>
    by_cases plain : isPlainName name.toList
    · exact ⟨'.', _, by rw [write, if_pos plain], .inl rfl⟩
    · exact ⟨'[', _, by rw [write, if_neg plain], .inr rfl⟩
  | index position => exact ⟨'[', _, rfl, .inr rfl⟩

/-- A plain name holds no character that a step begins with. -/
lemma not_begins_of_plain {name : List Char} (plain : isPlainName name = true) :
    ∀ c ∈ name, ¬ Begins c := by
  intro c mem begins
  have ok := List.all_eq_true.mp (Bool.and_eq_true_iff.mp plain).2 c mem
  rcases begins with rfl | rfl <;> cases ok

/-- No quote stands where a position begins. -/
lemma decimal_append_ne_quote {i : Int} {r s : List Char} :
    Text.decimal i ++ r ≠ '\'' :: s := by
  intro h
  have numeral := Text.numeral_decimal i
  cases digits : Text.decimal i with
  | nil => exact numeral.ne_nil digits
  | cons c rest =>
    rw [digits] at h
    cases h
    exact numeral.not_mem (by decide) (digits ▸ List.mem_cons_self ..)

/-- No bracket closes inside a position. -/
lemma ne_bracket_of_mem_decimal {i : Int} : ∀ c ∈ Text.decimal i, c ≠ ']' := by
  rintro c mem rfl
  exact (Text.numeral_decimal i).not_mem (by decide) mem

/-- How a plain name is written. -/
lemma write_plain {name : String} (plain : isPlainName name.toList = true) :
    (Segment.field name).write = '.' :: name.toList := by
  rw [write, if_pos plain]

/-- How any other name is written. -/
lemma write_quoted {name : String} (quoted : ¬ isPlainName name.toList = true) :
    (Segment.field name).write = '[' :: '\'' :: (escapeName name.toList ++ ['\'', ']']) := by
  rw [write, if_neg quoted]

/-- A written step ends where the next one begins, and tells which step it is. -/
lemma write_append_inj {a b : Segment} {r s : List Char} (hr : ∀ c ∈ r.head?, Begins c)
    (hs : ∀ c ∈ s.head?, Begins c) (h : a.write ++ r = b.write ++ s) : a = b ∧ r = s := by
  -- the first two characters tell the three forms apart
  cases a with
  | field x =>
    by_cases px : isPlainName x.toList = true
    · rw [write_plain px] at h
      cases b with
      | field y =>
        by_cases py : isPlainName y.toList = true
        · rw [write_plain py] at h
          obtain ⟨same, rest⟩ := Text.append_inj_of_all (not_begins_of_plain px)
            (not_begins_of_plain py) (fun c mem => not_not_intro (hr c mem))
            (fun c mem => not_not_intro (hs c mem)) (List.cons.inj h).2
          rw [String.toList_injective same]
          exact ⟨rfl, rest⟩
        · rw [write_quoted py] at h
          cases h
      | index j => cases h
    · rw [write_quoted px] at h
      cases b with
      | field y =>
        by_cases py : isPlainName y.toList = true
        · rw [write_plain py] at h
          cases h
        · rw [write_quoted py] at h
          simp only [List.cons_append, List.append_assoc, List.nil_append, List.cons.injEq,
            true_and] at h
          obtain ⟨same, rest⟩ := escapeName_append_inj h
          rw [String.toList_injective same]
          exact ⟨rfl, (List.cons.inj rest).2⟩
      | index j =>
        simp only [write, List.cons_append, List.append_assoc, List.cons.injEq, true_and] at h
        exact absurd h.symm decimal_append_ne_quote
  | index i =>
    cases b with
    | field y =>
      by_cases py : isPlainName y.toList = true
      · rw [write_plain py] at h
        cases h
      · rw [write_quoted py] at h
        simp only [write, List.cons_append, List.append_assoc, List.cons.injEq, true_and] at h
        exact absurd h decimal_append_ne_quote
    | index j =>
      simp only [write, List.cons_append, List.append_assoc, List.nil_append, List.cons.injEq,
        true_and] at h
      have closes : ∀ {t : List Char}, ∀ c ∈ (']' :: t).head?, ¬ c ≠ ']' := by
        rintro t c mem
        cases mem
        exact not_not_intro rfl
      obtain ⟨same, rest⟩ := Text.append_inj_of_all ne_bracket_of_mem_decimal
        ne_bracket_of_mem_decimal closes closes h
      rw [Text.decimal_injective same]
      exact ⟨rfl, (List.cons.inj rest).2⟩

end Segment

namespace Path

/-- Steps that are written alike are the same. -/
lemma flatMap_write_injective {ss ts : List Segment}
    (h : ss.flatMap Segment.write = ts.flatMap Segment.write) : ss = ts := by
  have begins : ∀ us : List Segment, ∀ c ∈ (us.flatMap Segment.write).head?, Segment.Begins c := by
    intro us c mem
    cases us with
    | nil => cases mem
    | cons u us =>
      obtain ⟨d, rest, written, ok⟩ := u.exists_write
      rw [List.flatMap_cons, written] at mem
      cases mem
      exact ok
  induction ss generalizing ts with
  | nil =>
    cases ts with
    | nil => rfl
    | cons t ts =>
      obtain ⟨d, rest, written, _⟩ := t.exists_write
      rw [List.flatMap_cons, written] at h
      cases h
  | cons s ss ih =>
    cases ts with
    | nil =>
      obtain ⟨d, rest, written, _⟩ := s.exists_write
      rw [List.flatMap_cons, written] at h
      cases h
    | cons t ts =>
      obtain ⟨rfl, rest⟩ := Segment.write_append_inj (begins ss) (begins ts) h
      rw [ih rest]

/-- Paths with the same canonical form are the same. -/
lemma canonical_injective {p q : Path} (h : p.canonical = q.canonical) : p = q := by
  have written := (List.cons.inj (String.ofList_injective h)).2
  obtain ⟨segments⟩ := p
  obtain ⟨segments'⟩ := q
  exact congrArg Path.mk (flatMap_write_injective written)

end Path

end ChartLift
