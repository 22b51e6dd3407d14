import ChartLift.Text.Integer
import Mathlib.Tactic.Lemma

/-!
# Numerals

The texts that are read as integers are the numerals: decimal digits behind an optional sign
(`integer?_eq_some_iff`). Among them is the decimal text of each integer (`numeral_decimal`), which no
other integer has.
-/

namespace ChartLift.Text

/-- That one or more decimal digits write a number. -/
structure Digits (text : List Char) (n : Nat) : Prop where
  some : text ≠ []
  digit : ∀ c ∈ text, c.isDigit = true
  value : Nat.ofDigitChars 10 text 0 = n

/-- That a text writes an integer: digits, behind a sign or without one. -/
inductive Numeral : List Char → Int → Prop where
  | unsigned {digits n} :
    Digits digits n →
    Numeral digits n
  | plus {digits n} :
    Digits digits n →
    Numeral ('+' :: digits) n
  | minus {digits n} :
    Digits digits n →
    Numeral ('-' :: digits) (-(n : Int))

/-! ## What is read -/

lemma digitsOnto_eq_some_iff {seen n : Nat} {text : List Char} :
    digitsOnto seen text = some n ↔
      (∀ c ∈ text, c.isDigit = true) ∧ Nat.ofDigitChars 10 text seen = n := by
  induction text generalizing seen with
  | nil => simp [digitsOnto, Nat.ofDigitChars]
  | cons c rest ih =>
    have range : c.isDigit = true ↔ '0' ≤ c ∧ c ≤ '9' := by
      rw [Char.isDigit, Bool.and_eq_true, decide_eq_true_eq, decide_eq_true_eq]
      exact Iff.rfl
    by_cases digit : '0' ≤ c ∧ c ≤ '9'
    · rw [digitsOnto, digitValue?, if_pos digit, Nat.ofDigitChars_cons, Nat.mul_comm 10]
      simp only [ih, List.forall_mem_cons, range.mpr digit, true_and]
    · rw [digitsOnto, digitValue?, if_neg digit]
      constructor
      · intro read; cases read
      · rintro ⟨all, -⟩
        exact absurd (range.mp (all c (List.mem_cons_self ..))) digit

lemma natural?_eq_some_iff {text : List Char} {n : Nat} :
    natural? text = some n ↔ Digits text n := by
  cases text with
  | nil =>
    constructor
    · intro read; cases read
    · intro digits; exact absurd rfl digits.some
  | cons c rest =>
    rw [natural?, digitsOnto_eq_some_iff]
    · constructor
      · rintro ⟨digit, value⟩
        exact ⟨List.cons_ne_nil _ _, digit, value⟩
      · intro digits
        exact ⟨digits.digit, digits.value⟩
    · exact List.cons_ne_nil _ _

lemma integer?_minus (digits : List Char) :
    integer? ('-' :: digits) = (natural? digits).map fun n : Nat => -(n : Int) := by
  cases read : natural? digits <;> simp [integer?, read]

lemma integer?_plus (digits : List Char) :
    integer? ('+' :: digits) = (natural? digits).map Int.ofNat := rfl

lemma integer?_unsigned {digits : List Char} (minus : digits.head? ≠ some '-')
    (plus : digits.head? ≠ some '+') : integer? digits = (natural? digits).map Int.ofNat := by
  unfold integer?
  split
  · exact absurd rfl minus
  · exact absurd rfl plus
  · rfl

/-- Digits begin with no sign. -/
lemma Digits.head?_ne {digits : List Char} {n : Nat} (h : Digits digits n) {sign : Char}
    (other : sign.isDigit = false) : digits.head? ≠ Option.some sign := by
  intro begins
  have := h.digit sign (List.mem_of_head? begins)
  rw [other] at this
  cases this

/-- The texts that are read as integers are the numerals. -/
lemma integer?_eq_some_iff {text : List Char} {i : Int} :
    integer? text = some i ↔ Numeral text i := by
  constructor
  · intro read
    by_cases minus : text.head? = some '-'
    · obtain ⟨rest, rfl⟩ := List.head?_eq_some_iff.mp minus
      rw [integer?_minus] at read
      obtain ⟨n, digits, rfl⟩ := Option.map_eq_some_iff.mp read
      exact .minus (natural?_eq_some_iff.mp digits)
    by_cases plus : text.head? = some '+'
    · obtain ⟨rest, rfl⟩ := List.head?_eq_some_iff.mp plus
      rw [integer?_plus] at read
      obtain ⟨n, digits, rfl⟩ := Option.map_eq_some_iff.mp read
      exact .plus (natural?_eq_some_iff.mp digits)
    · rw [integer?_unsigned minus plus] at read
      obtain ⟨n, digits, rfl⟩ := Option.map_eq_some_iff.mp read
      exact .unsigned (natural?_eq_some_iff.mp digits)
  · intro numeral
    cases numeral with
    | unsigned digits =>
      rw [integer?_unsigned (digits.head?_ne rfl) (digits.head?_ne rfl),
        natural?_eq_some_iff.mpr digits]
      rfl
    | plus digits => rw [integer?_plus, natural?_eq_some_iff.mpr digits]; rfl
    | minus digits => rw [integer?_minus, natural?_eq_some_iff.mpr digits]; rfl

lemma integer64?_eq_some_iff {text : List Char} {i : Int} :
    integer64? text = some i ↔ Numeral text i ∧ fits64 i = true := by
  rw [integer64?, Option.filter_eq_some_iff, integer?_eq_some_iff]

/-! ## What numerals hold -/

lemma Numeral.ne_nil {text : List Char} {i : Int} (numeral : Numeral text i) : text ≠ [] := by
  cases numeral with
  | unsigned digits => exact digits.some
  | plus _ => exact List.cons_ne_nil _ _
  | minus _ => exact List.cons_ne_nil _ _

lemma Numeral.mem {text : List Char} {i : Int} (numeral : Numeral text i) {c : Char}
    (mem : c ∈ text) : c.isDigit = true ∨ c = '+' ∨ c = '-' := by
  cases numeral with
  | unsigned digits => exact .inl (digits.digit c mem)
  | plus digits =>
    rcases List.mem_cons.mp mem with rfl | mem
    · exact .inr (.inl rfl)
    · exact .inl (digits.digit c mem)
  | minus digits =>
    rcases List.mem_cons.mp mem with rfl | mem
    · exact .inr (.inr rfl)
    · exact .inl (digits.digit c mem)

lemma Numeral.not_mem {text : List Char} {i : Int} (numeral : Numeral text i) {c : Char}
    (other : ¬ (c.isDigit = true ∨ c = '+' ∨ c = '-')) : c ∉ text :=
  fun mem => other (numeral.mem mem)

/-! ## Decimal texts -/

lemma digits_toDigits (n : Nat) : Digits (Nat.toDigits 10 n) n where
  some := Nat.toDigits_ne_nil
  digit _ mem := Nat.isDigit_of_mem_toDigits (by decide) (by decide) mem
  value := Nat.ofDigitChars_ten_toDigits

/-- The decimal text of an integer is a numeral for it. -/
lemma numeral_decimal (i : Int) : Numeral (decimal i) i := by
  cases i with
  | ofNat n => exact .unsigned (digits_toDigits n)
  | negSucc n => exact .minus (digits_toDigits (n + 1))

lemma decimal_injective {i j : Int} (h : decimal i = decimal j) : i = j := by
  have read := integer?_eq_some_iff.mpr (numeral_decimal i)
  rw [h, integer?_eq_some_iff.mpr (numeral_decimal j)] at read
  exact (Option.some.inj read).symm

end ChartLift.Text
