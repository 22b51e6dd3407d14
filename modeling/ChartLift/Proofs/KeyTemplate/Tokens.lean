import ChartLift.Proofs.Path.Grammar
import ChartLift.Proofs.Text.Trim
import ChartLift.KeyTemplate.Reading

/-!
# Words of actions

An action body is read word by word: blanks are passed over, a quoted text ends at its quote, and any
other word where a blank or a pipe stands. So what follows a blank or a pipe is read as if nothing
stood in front of it (`KeyTemplate.tokens_append`).
-/

namespace ChartLift.KeyTemplate

/-- The operand that a text between quotes is. -/
def textOperand (text : List Char) : Operand :=
  .argument (.literal (.string (String.ofList text)))

variable {c : Char} {rest after text : List Char}

lemma tokens_nil : tokens [] = .ok [] := by rw [tokens]

lemma tokens_blank (blank : Text.isBlank c = true) : tokens (c :: rest) = tokens rest := by
  rw [tokens, if_pos blank]

lemma tokens_blanks {blanks : List Char} (blank : ∀ c ∈ blanks, Text.isBlank c = true) :
    tokens (blanks ++ rest) = tokens rest := by
  induction blanks with
  | nil => rfl
  | cons c blanks ih =>
    obtain ⟨here, blank⟩ := List.forall_mem_cons.mp blank
    rw [List.cons_append, tokens_blank here, ih blank]

lemma tokens_pipe : tokens ('|' :: rest) = (tokens rest).map (.pipe :: ·) := by
  rw [tokens, if_neg (by decide), if_pos rfl]

lemma tokens_text (reads : readText rest = .ok (text, after)) :
    tokens ('"' :: rest) = (tokens after).map (.operand (textOperand text) :: ·) := by
  rw [tokens, if_neg (by decide), if_neg (by decide), if_pos rfl]
  split
  next fault other => cases other.symm.trans reads
  next text' after' other =>
    cases other.symm.trans reads
    rfl

lemma tokens_rawText (plain : '\x60' ∉ text) :
    tokens ('\x60' :: (text ++ '\x60' :: after)) =
      (tokens after).map (.operand (textOperand text) :: ·) := by
  obtain ⟨upto, behind⟩ := @Text.cut_append (· != '\x60') text ('\x60' :: after)
    (fun c mem => bne_iff_ne.mpr fun same => plain (same ▸ mem)) (fun c mem => by cases mem; rfl)
  rw [tokens, if_neg (by decide), if_neg (by decide), if_neg (by decide), if_pos rfl]
  split
  next none => cases none.symm.trans behind
  next quote after' other =>
    cases other.symm.trans behind
    rw [upto]
    rfl

/-- The characters that begin a word without quotes. -/
def BeginsWord (c : Char) : Prop :=
  Text.isBlank c = false ∧ c ≠ '|' ∧ c ≠ '"' ∧ c ≠ '\x60'

lemma tokens_word {word : List Char} {operand : Operand} (begins : BeginsWord c)
    (inside : ∀ c ∈ word, endsWord c = false) (stop : ∀ c ∈ after.head?, endsWord c = true)
    (reads : readWord (c :: word) = .ok operand) :
    tokens (c :: (word ++ after)) = (tokens after).map (.operand operand :: ·) := by
  obtain ⟨visible, bar, quote, tick⟩ := begins
  obtain ⟨upto, behind⟩ := @Text.cut_append (!endsWord ·) word after
    (fun c mem => by rw [inside c mem]; rfl) (fun c mem => by rw [stop c mem]; rfl)
  rw [tokens, if_neg (by rw [visible]; decide), if_neg bar, if_neg quote, if_neg tick, upto,
    behind, reads]

/-! ## Quoted texts -/

lemma readText_escaped :
    readText ('\\' :: c :: rest) = (readText rest).map fun read => (escaped c :: read.1, read.2) := by
  rw [readText]

lemma readText_plain (quote : c ≠ '"') (escape : c ≠ '\\') :
    readText (c :: rest) = (readText rest).map fun read => (c :: read.1, read.2) := by
  rw [readText]
  · exact quote
  · exact fun same _ => escape same
  · exact fun _ _ same _ => escape same

/-- What stands behind a quoted text changes nothing in it. -/
lemma readText_append {body : List Char} (reads : readText body = .ok (text, after)) :
    readText (body ++ rest) = .ok (text, after ++ rest) := by
  fun_induction readText body generalizing text with
  | case1 => cases reads
  | case2 => cases reads; rfl
  | case3 => cases reads
  | case4 c body ih =>
    obtain ⟨⟨inner, _⟩, reads, same⟩ := Except.map_eq_ok_iff.mp reads
    cases same
    rw [List.cons_append, List.cons_append, readText_escaped, ih reads]
    rfl
  | case5 c body quote lone escape ih =>
    obtain ⟨⟨inner, _⟩, reads, same⟩ := Except.map_eq_ok_iff.mp reads
    cases same
    have plain : c ≠ '\\' := by
      cases body with
      | nil => exact fun same => lone same rfl
      | cons d body => exact fun same => escape d body same rfl
    rw [List.cons_append, readText_plain quote plain, ih reads]
    rfl

/-! ## Words one behind the other -/

lemma endsWord_of_isBlank (blank : Text.isBlank c = true) : endsWord c = true := by
  rw [endsWord, blank, Bool.true_or]

/-- What stands behind words, set off from them, is read as if it stood alone. -/
lemma tokens_append {body : List Char} {words : List ActionToken} (reads : tokens body = .ok words)
    (stop : ∀ c ∈ rest.head?, endsWord c = true) :
    tokens (body ++ rest) = (tokens rest).map (words ++ ·) := by
  fun_induction tokens body generalizing words with
  | case1 =>
    cases reads
    rw [List.nil_append]
    cases tokens rest <;> rfl
  | case2 c body blank ih => rw [List.cons_append, tokens_blank blank, ih reads]
  | case3 body blank ih =>
    obtain ⟨behind, there, rfl⟩ := Except.map_eq_ok_iff.mp reads
    rw [List.cons_append, tokens_pipe, ih there]
    cases tokens rest <;> rfl
  | case4 => cases reads
  | case5 body text after inner _ _ ih =>
    obtain ⟨behind, there, rfl⟩ := Except.map_eq_ok_iff.mp reads
    rw [List.cons_append, tokens_text (readText_append inner), ih there]
    cases tokens rest <;> rfl
  | case6 => cases reads
  | case7 body quote after inner =>
    rename_i ih
    obtain ⟨behind, there, rfl⟩ := Except.map_eq_ok_iff.mp reads
    have split : body = body.takeWhile (· != '\x60') ++ quote :: after := by
      rw [← inner]
      exact List.takeWhile_append_dropWhile.symm
    have ends := List.head?_dropWhile_not (· != '\x60') body
    rw [inner] at ends
    obtain rfl : quote = '\x60' := by simpa using ends
    have plain : '\x60' ∉ body.takeWhile (· != '\x60') := fun mem => by
      simpa using List.mem_takeWhile_imp mem
    conv_lhs => rw [split]
    rw [List.cons_append, List.append_assoc, List.cons_append, tokens_rawText plain, ih there]
    cases tokens rest <;> rfl
  | case8 => cases reads
  | case9 c body visible bar quote tick operand inner ih =>
    obtain ⟨behind, there, rfl⟩ := Except.map_eq_ok_iff.mp reads
    have split : body = body.takeWhile (!endsWord ·) ++ body.dropWhile (!endsWord ·) :=
      List.takeWhile_append_dropWhile.symm
    have ends := List.head?_dropWhile_not (!endsWord ·) body
    have begins : BeginsWord c := ⟨Bool.eq_false_iff.mpr visible, bar, quote, tick⟩
    have inside : ∀ d ∈ body.takeWhile (!endsWord ·), endsWord d = false := fun d mem => by
      simpa using List.mem_takeWhile_imp mem
    have stops : ∀ d ∈ (body.dropWhile (!endsWord ·) ++ rest).head?, endsWord d = true := by
      intro d mem
      cases tail : body.dropWhile (!endsWord ·) with
      | nil => exact stop d (by simpa [tail] using mem)
      | cons e tail' =>
        rw [tail] at ends mem
        cases mem
        simpa using ends
    conv_lhs => rw [split]
    rw [List.cons_append, List.append_assoc, tokens_word begins inside stops inner, ih there]
    cases tokens rest <;> rfl

end ChartLift.KeyTemplate
