import ChartLift.Proofs.KeyTemplate.Acceptance
import ChartLift.Proofs.KeyTemplate.Tokens

/-!
# Texts in quotes

A text in quotes stands for itself: between double quotes with a backslash in front of every quote and
backslash, or between backquotes as it is (`Quoted`). Whatever else stands in it, the only things that
are not part of the text are the blanks and trim markers between the quotes and the delimiters
(`KeyTemplate.render_quoted`).
-/

namespace ChartLift

namespace Segmentation

/-! ## Margins -/

/-- What may stand between an opening delimiter and what is in an action: blanks, and in front of them
a trim marker or none. -/
def OpeningMargin (margin : List Char) : Prop :=
  ∃ marker blanks, margin = marker ++ blanks ∧ (∀ c ∈ blanks, Text.isBlank c = true) ∧
    (marker = [] ∨ marker = ['-'] ∧ blanks ≠ [])

/-- What may stand between what is in an action and its closing delimiter. -/
def ClosingMargin (margin : List Char) : Prop :=
  OpeningMargin margin.reverse

lemma isBlank_dash : Text.isBlank '-' = false := Text.isBlank_eq_false (by decide) (by decide)

lemma Marks.reverse_eq {there : Prop} {marker : List Char} (marks : Marks there marker) :
    marker.reverse = marker := by
  obtain ⟨-, rfl⟩ | ⟨-, rfl⟩ := marks <;> rfl

/-- The dash of a margin is a trim marker, and without one there is none. -/
lemma OpeningMargin.marks {margin rest : List Char} (opens : OpeningMargin margin)
    (first : ∀ c ∈ rest.head?, c ≠ '-') :
    ∃ marker blanks, margin = marker ++ blanks ∧ (∀ c ∈ blanks, Text.isBlank c = true) ∧
      Marks (OpensTrimmed (margin ++ rest)) marker := by
  obtain ⟨marker, blanks, rfl, blank, rfl | ⟨rfl, some⟩⟩ := opens
  · refine ⟨[], blanks, rfl, blank, .inr ⟨?_, rfl⟩⟩
    rintro ⟨space, behind, split, -⟩
    cases blanks with
    | nil => exact first '-' (by rw [show rest = _ from split]; rfl) rfl
    | cons c blanks =>
      obtain rfl : c = '-' := (List.cons.inj split).1
      cases (blank _ List.mem_cons_self).symm.trans isBlank_dash
  · cases blanks with
    | nil => exact absurd rfl some
    | cons c blanks =>
      exact ⟨['-'], c :: blanks, rfl, blank, .inl ⟨⟨c, _, rfl, blank c List.mem_cons_self⟩, rfl⟩⟩

/-- That a text neither begins nor ends with a blank or a dash. -/
structure Solid (core : List Char) : Prop where
  first : ∀ c ∈ core.head?, Text.isBlank c = false ∧ c ≠ '-'
  last : ∀ c ∈ core.getLast?, Text.isBlank c = false ∧ c ≠ '-'

/-- Margins are no part of what is in an action. -/
lemma isBare_of_margins {left core right : List Char} (opens : OpeningMargin left)
    (closes : ClosingMargin right) (solid : Solid core) (some : core ≠ []) :
    IsBare (left ++ (core ++ right)) core := by
  have first : ∀ c ∈ (core ++ right).head?, c ≠ '-' := by
    intro c mem
    rw [List.head?_append_of_ne_nil _ some] at mem
    exact (solid.first c mem).2
  have last : ∀ c ∈ (left ++ core).reverse.head?, c ≠ '-' := by
    intro c mem
    rw [List.head?_reverse, List.getLast?_append_of_ne_nil _ some] at mem
    exact (solid.last c mem).2
  obtain ⟨opening, before, rfl, blank, marks⟩ := opens.marks first
  obtain ⟨closing, behind, split, blank', marks'⟩ := OpeningMargin.marks closes last
  obtain rfl : right = behind.reverse ++ closing := by
    rw [← marks'.reverse_eq, ← List.reverse_append, ← split, List.reverse_reverse]
  rw [← List.reverse_append, opensTrimmed_reverse, List.append_assoc] at marks'
  refine ⟨opening, before ++ (core ++ behind.reverse), closing, by simp, marks, marks',
    ⟨before, behind.reverse, rfl, blank, by simpa using blank'⟩, fun c mem => ?_, fun c mem => ?_⟩
  · exact (solid.first c mem).1
  · exact (solid.last c mem).1

lemma OpeningMargin.not_mem {margin : List Char} (opens : OpeningMargin margin) :
    '\x7d' ∉ margin := by
  obtain ⟨marker, blanks, rfl, blank, marked⟩ := opens
  rw [List.mem_append]
  rintro (mem | mem)
  · obtain rfl | ⟨rfl, -⟩ := marked
    · cases mem
    · cases List.mem_singleton.mp mem
  · exact brace_not_mem blank mem

end Segmentation

namespace KeyTemplate

open Segmentation

/-- A source that is one action. -/
def actionSource (body : List Char) : String :=
  String.ofList ('\x7b' :: '\x7b' :: (body ++ ['\x7d', '\x7d']))

lemma cuts_actionSource {body : List Char} (closed : ¬ ['\x7d', '\x7d'] <:+: body ++ ['\x7d']) :
    Cuts (actionSource body).toList [] [(body, [])] := by
  rw [actionSource, String.toList_ofList]
  exact @Cuts.action [] body [] [] [] (by decide) closed (.last (by decide))

lemma read_actionSource {body bare : List Char} {pipeline : Pipeline}
    (closed : ¬ ['\x7d', '\x7d'] <:+: body ++ ['\x7d']) (is : IsBare body bare)
    (plain : ¬ Comments bare) (reads : readPipeline bare = .ok pipeline) :
    KeyTemplate.read (actionSource body) = .ok ⟨actionSource body, [.action pipeline]⟩ := by
  have given : actionPiece body = .ok [.action pipeline] := by
    rw [actionPiece, isBare_iff.mp is, if_neg (isComment_iff.not.mpr plain), reads]
    rfl
  have none : ∀ atStart atEnd, textPiece (trimText atStart atEnd []) = [] := by
    intro atStart atEnd
    cases atStart <;> cases atEnd <;> rfl
  refine (read_eq_ok_iff_of_cuts (cuts_actionSource closed)).mpr ⟨_, readPieces_cons_eq_ok_iff.mpr
    ⟨_, _, given, readPieces_nil_of_clear not_stray_nil, rfl⟩, ?_⟩
  rw [none, none]
  rfl

/-! ## Quotes -/

/-- A text with a backslash in front of every backslash and every double quote. -/
def escape : List Char → List Char
  | [] => []
  | c :: rest => if c = '\\' ∨ c = '"' then '\\' :: c :: escape rest else c :: escape rest

lemma escaped_self {c : Char} (marked : c = '\\' ∨ c = '"') : escaped c = c := by
  obtain rfl | rfl := marked <;> rfl

/-- What is escaped is read back up to the quote behind it. -/
lemma readText_escape (text after : List Char) :
    readText (escape text ++ '"' :: after) = .ok (text, after) := by
  induction text with
  | nil => rfl
  | cons c text ih =>
    rw [escape]
    split
    next marked =>
      rw [List.cons_append, List.cons_append, readText_escaped, ih, escaped_self marked]
      rfl
    next plain =>
      obtain ⟨escape, quote⟩ := not_or.mp plain
      rw [List.cons_append, readText_plain quote escape, ih]
      rfl

/-- That something is a text in quotes. -/
inductive Quoted (text : List Char) : List Char → Prop where
  | escaped :
    ¬ Stray (escape text) →
    Quoted text ('"' :: (escape text ++ ['"']))
  | raw :
    '\x60' ∉ text →
    ¬ Stray text →
    Quoted text ('\x60' :: (text ++ ['\x60']))

variable {text core : List Char}

lemma Quoted.enclosed (quoted : Quoted text core) :
    ∃ quote inside, (quote = '"' ∨ quote = '\x60') ∧ core = quote :: (inside ++ [quote]) ∧
      ¬ Stray inside := by
  cases quoted with
  | escaped clear => exact ⟨_, _, .inl rfl, rfl, clear⟩
  | raw _ clear => exact ⟨_, _, .inr rfl, rfl, clear⟩

lemma Quoted.tokens_eq (quoted : Quoted text core) :
    tokens core = .ok [.operand (textOperand text)] := by
  cases quoted with
  | escaped => rw [tokens_text (readText_escape text []), tokens_nil]; rfl
  | raw plain => rw [tokens_rawText plain, tokens_nil]; rfl

lemma Quoted.readPipeline_eq (quoted : Quoted text core) :
    readPipeline core = .ok ⟨.argument (.literal (.string (String.ofList text))), []⟩ := by
  obtain ⟨quote, inside, -, rfl, -⟩ := quoted.enclosed
  show (tokens (quote :: (inside ++ [quote])) >>= _) = _
  rw [quoted.tokens_eq]
  rfl

lemma Quoted.solid (quoted : Quoted text core) : Solid core := by
  obtain ⟨quote, inside, is, rfl, -⟩ := quoted.enclosed
  have visible : Text.isBlank quote = false ∧ quote ≠ '-' := by
    obtain rfl | rfl := is
    · exact ⟨Text.isBlank_eq_false (by decide) (by decide), by decide⟩
    · exact ⟨Text.isBlank_eq_false (by decide) (by decide), by decide⟩
  refine ⟨fun c mem => ?_, fun c mem => ?_⟩
  · cases mem
    exact visible
  · rw [← List.cons_append, List.getLast?_concat] at mem
    cases mem
    exact visible

lemma Quoted.not_comments (quoted : Quoted text core) : ¬ Comments core := by
  obtain ⟨quote, inside, is, rfl, -⟩ := quoted.enclosed
  rintro ⟨note, same⟩
  obtain rfl := (List.cons.inj same).1
  exact absurd is (by decide)

/-- The quotes keep what is between them apart from the braces of the closing delimiter. -/
lemma Quoted.closed {left right : List Char} (quoted : Quoted text core)
    (opens : OpeningMargin left) (closes : ClosingMargin right) :
    ¬ ['\x7d', '\x7d'] <:+: left ++ (core ++ right) ++ ['\x7d'] := by
  obtain ⟨quote, inside, is, rfl, clear⟩ := quoted.enclosed
  have apart : quote ≠ '\x7d' := by
    obtain rfl | rfl := is <;> decide
  have behind : '\x7d' ∉ right := fun mem => OpeningMargin.not_mem closes (List.mem_reverse.mpr mem)
  rw [List.append_assoc, Text.double_infix_append_left opens.not_mem, List.cons_append,
    List.cons_append, ← List.nil_append (quote :: _), Text.double_infix_append_cons apart]
  simp only [List.append_assoc, List.cons_append, List.nil_append]
  rw [Text.double_infix_append_cons apart, Text.double_infix_append_left behind]
  rintro (none | inner | lone)
  · exact not_stray_nil none
  · exact clear inner
  · simpa using lone.length_le

/-- A text in quotes, with blanks and trim markers around it or none, is the key of an action. -/
theorem render_quoted {left right : List Char} (quoted : Quoted text core)
    (opens : OpeningMargin left) (closes : ClosingMargin right) :
    ∃ template, KeyTemplate.read (actionSource (left ++ (core ++ right))) = .ok template ∧
      ∀ object, template.render object = .ok (String.ofList text) := by
  have some : core ≠ [] := by
    obtain ⟨quote, inside, -, rfl, -⟩ := quoted.enclosed
    exact List.cons_ne_nil _ _
  refine ⟨_, read_actionSource (quoted.closed opens closes)
    (isBare_of_margins opens closes quoted.solid some) quoted.not_comments quoted.readPipeline_eq,
    fun object => ?_⟩
  rw [render_eq_ok_iff, renders_cons_iff]
  exact ⟨_, [], rfl, renders_nil_iff.mpr rfl, (List.append_nil _).symm⟩

/-- A text with what means something elsewhere in a template: a trim marker, a pipe, an opening
delimiter, the mark of a comment, a line feed, a quote, a backslash and a brace. -/
def tricky : String := "- | \x7b\x7b/*\n\"\\n\x7d"

theorem render_quoted_tricky :
    Quoted tricky.toList "\"- | \x7b\x7b/*\n\\\"\\\\n\x7d\"".toList ∧
      Quoted tricky.toList "\x60- | \x7b\x7b/*\n\"\\n\x7d\x60".toList ∧
      OpeningMargin [' '] ∧ ClosingMargin [' '] ∧ OpeningMargin ['-', '\n'] ∧ ClosingMargin [] ∧
      (∃ template, KeyTemplate.read
          "\x7b\x7b \"- | \x7b\x7b/*\n\\\"\\\\n\x7d\" \x7d\x7d" = .ok template ∧
        ∀ object, template.render object = .ok tricky) ∧
      ∃ template, KeyTemplate.read
          "\x7b\x7b-\n\x60- | \x7b\x7b/*\n\"\\n\x7d\x60\x7d\x7d" = .ok template ∧
        ∀ object, template.render object = .ok tricky := by
  have escaped : Quoted tricky.toList "\"- | \x7b\x7b/*\n\\\"\\\\n\x7d\"".toList := by
    rw [show "\"- | \x7b\x7b/*\n\\\"\\\\n\x7d\"".toList = '"' :: (escape tricky.toList ++ ['"']) by
      decide +kernel]
    exact .escaped (by unfold Stray; decide +kernel)
  have raw : Quoted tricky.toList "\x60- | \x7b\x7b/*\n\"\\n\x7d\x60".toList := by
    rw [show "\x60- | \x7b\x7b/*\n\"\\n\x7d\x60".toList = '\x60' :: (tricky.toList ++ ['\x60']) by
      decide +kernel]
    exact .raw (by decide +kernel) (by unfold Stray; decide +kernel)
  have space : OpeningMargin [' '] :=
    ⟨[], [' '], rfl, List.forall_mem_singleton.mpr rfl, .inl rfl⟩
  have marked : OpeningMargin ['-', '\n'] :=
    ⟨['-'], ['\n'], rfl, List.forall_mem_singleton.mpr rfl, .inr ⟨rfl, by simp⟩⟩
  have none : ClosingMargin [] := ⟨[], [], rfl, by simp, .inl rfl⟩
  have quotes := @render_quoted _ _ [' '] [' '] escaped space space
  have ticks := render_quoted raw marked none
  have quoted : actionSource
      ([' '] ++ ("\"- | \x7b\x7b/*\n\\\"\\\\n\x7d\"".toList ++ [' '])) =
        "\x7b\x7b \"- | \x7b\x7b/*\n\\\"\\\\n\x7d\" \x7d\x7d" := by decide +kernel
  have ticked : actionSource
      (['-', '\n'] ++ ("\x60- | \x7b\x7b/*\n\"\\n\x7d\x60".toList ++ [])) =
        "\x7b\x7b-\n\x60- | \x7b\x7b/*\n\"\\n\x7d\x60\x7d\x7d" := by decide +kernel
  rw [quoted, String.ofList_toList] at quotes
  rw [ticked, String.ofList_toList] at ticks
  exact ⟨escaped, raw, space, space, marked, none, quotes, ticks⟩

end KeyTemplate

end ChartLift
