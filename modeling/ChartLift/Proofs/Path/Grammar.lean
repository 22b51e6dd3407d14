import ChartLift.Path.Reading
import ChartLift.Proofs.Path.Canonical
import ChartLift.Proofs.Text.Integer
import ChartLift.Proofs.Text.Trim

/-!
# The grammar of paths

A path is spelled as its steps, one behind the other, behind a dollar sign or not, and all of it
between braces or not (`Path.Spells`). Reading accepts exactly the texts that spell a path, and finds
the path that they spell (`Path.read_eq_ok_iff`).
-/

namespace ChartLift

/-- A result that has been changed comes from a result. -/
lemma Except.map_eq_ok_iff {ε α β : Type} {f : α → β} {x : Except ε α} {b : β} :
    x.map f = .ok b ↔ ∃ a, x = .ok a ∧ f a = b := by
  cases x with
  | error e =>
    constructor
    · intro h; cases h
    · rintro ⟨a, h, -⟩; cases h
  | ok a =>
    constructor
    · intro h; cases h; exact ⟨a, rfl, rfl⟩
    · rintro ⟨_, h, rfl⟩; cases h; rfl

/-- A result of two steps comes from a result of the first one. -/
lemma Except.bind_eq_ok_iff {ε α β : Type} {f : α → Except ε β} {x : Except ε α} {b : β} :
    x >>= f = .ok b ↔ ∃ a, x = .ok a ∧ f a = .ok b := by
  cases x with
  | error e =>
    constructor
    · intro h; cases h
    · rintro ⟨a, h, -⟩; cases h
  | ok a =>
    constructor
    · intro h; exact ⟨a, rfl, h⟩
    · rintro ⟨_, h, f_eq⟩; cases h; exact f_eq

/-! ## Steps -/

namespace Segment

/-- Names that may stand behind a dot. -/
structure Dottable (name : List Char) : Prop where
  some : name ≠ []
  not_star : name ≠ ['*']
  clean : ∀ c ∈ name, Text.isBlank c = false ∧ c ∉ ['\'', '"', '.', '[', ']']

/-- That a text between quotes spells a name: the character behind a backslash is taken as it is, and
so is every other one but the quote. -/
inductive Quotes (quote : Char) : List Char → List Char → Prop where
  | nil :
    Quotes quote [] []
  | escaped {c body name} :
    Quotes quote body name →
    Quotes quote ('\\' :: c :: body) (c :: name)
  | plain {c body name} :
    c ≠ quote →
    c ≠ '\\' →
    Quotes quote body name →
    Quotes quote (c :: body) (c :: name)

/-- That a text spells a step. -/
inductive Spells : List Char → Segment → Prop where
  | dotted {name} :
    Dottable name →
    Spells ('.' :: name) (.field (String.ofList name))
  | position {inside digits position} :
    Text.Trims inside digits →
    Text.Numeral digits position →
    Text.fits64 position = true →
    Spells ('[' :: (inside ++ [']'])) (.index position)
  | quoted {quote body name} :
    quote = '\'' ∨ quote = '"' →
    Quotes quote body name →
    Spells ('[' :: quote :: (body ++ [quote, ']'])) (.field (String.ofList name))

lemma Spells.exists_cons {text : List Char} {segment : Segment} (spells : Spells text segment) :
    ∃ c rest, text = c :: rest ∧ Begins c := by
  cases spells with
  | dotted _ => exact ⟨'.', _, rfl, .inl rfl⟩
  | position _ _ _ => exact ⟨'[', _, rfl, .inr rfl⟩
  | quoted _ _ => exact ⟨'[', _, rfl, .inr rfl⟩

end Segment

namespace Path

open Segment (Dottable Quotes Begins)

/-! ### Names -/

lemma quotedName_cons {quote c : Char} (plain : c ≠ '\\') (rest : List Char) :
    quotedName quote (c :: rest) =
      if c = quote then .ok ([], rest)
      else (quotedName quote rest).map fun (name, after) => (c :: name, after) := by
  rw [quotedName]
  · rintro rfl; exact absurd rfl plain
  · rintro _ _ rfl; exact absurd rfl plain

lemma quotedName_eq_ok_iff {quote : Char} (mark : quote ≠ '\\') {text name after : List Char} :
    quotedName quote text = .ok (name, after) ↔
      ∃ body, text = body ++ quote :: after ∧ Quotes quote body name := by
  constructor
  · intro read
    fun_induction quotedName quote text generalizing name with
    | case1 => cases read
    | case2 => cases read
    | case3 c rest ih =>
      obtain ⟨⟨name, after⟩, read, same⟩ := Except.map_eq_ok_iff.mp read
      cases same
      obtain ⟨body, rfl, quotes⟩ := ih read
      exact ⟨'\\' :: c :: body, rfl, .escaped quotes⟩
    | case4 rest =>
      cases read
      exact ⟨[], rfl, .nil⟩
    | case5 c rest last behind other ih =>
      -- a backslash would be the last character or have one behind it
      have plain : c ≠ '\\' := by
        rintro rfl
        cases rest with
        | nil => exact last rfl rfl
        | cons d rest => exact behind d rest rfl rfl
      obtain ⟨⟨name, after⟩, read, same⟩ := Except.map_eq_ok_iff.mp read
      cases same
      obtain ⟨body, rfl, quotes⟩ := ih read
      exact ⟨c :: body, rfl, .plain other plain quotes⟩
  · rintro ⟨body, rfl, quotes⟩
    induction quotes with
    | nil => rw [List.nil_append, quotedName_cons mark, if_pos rfl]
    | escaped _ ih => rw [List.cons_append, List.cons_append, quotedName, ih]; rfl
    | plain other plain _ ih =>
      rw [List.cons_append, quotedName_cons plain, if_neg other, ih]
      rfl

/-- What may stand in a name behind a dot neither ends it nor is out of place in it. -/
lemma stays_iff {c : Char} : (isStray c = false ∧ endsName c = false) ↔
    Text.isBlank c = false ∧ c ∉ ['\'', '"', '.', '[', ']'] := by
  simp [isStray, endsName, and_assoc]

lemma dottedName_eq_ok_iff {name : List Char} {segment : Segment}
    (within : ∀ c ∈ name, endsName c = false) :
    dottedName name = .ok segment ↔ Dottable name ∧ segment = .field (String.ofList name) := by
  constructor
  · intro read
    unfold dottedName at read
    split at read
    · cases read
    rename_i found
    split_ifs at read with empty star
    cases read
    refine ⟨⟨fun none => empty (List.isEmpty_iff.mpr none), star, fun c mem => ?_⟩, rfl⟩
    have fits : isStray c = false := Bool.eq_false_iff.mpr (List.find?_eq_none.mp found c mem)
    exact stays_iff.mp ⟨fits, within c mem⟩
  · rintro ⟨dottable, rfl⟩
    have fits : ∀ c ∈ name, ¬ isStray c = true :=
      fun c mem => Bool.eq_false_iff.mp (stays_iff.mpr (dottable.clean c mem)).1
    have some : ¬ name.isEmpty = true := fun empty => dottable.some (List.isEmpty_iff.mp empty)
    simp only [dottedName, List.find?_eq_none.mpr fits, if_neg some, if_neg dottable.not_star]

/-! ### Brackets -/

lemma bracketIndex_eq_ok_iff {body : List Char} {segment : Segment} :
    bracketIndex body = .ok segment ↔
      ∃ position, Text.Numeral body position ∧ Text.fits64 position = true ∧
        segment = .index position := by
  constructor
  · intro read
    unfold bracketIndex at read
    split_ifs at read
    split at read
    · rename_i position found
      cases read
      obtain ⟨numeral, fits⟩ := Text.integer64?_eq_some_iff.mp found
      exact ⟨position, numeral, fits, rfl⟩
    · cases read
  · rintro ⟨position, numeral, fits, rfl⟩
    have selects : ¬ (body = ['*'] ∨ ':' ∈ body ∨ body.head? = some '?' ∨ ',' ∈ body) := by
      rintro (rfl | colon | question | comma)
      · exact numeral.not_mem (by decide) (List.mem_singleton_self '*')
      · exact numeral.not_mem (by decide) colon
      · exact numeral.not_mem (by decide) (List.mem_of_head? question)
      · exact numeral.not_mem (by decide) comma
    rw [bracketIndex, if_neg selects, Text.integer64?_eq_some_iff.mpr ⟨numeral, fits⟩]

/-- Neither a quote nor a bracket stands among the blanks and the numeral of a position. -/
lemma ne_of_mem_position {inside digits : List Char} {position : Int} {c : Char}
    (trims : Text.Trims inside digits) (numeral : Text.Numeral digits position) (mem : c ∈ inside) :
    c ≠ '\'' ∧ c ≠ '"' ∧ c ≠ ']' := by
  obtain ⟨left, right, rfl, blank_left, blank_right⟩ := trims.around
  have cases : Text.isBlank c = true ∨ c.isDigit = true ∨ c = '+' ∨ c = '-' := by
    rcases List.mem_append.mp mem with mem | mem
    · exact .inl (blank_left c mem)
    rcases List.mem_append.mp mem with mem | mem
    · exact .inr (numeral.mem mem)
    · exact .inl (blank_right c mem)
  refine ⟨?_, ?_, ?_⟩ <;>
  · rintro rfl
    revert cases
    decide

lemma ne_backslash {quote : Char} (mark : quote = '\'' ∨ quote = '"') : quote ≠ '\\' := by
  rcases mark with rfl | rfl <;> decide

/-- A step between brackets that begins with a quote. -/
lemma bracketStep_quote {quote : Char} (mark : quote = '\'' ∨ quote = '"') {text after : List Char}
    {segment : Segment} :
    bracketStep (quote :: text) = .ok (segment, after) ↔
      ∃ name, quotedName quote text = .ok (name, ']' :: after) ∧
        segment = .field (String.ofList name) := by
  rw [bracketStep, if_pos mark]
  constructor
  · intro read
    split at read
    · cases read
    · rename_i name tail found
      cases read
      exact ⟨name, found, rfl⟩
    · cases read
  · rintro ⟨name, found, rfl⟩
    rw [found]
    rfl

/-- A step between brackets that does not. -/
lemma bracketStep_position {first : Char} (other : ¬ (first = '\'' ∨ first = '"'))
    {text after : List Char} {segment : Segment} :
    bracketStep (first :: text) = .ok (segment, after) ↔
      ∃ inside, first :: text = inside ++ ']' :: after ∧ ']' ∉ inside ∧
        bracketIndex (Text.trim inside) = .ok segment := by
  rw [bracketStep, if_neg other]
  constructor
  · intro read
    split at read
    · cases read
    rename_i bracket behind cut
    obtain ⟨found, index, same⟩ := Except.map_eq_ok_iff.mp read
    cases same
    have stop := List.head?_dropWhile_not (· != ']') (first :: text)
    rw [cut] at stop
    obtain rfl : bracket = ']' := by simpa using stop
    refine ⟨(first :: text).takeWhile (· != ']'), ?_, fun mem => ?_, index⟩
    · rw [← cut]
      exact List.takeWhile_append_dropWhile.symm
    · have := List.mem_takeWhile_imp mem
      simp at this
  · rintro ⟨inside, split, without, index⟩
    have within : ∀ c ∈ inside, (c != ']') = true :=
      fun c mem => by simpa using ne_of_mem_of_not_mem mem without
    have closes : ∀ c ∈ (']' :: after).head?, (c != ']') = false := by
      intro c mem
      cases mem
      rfl
    obtain ⟨front, rest⟩ := Text.cut_append within closes
    rw [split, front, rest, index]
    rfl

lemma bracketStep_eq_ok_iff {text after : List Char} {segment : Segment} :
    bracketStep text = .ok (segment, after) ↔
      ∃ inside, text = inside ++ after ∧ Segment.Spells ('[' :: inside) segment := by
  constructor
  · intro read
    cases text with
    | nil => cases read
    | cons first text =>
      by_cases mark : first = '\'' ∨ first = '"'
      · obtain ⟨name, found, rfl⟩ := (bracketStep_quote mark).mp read
        obtain ⟨body, rfl, quotes⟩ := (quotedName_eq_ok_iff (ne_backslash mark)).mp found
        exact ⟨first :: (body ++ [first, ']']), by simp, .quoted mark quotes⟩
      · obtain ⟨inside, split, -, index⟩ := (bracketStep_position mark).mp read
        obtain ⟨position, numeral, fits, rfl⟩ := bracketIndex_eq_ok_iff.mp index
        exact ⟨inside ++ [']'], by simp [split], .position (Text.trims_trim inside) numeral fits⟩
  · rintro ⟨inside, rfl, spells⟩
    cases spells with
    | @position inside digits position trims numeral fits =>
      cases inside with
      | nil =>
        obtain ⟨left, right, none, -⟩ := trims.around
        have empty := (List.append_eq_nil_iff.mp (List.append_eq_nil_iff.mp none.symm).2).1
        exact absurd empty numeral.ne_nil
      | cons first inside =>
        obtain ⟨single, double, -⟩ := ne_of_mem_position trims numeral (List.mem_cons_self ..)
        refine (bracketStep_position (not_or.mpr ⟨single, double⟩)).mpr
          ⟨first :: inside, by simp, ?_, ?_⟩
        · exact fun mem => (ne_of_mem_position trims numeral mem).2.2 rfl
        · rw [Text.trim_eq_iff.mpr trims]
          exact bracketIndex_eq_ok_iff.mpr ⟨position, numeral, fits, rfl⟩
    | @quoted quote body name mark quotes =>
      refine (bracketStep_quote mark).mpr ⟨name, ?_, rfl⟩
      exact (quotedName_eq_ok_iff (ne_backslash mark)).mpr ⟨body, by simp, quotes⟩

/-! ## Paths -/

/-- That a text spells steps, one behind the other. -/
inductive Steps : List Char → List Segment → Prop where
  | nil :
    Steps [] []
  | cons {text rest segment segments} :
    Segment.Spells text segment →
    Steps rest segments →
    Steps (text ++ rest) (segment :: segments)

lemma Steps.begins {text : List Char} {segments : List Segment} (steps : Steps text segments) :
    ∀ c ∈ text.head?, Begins c := by
  intro c mem
  cases steps with
  | nil => cases mem
  | cons spells _ =>
    obtain ⟨d, rest, rfl, begins⟩ := spells.exists_cons
    cases mem
    exact begins

lemma readSteps_dot {name rest : List Char} (dottable : Dottable name)
    (begins : ∀ c ∈ rest.head?, Begins c) :
    readSteps ('.' :: (name ++ rest)) =
      (readSteps rest).map (.field (String.ofList name) :: ·) := by
  have within : ∀ c ∈ name, endsName c = false :=
    fun c mem => (stays_iff.mpr (dottable.clean c mem)).2
  have stop : ∀ c ∈ rest.head?, (!endsName c) = false := by
    intro c mem
    rcases begins c mem with rfl | rfl <;> rfl
  obtain ⟨front, behind⟩ := Text.cut_append (p := (!endsName ·))
    (fun c mem => by rw [within c mem]; rfl) stop
  have single : ¬ (name ++ rest).head? = some '.' := by
    rw [List.head?_append_of_ne_nil _ dottable.some]
    intro dot
    cases within '.' (List.mem_of_head? dot)
  rw [readSteps, if_neg single, front, behind, (dottedName_eq_ok_iff within).mpr ⟨dottable, rfl⟩]

lemma readSteps_bracket {inside rest : List Char} {segment : Segment}
    (spells : Segment.Spells ('[' :: inside) segment) :
    readSteps ('[' :: (inside ++ rest)) = (readSteps rest).map (segment :: ·) := by
  have read : bracketStep (inside ++ rest) = .ok (segment, rest) :=
    bracketStep_eq_ok_iff.mpr ⟨inside, rfl, spells⟩
  rw [readSteps]
  split
  · rename_i fault found
    rw [read] at found
    cases found
  · rename_i found
    rw [read] at found
    cases found
    rfl

/-- A step is read first, and then what stands behind it. -/
lemma readSteps_append {text rest : List Char} {segment : Segment}
    (spells : Segment.Spells text segment) (begins : ∀ c ∈ rest.head?, Begins c) :
    readSteps (text ++ rest) = (readSteps rest).map (segment :: ·) := by
  cases spells with
  | dotted dottable => exact readSteps_dot dottable begins
  | position trims numeral fits => exact readSteps_bracket (.position trims numeral fits)
  | quoted mark quotes => exact readSteps_bracket (.quoted mark quotes)

lemma readSteps_eq_ok_iff {text : List Char} {segments : List Segment} :
    readSteps text = .ok segments ↔ Steps text segments := by
  constructor
  · intro read
    fun_induction readSteps text generalizing segments with
    | case1 => cases read; exact .nil
    | case2 => cases read
    | case3 => cases read
    | case4 rest _ segment found ih =>
      obtain ⟨segments, behind, rfl⟩ := Except.map_eq_ok_iff.mp read
      have within : ∀ c ∈ rest.takeWhile (!endsName ·), endsName c = false := by
        intro c mem
        simpa using List.mem_takeWhile_imp mem
      obtain ⟨dottable, rfl⟩ := (dottedName_eq_ok_iff within).mp found
      have steps := Steps.cons (.dotted dottable) (ih behind)
      rw [List.cons_append, List.takeWhile_append_dropWhile] at steps
      exact steps
    | case5 => cases read
    | case6 rest segment after found ih =>
      obtain ⟨segments, behind, rfl⟩ := Except.map_eq_ok_iff.mp read
      obtain ⟨inside, rfl, spells⟩ := bracketStep_eq_ok_iff.mp found
      exact .cons spells (ih behind)
    | case7 => cases read
  · intro steps
    induction steps with
    | nil => rw [readSteps]
    | cons spells steps ih => rw [readSteps_append spells steps.begins, ih]; rfl

/-! ## Braces and the dollar sign -/

/-- That a text is another one between braces, blanks aside, or has no brace at its beginning. -/
inductive Unbraced : List Char → List Char → Prop where
  | braces {body inner} :
    Text.Trims body inner →
    Unbraced ('\x7b' :: (body ++ ['\x7d'])) inner
  | bare {text} :
    text.head? ≠ some '\x7b' →
    Unbraced text text

/-- That a text is another one behind a dollar sign, or has no such sign at its beginning. -/
inductive Undollared : List Char → List Char → Prop where
  | dollar {rest} :
    Undollared ('$' :: rest) rest
  | bare {text} :
    text.head? ≠ some '$' →
    Undollared text text

/-- That a text spells a path. -/
inductive Spells (text : List Char) : Path → Prop where
  /-- A dot alone is the root. -/
  | dot {outer inner} :
    Text.Trims text outer →
    Unbraced outer inner →
    Undollared inner ['.'] →
    Spells text root
  | steps {outer inner bare segments} :
    Text.Trims text outer →
    Unbraced outer inner →
    Undollared inner bare →
    Steps bare segments →
    Spells text ⟨segments⟩

lemma withoutBraces_eq_ok_iff {text inner : List Char} :
    withoutBraces text = .ok inner ↔ Unbraced text inner := by
  constructor
  · intro read
    unfold withoutBraces at read
    split at read
    · rename_i rest
      split_ifs at read with closed
      cases read
      obtain ⟨body, rfl⟩ := List.getLast?_eq_some_iff.mp closed
      rw [List.dropLast_concat]
      exact .braces (Text.trims_trim body)
    · rename_i other
      cases read
      refine .bare fun brace => ?_
      obtain ⟨rest, rfl⟩ := List.head?_eq_some_iff.mp brace
      exact other rest rfl
  · intro unbraced
    cases unbraced with
    | braces trims =>
      rw [withoutBraces, if_pos List.getLast?_concat, List.dropLast_concat,
        Text.trim_eq_iff.mpr trims]
    | bare other =>
      rw [withoutBraces]
      rintro rest rfl
      exact other rfl

lemma withoutDollar_eq_iff {text bare : List Char} :
    withoutDollar text = bare ↔ Undollared text bare := by
  constructor
  · rintro rfl
    unfold withoutDollar
    split
    · exact .dollar
    · rename_i other
      refine .bare fun dollar => ?_
      obtain ⟨rest, rfl⟩ := List.head?_eq_some_iff.mp dollar
      exact other rest rfl
  · intro undollared
    cases undollared with
    | dollar => rfl
    | bare other =>
      rw [withoutDollar]
      rintro rest rfl
      exact other rfl

/-- A dot alone spells no step. -/
lemma not_steps_dot {segments : List Segment} : ¬ Steps ['.'] segments := by
  intro steps
  have read := readSteps_eq_ok_iff.mpr steps
  simp [readSteps, dottedName] at read

lemma readBare_eq_ok_iff {text : List Char} {path : Path} :
    readBare text = .ok path ↔ text = ['.'] ∧ path = root ∨ Steps text path.segments := by
  rw [readBare]
  split_ifs with dot
  · subst dot
    constructor
    · intro read
      cases read
      exact .inl ⟨rfl, rfl⟩
    · rintro (⟨-, rfl⟩ | steps)
      · rfl
      · exact absurd steps not_steps_dot
  · rw [Except.map_eq_ok_iff]
    constructor
    · rintro ⟨segments, read, rfl⟩
      exact .inr (readSteps_eq_ok_iff.mp read)
    · rintro (⟨alone, -⟩ | steps)
      · exact absurd alone dot
      · exact ⟨path.segments, readSteps_eq_ok_iff.mpr steps, rfl⟩

lemma read_eq_ok_iff_spells {text : String} {path : Path} :
    read text = .ok path ↔ Spells text.toList path := by
  constructor
  · intro found
    rw [read] at found
    cases braces : withoutBraces (Text.trim text.toList) with
    | error fault => rw [braces] at found; cases found
    | ok inner =>
      rw [braces] at found
      have trims := Text.trims_trim text.toList
      have unbraced := withoutBraces_eq_ok_iff.mp braces
      have undollared := withoutDollar_eq_iff.mp (Eq.refl (withoutDollar inner))
      rcases readBare_eq_ok_iff.mp found with ⟨alone, rfl⟩ | steps
      · exact .dot trims unbraced (alone ▸ undollared)
      · exact .steps trims unbraced undollared steps
  · intro spells
    cases spells with
    | dot trims unbraced undollared =>
      rw [read, Text.trim_eq_iff.mpr trims, withoutBraces_eq_ok_iff.mpr unbraced]
      exact readBare_eq_ok_iff.mpr (.inl ⟨withoutDollar_eq_iff.mpr undollared, rfl⟩)
    | steps trims unbraced undollared steps =>
      rw [read, Text.trim_eq_iff.mpr trims, withoutBraces_eq_ok_iff.mpr unbraced]
      apply readBare_eq_ok_iff.mpr
      rw [withoutDollar_eq_iff.mpr undollared]
      exact .inr steps

/-- Exactly the texts that spell a path are read, each as the path that it spells; every other text
is refused. -/
theorem read_eq_ok_iff (text : String) :
    (∀ path, read text = .ok path ↔ Spells text.toList path) ∧
      ((∃ fault, read text = .error fault) ↔ ¬ ∃ path, Spells text.toList path) := by
  refine ⟨fun path => read_eq_ok_iff_spells, ?_⟩
  cases found : read text with
  | error fault =>
    constructor
    · rintro - ⟨path, spells⟩
      rw [read_eq_ok_iff_spells.mpr spells] at found
      cases found
    · rintro -
      exact ⟨fault, rfl⟩
  | ok path =>
    constructor
    · rintro ⟨fault, refused⟩
      cases refused
    · intro none
      exact absurd ⟨path, read_eq_ok_iff_spells.mp found⟩ none

end Path

end ChartLift
