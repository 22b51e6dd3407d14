import ChartLift.Proofs.KeyTemplate.Segmentation

/-!
# Templates that are accepted

A source is accepted exactly if its actions end and are comments or pipelines, and no closing delimiter
stands in the text behind the last action (`KeyTemplate.exists_readPieces_iff`). The texts in front of
the actions are not looked at: a closing delimiter in one of them is text of the key
(`KeyTemplate.read_of_stray`).
-/

namespace ChartLift

namespace Segmentation

/-- That a closing delimiter stands in a text. -/
def Stray (text : List Char) : Prop :=
  ['\x7d', '\x7d'] <:+: text

/-- The text behind the last action, or the only text. -/
def lastText : List Char → List (List Char × List Char) → List Char
  | text, [] => text
  | _, (_, behind) :: actions => lastText behind actions

/-- The texts that an action follows. -/
def frontTexts : List Char → List (List Char × List Char) → List (List Char)
  | _, [] => []
  | text, (_, behind) :: actions => text :: frontTexts behind actions

lemma cuts_of_ofSource {source lead : List Char} {actions : List (List Char × List Char)}
    (cut : ofSource source = ⟨lead, actions, false⟩) : Cuts source lead actions := by
  have cuts := cuts_of_closed (congrArg Segmentation.unclosed cut)
  rwa [cut] at cuts

lemma not_stray_nil : ¬ Stray [] := fun stray => by simpa using List.IsInfix.length_le stray

/-- No brace is blank. -/
lemma brace_not_mem {blanks : List Char} (blank : ∀ c ∈ blanks, Text.isBlank c = true) :
    '\x7d' ∉ blanks := by
  intro mem
  cases (blank _ mem).symm.trans (Text.isBlank_eq_false (by decide) (by decide))

/-- Trimming takes away no closing delimiter. -/
lemma Keeps.stray_iff {atStart atEnd : Prop} {text kept : List Char}
    (keeps : Keeps atStart atEnd text kept) : Stray kept ↔ Stray text := by
  obtain ⟨⟨left, right, rfl, blank_left, blank_right, -, -⟩, -, -⟩ := keeps
  rw [Stray, Stray, Text.double_infix_append_left (brace_not_mem blank_left),
    Text.double_infix_append_right (brace_not_mem blank_right)]

lemma keeps_trimText (atStart atEnd : Bool) (text : List Char) :
    Keeps (atStart = true) (atEnd = true) text (trimText atStart atEnd text) :=
  keeps_iff.mpr rfl

lemma Keeps.infix {atStart atEnd : Prop} {text kept : List Char}
    (keeps : Keeps atStart atEnd text kept) : kept <:+: text := by
  obtain ⟨⟨left, right, rfl, -⟩, -, -⟩ := keeps
  exact ⟨left, right, List.append_assoc ..⟩

end Segmentation

namespace KeyTemplate

open Segmentation

/-- That a body is that of an action: a comment or a pipeline. -/
def Acts (body : List Char) : Prop :=
  ∃ bare, IsBare body bare ∧ (Comments bare ∨ ∃ pipeline, readPipeline bare = .ok pipeline)

lemma exists_actionPiece_iff {body : List Char} :
    (∃ given, actionPiece body = .ok given) ↔ Acts body := by
  have only : Acts body ↔ Comments (bareBody body) ∨
      ∃ pipeline, readPipeline (bareBody body) = .ok pipeline := by
    constructor
    · rintro ⟨bare, is, acts⟩
      rwa [isBare_iff.mp is]
    · exact fun acts => ⟨_, isBare_bareBody body, acts⟩
  rw [only, actionPiece, ← isComment_iff]
  by_cases comments : isComment (bareBody body) = true
  · exact iff_of_true ⟨[], if_pos comments⟩ (.inl comments)
  · rw [or_iff_right comments]
    simp only [if_neg comments, Except.map_eq_ok_iff]
    constructor
    · rintro ⟨_, pipeline, reads, -⟩
      exact ⟨pipeline, reads⟩
    · rintro ⟨pipeline, reads⟩
      exact ⟨_, pipeline, reads, rfl⟩

lemma actionPiece_eq_action_iff {body : List Char} {pipeline : Pipeline} :
    actionPiece body = .ok [.action pipeline] ↔
      ∃ bare, IsBare body bare ∧ ¬ Comments bare ∧ readPipeline bare = .ok pipeline := by
  have only : (∃ bare, IsBare body bare ∧ ¬ Comments bare ∧ readPipeline bare = .ok pipeline) ↔
      ¬ Comments (bareBody body) ∧ readPipeline (bareBody body) = .ok pipeline := by
    simp only [isBare_iff, exists_eq_left']
  rw [only, actionPiece, ← isComment_iff]
  by_cases comments : isComment (bareBody body) = true
  · rw [if_pos comments]
    refine iff_of_false (fun same => ?_) fun both => both.1 comments
    cases same
  · rw [if_neg comments, and_iff_right comments, Except.map_eq_ok_iff]
    constructor
    · rintro ⟨_, reads, ⟨⟩⟩
      exact reads
    · exact fun reads => ⟨pipeline, reads, rfl⟩

/-- The last text is read as it is trimmed, if no closing delimiter stands in it. -/
lemma readPieces_nil_of_clear {source : String} {trimStart : Bool} {text : List Char}
    (clear : ¬ Stray text) : readPieces source false trimStart text [] =
      .ok (textPiece (trimText trimStart false text)) := by
  have uncut := Text.cutAtDouble_eq_none_iff.mpr
    ((keeps_trimText trimStart false text).stray_iff.not.mpr clear)
  simp only [readPieces, Bool.false_eq_true, ↓reduceIte, uncut]

lemma readPieces_nil_of_stray {source : String} {trimStart : Bool} {text : List Char}
    (stray : Stray text) :
    readPieces source false trimStart text [] = .error (.strayClose source) := by
  have stands := (keeps_trimText trimStart false text).stray_iff.mpr stray
  cases cut : Text.cutAtDouble '\x7d' (trimText trimStart false text) with
  | none => exact absurd stands (Text.cutAtDouble_eq_none_iff.mp cut)
  | some parts => simp only [readPieces, Bool.false_eq_true, ↓reduceIte, cut]

/-- A text and the actions behind it are read if the actions are, and no closing delimiter stands
behind the last one. -/
lemma exists_readPieces_iff {source : String} {trimStart : Bool} {text : List Char}
    {actions : List (List Char × List Char)} :
    (∃ pieces, readPieces source false trimStart text actions = .ok pieces) ↔
      (∀ action ∈ actions, Acts action.1) ∧ ¬ Stray (lastText text actions) := by
  induction actions generalizing trimStart text with
  | nil =>
    rw [lastText]
    by_cases stray : Stray text
    · rw [readPieces_nil_of_stray stray]
      exact iff_of_false (by rintro ⟨_, ⟨⟩⟩) (fun both => both.2 stray)
    · rw [readPieces_nil_of_clear stray]
      exact iff_of_true ⟨_, rfl⟩ ⟨by simp, stray⟩
  | cons action actions ih =>
    obtain ⟨body, behind⟩ := action
    rw [List.forall_mem_cons, lastText, and_assoc, ← @ih (trimsBehind body) behind,
      ← exists_actionPiece_iff]
    simp only [readPieces_cons_eq_ok_iff]
    constructor
    · rintro ⟨_, given, rest, here, there, -⟩
      exact ⟨⟨given, here⟩, rest, there⟩
    · rintro ⟨⟨given, here⟩, rest, there⟩
      exact ⟨_, given, rest, here, there, rfl⟩

/-- A closing delimiter behind the last action is what is found wrong, if nothing is before. -/
lemma readPieces_of_stray {source : String} {trimStart : Bool} {text : List Char}
    {actions : List (List Char × List Char)} (acts : ∀ action ∈ actions, Acts action.1)
    (stray : Stray (lastText text actions)) :
    readPieces source false trimStart text actions = .error (.strayClose source) := by
  induction actions generalizing trimStart text with
  | nil => exact readPieces_nil_of_stray stray
  | cons action actions ih =>
    obtain ⟨body, behind⟩ := action
    obtain ⟨here, acts⟩ := List.forall_mem_cons.mp acts
    obtain ⟨given, reads⟩ := exists_actionPiece_iff.mpr here
    rw [readPieces, reads]
    change (do let rest ← readPieces source false (trimsBehind body) behind actions; _) = _
    rw [ih acts stray]
    rfl

/-- A text part comes from the text, not from an action. -/
lemma text_not_mem_actionPiece {body : List Char} {given : List Piece} {written : String}
    (reads : actionPiece body = .ok given) : .text written ∉ given := by
  rw [actionPiece] at reads
  split at reads
  next => cases reads; exact List.not_mem_nil
  next =>
    obtain ⟨pipeline, -, rfl⟩ := Except.map_eq_ok_iff.mp reads
    intro mem
    cases List.mem_singleton.mp mem

lemma text_mem_textPiece_iff {text : List Char} {written : String} :
    .text written ∈ textPiece text ↔ text ≠ [] ∧ written.toList = text := by
  rw [textPiece]
  split
  next empty => simp [List.isEmpty_iff.mp empty]
  next some =>
    rw [List.mem_singleton, Piece.text.injEq, and_iff_right (by simpa using some),
      ← String.toList_inj, String.toList_ofList]

/-- The texts with a closing delimiter that a source is read to are those in front of an action, and
all of these. -/
lemma stray_of_readPieces {source : String} {trimStart : Bool} {text : List Char}
    {actions : List (List Char × List Char)} {pieces : List Piece}
    (read : readPieces source false trimStart text actions = .ok pieces) :
    (∀ written, .text written ∈ pieces → Stray written.toList →
      ∃ front ∈ frontTexts text actions, Stray front ∧ written.toList <:+: front) ∧
    ∀ front ∈ frontTexts text actions, Stray front →
      ∃ written, .text written ∈ pieces ∧ Stray written.toList ∧ written.toList <:+: front := by
  induction actions generalizing trimStart text pieces with
  | nil =>
    refine ⟨fun written mem stray => ?_, by simp [frontTexts]⟩
    have clear := (exists_readPieces_iff.mp ⟨_, read⟩).2
    rw [lastText] at clear
    have keeps := keeps_trimText trimStart false text
    rw [readPieces_nil_of_clear clear] at read
    cases read
    obtain ⟨-, same⟩ := text_mem_textPiece_iff.mp mem
    exact absurd (keeps.stray_iff.mp (same ▸ stray)) clear
  | cons action actions ih =>
    obtain ⟨body, behind⟩ := action
    obtain ⟨given, rest, here, there, rfl⟩ := readPieces_cons_eq_ok_iff.mp read
    obtain ⟨fronts, pieces⟩ := ih there
    have keeps := keeps_trimText trimStart (trimsBefore body) text
    simp only [List.mem_append, text_mem_textPiece_iff, text_not_mem_actionPiece here, or_false,
      frontTexts, List.mem_cons]
    constructor
    · rintro written (⟨-, same⟩ | mem) stray
      · exact ⟨text, .inl rfl, keeps.stray_iff.mp (same ▸ stray), same ▸ keeps.infix⟩
      · obtain ⟨front, mem, both⟩ := fronts written mem stray
        exact ⟨front, .inr mem, both⟩
    · rintro front (rfl | mem) stray
      · have kept := keeps.stray_iff.mpr stray
        have some : trimText trimStart (trimsBefore body) front ≠ [] := by
          intro none
          rw [none] at kept
          simpa using kept.length_le
        exact ⟨String.ofList _, .inl ⟨some, String.toList_ofList⟩,
          by rwa [String.toList_ofList], by rw [String.toList_ofList]; exact keeps.infix⟩
      · obtain ⟨written, mem, both⟩ := pieces front mem stray
        exact ⟨written, .inr mem, both⟩

lemma read_eq_ok_iff_of_cuts {source : String} {lead : List Char}
    {actions : List (List Char × List Char)} (cuts : Cuts source.toList lead actions)
    {template : KeyTemplate} : KeyTemplate.read source = .ok template ↔
      ∃ pieces, readPieces source false false lead actions = .ok pieces ∧
        template = ⟨source, pieces⟩ := by
  rw [KeyTemplate.read, cuts.ofSource]
  simp only [Except.map_eq_ok_iff]
  exact exists_congr fun pieces => and_congr_right fun _ => eq_comm

/-- A source is accepted if its actions end and can be read, and no closing delimiter stands behind
the last one. -/
lemma exists_read_iff {source : String} :
    (∃ template, KeyTemplate.read source = .ok template) ↔
      ∃ lead actions, Cuts source.toList lead actions ∧ (∀ action ∈ actions, Acts action.1) ∧
        ¬ Stray (lastText lead actions) := by
  constructor
  · rintro ⟨template, accepted⟩
    rw [KeyTemplate.read] at accepted
    obtain ⟨pieces, read, -⟩ := Except.map_eq_ok_iff.mp accepted
    have closed := closed_of_readPieces read
    rw [closed] at read
    exact ⟨_, _, cuts_of_closed closed, exists_readPieces_iff.mp ⟨_, read⟩⟩
  · rintro ⟨lead, actions, cuts, acts⟩
    obtain ⟨pieces, read⟩ := exists_readPieces_iff.mpr acts
    exact ⟨_, (read_eq_ok_iff_of_cuts cuts).mpr ⟨pieces, read, rfl⟩⟩

/-- A closing delimiter behind the last action keeps a source from being accepted. One in front of an
action does not: the texts that have one there, and no other, are parts of the template that have
one. -/
theorem read_of_stray (source : String) :
    ((∃ template, KeyTemplate.read source = .ok template) ↔
      ∃ lead actions, Cuts source.toList lead actions ∧ (∀ action ∈ actions, Acts action.1) ∧
        ¬ Stray (lastText lead actions)) ∧
    ∀ lead actions, Cuts source.toList lead actions →
      (Stray (lastText lead actions) → ∃ fault, KeyTemplate.read source = .error fault ∧
        ((∀ action ∈ actions, Acts action.1) → fault = .strayClose source)) ∧
      ∀ template, KeyTemplate.read source = .ok template →
        (∀ written, .text written ∈ template.pieces → Stray written.toList →
          ∃ front ∈ frontTexts lead actions, Stray front ∧ written.toList <:+: front) ∧
        ∀ front ∈ frontTexts lead actions, Stray front →
          ∃ written, .text written ∈ template.pieces ∧ Stray written.toList ∧
            written.toList <:+: front := by
  refine ⟨exists_read_iff, fun lead actions cuts => ⟨fun stray => ?_, fun template accepted => ?_⟩⟩
  · cases read : KeyTemplate.read source with
    | ok template =>
      obtain ⟨lead', actions', cuts', -, clear⟩ := exists_read_iff.mp ⟨template, read⟩
      obtain ⟨rfl, rfl⟩ := cuts.unique cuts'
      exact absurd stray clear
    | error fault =>
      refine ⟨fault, rfl, fun acts => ?_⟩
      rw [KeyTemplate.read, cuts.ofSource, readPieces_of_stray acts stray] at read
      exact (Except.error.inj read).symm
  · obtain ⟨pieces, read, rfl⟩ := (read_eq_ok_iff_of_cuts cuts).mp accepted
    exact stray_of_readPieces read

lemma readPipeline_kind :
    readPipeline ".kind".toList = .ok ⟨.argument (.chain ["kind"]), []⟩ := by
  show (tokens ".kind".toList >>= _) = _
  rw [tokens_kind]
  rfl

lemma acts_kind : Acts " .kind ".toList :=
  ⟨".kind".toList, isBare_iff.mpr (by decide +kernel), .inr ⟨_, readPipeline_kind⟩⟩

/-- Where a closing delimiter stands in front of the action and another one behind it, the second one
keeps the source from being accepted. -/
theorem read_of_stray_behind :
    Cuts "x \x7d\x7d \x7b\x7b .kind \x7d\x7d \x7d\x7d".toList "x \x7d\x7d ".toList
        [(" .kind ".toList, " \x7d\x7d".toList)] ∧
      KeyTemplate.read "x \x7d\x7d \x7b\x7b .kind \x7d\x7d \x7d\x7d" =
        .error (.strayClose "x \x7d\x7d \x7b\x7b .kind \x7d\x7d \x7d\x7d") := by
  have cuts : Cuts "x \x7d\x7d \x7b\x7b .kind \x7d\x7d \x7d\x7d".toList "x \x7d\x7d ".toList
      [(" .kind ".toList, " \x7d\x7d".toList)] :=
    cuts_of_ofSource (by decide +kernel)
  obtain ⟨fault, read, is⟩ := ((read_of_stray _).2 _ _ cuts).1 ⟨[' '], [], rfl⟩
  exact ⟨cuts, is (List.forall_mem_singleton.mpr acts_kind) ▸ read⟩

/-- In front of the action it is text of the key. -/
theorem read_of_stray_before :
    Cuts "x \x7d\x7d \x7b\x7b .kind \x7d\x7d".toList "x \x7d\x7d ".toList [(" .kind ".toList, [])] ∧
      Stray "x \x7d\x7d ".toList ∧
      KeyTemplate.read "x \x7d\x7d \x7b\x7b .kind \x7d\x7d" =
        .ok ⟨"x \x7d\x7d \x7b\x7b .kind \x7d\x7d",
          [.text "x \x7d\x7d ", .action ⟨.argument (.chain ["kind"]), []⟩]⟩ := by
  have cuts : Cuts "x \x7d\x7d \x7b\x7b .kind \x7d\x7d".toList "x \x7d\x7d ".toList
      [(" .kind ".toList, [])] :=
    cuts_of_ofSource (by decide +kernel)
  have acts : actionPiece " .kind ".toList =
      .ok [.action ⟨.argument (.chain ["kind"]), []⟩] := by
    show (readPipeline ".kind".toList).map _ = _
    rw [readPipeline_kind]
    rfl
  refine ⟨cuts, ⟨['x', ' '], [' '], rfl⟩, (read_eq_ok_iff_of_cuts cuts).mpr ⟨_, ?_, rfl⟩⟩
  exact readPieces_cons_eq_ok_iff.mpr ⟨_, [], acts, readPieces_nil_of_clear not_stray_nil, rfl⟩

end KeyTemplate

end ChartLift
