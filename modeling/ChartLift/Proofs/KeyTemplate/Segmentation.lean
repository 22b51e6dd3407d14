import ChartLift.KeyTemplate.Reading
import ChartLift.Proofs.Path.Grammar
import ChartLift.Proofs.Text.Split
import ChartLift.Proofs.Text.Trim

/-!
# What key templates write

A source is cut at the leftmost opening delimiter and then the leftmost closing one, again and
again, into texts and action bodies (`Segmentation.Cuts`), in one way only. For an object a template
writes the texts, each without the blanks that a trim marker beside it takes away
(`Segmentation.Keeps`), and between them what the actions give, nothing if they are comments
(`KeyTemplate.Gives`). Reading and rendering do so for every source that is accepted
(`KeyTemplate.render_of_read`).
-/

namespace ChartLift

namespace Segmentation

/-! ## Texts and actions -/

/-- That a source is a text and actions, each with the text behind it: an action opens where two
braces stand for the first time, and closes where two closing ones do. -/
inductive Cuts : List Char → List Char → List (List Char × List Char) → Prop where
  | last {text} :
    ¬ ['\x7b', '\x7b'] <:+: text →
    Cuts text text []
  | action {text body rest lead actions} :
    ¬ ['\x7b', '\x7b'] <:+: text ++ ['\x7b'] →
    ¬ ['\x7d', '\x7d'] <:+: body ++ ['\x7d'] →
    Cuts rest lead actions →
    Cuts (text ++ '\x7b' :: '\x7b' :: (body ++ '\x7d' :: '\x7d' :: rest)) text
      ((body, lead) :: actions)

lemma Cuts.ofSource {source lead : List Char} {actions : List (List Char × List Char)}
    (cuts : Cuts source lead actions) : ofSource source = ⟨lead, actions, false⟩ := by
  induction cuts with
  | last unopened =>
    have uncut := Text.cutAtDouble_eq_none_iff.mpr unopened
    rw [Segmentation.ofSource]
    split
    · rfl
    next h => cases uncut.symm.trans h
  | action opens closes _ ih =>
    rw [Segmentation.ofSource]
    split
    next h => cases h.symm.trans (Text.cutAtDouble_eq_some_iff.mpr ⟨rfl, opens⟩)
    next h =>
      cases h.symm.trans (Text.cutAtDouble_eq_some_iff.mpr ⟨rfl, opens⟩)
      split
      next h => cases h.symm.trans (Text.cutAtDouble_eq_some_iff.mpr ⟨rfl, closes⟩)
      next h =>
        cases h.symm.trans (Text.cutAtDouble_eq_some_iff.mpr ⟨rfl, closes⟩)
        simp only [ih]

lemma cuts_of_closed {source : List Char} (closed : (ofSource source).unclosed = false) :
    Cuts source (ofSource source).lead (ofSource source).actions := by
  fun_induction ofSource source with
  | case1 source uncut => exact .last (Text.cutAtDouble_eq_none_iff.mp uncut)
  | case2 => cases closed
  | case3 source text behind cut body rest inner tail ih =>
    obtain ⟨rfl, opens⟩ := Text.cutAtDouble_eq_some_iff.mp cut
    obtain ⟨rfl, closes⟩ := Text.cutAtDouble_eq_some_iff.mp inner
    exact .action opens closes (ih closed)

/-- A source is cut into texts and actions in one way. -/
lemma Cuts.unique {source lead lead' : List Char} {actions actions' : List (List Char × List Char)}
    (cuts : Cuts source lead actions) (cuts' : Cuts source lead' actions') :
    lead' = lead ∧ actions' = actions := by
  have same := cuts'.ofSource.symm.trans cuts.ofSource
  exact ⟨congrArg Segmentation.lead same, congrArg Segmentation.actions same⟩

/-! ## Trim markers -/

/-- That a body begins with a trim marker: a dash and a blank. -/
def OpensTrimmed (body : List Char) : Prop :=
  ∃ blank rest, body = '-' :: blank :: rest ∧ Text.isBlank blank = true

/-- That a body ends with a trim marker: a blank and a dash. -/
def ClosesTrimmed (body : List Char) : Prop :=
  ∃ front blank, body = front ++ [blank, '-'] ∧ Text.isBlank blank = true

lemma trimsBefore_iff {body : List Char} : trimsBefore body = true ↔ OpensTrimmed body := by
  constructor
  · intro h
    rw [trimsBefore.eq_def] at h
    split at h
    · exact ⟨_, _, rfl, h⟩
    · cases h
  · rintro ⟨blank, rest, rfl, isBlank⟩
    exact isBlank

lemma opensTrimmed_reverse {body : List Char} : OpensTrimmed body.reverse ↔ ClosesTrimmed body := by
  constructor
  · rintro ⟨blank, rest, split, isBlank⟩
    exact ⟨rest.reverse, blank, by simpa using congrArg List.reverse split, isBlank⟩
  · rintro ⟨front, blank, rfl, isBlank⟩
    exact ⟨blank, front.reverse, by simp, isBlank⟩

/-- A dash in front of a body makes no closing marker of its end, for no dash is blank. -/
lemma closesTrimmed_cons {body : List Char} : ClosesTrimmed ('-' :: body) ↔ ClosesTrimmed body := by
  constructor
  · rintro ⟨front, blank, split, isBlank⟩
    cases front with
    | nil =>
      cases (List.cons.inj split).1
      cases isBlank.symm.trans (Text.isBlank_eq_false (by decide) (by decide))
    | cons c front => exact ⟨front, blank, (List.cons.inj split).2, isBlank⟩
  · rintro ⟨front, blank, rfl, isBlank⟩
    exact ⟨'-' :: front, blank, rfl, isBlank⟩

/-- What a marker that is there or not adds to a body. -/
def Marks (there : Prop) (marker : List Char) : Prop :=
  there ∧ marker = ['-'] ∨ ¬ there ∧ marker = []

lemma Marks.unique {there : Prop} {marker marker' : List Char} (marks : Marks there marker)
    (marks' : Marks there marker') : marker' = marker := by
  obtain ⟨yes, rfl⟩ | ⟨no, rfl⟩ := marks
  · obtain ⟨-, rfl⟩ | ⟨no, -⟩ := marks'
    · rfl
    · exact absurd yes no
  · obtain ⟨yes, -⟩ | ⟨-, rfl⟩ := marks'
    · exact absurd yes no
    · rfl

lemma marks_opening (body : List Char) :
    ∃ opening, Marks (OpensTrimmed body) opening ∧ body = opening ++ withoutOpeningMarker body := by
  rw [withoutOpeningMarker]
  by_cases opens : OpensTrimmed body
  · rw [if_pos (trimsBefore_iff.mpr opens)]
    refine ⟨['-'], .inl ⟨opens, rfl⟩, ?_⟩
    obtain ⟨blank, rest, rfl, -⟩ := opens
    rfl
  · rw [if_neg (trimsBefore_iff.not.mpr opens)]
    exact ⟨[], .inr ⟨opens, rfl⟩, rfl⟩

lemma trimsBehind_iff {body : List Char} : trimsBehind body = true ↔ ClosesTrimmed body := by
  rw [trimsBehind, trimsBefore_iff, opensTrimmed_reverse]
  obtain ⟨opening, ⟨-, rfl⟩ | ⟨-, rfl⟩, split⟩ := marks_opening body
  · conv_rhs => rw [split]
    exact closesTrimmed_cons.symm
  · rw [List.nil_append] at split
    rw [← split]

/-- That a text is what a body has between its trim markers, without the blanks around it. -/
def IsBare (body bare : List Char) : Prop :=
  ∃ opening middle closing, body = opening ++ (middle ++ closing) ∧
    Marks (OpensTrimmed body) opening ∧ Marks (ClosesTrimmed body) closing ∧
    Text.Trims middle bare

lemma isBare_bareBody (body : List Char) : IsBare body (bareBody body) := by
  obtain ⟨opening, marks, split⟩ := marks_opening body
  have trims := fun text => Text.trim_eq_iff.mp (rfl : Text.trim text = _)
  rw [bareBody]
  by_cases closes : ClosesTrimmed body
  · have behind := trimsBehind_iff.mpr closes
    rw [if_pos behind]
    rw [trimsBehind, trimsBefore_iff, opensTrimmed_reverse] at behind
    obtain ⟨front, blank, rest, -⟩ := behind
    refine ⟨opening, _, ['-'], ?_, marks, .inl ⟨closes, rfl⟩, trims _⟩
    rw [rest] at split ⊢
    simpa [List.dropLast_append_of_ne_nil] using split
  · rw [if_neg (trimsBehind_iff.not.mpr closes)]
    exact ⟨opening, _, [], by simpa using split, marks, .inr ⟨closes, rfl⟩, trims _⟩

lemma isBare_iff {body bare : List Char} : IsBare body bare ↔ bareBody body = bare := by
  constructor
  · rintro ⟨opening, middle, closing, split, opens, closes, trims⟩
    obtain ⟨opening', middle', closing', split', opens', closes', trims'⟩ := isBare_bareBody body
    cases opens.unique opens'
    cases closes.unique closes'
    have same := List.append_cancel_right (List.append_cancel_left (split'.symm.trans split))
    rw [same] at trims'
    exact (Text.trim_eq_of_trims trims').symm.trans (Text.trim_eq_of_trims trims)
  · rintro rfl
    exact isBare_bareBody body

/-- That a text is a comment. -/
def Comments (bare : List Char) : Prop :=
  ∃ note, bare = '/' :: '*' :: (note ++ ['*', '/'])

lemma isComment_iff {bare : List Char} : isComment bare = true ↔ Comments bare := by
  constructor
  · intro h
    rw [isComment.eq_def] at h
    split at h
    next rest =>
      split at h
      next note ends => exact ⟨note.reverse, by rw [← List.reverse_reverse rest, ends]; simp⟩
      next => cases h
    next => cases h
  · rintro ⟨note, rfl⟩
    simp [isComment]

/-! ## Trimmed texts -/

/-- That a text is kept but for the blanks that it begins with, if they are to go, and the ones that
it ends with, if these are. -/
structure Keeps (atStart atEnd : Prop) (text kept : List Char) : Prop where
  around : ∃ left right, text = left ++ (kept ++ right) ∧
    (∀ c ∈ left, Text.isBlank c = true) ∧ (∀ c ∈ right, Text.isBlank c = true) ∧
    (¬ atStart → left = []) ∧ (¬ atEnd → right = [])
  first : atStart → ∀ c ∈ kept.head?, Text.isBlank c = false
  last : atEnd → ∀ c ∈ kept.getLast?, Text.isBlank c = false

lemma Keeps.reverse {atStart atEnd : Prop} {text kept : List Char}
    (keeps : Keeps atStart atEnd text kept) : Keeps atEnd atStart text.reverse kept.reverse := by
  obtain ⟨⟨left, right, rfl, blank_left, blank_right, start, stop⟩, first, last⟩ := keeps
  refine ⟨⟨right.reverse, left.reverse, by simp, by simpa using blank_right,
    by simpa using blank_left, by simpa using stop, by simpa using start⟩, ?_, ?_⟩
  · simpa only [List.head?_reverse] using last
  · simpa only [List.getLast?_reverse] using first

lemma keeps_trimLeft_iff {text kept : List Char} :
    Keeps True False text kept ↔ Text.trimLeft text = kept := by
  constructor
  · rintro ⟨⟨left, right, rfl, blank, -, -, stop⟩, first, -⟩
    rw [stop id, List.append_nil]
    exact (Text.cut_append blank (first trivial)).2
  · rintro rfl
    refine ⟨⟨text.takeWhile Text.isBlank, [], ?_, fun c mem => List.mem_takeWhile_imp mem, by simp,
      fun h => absurd trivial h, fun _ => rfl⟩, fun _ c mem => ?_, False.elim⟩
    · rw [List.append_nil]
      exact List.takeWhile_append_dropWhile.symm
    · have := List.head?_dropWhile_not Text.isBlank text
      rw [← Text.trimLeft, Option.mem_def.mp mem] at this
      exact this

lemma keeps_trimRight_iff {text kept : List Char} :
    Keeps False True text kept ↔ Text.trimRight text = kept := by
  rw [Text.trimRight, ← Text.trimLeft, List.reverse_eq_iff, ← keeps_trimLeft_iff]
  constructor
  · exact Keeps.reverse
  · intro keeps
    simpa only [List.reverse_reverse] using keeps.reverse

lemma keeps_trim_iff {text kept : List Char} :
    Keeps True True text kept ↔ Text.trim text = kept := by
  rw [Text.trim_eq_iff]
  constructor
  · rintro ⟨⟨left, right, split, blank_left, blank_right, -, -⟩, first, last⟩
    exact ⟨⟨left, right, split, blank_left, blank_right⟩, first trivial, last trivial⟩
  · rintro ⟨⟨left, right, split, blank_left, blank_right⟩, first, last⟩
    exact ⟨⟨left, right, split, blank_left, blank_right, by simp, by simp⟩, fun _ => first,
      fun _ => last⟩

lemma keeps_self_iff {text kept : List Char} : Keeps False False text kept ↔ text = kept := by
  constructor
  · rintro ⟨⟨left, right, rfl, -, -, start, stop⟩, -, -⟩
    rw [start id, stop id, List.nil_append, List.append_nil]
  · rintro rfl
    exact ⟨⟨[], [], by simp, by simp, by simp, by simp, by simp⟩, False.elim, False.elim⟩

/-- A text is trimmed as the markers beside it ask. -/
lemma keeps_iff {atStart atEnd : Bool} {text kept : List Char} :
    Keeps (atStart = true) (atEnd = true) text kept ↔ trimText atStart atEnd text = kept := by
  match atStart, atEnd with
  | false, false => simpa [trimText] using keeps_self_iff
  | true, false => simpa [trimText] using keeps_trimLeft_iff
  | false, true => simpa [trimText] using keeps_trimRight_iff
  | true, true => simpa [trimText, Text.trim] using keeps_trim_iff

end Segmentation

namespace KeyTemplate

open Segmentation

/-! ## Rendering -/

/-- What an action gives for an object: nothing if it is a comment, and the result of its pipeline
otherwise. -/
inductive Gives (object : Value) (body : List Char) : List Char → Prop where
  | comment {bare} :
    IsBare body bare →
    Comments bare →
    Gives object body []
  | result {bare pipeline value} :
    IsBare body bare →
    ¬ Comments bare →
    readPipeline bare = .ok pipeline →
    pipeline.eval object = .ok value →
    Gives object body value.render.toList

/-- What a text and the actions behind it write for an object, the text standing behind an action
that asks for it to be trimmed or not. -/
inductive Writes (object : Value) :
    Prop → List Char → List (List Char × List Char) → List Char → Prop where
  | last {trimmed text kept} :
    Keeps trimmed False text kept →
    Writes object trimmed text [] kept
  | action {trimmed text body behind actions kept given written} :
    Keeps trimmed (OpensTrimmed body) text kept →
    Gives object body given →
    Writes object (ClosesTrimmed body) behind actions written →
    Writes object trimmed text ((body, behind) :: actions) (kept ++ (given ++ written))

/-- That parts render to a text. -/
def Renders (object : Value) (pieces : List Piece) (written : List Char) : Prop :=
  ∃ texts, pieces.mapM (Piece.render object) = .ok texts ∧ texts.flatMap String.toList = written

lemma render_eq_ok_iff {template : KeyTemplate} {object : Value} {key : String} :
    template.render object = .ok key ↔ Renders object template.pieces key.toList := by
  rw [KeyTemplate.render, Except.map_eq_ok_iff]
  refine exists_congr fun texts => and_congr_right fun _ => ?_
  rw [← String.toList_inj, String.toList_join]

lemma renders_nil_iff {object : Value} {written : List Char} :
    Renders object [] written ↔ written = [] := by
  constructor
  · rintro ⟨_, h, rfl⟩
    cases h
    rfl
  · rintro rfl
    exact ⟨[], rfl, rfl⟩

lemma renders_cons_iff {object : Value} {piece : Piece} {pieces : List Piece}
    {written : List Char} :
    Renders object (piece :: pieces) written ↔
      ∃ text behind, piece.render object = .ok text ∧ Renders object pieces behind ∧
        written = text.toList ++ behind := by
  rw [Renders, List.mapM_cons]
  constructor
  · rintro ⟨texts, h, rfl⟩
    cases here : piece.render object with
    | error fault => rw [here] at h; cases h
    | ok text =>
      cases there : pieces.mapM (Piece.render object) with
      | error fault => rw [here, there] at h; cases h
      | ok rest =>
        rw [here, there] at h
        cases h
        exact ⟨text, _, rfl, ⟨rest, there, rfl⟩, rfl⟩
  · rintro ⟨text, _, here, ⟨rest, there, rfl⟩, rfl⟩
    exact ⟨text :: rest, by rw [here, there]; rfl, rfl⟩

/-- Parts one behind the other render to their texts one behind the other. -/
lemma renders_append_iff {object : Value} {front rest : List Piece} {written : List Char} :
    Renders object (front ++ rest) written ↔
      ∃ before behind, Renders object front before ∧ Renders object rest behind ∧
        written = before ++ behind := by
  induction front generalizing written with
  | nil => simp [renders_nil_iff]
  | cons piece front ih =>
    simp only [List.cons_append, renders_cons_iff, ih]
    constructor
    · rintro ⟨text, _, here, ⟨before, behind, first, last, rfl⟩, rfl⟩
      exact ⟨_, behind, ⟨text, before, here, first, rfl⟩, last, (List.append_assoc ..).symm⟩
    · rintro ⟨_, behind, ⟨text, before, here, first, rfl⟩, last, rfl⟩
      exact ⟨text, _, here, ⟨before, behind, first, last, rfl⟩, List.append_assoc ..⟩

lemma renders_textPiece_iff {object : Value} {text written : List Char} :
    Renders object (textPiece text) written ↔ written = text := by
  rw [textPiece]
  split
  next empty => rw [renders_nil_iff, List.isEmpty_iff.mp empty]
  next =>
    simp only [renders_cons_iff, renders_nil_iff]
    constructor
    · rintro ⟨_, _, here, rfl, rfl⟩
      cases here
      rw [String.toList_ofList, List.append_nil]
    · rintro rfl
      exact ⟨_, [], rfl, rfl, by rw [String.toList_ofList, List.append_nil]⟩

lemma renders_actionPiece_iff {object : Value} {body written : List Char} {pieces : List Piece}
    (read : actionPiece body = .ok pieces) :
    Renders object pieces written ↔ Gives object body written := by
  rw [actionPiece] at read
  split at read
  next comments =>
    cases read
    rw [renders_nil_iff]
    have comments := isComment_iff.mp comments
    constructor
    · rintro rfl
      exact .comment (isBare_bareBody body) comments
    · intro gives
      cases gives with
      | comment => rfl
      | result bare plain => exact absurd (isBare_iff.mp bare ▸ comments) plain
  next plain =>
    obtain ⟨pipeline, reads, rfl⟩ := Except.map_eq_ok_iff.mp read
    have plain := isComment_iff.not.mp plain
    simp only [renders_cons_iff, renders_nil_iff, Piece.render, Except.map_eq_ok_iff]
    constructor
    · rintro ⟨_, _, ⟨value, evaluates, rfl⟩, rfl, rfl⟩
      rw [List.append_nil]
      exact .result (isBare_bareBody body) plain reads evaluates
    · intro gives
      cases gives with
      | comment bare comments => exact absurd (isBare_iff.mp bare ▸ comments) plain
      | result bare _ reads' evaluates =>
        cases isBare_iff.mp bare
        cases reads.symm.trans reads'
        exact ⟨_, [], ⟨_, evaluates, rfl⟩, rfl, (List.append_nil _).symm⟩

/-- What a text and the action behind it add to the parts. -/
lemma readPieces_cons_eq_ok_iff {source : String} {unclosed trimStart : Bool}
    {text body behind : List Char} {actions : List (List Char × List Char)} {pieces : List Piece} :
    readPieces source unclosed trimStart text ((body, behind) :: actions) = .ok pieces ↔
      ∃ given rest, actionPiece body = .ok given ∧
        readPieces source unclosed (trimsBehind body) behind actions = .ok rest ∧
        pieces = textPiece (trimText trimStart (trimsBefore body) text) ++ given ++ rest := by
  rw [readPieces]
  cases here : actionPiece body with
  | error fault =>
    constructor
    · intro read; cases read
    · rintro ⟨_, _, ⟨⟩, -⟩
  | ok given =>
    cases there : readPieces source unclosed (trimsBehind body) behind actions with
    | error fault =>
      constructor
      · intro read; cases read
      · rintro ⟨_, _, -, ⟨⟩, -⟩
    | ok rest =>
      constructor
      · intro read
        cases read
        exact ⟨given, rest, rfl, rfl, rfl⟩
      · rintro ⟨_, _, ⟨⟩, ⟨⟩, rfl⟩
        rfl

/-- Parts are read only if every action has an end. -/
lemma closed_of_readPieces {source : String} {unclosed trimStart : Bool} {text : List Char}
    {actions : List (List Char × List Char)} {pieces : List Piece}
    (read : readPieces source unclosed trimStart text actions = .ok pieces) : unclosed = false := by
  induction actions generalizing trimStart text pieces with
  | nil =>
    cases unclosed with
    | false => rfl
    | true => cases read
  | cons action actions ih =>
    obtain ⟨_, _, -, there, -⟩ := readPieces_cons_eq_ok_iff.mp read
    exact ih there

/-- The parts that a text and the actions behind it are read to render to what these write. -/
lemma renders_readPieces_iff {object : Value} {source : String} {trimStart : Bool}
    {text written : List Char} {actions : List (List Char × List Char)} {pieces : List Piece}
    (read : readPieces source false trimStart text actions = .ok pieces) :
    Renders object pieces written ↔ Writes object (trimStart = true) text actions written := by
  induction actions generalizing trimStart text written pieces with
  | nil =>
    simp only [readPieces, Bool.false_eq_true, ↓reduceIte] at read
    split at read
    next => cases read
    next =>
      cases read
      have keeps := @keeps_iff trimStart false text written
      rw [Bool.false_eq_true] at keeps
      rw [renders_textPiece_iff, eq_comm, ← keeps]
      constructor
      · exact .last
      · intro writes
        cases writes with
        | last keeps => exact keeps
  | cons action actions ih =>
    obtain ⟨body, behind⟩ := action
    obtain ⟨given, rest, here, there, rfl⟩ := readPieces_cons_eq_ok_iff.mp read
    have opens : (trimsBefore body = true) = OpensTrimmed body := propext trimsBefore_iff
    have closes : (trimsBehind body = true) = ClosesTrimmed body := propext trimsBehind_iff
    have keeps := fun kept => @keeps_iff trimStart (trimsBefore body) text kept
    simp only [opens] at keeps
    simp only [renders_append_iff, renders_textPiece_iff, renders_actionPiece_iff here, ih there,
      closes]
    -- The parts are grouped to the left as they are read, and to the right as they are written.
    constructor
    · rintro ⟨_, written, ⟨_, given, rfl, gives, rfl⟩, writes, rfl⟩
      rw [List.append_assoc]
      exact .action ((keeps _).mpr rfl) gives writes
    · intro writes
      cases writes with
      | action kept gives writes =>
        exact ⟨_, _, ⟨_, _, ((keeps _).mp kept).symm, gives, rfl⟩, writes,
          (List.append_assoc ..).symm⟩

/-- An accepted template writes its texts and what its actions give. -/
theorem render_of_read {source : String} {template : KeyTemplate}
    (accepted : KeyTemplate.read source = .ok template) :
    ∃ lead actions, Cuts source.toList lead actions ∧
      (∀ lead' actions', Cuts source.toList lead' actions' → lead' = lead ∧ actions' = actions) ∧
      ∀ object key, template.render object = .ok key ↔
        Writes object False lead actions key.toList := by
  rw [KeyTemplate.read] at accepted
  obtain ⟨pieces, read, rfl⟩ := Except.map_eq_ok_iff.mp accepted
  have closed := closed_of_readPieces read
  have cuts := cuts_of_closed closed
  refine ⟨_, _, cuts, fun _ _ cuts' => cuts.unique cuts', fun object key => ?_⟩
  rw [closed] at read
  rw [render_eq_ok_iff, renders_readPieces_iff read, Bool.false_eq_true]

/-- A template with a comment and a field, and blanks around both that their markers take away. -/
def noted : String :=
  "a.  \x7b\x7b- /* note */ -\x7d\x7d  \x7b\x7b- .kind -\x7d\x7d  .b"

/-- An object with a kind. -/
def deployment : Value :=
  .mapping [("kind", .string "Deployment")]

/-- What the parts of that template are. -/
def notedPieces : List Piece :=
  [.text "a.", .action ⟨.argument (.chain ["kind"]), []⟩, .text ".b"]

lemma tokens_kind : tokens ".kind".toList = .ok [.operand (.argument (.chain ["kind"]))] := by
  rw [show ".kind".toList = '.' :: "kind".toList from rfl, tokens]
  show (tokens []).map _ = _
  rw [tokens]
  rfl

lemma read_noted : KeyTemplate.read noted = .ok ⟨noted, notedPieces⟩ := by
  have cut : Segmentation.ofSource noted.toList = ⟨"a.  ".toList,
      [("- /* note */ -".toList, "  ".toList), ("- .kind -".toList, "  .b".toList)], false⟩ := by
    decide +kernel
  have action : actionPiece "- .kind -".toList =
      .ok [.action ⟨.argument (.chain ["kind"]), []⟩] := by
    show (tokens ".kind".toList >>= _).map _ = _
    rw [tokens_kind]
    rfl
  rw [KeyTemplate.read, cut]
  simp only [readPieces, action]
  rfl

theorem render_noted :
    ∃ template, KeyTemplate.read noted = .ok template ∧
      template.render deployment = .ok "a.Deployment.b" ∧
      ∃ lead actions, Cuts noted.toList lead actions ∧
        Writes deployment False lead actions "a.Deployment.b".toList := by
  have rendered : KeyTemplate.render ⟨noted, notedPieces⟩ deployment = .ok "a.Deployment.b" := by rfl
  obtain ⟨lead, actions, cuts, -, writes⟩ := render_of_read read_noted
  exact ⟨_, read_noted, rendered, lead, actions, cuts, (writes _ _).mp rendered⟩

end KeyTemplate

end ChartLift
