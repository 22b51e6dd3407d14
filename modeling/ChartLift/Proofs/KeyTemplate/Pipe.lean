import ChartLift.Proofs.KeyTemplate.Acceptance
import ChartLift.Proofs.KeyTemplate.Command

/-!
# Operands in front of a pipe

An operand that is piped to `resourceName` is given to it as an argument that stands behind it would
be: a source with the one action in place of the other renders to the same keys
(`KeyTemplate.Repipes.renders_iff`). The name of the function is no exception, though it is no
argument: of the two sources with it only the first is accepted, but it never renders.
-/

namespace ChartLift.KeyTemplate

open Segmentation

/-! ## The two actions -/

/-- That two action bodies give an operand to `resourceName`, the first one by a pipe, and have the
same trim markers. -/
structure Rewords (operand : Operand) (pipe call : List Char) : Prop where
  opens : OpensTrimmed pipe ↔ OpensTrimmed call
  closes : ClosesTrimmed pipe ↔ ClosesTrimmed call
  bare : ∃ word before behind between,
    tokens word = .ok [.operand operand] ∧
    (∀ c ∈ before, Text.isBlank c = true) ∧ (∀ c ∈ behind, Text.isBlank c = true) ∧
    (∀ c ∈ between, Text.isBlank c = true) ∧ between ≠ [] ∧
    IsBare pipe (word ++ (before ++ '|' :: (behind ++ "resourceName".toList))) ∧
    IsBare call ("resourceName".toList ++ (between ++ word))

lemma tokens_resourceName {after : List Char} (stop : ∀ c ∈ after.head?, endsWord c = true) :
    tokens ("resourceName".toList ++ after) =
      (tokens after).map (.operand .resourceName :: ·) := by
  have begins : BeginsWord 'r' := by
    refine ⟨Text.isBlank_eq_false (by decide) (by decide), ?_⟩
    decide
  have inside : ("esourceName".toList.all (!endsWord ·)) = true := by decide +kernel
  have reads : readWord ('r' :: "esourceName".toList) = .ok .resourceName := by rfl
  exact tokens_word begins (fun c mem => by simpa using List.all_eq_true.mp inside c mem) stop reads

/-- A comment ends with a slash. -/
lemma not_comments_of_getLast? {bare : List Char} {c : Char} (last : bare.getLast? = some c)
    (other : c ≠ '/') : ¬ Comments bare := by
  rintro ⟨note, rfl⟩
  rw [show '/' :: '*' :: (note ++ ['*', '/']) = ('/' :: '*' :: (note ++ ['*'])) ++ ['/'] by simp,
    List.getLast?_concat] at last
  exact other (Option.some.inj last).symm

variable {operand : Operand} {pipe call : List Char}

/-- What the two bodies are read to. -/
lemma Rewords.tokens_eq (rewords : Rewords operand pipe call) :
    (∃ bare, IsBare pipe bare ∧ ¬ Comments bare ∧
      tokens bare = .ok [.operand operand, .pipe, .operand .resourceName]) ∧
    ∃ bare, IsBare call bare ∧ ¬ Comments bare ∧
      tokens bare = .ok [.operand .resourceName, .operand operand] := by
  obtain ⟨-, -, word, before, behind, between, reads, blank_before, blank_behind, blank, apart,
    piped, called⟩ := rewords
  refine ⟨⟨_, piped, ?_, ?_⟩, _, called, ?_, ?_⟩
  · refine not_comments_of_getLast? (c := 'e') ?_ (by decide)
    rw [← List.append_assoc, ← List.cons_append, ← List.append_assoc,
      List.getLast?_append_of_ne_nil _ (by decide)]
    decide +kernel
  · have stop : ∀ c ∈ (before ++ '|' :: (behind ++ "resourceName".toList)).head?,
        endsWord c = true := by
      intro c mem
      cases before with
      | nil => cases mem; rfl
      | cons d before =>
        cases mem
        exact endsWord_of_isBlank (blank_before _ List.mem_cons_self)
    have name := @tokens_resourceName [] nofun
    rw [List.append_nil, tokens_nil] at name
    rw [tokens_append reads stop, tokens_blanks blank_before, tokens_pipe,
      tokens_blanks blank_behind, name]
    rfl
  · rintro ⟨note, same⟩
    exact absurd (List.cons.inj same).1 (by decide)
  · have stop : ∀ c ∈ (between ++ word).head?, endsWord c = true := by
      intro c mem
      cases between with
      | nil => exact absurd rfl apart
      | cons d between =>
        cases mem
        exact endsWord_of_isBlank (blank _ List.mem_cons_self)
    rw [tokens_resourceName stop, tokens_blanks blank, reads]
    rfl

/-- With an argument both bodies are pipelines of the same result. -/
lemma Rewords.argument {argument : Argument} (rewords : Rewords (.argument argument) pipe call) :
    ∃ piped called, actionPiece pipe = .ok [.action piped] ∧
      actionPiece call = .ok [.action called] ∧
      ∀ object, piped.eval object = called.eval object := by
  obtain ⟨⟨bare, is, plain, words⟩, bare', is', plain', words'⟩ := rewords.tokens_eq
  refine ⟨⟨.argument argument, [⟨[]⟩]⟩, ⟨.call ⟨[argument]⟩, []⟩, ?_, ?_, fun object => ?_⟩
  · exact actionPiece_eq_action_iff.mpr ⟨bare, is, plain, readPipeline_eq_ok_iff.mpr
      ⟨_, _, _, words, rfl, rfl, rfl⟩⟩
  · exact actionPiece_eq_action_iff.mpr ⟨bare', is', plain', readPipeline_eq_ok_iff.mpr
      ⟨_, _, _, words', rfl, rfl, rfl⟩⟩
  · simp only [Pipeline.eval, Source.eval, Call.eval, List.mapM_cons, List.mapM_nil]
    cases argument.eval object <;> rfl

/-- With the name of the function the first body is a pipeline without a result, and the second one
none. -/
lemma Rewords.resourceName (rewords : Rewords .resourceName pipe call) :
    (∃ piped, actionPiece pipe = .ok [.action piped] ∧
      ∀ object value, piped.eval object ≠ .ok value) ∧
    ∀ given, actionPiece call ≠ .ok given := by
  obtain ⟨⟨bare, is, plain, words⟩, bare', is', plain', words'⟩ := rewords.tokens_eq
  refine ⟨⟨⟨.call ⟨[]⟩, [⟨[]⟩]⟩, ?_, nofun⟩, fun given acts => ?_⟩
  · exact actionPiece_eq_action_iff.mpr ⟨bare, is, plain, readPipeline_eq_ok_iff.mpr
      ⟨_, _, _, words, rfl, rfl, rfl⟩⟩
  · obtain ⟨bare'', is'', comments | ⟨pipeline, reads⟩⟩ := exists_actionPiece_iff.mp ⟨_, acts⟩
    · exact plain' (isBare_iff.mp is' ▸ isBare_iff.mp is'' ▸ comments)
    · obtain rfl := (isBare_iff.mp is').symm.trans (isBare_iff.mp is'')
      obtain ⟨words'', first, later, reads'', split, start, -⟩ := readPipeline_eq_ok_iff.mp reads
      cases words'.symm.trans reads''
      cases split
      cases start

/-! ## The two sources -/

/-- That two sources have the same texts and actions but for one, where an operand is given to
`resourceName`, in the first source by a pipe. -/
def Repipes (operand : Operand) (piped called : String) : Prop :=
  ∃ lead front pipe call behind later,
    Cuts piped.toList lead (front ++ (pipe, behind) :: later) ∧
    Cuts called.toList lead (front ++ (call, behind) :: later) ∧ Rewords operand pipe call

/-- What is read depends on the whole source only where it is not accepted. -/
lemma readPieces_of_readPieces {source source' : String} {unclosed trimStart : Bool}
    {text : List Char} {actions : List (List Char × List Char)} {pieces : List Piece}
    (read : readPieces source unclosed trimStart text actions = .ok pieces) :
    readPieces source' unclosed trimStart text actions = .ok pieces := by
  induction actions generalizing trimStart text pieces with
  | nil =>
    obtain rfl := closed_of_readPieces read
    have clear : ¬ Stray text := (exists_readPieces_iff.mp ⟨_, read⟩).2
    rw [readPieces_nil_of_clear clear] at read ⊢
    exact read
  | cons action actions ih =>
    obtain ⟨given, rest, here, there, rfl⟩ := readPieces_cons_eq_ok_iff.mp read
    exact readPieces_cons_eq_ok_iff.mpr ⟨given, rest, here, ih there, rfl⟩

/-- An action stands in for another one with the same trim markers. -/
lemma readPieces_exchange {source source' : String} {trimStart : Bool} {text behind : List Char}
    {body body' : List Char} {front later : List (List Char × List Char)} {given given' : List Piece}
    {pieces : List Piece} (opens : OpensTrimmed body ↔ OpensTrimmed body')
    (closes : ClosesTrimmed body ↔ ClosesTrimmed body') (here : actionPiece body = .ok given)
    (here' : actionPiece body' = .ok given')
    (read : readPieces source false trimStart text (front ++ (body, behind) :: later) =
      .ok pieces) :
    ∃ before after, pieces = before ++ (given ++ after) ∧
      readPieces source' false trimStart text (front ++ (body', behind) :: later) =
        .ok (before ++ (given' ++ after)) := by
  rw [← trimsBefore_iff, ← trimsBefore_iff, ← Bool.eq_iff_iff] at opens
  rw [← trimsBehind_iff, ← trimsBehind_iff, ← Bool.eq_iff_iff] at closes
  induction front generalizing trimStart text pieces with
  | nil =>
    obtain ⟨_, rest, acts, there, rfl⟩ := readPieces_cons_eq_ok_iff.mp read
    cases here.symm.trans acts
    refine ⟨_, rest, List.append_assoc .., readPieces_cons_eq_ok_iff.mpr
      ⟨given', rest, here', closes ▸ readPieces_of_readPieces there, ?_⟩⟩
    rw [opens, List.append_assoc]
  | cons action front ih =>
    obtain ⟨acted, _, acts, there, rfl⟩ := readPieces_cons_eq_ok_iff.mp read
    obtain ⟨before, after, rfl, there'⟩ := ih there
    refine ⟨textPiece (trimText trimStart (trimsBefore action.1) text) ++ acted ++ before, after,
      ?_, readPieces_cons_eq_ok_iff.mpr ⟨acted, _, acts, there', ?_⟩⟩
    · rw [List.append_assoc _ before]
    · rw [List.append_assoc _ before]

lemma read_exchange {source source' : String} {lead behind : List Char} {body body' : List Char}
    {front later : List (List Char × List Char)} {given given' : List Piece}
    {template : KeyTemplate} (cuts : Cuts source.toList lead (front ++ (body, behind) :: later))
    (cuts' : Cuts source'.toList lead (front ++ (body', behind) :: later))
    (opens : OpensTrimmed body ↔ OpensTrimmed body')
    (closes : ClosesTrimmed body ↔ ClosesTrimmed body') (here : actionPiece body = .ok given)
    (here' : actionPiece body' = .ok given') (accepted : KeyTemplate.read source = .ok template) :
    ∃ before after, template = ⟨source, before ++ (given ++ after)⟩ ∧
      KeyTemplate.read source' = .ok ⟨source', before ++ (given' ++ after)⟩ := by
  obtain ⟨pieces, read, rfl⟩ := (read_eq_ok_iff_of_cuts cuts).mp accepted
  obtain ⟨before, after, rfl, read'⟩ := readPieces_exchange opens closes here here' read
  exact ⟨before, after, rfl, (read_eq_ok_iff_of_cuts cuts').mpr ⟨_, read', rfl⟩⟩

/-- Parts render alike if they do where they differ. -/
lemma render_exchange {object : Value} {source source' : String} {before after : List Piece}
    {piped called : Pipeline} (same : piped.eval object = called.eval object) :
    KeyTemplate.render ⟨source, before ++ ([.action piped] ++ after)⟩ object =
      KeyTemplate.render ⟨source', before ++ ([.action called] ++ after)⟩ object := by
  have here : Piece.render object (.action piped) = Piece.render object (.action called) :=
    congrArg (Except.map Value.render) same
  simp only [KeyTemplate.render, List.mapM_append, List.mapM_cons, here]

variable {piped called : String}

/-- An argument is given to the function alike in the two sources. -/
lemma Repipes.argument {argument : Argument} (repipes : Repipes (.argument argument) piped called) :
    ((∃ template, KeyTemplate.read piped = .ok template) ↔
      ∃ template, KeyTemplate.read called = .ok template) ∧
    ∀ template template', KeyTemplate.read piped = .ok template →
      KeyTemplate.read called = .ok template' →
      ∀ object, template.render object = template'.render object := by
  obtain ⟨lead, front, pipe, call, behind, later, cuts, cuts', rewords⟩ := repipes
  obtain ⟨first, second, here, here', same⟩ := rewords.argument
  refine ⟨⟨?_, ?_⟩, fun template template' accepted accepted' object => ?_⟩
  · rintro ⟨template, accepted⟩
    obtain ⟨_, _, -, accepted'⟩ :=
      read_exchange cuts cuts' rewords.opens rewords.closes here here' accepted
    exact ⟨_, accepted'⟩
  · rintro ⟨template, accepted⟩
    obtain ⟨_, _, -, accepted'⟩ :=
      read_exchange cuts' cuts rewords.opens.symm rewords.closes.symm here' here accepted
    exact ⟨_, accepted'⟩
  · obtain ⟨before, after, rfl, accepted''⟩ :=
      read_exchange cuts cuts' rewords.opens rewords.closes here here' accepted
    cases accepted'.symm.trans accepted''
    exact render_exchange (same object)

/-- The name of the function is given to it by a pipe without a key, and behind it not at all. -/
lemma Repipes.resourceName (repipes : Repipes .resourceName piped called) :
    (∀ template, KeyTemplate.read piped = .ok template →
      ∀ object key, template.render object ≠ .ok key) ∧
    ∀ template, KeyTemplate.read called ≠ .ok template := by
  obtain ⟨lead, front, pipe, call, behind, later, cuts, cuts', rewords⟩ := repipes
  obtain ⟨⟨first, here, none⟩, fails⟩ := rewords.resourceName
  refine ⟨fun template accepted object key rendered => ?_, fun template accepted => ?_⟩
  · obtain ⟨before, after, rfl, -⟩ :=
      read_exchange cuts cuts .rfl .rfl here here accepted
    obtain ⟨_, _, -, renders, -⟩ := renders_append_iff.mp (render_eq_ok_iff.mp rendered)
    obtain ⟨_, _, evaluates, -, -⟩ := renders_cons_iff.mp renders
    obtain ⟨value, evaluates, -⟩ := Except.map_eq_ok_iff.mp evaluates
    exact none object value evaluates
  · obtain ⟨pieces, read, -⟩ := (read_eq_ok_iff_of_cuts cuts').mp accepted
    obtain ⟨acts, -⟩ := exists_readPieces_iff.mp ⟨_, read⟩
    obtain ⟨given, here'⟩ := exists_actionPiece_iff.mpr (acts (call, behind) (by simp))
    exact fails given here'

/-- A source with a pipe to the function renders to the keys of the one that calls it. -/
lemma Repipes.renders_iff {operand : Operand} (repipes : Repipes operand piped called)
    {object : Value} {key : String} :
    (∃ template, KeyTemplate.read piped = .ok template ∧ template.render object = .ok key) ↔
      ∃ template, KeyTemplate.read called = .ok template ∧ template.render object = .ok key := by
  match operand with
  | .argument argument =>
    obtain ⟨accepted_iff, same⟩ := repipes.argument
    constructor
    · rintro ⟨template, accepted, rendered⟩
      obtain ⟨template', accepted'⟩ := accepted_iff.mp ⟨template, accepted⟩
      exact ⟨template', accepted', same _ _ accepted accepted' object ▸ rendered⟩
    · rintro ⟨template', accepted', rendered⟩
      obtain ⟨template, accepted⟩ := accepted_iff.mpr ⟨template', accepted'⟩
      exact ⟨template, accepted, same _ _ accepted accepted' object ▸ rendered⟩
  | .resourceName =>
    obtain ⟨none, fails⟩ := repipes.resourceName
    constructor
    · rintro ⟨template, accepted, rendered⟩
      exact absurd rendered (none template accepted object key)
    · rintro ⟨template, accepted, -⟩
      exact absurd accepted (fails template)

end ChartLift.KeyTemplate
