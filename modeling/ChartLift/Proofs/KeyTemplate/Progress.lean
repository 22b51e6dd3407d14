import ChartLift.Proofs.KeyTemplate.Literal
import ChartLift.Proofs.KeyTemplate.Pipe

/-!
# Rendering succeeds or misses something

Rendering an accepted template succeeds for an object exactly if the object has what the commands of
its actions ask for: every chain of fields leads somewhere, and every call has one argument, what is
piped to it counted (`Supports`). Otherwise a chain breaks off or a call has another number of
arguments (`Misses`); no other failure is met (`KeyTemplate.render_outcome`).
-/

namespace ChartLift

namespace Value

/-! ## Chains of fields -/

/-- That a chain of fields leads from a value through mappings to another one. -/
inductive ChainLeads : Value → List String → Value → Prop where
  | here {value} :
    ChainLeads value [] value
  | field {entries name names found target} :
    Entries.find? entries name = some found →
    ChainLeads found names target →
    ChainLeads (.mapping entries) (name :: names) target

/-- That a chain of fields breaks off: at a mapping without the field, or at a value that is none. -/
inductive ChainBreaks : Value → List String → TemplateFault → Prop where
  | noEntry {entries name names} :
    Entries.find? entries name = none →
    ChainBreaks (.mapping entries) (name :: names) (.noEntry name)
  | noFields {value name names} :
    (∀ entries, value ≠ .mapping entries) →
    ChainBreaks value (name :: names) (.noFields name value)
  | field {entries name names found fault} :
    Entries.find? entries name = some found →
    ChainBreaks found names fault →
    ChainBreaks (.mapping entries) (name :: names) fault

variable {value : Value} {names : List String}

lemma follow_cases (value : Value) (names : List String) :
    (∃ found, value.follow names = .ok found ∧ value.ChainLeads names found) ∨
      ∃ fault, value.follow names = .error fault ∧ value.ChainBreaks names fault := by
  fun_induction value.follow names with
  | case1 value => exact .inl ⟨value, rfl, .here⟩
  | case2 name rest entries found some ih =>
    obtain ⟨target, follows, leads⟩ | ⟨fault, follows, breaks⟩ := ih
    · exact .inl ⟨target, follows, .field some leads⟩
    · exact .inr ⟨fault, follows, .field some breaks⟩
  | case3 name rest entries none => exact .inr ⟨_, rfl, .noEntry none⟩
  | case4 value name rest other => exact .inr ⟨_, rfl, .noFields other⟩

/-- A chain that breaks off leads nowhere. -/
lemma ChainBreaks.not_leads {fault : TemplateFault} (breaks : value.ChainBreaks names fault)
    {found : Value} : ¬ value.ChainLeads names found := by
  intro leads
  induction breaks with
  | noEntry none =>
    cases leads with
    | field some _ => cases none.symm.trans some
  | noFields other =>
    cases leads with
    | field _ _ => exact other _ rfl
  | field some _ ih =>
    cases leads with
    | field some' leads =>
      cases some.symm.trans some'
      exact ih leads

end Value

namespace KeyTemplate

open Segmentation

/-! ## What commands ask for -/

/-- That an object has what a command asks for: the chains among its words lead somewhere, and if it
calls a function, this has one argument, what is piped to it counted. -/
structure Serves (object : Value) (piped : Bool) (command : List Word) : Prop where
  chains : ∀ names, .chain names ∈ command → ∃ found, object.ChainLeads names found
  count : ∀ name words, command = .function name :: words → words.length + piped.toNat = 1

/-- What is amiss with a command for an object. -/
inductive Fails (object : Value) (piped : Bool) (command : List Word) : TemplateFault → Prop where
  | chain {names fault} :
    .chain names ∈ command →
    object.ChainBreaks names fault →
    Fails object piped command fault
  | count {name words} :
    command = .function name :: words →
    words.length + piped.toNat ≠ 1 →
    Fails object piped command (.argumentCount (words.length + piped.toNat))

/-- That an object has what commands ask for. Something is piped to all of them but the first. -/
def Supports (object : Value) : List (List Word) → Prop
  | [] => True
  | first :: later => Serves object false first ∧ ∀ command ∈ later, Serves object true command

/-- What is amiss with commands for an object. -/
def Misses (object : Value) : List (List Word) → TemplateFault → Prop
  | [], _ => False
  | first :: later, fault =>
    Fails object false first fault ∨ ∃ command ∈ later, Fails object true command fault

variable {object : Value} {piped : Bool} {command : List Word} {written : List (List Word)}
  {fault : TemplateFault}

lemma Fails.not_serves (fails : Fails object piped command fault) :
    ¬ Serves object piped command := by
  intro serves
  cases fails with
  | chain mem breaks =>
    obtain ⟨found, leads⟩ := serves.chains _ mem
    exact breaks.not_leads leads
  | count calls other => exact other (serves.count _ _ calls)

lemma Misses.not_supports (misses : Misses object written fault) : ¬ Supports object written := by
  cases written with
  | nil => exact misses.elim
  | cons first later =>
    rintro ⟨start, follow⟩
    obtain fails | ⟨command, mem, fails⟩ := misses
    · exact fails.not_serves start
    · exact fails.not_serves (follow command mem)

/-! ## Evaluation -/

lemma chain_mem_map_argumentWord {names : List String} {given : List Argument} :
    .chain names ∈ given.map argumentWord ↔ .chain names ∈ given := by
  constructor
  · intro mem
    obtain ⟨argument, mem, same⟩ := List.mem_map.mp mem
    cases argument with
    | chain names' => cases same; exact mem
    | literal value => cases same
  · exact fun mem => List.mem_map.mpr ⟨_, mem, rfl⟩

/-- Arguments have values where their chains lead somewhere. -/
lemma arguments_cases (object : Value) (given : List Argument) :
    (∃ values, given.mapM (Argument.eval object) = .ok values ∧ values.length = given.length ∧
      ∀ names, .chain names ∈ given → ∃ found, object.ChainLeads names found) ∨
    ∃ fault names, given.mapM (Argument.eval object) = .error fault ∧ .chain names ∈ given ∧
      object.ChainBreaks names fault := by
  induction given with
  | nil => exact .inl ⟨[], rfl, rfl, by simp⟩
  | cons argument given ih =>
    rw [List.mapM_cons]
    cases argument with
    | literal value =>
      obtain ⟨values, evals, length, leads⟩ | ⟨fault, names, evals, mem, breaks⟩ := ih
      · rw [evals]
        exact .inl ⟨value :: values, rfl, by simpa using length, by simpa using leads⟩
      · rw [evals]
        exact .inr ⟨fault, names, rfl, List.mem_cons_of_mem _ mem, breaks⟩
    | chain names =>
      obtain ⟨found, follows, here⟩ | ⟨fault, follows, breaks⟩ := object.follow_cases names
      · obtain ⟨values, evals, length, leads⟩ | ⟨fault, names', evals, mem, breaks⟩ := ih
        · rw [Argument.eval, follows, evals]
          refine .inl ⟨found :: values, rfl, by simpa using length, fun names' mem => ?_⟩
          obtain same | mem := List.mem_cons.mp mem
          · cases same
            exact ⟨found, here⟩
          · exact leads names' mem
        · rw [Argument.eval, follows, evals]
          exact .inr ⟨fault, names', rfl, List.mem_cons_of_mem _ mem, breaks⟩
      · rw [Argument.eval, follows]
        exact .inr ⟨fault, names, rfl, List.mem_cons_self, breaks⟩

/-- A call gives a value or misses something. -/
lemma call_cases (object : Value) (call : Call) (piped : Option Value) :
    (∃ value, call.eval object piped = .ok value ∧
      Serves object piped.isSome (callCommand call)) ∨
    ∃ fault, call.eval object piped = .error fault ∧
      Fails object piped.isSome (callCommand call) fault := by
  have member {names : List String} : Word.chain names ∈ callCommand call ↔
      .chain names ∈ call.arguments := by
    rw [callCommand, List.mem_cons, chain_mem_map_argumentWord, or_iff_right_iff_imp]
    intro same
    cases same
  rw [Call.eval]
  obtain ⟨values, evals, length, leads⟩ | ⟨fault, names, evals, mem, breaks⟩ :=
    arguments_cases object call.arguments
  · have total : (values ++ piped.toList).length =
        (call.arguments.map argumentWord).length + piped.isSome.toNat := by
      cases piped <;> simp [length]
    simp only [evals, bind, Except.bind]
    by_cases one : (values ++ piped.toList).length = 1
    · obtain ⟨value, single⟩ := List.length_eq_one_iff.mp one
      rw [single]
      refine .inl ⟨_, rfl, fun names mem => leads names (member.mp mem), fun name words calls => ?_⟩
      cases calls
      exact total.symm.trans one
    · refine .inr ⟨.argumentCount (values ++ piped.toList).length, ?_, ?_⟩
      · split
        next value single => rw [single] at one; exact absurd rfl one
        next => rfl
      · rw [total] at one ⊢
        exact .count rfl one
  · rw [evals]
    exact .inr ⟨fault, rfl, .chain (member.mpr mem) breaks⟩

lemma source_cases (object : Value) (source : Source) :
    (∃ value, source.eval object = .ok value ∧ Serves object false (sourceCommand source)) ∨
    ∃ fault, source.eval object = .error fault ∧ Fails object false (sourceCommand source) fault := by
  match source with
  | .call call => exact call_cases object call none
  | .argument (.literal value) =>
    exact .inl ⟨value, rfl, ⟨fun names mem => (by cases List.mem_singleton.mp mem), nofun⟩⟩
  | .argument (.chain names) =>
    obtain ⟨found, follows, leads⟩ | ⟨fault, follows, breaks⟩ := object.follow_cases names
    · refine .inl ⟨found, follows, fun names' mem => ?_, nofun⟩
      cases List.mem_singleton.mp mem
      exact ⟨found, leads⟩
    · exact .inr ⟨fault, follows, .chain List.mem_cons_self breaks⟩

/-- A pipeline gives a value or misses something. -/
lemma pipeline_cases (object : Value) (pipeline : Pipeline) :
    (∃ value, pipeline.eval object = .ok value ∧ Supports object (pipelineCommands pipeline)) ∨
    ∃ fault, pipeline.eval object = .error fault ∧
      Misses object (pipelineCommands pipeline) fault := by
  have calls (calls : List Call) (first : Value) :
      (∃ value, calls.foldlM (fun value (call : Call) => call.eval object (some value)) first =
        .ok value ∧ ∀ command ∈ calls.map callCommand, Serves object true command) ∨
      ∃ fault, calls.foldlM (fun value (call : Call) => call.eval object (some value)) first =
        .error fault ∧ ∃ command ∈ calls.map callCommand, Fails object true command fault := by
    induction calls generalizing first with
    | nil => exact .inl ⟨first, rfl, by simp⟩
    | cons call calls ih =>
      rw [List.foldlM_cons, List.map_cons]
      obtain ⟨value, evals, serves⟩ | ⟨fault, evals, fails⟩ := call_cases object call (some first)
      · rw [evals]
        obtain ⟨last, evals, follow⟩ | ⟨fault, evals, command, mem, fails⟩ := ih value
        · exact .inl ⟨last, evals, List.forall_mem_cons.mpr ⟨serves, follow⟩⟩
        · exact .inr ⟨fault, evals, command, List.mem_cons_of_mem _ mem, fails⟩
      · rw [evals]
        exact .inr ⟨fault, rfl, _, List.mem_cons_self, fails⟩
  rw [Pipeline.eval, pipelineCommands]
  obtain ⟨first, evals, serves⟩ | ⟨fault, evals, fails⟩ := source_cases object pipeline.source
  · rw [evals]
    obtain ⟨value, evals, follow⟩ | ⟨fault, evals, fails⟩ := calls pipeline.calls first
    · exact .inl ⟨value, evals, serves, follow⟩
    · exact .inr ⟨fault, evals, .inr fails⟩
  · rw [evals]
    exact .inr ⟨fault, rfl, .inl fails⟩

/-! ## Templates -/

/-- That the action with a body, which is no comment, spells commands. -/
def ActionSpells (body : List Char) (written : List (List Word)) : Prop :=
  ∃ bare, IsBare body bare ∧ ¬ Comments bare ∧ Spells bare written

lemma exists_of_mapM_eq_error {ε α β : Type} {f : α → Except ε β} {xs : List α} {e : ε}
    (h : xs.mapM f = .error e) : ∃ x ∈ xs, f x = .error e := by
  induction xs with
  | nil => cases h
  | cons x xs ih =>
    rw [List.mapM_cons] at h
    cases here : f x with
    | error e' =>
      rw [here] at h
      cases h
      exact ⟨x, List.mem_cons_self, here⟩
    | ok y =>
      cases there : xs.mapM f with
      | error e' =>
        rw [here, there] at h
        cases h
        obtain ⟨x', mem, fails⟩ := ih there
        exact ⟨x', List.mem_cons_of_mem _ mem, fails⟩
      | ok ys => rw [here, there] at h; cases h

/-- The actions of what is read are those of the source that are no comments. -/
lemma action_mem_readPieces_iff {source : String} {unclosed trimStart : Bool} {text : List Char}
    {actions : List (List Char × List Char)} {pieces : List Piece} {pipeline : Pipeline}
    (read : readPieces source unclosed trimStart text actions = .ok pieces) :
    .action pipeline ∈ pieces ↔
      ∃ action ∈ actions, actionPiece action.1 = .ok [.action pipeline] := by
  have texts (text : List Char) : .action pipeline ∉ textPiece text := by
    rw [textPiece]
    split
    next => exact List.not_mem_nil
    next =>
      intro mem
      cases List.mem_singleton.mp mem
  induction actions generalizing unclosed trimStart text pieces with
  | nil =>
    obtain rfl := closed_of_readPieces read
    have clear : ¬ Stray text := (exists_readPieces_iff.mp ⟨_, read⟩).2
    rw [readPieces_nil_of_clear clear] at read
    cases read
    exact iff_of_false (texts _) (by simp)
  | cons action actions ih =>
    obtain ⟨body, behind⟩ := action
    obtain ⟨given, rest, here, there, rfl⟩ := readPieces_cons_eq_ok_iff.mp read
    have single : .action pipeline ∈ given ↔ given = [.action pipeline] := by
      rw [actionPiece] at here
      split at here
      next => cases here; simp
      next =>
        obtain ⟨made, -, rfl⟩ := Except.map_eq_ok_iff.mp here
        rw [List.mem_singleton, List.singleton_inj, eq_comm]
    simp only [List.mem_append, texts, false_or, ih there, List.exists_mem_cons_iff, here, single,
      Except.ok.injEq]

lemma ActionSpells.exists_pipeline {body : List Char} (spells : ActionSpells body written)
    (acts : Acts body) : ∃ pipeline, actionPiece body = .ok [.action pipeline] ∧
      written = pipelineCommands pipeline := by
  obtain ⟨bare, is, plain, spells⟩ := spells
  obtain ⟨bare', is', acts⟩ := acts
  obtain rfl := (isBare_iff.mp is).symm.trans (isBare_iff.mp is')
  obtain ⟨pipeline, reads⟩ := acts.resolve_left plain
  exact ⟨pipeline, actionPiece_eq_action_iff.mpr ⟨bare, is, plain, reads⟩,
    (spells_of_readPipeline reads).unique spells⟩

lemma actionSpells_of_actionPiece {body : List Char} {pipeline : Pipeline}
    (acts : actionPiece body = .ok [.action pipeline]) :
    ActionSpells body (pipelineCommands pipeline) := by
  obtain ⟨bare, is, plain, reads⟩ := actionPiece_eq_action_iff.mp acts
  exact ⟨bare, is, plain, spells_of_readPipeline reads⟩

/-- An accepted action is a comment, or spells commands. -/
lemma Acts.comments_or_spells {body : List Char} (acts : Acts body) :
    (∃ bare, IsBare body bare ∧ Comments bare) ∨ ∃ written, ActionSpells body written := by
  obtain ⟨bare, is, acts⟩ := acts
  by_cases comments : Comments bare
  · exact .inl ⟨bare, is, comments⟩
  · obtain ⟨pipeline, reads⟩ := acts.resolve_left comments
    exact .inr ⟨_, bare, is, comments, spells_of_readPipeline reads⟩

/-- The commands of an accepted action are well formed, and have a value or miss something. -/
lemma ActionSpells.outcome {body : List Char} (spells : ActionSpells body written)
    (acts : Acts body) : WellFormed written ∧ ∀ object,
      (∃ value, evalCommands object written = .ok (some value) ∧
        Gives object body value.render.toList ∧ Supports object written) ∨
      ∃ fault, evalCommands object written = .error (.fault fault) ∧
        Misses object written fault := by
  obtain ⟨pipeline, here, rfl⟩ := spells.exists_pipeline acts
  obtain ⟨bare, is, plain, reads⟩ := actionPiece_eq_action_iff.mp here
  refine ⟨(spells_of_readPipeline reads).exists_readPipeline_iff.mp ⟨pipeline, reads⟩,
    fun object => ?_⟩
  rw [evalCommands_pipelineCommands]
  obtain ⟨value, evals, supports⟩ | ⟨fault, evals, misses⟩ := pipeline_cases object pipeline
  · rw [evals]
    exact .inl ⟨value, rfl, .result is plain reads evals, supports⟩
  · rw [evals]
    exact .inr ⟨fault, rfl, misses⟩

/-- Parts render if the object supports the actions among them. -/
lemma exists_render_iff {template : KeyTemplate} :
    (∃ key, template.render object = .ok key) ↔
      ∀ pipeline, .action pipeline ∈ template.pieces →
        Supports object (pipelineCommands pipeline) := by
  have acts (pipeline : Pipeline) : (∃ text, Piece.render object (.action pipeline) = .ok text) ↔
      Supports object (pipelineCommands pipeline) := by
    rw [Piece.render]
    obtain ⟨value, evals, supports⟩ | ⟨fault, evals, misses⟩ := pipeline_cases object pipeline
    · rw [evals]
      exact iff_of_true ⟨_, rfl⟩ supports
    · rw [evals]
      refine iff_of_false ?_ misses.not_supports
      rintro ⟨_, ⟨⟩⟩
  have all : (∃ key, template.render object = .ok key) ↔
      ∀ piece ∈ template.pieces, ∃ text, piece.render object = .ok text := by
    rw [← exists_mapM_iff, KeyTemplate.render]
    simp only [Except.map_eq_ok_iff]
    constructor
    · rintro ⟨_, texts, renders, -⟩
      exact ⟨texts, renders⟩
    · rintro ⟨texts, renders⟩
      exact ⟨_, texts, renders, rfl⟩
  rw [all]
  constructor
  · exact fun each pipeline mem => (acts pipeline).mp (each _ mem)
  · intro supports piece mem
    cases piece with
    | text text => exact ⟨text, rfl⟩
    | action pipeline => exact (acts pipeline).mpr (supports pipeline mem)

/-- Where parts do not render, something is missed. -/
lemma misses_of_render {template : KeyTemplate} (fails : template.render object = .error fault) :
    ∃ pipeline, .action pipeline ∈ template.pieces ∧
      Misses object (pipelineCommands pipeline) fault := by
  have fails : template.pieces.mapM (Piece.render object) = .error fault := by
    rw [KeyTemplate.render] at fails
    cases parts : template.pieces.mapM (Piece.render object) with
    | ok texts => rw [parts] at fails; cases fails
    | error fault' => rw [parts] at fails; cases fails; rfl
  obtain ⟨piece, mem, fails⟩ := exists_of_mapM_eq_error fails
  cases piece with
  | text text => cases fails
  | action pipeline =>
    rw [Piece.render] at fails
    obtain ⟨value, evals, -⟩ | ⟨fault', evals, misses⟩ := pipeline_cases object pipeline
    · rw [evals] at fails
      cases fails
    · rw [evals] at fails
      cases fails
      exact ⟨pipeline, mem, misses⟩

/-- Rendering an accepted template succeeds exactly if the object supports the commands of every
action, and otherwise is a fault of what it misses; the commands are well formed, and evaluate to a
value or such a fault. A pipe to `resourceName` is a call of it with the operand before the pipe. -/
theorem render_outcome (source : String) :
    (∀ template, KeyTemplate.read source = .ok template →
      ∃ lead actions, Cuts source.toList lead actions ∧
        (∀ action ∈ actions, (∃ bare, IsBare action.1 bare ∧ Comments bare) ∨
          ∃ written, ActionSpells action.1 written) ∧
        (∀ action ∈ actions, ∀ written, ActionSpells action.1 written →
          WellFormed written ∧ ∀ object,
            (∃ value, evalCommands object written = .ok (some value) ∧
              Gives object action.1 value.render.toList ∧ Supports object written) ∨
            ∃ fault, evalCommands object written = .error (.fault fault) ∧
              Misses object written fault) ∧
        ∀ object,
          ((∃ key, template.render object = .ok key) ↔
            ∀ action ∈ actions, ∀ written, ActionSpells action.1 written →
              Supports object written) ∧
          ∀ fault, template.render object = .error fault →
            ∃ action ∈ actions, ∃ written, ActionSpells action.1 written ∧
              Misses object written fault) ∧
    ∀ operand called, Repipes operand source called →
      (∀ object key,
        (∃ template, KeyTemplate.read source = .ok template ∧ template.render object = .ok key) ↔
          ∃ template, KeyTemplate.read called = .ok template ∧
            template.render object = .ok key) ∧
      ∀ argument, operand = .argument argument →
        ((∃ template, KeyTemplate.read source = .ok template) ↔
          ∃ template, KeyTemplate.read called = .ok template) ∧
        ∀ template template', KeyTemplate.read source = .ok template →
          KeyTemplate.read called = .ok template' →
          ∀ object, template.render object = template'.render object := by
  refine ⟨fun template accepted => ?_, fun operand called repipes =>
    ⟨fun object key => repipes.renders_iff, ?_⟩⟩
  · obtain ⟨lead, actions, cuts, acts, -⟩ := exists_read_iff.mp ⟨template, accepted⟩
    obtain ⟨pieces, read, rfl⟩ := (read_eq_ok_iff_of_cuts cuts).mp accepted
    refine ⟨lead, actions, cuts, fun action mem => (acts action mem).comments_or_spells,
      fun action mem written spells => spells.outcome (acts action mem), fun object => ⟨?_, ?_⟩⟩
    · rw [exists_render_iff]
      constructor
      · intro supports action mem written spells
        obtain ⟨pipeline, here, rfl⟩ := spells.exists_pipeline (acts action mem)
        exact supports pipeline ((action_mem_readPieces_iff read).mpr ⟨action, mem, here⟩)
      · intro supports pipeline mem
        obtain ⟨action, mem, here⟩ := (action_mem_readPieces_iff read).mp mem
        exact supports action mem _ (actionSpells_of_actionPiece here)
    · intro fault fails
      obtain ⟨pipeline, mem, misses⟩ := misses_of_render fails
      obtain ⟨action, mem, here⟩ := (action_mem_readPieces_iff read).mp mem
      exact ⟨action, mem, _, actionSpells_of_actionPiece here, misses⟩
  · rintro argument rfl
    exact repipes.argument

lemma rewords_kind : Rewords (.argument (.chain ["kind"])) " .kind | resourceName ".toList
    " resourceName .kind ".toList := by
  have blank : ∀ c ∈ [' '], Text.isBlank c = true := List.forall_mem_singleton.mpr rfl
  refine ⟨?_, ?_, ".kind".toList, [' '], [' '], [' '], tokens_kind, blank, blank, blank,
    List.cons_ne_nil _ _, isBare_iff.mpr (by decide +kernel), isBare_iff.mpr (by decide +kernel)⟩
  · rw [← trimsBefore_iff, ← trimsBefore_iff]
    decide +kernel
  · rw [← trimsBehind_iff, ← trimsBehind_iff]
    decide +kernel

/-- The kind of an object names no resource, and an object without a kind has no key. -/
theorem render_outcome_kind :
    Repipes (.argument (.chain ["kind"])) "\x7b\x7b .kind | resourceName \x7d\x7d"
        "\x7b\x7b resourceName .kind \x7d\x7d" ∧
      (∃ template, KeyTemplate.read "\x7b\x7b resourceName .kind \x7d\x7d" = .ok template ∧
        template.render deployment = .ok unknownName) ∧
      ∃ template, KeyTemplate.read "\x7b\x7b .kind | resourceName \x7d\x7d" = .ok template ∧
        template.render deployment = .ok unknownName ∧
        template.render (.mapping []) = .error (.noEntry "kind") ∧
        ∃ lead actions,
          Cuts "\x7b\x7b .kind | resourceName \x7d\x7d".toList lead actions ∧
          ∃ action ∈ actions, ∃ written, ActionSpells action.1 written ∧
            Misses (.mapping []) written (.noEntry "kind") := by
  have source : actionSource " .kind | resourceName ".toList =
      "\x7b\x7b .kind | resourceName \x7d\x7d" := by decide +kernel
  have repipes : Repipes (.argument (.chain ["kind"]))
      "\x7b\x7b .kind | resourceName \x7d\x7d" "\x7b\x7b resourceName .kind \x7d\x7d" :=
    ⟨[], [], _, _, [], [], cuts_of_ofSource (by decide +kernel),
      cuts_of_ofSource (by decide +kernel), rewords_kind⟩
  obtain ⟨⟨bare, is, plain, words⟩, -⟩ := rewords_kind.tokens_eq
  have accepted := read_actionSource (by decide +kernel) is plain
    (readPipeline_eq_ok_iff.mpr ⟨_, _, _, words, rfl, rfl, rfl⟩ :
      readPipeline bare = .ok ⟨.argument (.chain ["kind"]), [⟨[]⟩]⟩)
  rw [source] at accepted
  obtain ⟨outcome, pipes⟩ := render_outcome "\x7b\x7b .kind | resourceName \x7d\x7d"
  obtain ⟨lead, actions, cuts, -, -, renders⟩ := outcome _ accepted
  exact ⟨repipes, ((pipes _ _ repipes).1 deployment unknownName).mp ⟨_, accepted, rfl⟩,
    _, accepted, rfl, rfl, lead, actions, cuts, (renders (.mapping [])).2 _ rfl⟩

end KeyTemplate

end ChartLift
