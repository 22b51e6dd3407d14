import ChartLift.Proofs.KeyTemplate.Tokens
import Mathlib.Data.List.Forall2

/-!
# Commands as they are written

A pipeline keeps functions apart from arguments. Written down (`Pipeline.commands`) it is a list of
commands, and a command a list of words: chains of fields, literals and names of functions. Evaluating
such lists word by word (`evalCommands`) can go wrong in ways of its own: a command may be empty, a
function may stand where a value is asked for, or there may be none of the name (`Mishap`). Reading
accepts the commands that are well formed (`WellFormed`) and no others
(`Spells.exists_readPipeline_iff`), and these evaluate to what their pipeline does, so that no mishap is met
(`evalCommands_pipelineCommands`).
-/

namespace ChartLift

namespace KeyTemplate

/-- A word of a command. -/
inductive Word where
  | chain (names : List String)
  | literal (value : Value)
  | function (name : String)

/-- Whether a word names a function. -/
def Word.IsFunction (word : Word) : Prop :=
  ∃ name, word = .function name

/-- The word for an argument. -/
def argumentWord : Argument → Word
  | .chain names => .chain names
  | .literal value => .literal value

/-- The word for an operand as it is read. -/
def operandWord : Operand → Word
  | .argument argument => argumentWord argument
  | .resourceName => .function "resourceName"

/-- The command of a call. -/
def callCommand (call : Call) : List Word :=
  .function "resourceName" :: call.arguments.map argumentWord

/-- The command that an action starts with. -/
def sourceCommand : Source → List Word
  | .argument argument => [argumentWord argument]
  | .call call => callCommand call

/-- The commands of a pipeline. -/
def pipelineCommands (pipeline : Pipeline) : List (List Word) :=
  sourceCommand pipeline.source :: pipeline.calls.map callCommand

/-! ## Evaluation word by word -/

/-- What keeps commands from giving a value: a fault of the template for the object, or something that
is wrong with the commands themselves. -/
inductive Mishap where
  | fault (fault : TemplateFault)
  /-- A command without words. -/
  | noWord
  /-- A function where a value is asked for. -/
  | functionAsValue (name : String)
  /-- A name that no function has. -/
  | undefinedFunction (name : String)

/-- The value of a word. -/
def Word.eval (object : Value) : Word → Except Mishap Value
  | .literal value => .ok value
  | .chain names => (object.follow names).mapError .fault
  | .function name => .error (.functionAsValue name)

/-- The result of a function. -/
def callFunction (name : String) (arguments : List Value) : Except Mishap Value :=
  if name = "resourceName" then
    match arguments with
    | [value] => .ok (.string (resourceName value))
    | values => .error (.fault (.argumentCount values.length))
  else .error (.undefinedFunction name)

/-- The result of a command, `piped` being what stands before its pipe. -/
def evalCommand (object : Value) (piped : Option Value) : List Word → Except Mishap Value
  | [] => .error .noWord
  | .function name :: words => do
    let given ← words.mapM (Word.eval object)
    callFunction name (given ++ piped.toList)
  | word :: _ => word.eval object

/-- The result of commands, each given what the one before it has come to. There is none if there are
no commands. -/
def evalCommands (object : Value) (commands : List (List Word)) : Except Mishap (Option Value) :=
  commands.foldlM (fun piped command => (evalCommand object piped command).map some) none

variable (object : Value)

lemma eval_argumentWord (argument : Argument) :
    (argumentWord argument).eval object = (argument.eval object).mapError .fault := by
  cases argument with
  | chain names => rfl
  | literal value => rfl

lemma mapM_argumentWord (arguments : List Argument) :
    (arguments.map argumentWord).mapM (Word.eval object) =
      (arguments.mapM (Argument.eval object)).mapError .fault := by
  induction arguments with
  | nil => rfl
  | cons argument arguments ih =>
    rw [List.map_cons, List.mapM_cons, List.mapM_cons, eval_argumentWord, ih]
    cases argument.eval object with
    | error fault => rfl
    | ok value => cases arguments.mapM (Argument.eval object) <;> rfl

lemma evalCommand_callCommand (call : Call) (piped : Option Value) :
    evalCommand object piped (callCommand call) = (call.eval object piped).mapError .fault := by
  rw [callCommand, evalCommand, mapM_argumentWord, Call.eval]
  cases call.arguments.mapM (Argument.eval object) with
  | error fault => rfl
  | ok given =>
    show callFunction "resourceName" (given ++ piped.toList) = _
    simp only [callFunction, ↓reduceIte, bind, Except.bind]
    generalize given ++ piped.toList = values
    rcases values with - | ⟨value, - | ⟨second, rest⟩⟩
    · rfl
    · rfl
    · rfl

lemma evalCommand_sourceCommand (source : Source) :
    evalCommand object none (sourceCommand source) = (source.eval object).mapError .fault := by
  cases source with
  | argument argument =>
    cases argument with
    | chain names => rfl
    | literal value => rfl
  | call call => exact evalCommand_callCommand object call none

/-- The commands of a pipeline evaluate to what it does: to a value, or to a fault of the template. -/
lemma evalCommands_pipelineCommands (pipeline : Pipeline) :
    evalCommands object (pipelineCommands pipeline) =
      ((pipeline.eval object).map some).mapError .fault := by
  have calls (calls : List Call) (first : Value) :
      (calls.map callCommand).foldlM
          (fun piped command => (evalCommand object piped command).map some) (some first) =
        ((calls.foldlM (fun value (call : Call) => call.eval object (some value)) first).map
            some).mapError
          .fault := by
    induction calls generalizing first with
    | nil => rfl
    | cons call calls ih =>
      rw [List.map_cons, List.foldlM_cons, List.foldlM_cons, evalCommand_callCommand]
      cases call.eval object (some first) with
      | error fault => rfl
      | ok value => exact ih value
  rw [evalCommands, pipelineCommands, List.foldlM_cons, evalCommand_sourceCommand, Pipeline.eval]
  cases pipeline.source.eval object with
  | error fault => rfl
  | ok first => exact calls pipeline.calls first

/-! ## Reading -/

/-- That a command is a call: a function, and further words that are none. -/
def IsCall (command : List Word) : Prop :=
  ∃ name words, command = .function name :: words ∧ ∀ word ∈ words, ¬ word.IsFunction

/-- That commands are those of a pipeline: there is a first one, a call or a word that is no function,
and the others are calls. -/
def WellFormed (commands : List (List Word)) : Prop :=
  ∃ first later, commands = first :: later ∧
    (IsCall first ∨ ∃ word, first = [word] ∧ ¬ word.IsFunction) ∧ ∀ command ∈ later, IsCall command

/-- That a bare body spells commands. -/
def Spells (bare : List Char) (written : List (List Word)) : Prop :=
  ∃ words operands, tokens bare = .ok words ∧
    commands (String.ofList bare) [] words = .ok operands ∧
    written = operands.map (List.map operandWord)

lemma isFunction_operandWord {operand : Operand} :
    (operandWord operand).IsFunction ↔ operand = .resourceName := by
  match operand with
  | .argument (.chain names) => simp [operandWord, argumentWord, Word.IsFunction]
  | .argument (.literal value) => simp [operandWord, argumentWord, Word.IsFunction]
  | .resourceName => simp [operandWord, Word.IsFunction]

/-- A list is run through one by one, each of its members with a result. -/
lemma mapM_eq_ok_iff {ε α β : Type} {f : α → Except ε β} {xs : List α} {ys : List β} :
    xs.mapM f = .ok ys ↔ List.Forall₂ (fun x y => f x = .ok y) xs ys := by
  induction xs generalizing ys with
  | nil =>
    rw [List.forall₂_nil_left_iff]
    exact ⟨fun h => by cases h; rfl, fun h => by rw [h]; rfl⟩
  | cons x xs ih =>
    rw [List.mapM_cons, List.forall₂_cons_left_iff]
    simp only [← ih]
    constructor
    · intro h
      cases here : f x with
      | error e => rw [here] at h; cases h
      | ok y =>
        cases there : xs.mapM f with
        | error e => rw [here, there] at h; cases h
        | ok ys' =>
          rw [here, there] at h
          cases h
          exact ⟨y, ys', rfl, rfl, rfl⟩
    · rintro ⟨y, ys', here, there, rfl⟩
      rw [here, there]
      rfl

lemma exists_mapM_iff {ε α β : Type} {f : α → Except ε β} {xs : List α} :
    (∃ ys, xs.mapM f = .ok ys) ↔ ∀ x ∈ xs, ∃ y, f x = .ok y := by
  induction xs with
  | nil => exact iff_of_true ⟨[], rfl⟩ (by simp)
  | cons x xs ih =>
    simp only [mapM_eq_ok_iff, List.forall₂_cons_left_iff] at ih ⊢
    rw [List.forall_mem_cons, ← ih]
    exact ⟨fun ⟨_, y, ys, here, there, _⟩ => ⟨⟨y, here⟩, ys, there⟩,
      fun ⟨⟨y, here⟩, ys, there⟩ => ⟨_, y, ys, here, there, rfl⟩⟩

lemma arguments_eq_ok_iff {body : String} {operands : List Operand} {given : List Argument} :
    arguments body operands = .ok given ↔ operands = given.map .argument := by
  induction operands generalizing given with
  | nil => simp [arguments, eq_comm]
  | cons operand operands ih =>
    cases operand with
    | argument argument =>
      rw [arguments, Except.map_eq_ok_iff]
      constructor
      · rintro ⟨rest, reads, rfl⟩
        rw [ih.mp reads, List.map_cons]
      · intro split
        cases given with
        | nil => cases split
        | cons first rest =>
          obtain ⟨same, others⟩ := List.cons.inj split
          cases same
          exact ⟨rest, ih.mpr others, rfl⟩
    | resourceName =>
      refine iff_of_false nofun fun split => ?_
      cases given with
      | nil => cases split
      | cons first rest => cases (List.cons.inj split).1

lemma exists_arguments_iff {body : String} {operands : List Operand} :
    (∃ given, arguments body operands = .ok given) ↔
      ∀ word ∈ operands.map operandWord, ¬ word.IsFunction := by
  simp only [arguments_eq_ok_iff, List.forall_mem_map, isFunction_operandWord]
  constructor
  · rintro ⟨given, rfl⟩
    simp
  · intro plain
    induction operands with
    | nil => exact ⟨[], rfl⟩
    | cons operand operands ih =>
      obtain ⟨here, plain⟩ := List.forall_mem_cons.mp plain
      obtain ⟨given, rfl⟩ := ih plain
      cases operand with
      | argument argument => exact ⟨argument :: given, rfl⟩
      | resourceName => exact absurd rfl here

variable {body : String} {operands : List Operand}

lemma readCall_eq_ok_iff {call : Call} :
    readCall body operands = .ok call ↔
      ∃ rest, operands = .resourceName :: rest ∧ arguments body rest = .ok call.arguments := by
  match operands with
  | [] => simp [readCall]
  | .argument _ :: _ => simp [readCall]
  | .resourceName :: rest =>
    rw [readCall, Except.map_eq_ok_iff]
    constructor
    · rintro ⟨given, reads, rfl⟩
      exact ⟨rest, rfl, reads⟩
    · rintro ⟨_, ⟨⟩, reads⟩
      exact ⟨_, reads, rfl⟩

lemma callCommand_of_readCall {call : Call} (reads : readCall body operands = .ok call) :
    operands.map operandWord = callCommand call := by
  obtain ⟨rest, rfl, given⟩ := readCall_eq_ok_iff.mp reads
  rw [arguments_eq_ok_iff.mp given, callCommand, List.map_cons, List.map_map]
  rfl

/-- A call is read where the words are a call. -/
lemma exists_readCall_iff :
    (∃ call, readCall body operands = .ok call) ↔ IsCall (operands.map operandWord) := by
  simp only [readCall_eq_ok_iff]
  constructor
  · rintro ⟨call, rest, rfl, given⟩
    exact ⟨_, _, rfl, exists_arguments_iff.mp ⟨_, given⟩⟩
  · rintro ⟨name, words, split, plain⟩
    obtain ⟨operand, rest, rfl, is, rfl⟩ := List.map_eq_cons_iff.mp split
    obtain rfl := isFunction_operandWord.mp ⟨name, is⟩
    obtain ⟨given, reads⟩ := exists_arguments_iff.mpr plain
    exact ⟨⟨given⟩, rest, rfl, reads⟩

lemma callCommands_of_readCalls {lines : List (List Operand)} {calls : List Call}
    (reads : lines.mapM (readCall body) = .ok calls) :
    lines.map (List.map operandWord) = calls.map callCommand := by
  have each := mapM_eq_ok_iff.mp reads
  clear reads
  induction each with
  | nil => rfl
  | cons here _ ih => rw [List.map_cons, List.map_cons, callCommand_of_readCall here, ih]

lemma readSource_eq_ok_iff {source : Source} :
    readSource body operands = .ok source ↔
      (∃ argument, operands = [.argument argument] ∧ source = .argument argument) ∨
        ∃ call, readCall body operands = .ok call ∧ source = .call call := by
  match operands with
  | [] => simp [readSource, readCall]
  | [.argument argument] => simp [readSource, readCall, eq_comm]
  | .argument _ :: _ :: _ => simp [readSource, readCall]
  | .resourceName :: rest =>
    simp only [readSource, readCall, Except.map_eq_ok_iff, List.cons.injEq, reduceCtorEq, false_and,
      exists_false, false_or]
    constructor
    · rintro ⟨given, reads, rfl⟩
      exact ⟨⟨given⟩, ⟨given, reads, rfl⟩, rfl⟩
    · rintro ⟨_, ⟨given, reads, rfl⟩, rfl⟩
      exact ⟨given, reads, rfl⟩

lemma sourceCommand_of_readSource {source : Source}
    (reads : readSource body operands = .ok source) :
    operands.map operandWord = sourceCommand source := by
  obtain ⟨argument, rfl, rfl⟩ | ⟨call, calls, rfl⟩ := readSource_eq_ok_iff.mp reads
  · rfl
  · exact callCommand_of_readCall calls

/-- The start of a pipeline is read where the words are a call, or one word that is no function. -/
lemma exists_readSource_iff :
    (∃ source, readSource body operands = .ok source) ↔
      IsCall (operands.map operandWord) ∨
        ∃ word, operands.map operandWord = [word] ∧ ¬ word.IsFunction := by
  rw [← @exists_readCall_iff body]
  simp only [readSource_eq_ok_iff]
  constructor
  · rintro ⟨source, ⟨argument, rfl, -⟩ | ⟨call, reads, -⟩⟩
    · exact .inr ⟨_, rfl, isFunction_operandWord.not.mpr nofun⟩
    · exact .inl ⟨call, reads⟩
  · rintro (⟨call, reads⟩ | ⟨word, split, plain⟩)
    · exact ⟨.call call, .inr ⟨call, reads, rfl⟩⟩
    · obtain ⟨operand, rest, rfl, rfl, none⟩ := List.map_eq_cons_iff.mp split
      obtain rfl := List.map_eq_nil_iff.mp none
      cases operand with
      | argument argument => exact ⟨_, .inl ⟨argument, rfl, rfl⟩⟩
      | resourceName => exact absurd (isFunction_operandWord.mpr rfl) plain

/-- Commands are never empty where they are told apart. -/
lemma ne_nil_of_commands {seen : List Operand} {words : List ActionToken}
    {lines : List (List Operand)} (reads : commands body seen words = .ok lines) : lines ≠ [] := by
  induction words generalizing seen lines with
  | nil =>
    rw [commands] at reads
    split at reads
    · cases reads
    · cases reads
      exact List.cons_ne_nil _ _
  | cons word words ih =>
    cases word with
    | pipe =>
      rw [commands] at reads
      split at reads
      · cases reads
      · obtain ⟨rest, -, rfl⟩ := Except.map_eq_ok_iff.mp reads
        exact List.cons_ne_nil _ _
    | operand operand => exact ih reads

variable {bare : List Char} {written : List (List Word)} {pipeline : Pipeline}

lemma readPipeline_eq_ok_iff :
    readPipeline bare = .ok pipeline ↔
      ∃ words first later, tokens bare = .ok words ∧
        commands (String.ofList bare) [] words = .ok (first :: later) ∧
        readSource (String.ofList bare) first = .ok pipeline.source ∧
        later.mapM (readCall (String.ofList bare)) = .ok pipeline.calls := by
  rw [readPipeline]
  cases bare with
  | nil =>
    refine iff_of_false nofun ?_
    rintro ⟨words, first, later, reads, split, -⟩
    cases tokens_nil.symm.trans reads
    cases split
  | cons c bare =>
    rw [List.isEmpty_cons, if_neg Bool.false_ne_true]
    simp only [Except.bind_eq_ok_iff]
    constructor
    · rintro ⟨words, reads, lines, split, made⟩
      match lines with
      | [] => cases made
      | first :: later =>
        obtain ⟨source, start, rest⟩ := Except.bind_eq_ok_iff.mp made
        obtain ⟨calls, follow, same⟩ := Except.bind_eq_ok_iff.mp rest
        cases same
        exact ⟨words, first, later, reads, split, start, follow⟩
    · rintro ⟨words, first, later, reads, split, start, follow⟩
      refine ⟨words, reads, first :: later, split, ?_⟩
      exact Except.bind_eq_ok_iff.mpr ⟨_, start, Except.bind_eq_ok_iff.mpr ⟨_, follow, rfl⟩⟩

/-- A body is read to a pipeline whose commands it spells. -/
lemma spells_of_readPipeline (read : readPipeline bare = .ok pipeline) :
    Spells bare (pipelineCommands pipeline) := by
  obtain ⟨words, first, later, reads, split, start, follow⟩ := readPipeline_eq_ok_iff.mp read
  refine ⟨words, first :: later, reads, split, ?_⟩
  rw [pipelineCommands, List.map_cons, sourceCommand_of_readSource start,
    callCommands_of_readCalls follow]

lemma Spells.unique {written' : List (List Word)} (spells : Spells bare written)
    (spells' : Spells bare written') : written' = written := by
  obtain ⟨words, lines, reads, split, rfl⟩ := spells
  obtain ⟨words', lines', reads', split', rfl⟩ := spells'
  cases reads.symm.trans reads'
  cases split.symm.trans split'
  rfl

/-- Of the bodies that spell commands, those are read to a pipeline that spell well formed ones. -/
lemma Spells.exists_readPipeline_iff (spells : Spells bare written) :
    (∃ pipeline, readPipeline bare = .ok pipeline) ↔ WellFormed written := by
  obtain ⟨words, lines, reads, split, rfl⟩ := spells
  obtain ⟨first, later, rfl⟩ := List.exists_cons_of_ne_nil (ne_nil_of_commands split)
  have criterion : WellFormed ((first :: later).map (List.map operandWord)) ↔
      (∃ source, readSource (String.ofList bare) first = .ok source) ∧
        ∃ calls, later.mapM (readCall (String.ofList bare)) = .ok calls := by
    rw [exists_readSource_iff, exists_mapM_iff]
    simp only [exists_readCall_iff]
    constructor
    · rintro ⟨_, _, same, start, follow⟩
      cases same
      exact ⟨start, List.forall_mem_map.mp follow⟩
    · rintro ⟨start, follow⟩
      exact ⟨_, _, rfl, start, List.forall_mem_map.mpr follow⟩
  rw [criterion]
  simp only [readPipeline_eq_ok_iff]
  constructor
  · rintro ⟨pipeline, words', first', later', reads', split', start, follow⟩
    cases reads.symm.trans reads'
    cases split.symm.trans split'
    exact ⟨⟨_, start⟩, _, follow⟩
  · rintro ⟨⟨source, start⟩, calls, follow⟩
    exact ⟨⟨source, calls⟩, words, first, later, reads, split, start, follow⟩

end KeyTemplate

end ChartLift
