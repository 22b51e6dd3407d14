import ChartLift.Proofs.Yaml.Content.Cost
import ChartLift.Proofs.Yaml.Machine

/-!
# Runs of readers

A run of a reader step by step: it takes a token from the text, or gives one that has become certain.
Readers abreast give the same tokens, and the bound on the steps of a run is never what ends it.
-/

namespace ChartLift.Yaml.Content

open Fork

variable {l k m : Lexer}

namespace Lexer

/-! ## Steps -/

/-- One step: the token that it gives, if it gives one, and the reader after it. -/
def step : Machine Lexer Token := fun l =>
  l.dropStale.bind fun fresh =>
    match fresh.queue with
    | token :: queue =>
      if fresh.undecided then fresh.fetch.map (none, ·)
      else some (some token, { fresh with queue := queue, emitted := fresh.emitted + 1 })
    | [] => if l.finished then none else l.fetch.map (none, ·)

/-- The tokens of a run are what its steps give. -/
lemma run_tokens (fuel : Nat) (l : Lexer) : (run fuel l).tokens = step.outputs fuel l := by
  induction fuel generalizing l with
  | zero => rfl
  | succ fuel ih =>
    simp only [run, Machine.outputs, step]
    cases l.dropStale with
    | none => rfl
    | some fresh =>
      simp only [Option.bind_some]
      cases fresh.queue with
      | cons token queue =>
        simp only
        split
        · cases fresh.fetch with
          | none => rfl
          | some m => exact ih m
        · exact congrArg (token :: ·) (ih _)
      | nil =>
        simp only
        split
        · rfl
        · cases l.fetch with
          | none => rfl
          | some m => exact ih m

/-- A step takes a token from the text, or gives one that is waiting. -/
lemma step_cases {token : Option Token} (goes : l.step = some (token, m)) :
    ∃ fresh, l.dropStale = some fresh ∧
      ((token = none ∧ fresh.undecided = true ∧ fresh.queue ≠ [] ∧ fresh.fetch = some m)
        ∨ (token = none ∧ fresh.queue = [] ∧ l.finished = false ∧ l.fetch = some m)
        ∨ ∃ first queue, token = some first ∧ fresh.queue = first :: queue ∧ fresh.undecided = false
          ∧ m = { fresh with queue := queue, emitted := fresh.emitted + 1 }) := by
  obtain ⟨fresh, drops, goes⟩ := Option.bind_eq_some_iff.mp goes
  refine ⟨fresh, drops, ?_⟩
  cases waiting : fresh.queue with
  | nil =>
    simp only [waiting, Option.ite_none_left_eq_some, Bool.not_eq_true] at goes
    obtain ⟨m', fetched, result⟩ := Option.map_eq_some_iff.mp goes.2
    obtain ⟨rfl, rfl⟩ : none = token ∧ m' = m := by simpa using result
    exact .inr (.inl ⟨rfl, rfl, goes.1, fetched⟩)
  | cons first queue =>
    simp only [waiting] at goes
    split at goes
    case isTrue undecided =>
      obtain ⟨m', fetched, result⟩ := Option.map_eq_some_iff.mp goes
      obtain ⟨rfl, rfl⟩ : none = token ∧ m' = m := by simpa using result
      exact .inl ⟨rfl, undecided, by simp, fetched⟩
    case isFalse decided =>
      obtain ⟨rfl, rfl⟩ : some first = token ∧ _ = m := by simpa using goes
      exact .inr (.inr ⟨first, queue, rfl, rfl, by simpa using decided, rfl⟩)

lemma step_le {token : Option Token} (goes : l.step = some (token, m)) :
    m.cursor.rest.length ≤ l.cursor.rest.length := by
  obtain ⟨fresh, drops, taken | taken | given⟩ := step_cases goes
  · exact Nat.le_trans (fetch_le taken.2.2.2) (Costs.dropStale drops).rest
  · exact fetch_le taken.2.2.2
  · obtain ⟨_, _, -, -, -, rfl⟩ := given
    exact (Costs.dropStale drops).rest

lemma steps_le {n : Nat} {given : List Token} (goes : step.steps n l = some (given, m)) :
    m.cursor.rest.length ≤ l.cursor.rest.length := by
  induction n generalizing l given with
  | zero => exact Nat.le_of_eq (by rw [(Machine.steps_zero goes).2])
  | succ n ih =>
    obtain ⟨token, k, later, first, rest, -⟩ := Machine.steps_succ goes
    exact Nat.le_trans (ih rest) (step_le first)

/-- Every step brings a reader nearer to the end, unless the text is read and nothing comes of it. -/
lemma step_potential {token : Option Token} (goes : l.step = some (token, m))
    (progress : l.finished = false ∨ token ≠ none) : m.potential < l.potential := by
  obtain ⟨fresh, drops, taken | taken | given⟩ := step_cases goes
  · obtain ⟨rfl, -, -, fetched⟩ := taken
    have costs := Costs.dropStale drops
    have open_ : fresh.finished = false := by
      rw [costs.finished]; simpa using progress
    have := fetch_potential open_ fetched
    have := costs.rest
    have := costs.load
    simp only [potential, costs.finished] at *
    omega
  · obtain ⟨-, -, open_, fetched⟩ := taken
    exact fetch_potential open_ fetched
  · obtain ⟨first, queue, -, waiting, -, rfl⟩ := given
    have costs := Costs.dropStale drops
    have := costs.rest
    have load := costs.load
    simp only [potential, Lexer.load, waiting, List.length_cons, costs.finished] at *
    omega

/-! ## The end of a text -/

/-- Where a reader has finished, nothing is ahead and no key may have begun at the current level. -/
def Ended (l : Lexer) : Prop :=
  l.finished = true → l.cursor.rest = [] ∧ ∀ key, l.keys.head? ≠ some (some key)

lemma dropStale_keys (drops : l.dropStale = some m) :
    m = { l with keys := l.keys.map fun key => key.filter fun key => !l.isStale key } := by
  simp only [Lexer.dropStale, Option.ite_none_left_eq_some, Option.some.injEq] at drops
  exact drops.2.symm

lemma dropStale_eq_self_iff :
    l.dropStale = some l ↔
      (¬(l.keys.any fun key => match key with
          | some key => key.required && l.isStale key
          | none => false) = true)
        ∧ l.keys.map (fun key => key.filter fun key => !l.isStale key) = l.keys := by
  simp only [dropStale, Option.ite_none_left_eq_some, Option.some.injEq]
  exact and_congr Iff.rfl ⟨congrArg Lexer.keys, fun keys => by rw [keys]⟩

lemma dropStale_ended (ended : l.Ended) (drops : l.dropStale = some m) : m.Ended := by
  obtain rfl := dropStale_keys drops
  intro finished
  obtain ⟨nothing, none⟩ := ended finished
  refine ⟨nothing, fun key first => ?_⟩
  cases keys : l.keys with
  | nil => simp [keys] at first
  | cons head rest =>
    cases head with
    | none => simp [keys] at first
    | some key => exact none key (by simp [keys])

lemma closeBlocksOver_frame (column : Int) (l : Lexer) (outer : List Int) :
    (closeBlocksOver column l outer).keys = l.keys ∧ (closeBlocksOver column l outer).emitted = l.emitted
      ∧ (closeBlocksOver column l outer).finished = l.finished
      ∧ l.queue <+: (closeBlocksOver column l outer).queue := by
  induction outer generalizing l with
  | nil => exact ⟨rfl, rfl, rfl, List.prefix_rfl⟩
  | cons indent outer ih =>
    simp only [closeBlocksOver]
    split
    · obtain ⟨keys, emitted, finished, queue⟩ :=
        ih { l.push .blockEnd l.cursor.index with indent := indent, outer := outer }
      exact ⟨keys, emitted, finished, (List.prefix_append _ _).trans queue⟩
    · exact ⟨rfl, rfl, rfl, List.prefix_rfl⟩

lemma closeBlocks_frame (l : Lexer) (column : Int) :
    (l.closeBlocks column).keys = l.keys ∧ (l.closeBlocks column).emitted = l.emitted
      ∧ (l.closeBlocks column).finished = l.finished ∧ l.queue <+: (l.closeBlocks column).queue := by
  unfold closeBlocks
  split
  · exact closeBlocksOver_frame column l l.outer
  · exact ⟨rfl, rfl, rfl, List.prefix_rfl⟩

/-- Giving up the key of the current level leaves everything else. -/
lemma dropKey_frame (drops : l.dropKey = some m) :
    m = { l with keys := m.keys } ∧ (∀ key, m.keys.head? ≠ some (some key))
      ∧ ((∀ key, l.keys.head? ≠ some (some key)) → m.keys = l.keys) := by
  unfold dropKey at drops
  split at drops
  case h_1 key rest eq =>
    split at drops
    · simp at drops
    · obtain rfl : _ = m := by simpa using drops
      exact ⟨rfl, by simp, fun none => absurd (by rw [eq]; rfl) (none key)⟩
  case h_2 other =>
    obtain rfl : l = m := by simpa using drops
    refine ⟨rfl, fun key first => ?_, fun _ => rfl⟩
    cases keys : l.keys with
    | nil => simp [keys] at first
    | cons head rest => exact other key rest (by simp_all)

/-- The end of the text closes all blocks and gives up the key of the current level. -/
lemma streamEnd_frame (reads : l.streamEnd = some m) :
    m.finished = true ∧ m.cursor = l.cursor ∧ m.emitted = l.emitted ∧ m.queue ≠ []
      ∧ (∀ key, m.keys.head? ≠ some (some key))
      ∧ ((∀ key, l.keys.head? ≠ some (some key)) → m.keys = l.keys) := by
  obtain ⟨k, drops, result⟩ := Option.bind_eq_some_iff.mp reads
  obtain rfl : _ = m := by simpa using result
  obtain ⟨keys, emitted, -, -⟩ := closeBlocks_frame l (-1)
  obtain ⟨frame, none, same⟩ := dropKey_frame drops
  refine ⟨rfl, ?_, ?_, by simp [push], none, fun first => ?_⟩
  · rw [← closeBlocks_cursor l (-1), ← dropKey_cursor drops]; rfl
  · rw [← emitted, frame]; rfl
  · exact (same (by rwa [keys])).trans keys

lemma fetch_ended (open_ : l.finished = false) (reads : l.fetch = some m) : m.Ended := by
  rw [fetch_eq] at reads
  obtain ⟨k, there, reads⟩ := Option.bind_eq_some_iff.mp reads
  have finished := (Costs.atToken there).finished
  unfold takeToken at reads
  split at reads
  case h_1 next =>
    obtain ⟨-, cursor, -, -, none, -⟩ := streamEnd_frame reads
    refine fun _ => ⟨?_, none⟩
    rw [cursor]
    simpa [Cursor.peek] using next
  case h_2 x next =>
    intro ends
    have := (takeAt_takes next reads).1.finished
    simp [ends, finished, open_] at this

lemma atToken_of_nil (nothing : l.cursor.rest = []) :
    l.atToken = l.dropStale.map fun l => l.closeBlocks l.cursor.column := by
  have stay (fits : Char → Bool) : l.cursor.skipWhile fits = l.cursor := by
    have none : l.cursor.ahead fits = [] := by simp [Cursor.ahead, nothing]
    simp [Cursor.skipWhile, none, Cursor.advance]
  have here : pastBlanks l = l.cursor := by
    have none (x : Char) : l.cursor.sees x = false := by simp [Cursor.sees, Cursor.peek, nothing]
    simp [pastBlanks, pastComment, none, stay]
  have next : l.cursor.peek = none := by simp [Cursor.peek, nothing]
  rw [atToken, toToken_succ, here, next]
  rfl

/-! ## Readers that are stuck -/

/-- A reader that has finished and still waits for a key gives nothing more. -/
structure Stuck (l : Lexer) : Prop where
  finished : l.finished = true
  ended : l.Ended
  fresh : l.dropStale = some l
  undecided : l.undecided = true
  waiting : l.queue ≠ []

lemma Stuck.fetch (stuck : l.Stuck) (reads : l.fetch = some m) : m.Stuck := by
  obtain ⟨nothing, none⟩ := stuck.ended stuck.finished
  rw [fetch_eq, atToken_of_nil nothing, stuck.fresh] at reads
  simp only [Option.map_some, Option.bind_some, takeToken, closeBlocks_cursor] at reads
  have next : l.cursor.peek = Option.none := by simp [Cursor.peek, nothing]
  simp only [next] at reads
  obtain ⟨keys, emitted, -, -⟩ := closeBlocks_frame l l.cursor.column
  obtain ⟨finished, cursor, emitted', waiting, none', same⟩ := streamEnd_frame reads
  have keys' : m.keys = l.keys := (same (by rwa [keys])).trans keys
  have cursor' : m.cursor = l.cursor := cursor.trans (closeBlocks_cursor l _)
  have stale : m.isStale = l.isStale := by
    funext key
    simp only [isStale, cursor']
  refine ⟨finished, fun _ => ⟨by rw [cursor', nothing], none'⟩, ?_, ?_, waiting⟩
  · obtain ⟨fresh, kept⟩ := dropStale_eq_self_iff.mp stuck.fresh
    rw [dropStale_eq_self_iff, keys', stale]
    exact ⟨fresh, kept⟩
  · have := stuck.undecided
    simpa only [Lexer.undecided, keys', emitted'.trans emitted] using this

lemma Stuck.step (stuck : l.Stuck) {token : Option Token} (goes : l.step = some (token, m)) :
    token = none ∧ m.Stuck := by
  obtain ⟨fresh, drops, taken⟩ := step_cases goes
  obtain rfl : l = fresh := by simpa [stuck.fresh] using drops
  obtain ⟨rfl, -, -, fetched⟩ | ⟨-, nothing, -, -⟩ | ⟨_, _, -, -, decided, -⟩ := taken
  · exact ⟨rfl, stuck.fetch fetched⟩
  · exact absurd nothing stuck.waiting
  · simp [stuck.undecided] at decided

lemma Stuck.outputs (stuck : l.Stuck) (fuel : Nat) : Lexer.step.outputs fuel l = [] := by
  induction fuel generalizing l with
  | zero => rfl
  | succ fuel ih =>
    rw [Machine.outputs]
    cases goes : l.step with
    | none => rfl
    | some result =>
      obtain ⟨none, next⟩ := stuck.step goes
      simp [none, ih next]

lemma dropStale_idem (drops : l.dropStale = some m) : m.dropStale = some m := by
  obtain rfl := dropStale_keys drops
  rw [dropStale_eq_self_iff]
  have stale : Lexer.isStale { l with keys := l.keys.map fun key => key.filter fun key => !l.isStale key }
      = l.isStale := rfl
  rw [stale]
  constructor
  · simp only [List.any_map, Bool.not_eq_true, List.any_eq_false]
    intro key mem
    cases key with
    | none => simp
    | some key =>
      cases old : l.isStale key <;> simp [Option.filter, old]
  · simp only [List.map_map]
    refine List.map_congr_left fun key mem => ?_
    cases key with
    | none => rfl
    | some key => cases old : l.isStale key <;> simp [Option.filter, old]

/-- A reader that has finished gives a token with its next step, or nothing ever. -/
lemma stuck_of_silent (ended : l.Ended) (finished : l.finished = true)
    (goes : l.step = some (none, m)) : m.Stuck := by
  obtain ⟨fresh, drops, taken | taken | given⟩ := step_cases goes
  · obtain ⟨-, undecided, waiting, fetched⟩ := taken
    have same := (Costs.dropStale drops).finished
    have stuck : fresh.Stuck :=
      ⟨same.trans finished, dropStale_ended ended drops, dropStale_idem drops, undecided, waiting⟩
    exact stuck.fetch fetched
  · exact absurd taken.2.2.1 (by simp [finished])
  · obtain ⟨_, _, none, -⟩ := given
    simp at none

/-- A step from a reader on its way leads to one that has ended properly. -/
lemma step_ended {token : Option Token} (ended : l.Ended) (goes : l.step = some (token, m))
    (progress : l.finished = false ∨ token ≠ none) : m.Ended := by
  obtain ⟨fresh, drops, taken | taken | given⟩ := step_cases goes
  · obtain ⟨rfl, -, -, fetched⟩ := taken
    have same := (Costs.dropStale drops).finished
    exact fetch_ended (by rw [same]; simpa using progress) fetched
  · exact fetch_ended taken.2.2.1 taken.2.2.2
  · obtain ⟨_, _, -, -, -, rfl⟩ := given
    exact (dropStale_ended ended drops : fresh.Ended)

/-- Whether a reader does not wait for a key that cannot come any more. -/
def Live (l : Lexer) : Prop := l.finished = true → l.undecided = false

/-- The steps to a live reader are bounded by what they bring it nearer to the end. -/
lemma steps_potential {n : Nat} {given : List Token} (ended : l.Ended)
    (goes : step.steps n l = some (given, m)) (live : m.Live) :
    n + m.potential ≤ l.potential ∧ m.Ended := by
  induction n generalizing l given with
  | zero =>
    obtain ⟨-, rfl⟩ := Machine.steps_zero goes
    exact ⟨Nat.le_of_eq (Nat.zero_add _), ended⟩
  | succ n ih =>
    obtain ⟨token, k, later, first, rest, -⟩ := Machine.steps_succ goes
    by_cases progress : l.finished = false ∨ token ≠ none
    · obtain ⟨le, ends⟩ := ih (step_ended ended first progress) rest
      have := step_potential first progress
      exact ⟨by omega, ends⟩
    · -- a reader that is stuck stays so
      simp only [not_or, Bool.not_eq_false, not_not] at progress
      have stuck : k.Stuck := stuck_of_silent ended progress.1 (progress.2 ▸ first)
      have stays {j : Lexer} {n : Nat} {given : List Token} (stuck : j.Stuck)
          (goes : step.steps n j = some (given, m)) : m.Stuck := by
        induction n generalizing j given with
        | zero => rwa [(Machine.steps_zero goes).2]
        | succ n ih =>
          obtain ⟨_, i, _, one, rest, -⟩ := Machine.steps_succ goes
          exact ih (stuck.step one).2 rest
      have waits := stays stuck rest
      exact absurd (live waits.finished) (by simp [waits.undecided])

end Lexer

namespace Fork.Abreast

variable {f : Fork} {l' : Lexer}

/-! ## Readers abreast -/

lemma undecided (abreast : f.Abreast l l') : l'.undecided = l.undecided := by
  have emitted := abreast.emitted
  refine forall₂_any abreast.keys ?_
  rintro key key' (@⟨k, k', twin⟩ | _)
  · have := twin.number
    have iff : k'.number = l'.emitted ↔ k.number = l.emitted := by omega
    by_cases now : k.number = l.emitted
    · simp [now, iff.mpr now]
    · simp [now, mt iff.mp now]
  · rfl

/-- Readers abreast take the same step within the stretch. -/
lemma step (abreast : f.Abreast l l') {token : Option Token} (goes : l.step = some (token, m))
    (inside : f.Inside m.cursor) :
    ∃ token' m', l'.step = some (token', m') ∧ token'.map Token.kind = token.map Token.kind
      ∧ f.Abreast m m' := by
  obtain ⟨fresh, drops, taken⟩ := Lexer.step_cases goes
  obtain ⟨fresh', drops', behind⟩ := abreast.dropStale drops
  have same := behind.queue
  simp only [Lexer.step, drops', Option.bind_some]
  rcases taken with ⟨rfl, pending, waiting, fetched⟩ | ⟨rfl, nothing, open_, fetched⟩ |
    ⟨first, queue, rfl, waiting, decided, rfl⟩
  · obtain ⟨m', fetched', last⟩ := behind.fetch fetched inside
    cases waiting' : fresh'.queue with
    | nil => exact absurd (by simpa [waiting'] using same.symm) waiting
    | cons first queue => exact ⟨none, m', by simp [behind.undecided, pending, fetched'], rfl, last⟩
  · obtain ⟨m', fetched', last⟩ := abreast.fetch fetched inside
    cases waiting' : fresh'.queue with
    | nil => exact ⟨none, m', by simp [abreast.finished, open_, fetched'], rfl, last⟩
    | cons first queue => simp [waiting', nothing] at same
  · rw [waiting] at same
    cases waiting' : fresh'.queue with
    | nil => simp [waiting'] at same
    | cons first' queue' =>
      obtain ⟨kind, kinds⟩ : first'.kind = first.kind
          ∧ queue'.map Token.kind = queue.map Token.kind := by
        simpa [waiting'] using same
      refine ⟨some first', { fresh' with queue := queue', emitted := fresh'.emitted + 1 }, ?_, ?_, ?_⟩
      · simp [behind.undecided, decided]
      · simp [kind]
      · have emitted := behind.emitted
        exact { behind with
          queue := kinds
          emitted := by simp only; omega }

/-- Readers abreast take the same steps within the stretch. -/
lemma steps (abreast : f.Abreast l l') {n : Nat} {given : List Token}
    (goes : Lexer.step.steps n l = some (given, m)) (inside : f.Inside m.cursor) :
    ∃ given' m', Lexer.step.steps n l' = some (given', m')
      ∧ given'.map Token.kind = given.map Token.kind ∧ f.Abreast m m' := by
  induction n generalizing l l' given with
  | zero =>
    obtain ⟨rfl, rfl⟩ := Machine.steps_zero goes
    exact ⟨[], l', rfl, rfl, abreast⟩
  | succ n ih =>
    obtain ⟨token, k, later, first, rest, rfl⟩ := Machine.steps_succ goes
    obtain ⟨token', k', first', same, behind⟩ :=
      abreast.step first (inside.mono (Lexer.steps_le rest))
    obtain ⟨later', m', rest', kinds, last⟩ := ih behind rest
    refine ⟨_, m', Machine.steps_of_step first' rest', ?_, last⟩
    simp only [List.map_append, kinds, ← Option.toList_map, same]

/-- Where two texts end alike, a run over the one gives what any run over the other gives, provided it
is long enough. -/
lemma outputs (joined : f.Joined) (abreast : f.Abreast l l') (ended : l.Ended) (ended' : l'.Ended)
    {fuel' : Nat} (enough : l'.potential ≤ fuel') (fuel : Nat) :
    (Lexer.step.outputs fuel l).map Token.kind <+: (Lexer.step.outputs fuel' l').map Token.kind := by
  induction fuel generalizing l l' fuel' with
  | zero => exact List.nil_prefix
  | succ fuel ih =>
    rw [Machine.outputs]
    cases goes : l.step with
    | none => exact List.nil_prefix
    | some result =>
      obtain ⟨token, m⟩ := result
      obtain ⟨token', m', goes', same, behind⟩ := abreast.step goes (.inl joined)
      by_cases progress : l'.finished = false ∨ token' ≠ none
      · have nearer := Lexer.step_potential goes' progress
        have both : l.finished = false ∨ token ≠ none := by
          rw [← abreast.finished]
          refine progress.imp id fun some none => some ?_
          simpa [none] using same
        obtain ⟨fuel', rfl⟩ : ∃ n, fuel' = n + 1 := ⟨fuel' - 1, by omega⟩
        rw [Machine.outputs, goes']
        have tokens : token'.toList.map Token.kind = token.toList.map Token.kind := by
          cases token <;> cases token' <;> simp_all
        simp only [List.map_append, tokens]
        exact List.prefix_append_right_inj _ |>.mpr
          (ih behind (Lexer.step_ended ended goes both) (Lexer.step_ended ended' goes' progress)
            (by omega))
      · simp only [not_or, Bool.not_eq_false, not_not] at progress
        have silent : token = none := by simpa [progress.2] using same.symm
        have nothing := (Lexer.stuck_of_silent ended (abreast.finished.symm.trans progress.1)
          (silent ▸ goes)).outputs fuel
        simp [silent, nothing]

end Fork.Abreast

end ChartLift.Yaml.Content
