import ChartLift.Proofs.Yaml.Content.Meaning
import ChartLift.Proofs.Yaml.Content.Passage
import ChartLift.Proofs.Yaml.Events

/-!
# Ranges of a text that may give way to others

Reading a text, one comes past some of its ranges. Where one would come past another range in the place
of each as well, with the same state behind it and the same meaning between (`Replaceable`), the text
with all the other ranges in place means what the text does (`Replaceable.firstValue?`).
-/

namespace ChartLift.Yaml.Content

/-- Ranges of a text that may give way to others. Each of them, with the other range in its place,
leaves the reader of tokens as it is and what is expected of the tokens behind it; among the events, those
of one value give way to those of a node that means the same. -/
inductive Replaceable (swaps : List (Swap Char)) (rest : List Char) : Prop where
  | intro {kinds : List (Swap TokenKind)} {tail : List TokenKind} {said : List (Swap EventKind)}
      (proper : ∀ swap ∈ swaps, swap.new.any isForbidden = false)
      (cuts : (Lexer.begun (Swap.source swaps rest)).PassesAll rest swaps kinds)
      (list : (tokens (Swap.source swaps rest)).tokens.map Token.kind =
        .streamStart :: Swap.source kinds tail)
      (once : (Swap.source kinds tail).head? ≠ some .streamStart)
      (parses : Reading.begun.PassesAll dialect tail kinds said)
      (composes : ∀ document more, readStream (Swap.source swaps rest) = .document document more →
        Place.begun.PassesAll document.Stands said)

/-- The events of ranges that may give way to others, if so many steps lead past each of them, among the
characters and among the tokens. -/
def replace? (swaps : List (Swap Char)) (rest : List Char) (strides strides' : List Strides) :
    Option (List (Swap EventKind)) := do
  let text := Swap.source swaps rest
  let list := (tokens text).tokens.map Token.kind
  let kinds ← (Lexer.begun text).passAll? rest swaps strides
  let tail := list.drop (1 + (Swap.source kinds []).length)
  if (∀ swap ∈ swaps, swap.new.any isForbidden = false) ∧ list = .streamStart :: Swap.source kinds tail ∧
      (Swap.source kinds tail).head? ≠ some .streamStart then
    Reading.begun.passAll? dialect tail kinds strides'
  else none

lemma Replaceable.of_replace? {swaps : List (Swap Char)} {rest : List Char}
    {strides strides' : List Strides} {said : List (Swap EventKind)}
    (found : replace? swaps rest strides strides' = some said)
    (composes : ∀ document more, readStream (Swap.source swaps rest) = .document document more →
      Place.begun.PassesAll document.Stands said) : Replaceable swaps rest := by
  obtain ⟨kinds, cuts, found⟩ := Option.bind_eq_some_iff.mp found
  obtain ⟨⟨proper, list, once⟩, parses⟩ := Option.ite_none_right_eq_some.mp found
  exact .intro proper (Lexer.passesAll_of_passAll? cuts) list once
    (Reading.passesAll_of_passAll? parses) composes

/-! ## Texts with other ranges -/

lemma any_result_eq_false {swaps : List (Swap Char)} {rest : List Char} {p : Char → Bool}
    (none : (Swap.source swaps rest).any p = false) (also : ∀ swap ∈ swaps, swap.new.any p = false) :
    (Swap.result swaps rest).any p = false := by
  induction swaps with
  | nil => exact none
  | cons swap swaps ih =>
    obtain ⟨here, also⟩ := List.forall_mem_cons.mp also
    simp only [Swap.source, Swap.result, List.any_append, Bool.or_eq_false_iff] at none ⊢
    exact ⟨none.1, here, ih none.2.2 also⟩

lemma source_inj {α : Type} {swaps : List (Swap α)} {rest rest' : List α}
    (eq : Swap.source swaps rest = Swap.source swaps rest') : rest = rest' := by
  induction swaps with
  | nil => exact eq
  | cons swap swaps ih => exact ih (List.append_cancel_left (List.append_cancel_left eq))

/-- A text with a document has tokens behind the start of the stream. -/
lemma exists_token_of_document {text : List Char} {document : Document} {more : Bool}
    {kinds : List TokenKind} (reads : readStream text = .document document more)
    (list : (tokens text).tokens.map Token.kind = .streamStart :: kinds) :
    ∃ first, kinds.head? = some first := by
  cases kinds with
  | cons first => exact ⟨first, rfl⟩
  | nil =>
    obtain ⟨_, _, _, events, -⟩ := node_of_readStream reads
    obtain ⟨start, eq, kind⟩ := List.map_eq_singleton_iff.mp list
    have none : eventsOf text = [] := by
      rw [eventsOf, TokenStream.events, eq, List.dropWhile_cons_of_pos (by simp [kind])]
      rfl
    rw [none] at events
    cases events

/-- A text that holds a document has no forbidden characters. -/
lemma proper_of_document {text : List Char} {document : Document} {more : Bool}
    (reads : readStream text = .document document more) : text.any isForbidden = false := by
  refine Bool.eq_false_iff.mpr fun forbidden => ?_
  obtain ⟨_, _, _, events, -⟩ := node_of_readStream reads
  have none : eventsOf text = [] := by
    rw [eventsOf, tokens, if_pos forbidden]
    rfl
  rw [none] at events
  cases events

/-- With other ranges in place that may stand there, a text means the same. -/
theorem Replaceable.firstValue? {swaps : List (Swap Char)} {rest : List Char} {value : Value}
    (replaceable : Replaceable swaps rest)
    (means : Content.firstValue? (Swap.source swaps rest) = some value) (some_ : value ≠ .null) :
    Content.firstValue? (Swap.result swaps rest) = some value := by
  obtain @⟨kinds, tail, said, proper, cuts, list, once, parses, composes⟩ := replaceable
  rw [Content.firstValue?] at means
  split at means
  · exact absurd (Option.some.inj means).symm some_
  next document more reads =>
    have proper' := proper_of_document reads
    obtain ⟨tail₀, tail', shorter, list₀, list'⟩ :=
      tokens_of_passes cuts proper' (any_result_eq_false proper' proper)
    obtain rfl : tail = tail₀ := source_inj (List.cons.inj (list.symm.trans list₀)).2
    obtain ⟨first, begins⟩ := exists_token_of_document reads list
    obtain ⟨rest₁, rest₂, shorter', events, events'⟩ := events_of_passes rfl parses shorter begins
      (fun eq => once (eq ▸ begins)) list list'
    obtain ⟨other, more', reads', akin⟩ :=
      readStream_of_passes reads (composes _ _ reads) shorter' events events'
    rw [Content.firstValue?, reads']
    exact akin.toValue? means
  · cases means

end ChartLift.Yaml.Content
