import ChartLift.Proofs.Extraction.Run
import ChartLift.Proofs.Run.Stages
import ChartLift.Proofs.Yaml.Content.Meaning

/-!
# Ordered values

The mappings that a value nests list their entries by ascending key (`Value.Ordered`): so each key
stands there once, and binding a key to what is found under it changes nothing
(`Entries.Ascending.bind_of_find?`). Trees of values are ordered wherever a run has one: what documents
mean is ordered (`Yaml.Content.ordered_of_onlyValue?`), insertion keeps the order
(`ValuesTree.Ordered.insert`), and so a run ends with an ordered tree (`Config.ordered_of_run`).
-/

namespace ChartLift

namespace Entries

variable {entries : Entries} {key : String} {value found : Value} {entry : String × Value}

/-- Entries whose keys ascend, as those of a mapping do. -/
def Ascending (entries : Entries) : Prop := entries.Pairwise (·.1 < ·.1)

instance (entries : Entries) : Decidable entries.Ascending :=
  inferInstanceAs (Decidable (entries.Pairwise _))

lemma mem_of_find? (here : entries.find? key = some found) : (key, found) ∈ entries := by
  induction entries with
  | nil => cases here
  | cons entry rest ih =>
    obtain ⟨k, x⟩ := entry
    rw [find?] at here
    split at here
    · next same =>
      cases here
      rw [same]
      exact List.mem_cons_self
    · exact List.mem_cons_of_mem _ (ih here)

/-- A key below all others is free. -/
lemma find?_of_below (below : ∀ entry ∈ entries, key < entry.1) : entries.find? key = none := by
  rw [Option.eq_none_iff_forall_ne_some]
  intro found here
  exact lt_irrefl key (below _ (mem_of_find? here))

lemma mem_bind (mem : entry ∈ entries.bind key value) : entry = (key, value) ∨ entry ∈ entries := by
  induction entries with
  | nil => exact .inl (List.mem_singleton.mp mem)
  | cons first rest ih =>
    obtain ⟨k, x⟩ := first
    rw [bind] at mem
    split at mem
    · rcases List.mem_cons.mp mem with new | old
      · exact .inl new
      · exact .inr (List.mem_cons_of_mem _ old)
    · split at mem
      · exact List.mem_cons.mp mem
      · rcases List.mem_cons.mp mem with here | behind
        · exact .inr (here ▸ List.mem_cons_self)
        · exact (ih behind).imp_right (List.mem_cons_of_mem _)

namespace Ascending

lemma bind (ascending : entries.Ascending) (key : String) (value : Value) :
    (entries.bind key value).Ascending := by
  induction entries with
  | nil => exact List.pairwise_singleton _ _
  | cons first rest ih =>
    obtain ⟨k, x⟩ := first
    obtain ⟨least, ascends⟩ := List.pairwise_cons.mp ascending
    rcases lt_trichotomy key k with before | rfl | behind
    · rw [Entries.bind, if_neg before.ne', if_pos before]
      refine List.pairwise_cons.mpr ⟨List.forall_mem_cons.mpr ⟨before, ?_⟩, ascending⟩
      exact fun entry mem => before.trans (least entry mem)
    · rw [Entries.bind, if_pos rfl]
      exact List.pairwise_cons.mpr ⟨least, ascends⟩
    · rw [Entries.bind, if_neg behind.ne, if_neg behind.asymm]
      refine List.pairwise_cons.mpr ⟨fun entry mem => ?_, ih ascends⟩
      rcases mem_bind mem with rfl | mem
      · exact behind
      · exact least entry mem

/-- A key that is bound to what is found under it stays as it is. -/
lemma bind_of_find? (ascending : entries.Ascending) (here : entries.find? key = some found) :
    entries.bind key found = entries := by
  induction entries with
  | nil => cases here
  | cons first rest ih =>
    obtain ⟨k, x⟩ := first
    obtain ⟨least, ascends⟩ := List.pairwise_cons.mp ascending
    by_cases same : k = key
    · rw [find?, if_pos same] at here
      cases here
      rw [Entries.bind, if_pos same, same]
    · rw [find?, if_neg same] at here
      have behind : k < key := least _ (mem_of_find? here)
      rw [Entries.bind, if_neg same, if_neg behind.asymm, ih ascends here]

end Ascending

end Entries

instance : DecidablePred Value.IsLeaf
  | .mapping inner => .isFalse fun leaf => leaf inner rfl
  | .null | .bool _ | .integer _ | .float _ | .string _ | .sequence _ => .isTrue fun _ e => nomatch e

/-- A value in which the mappings that it nests, those of sequences aside, have ascending keys. -/
inductive Value.Ordered : Value → Prop where
  | leaf {value} :
    value.IsLeaf →
    Ordered value
  | mapping {entries : Entries} :
    entries.Ascending →
    (∀ entry ∈ entries, Ordered entry.2) →
    Ordered (.mapping entries)

lemma Value.ordered_mapping_iff {entries : Entries} :
    (Value.mapping entries).Ordered ↔
      entries.Ascending ∧ ∀ entry ∈ entries, entry.2.Ordered := by
  constructor
  · intro ordered
    cases ordered with
    | leaf leaf => exact absurd rfl (leaf entries)
    | mapping ascending each => exact ⟨ascending, each⟩
  · rintro ⟨ascending, each⟩
    exact .mapping ascending each

namespace Value.Ordered

variable {entries : Entries} {key : String} {value found : Value}

lemma empty : (Value.mapping []).Ordered :=
  .mapping List.Pairwise.nil fun _ mem => nomatch mem

lemma find? (ordered : (Value.mapping entries).Ordered) (here : entries.find? key = some found) :
    found.Ordered :=
  (ordered_mapping_iff.mp ordered).2 _ (Entries.mem_of_find? here)

lemma bind (ordered : (Value.mapping entries).Ordered) (key : String) (new : value.Ordered) :
    (Value.mapping (entries.bind key value)).Ordered := by
  obtain ⟨ascending, each⟩ := ordered_mapping_iff.mp ordered
  refine .mapping (ascending.bind key value) fun entry mem => ?_
  rcases Entries.mem_bind mem with rfl | mem
  · exact new
  · exact each entry mem

lemma below? {segment : String} {inner : Entries} (ordered : (Value.mapping entries).Ordered)
    (slot : ValuesTree.below? (entries.find? segment) = some inner) :
    (Value.mapping inner).Ordered := by
  cases here : entries.find? segment with
  | none =>
    rw [here] at slot
    cases slot
    exact empty
  | some found =>
    rw [here] at slot
    cases found with
    | mapping _ => cases slot; exact ordered.find? here
    | _ => cases slot

end Value.Ordered

/-! ## Values of documents -/

namespace Yaml.Content

variable {document : Document} {depth jumps jumps' : Nat} {node : Node} {values values' : Entries}
  {text : String} {style : ScalarStyle} {tag : Option String} {value : Value}

lemma isLeaf_of_plainValue? (means : plainValue? text = some value) : value.IsLeaf := by
  rintro inner rfl
  unfold plainValue? at means
  split at means <;> cases means

lemma isLeaf_of_taggedValue? {tag : String} (means : taggedValue? tag text = some value) :
    value.IsLeaf := by
  rintro inner rfl
  unfold taggedValue? at means
  split_ifs at means
  · simp at means
  · split at means <;> cases means
  · split at means <;> cases means
  · cases means
  · cases means

/-- A scalar is no mapping, whatever its tag. -/
lemma isLeaf_of_scalarValue? (means : scalarValue? text style tag = some value) : value.IsLeaf := by
  unfold scalarValue? at means
  split at means
  · exact isLeaf_of_taggedValue? means
  · split_ifs at means
    · exact isLeaf_of_plainValue? means
    · cases means
      exact Value.isLeaf_string text

lemma foldl_addEntry_none (document : Document) (depth : Nat) (entries : List (Node × Node)) :
    entries.foldl (document.addEntry depth) none = none := by
  induction entries with
  | nil => rfl
  | cons entry entries ih => exact ih

/-- Entries that are read behind ordered ones are bound among them, if their values are ordered. -/
lemma ordered_of_foldl_addEntry {entries : List (Node × Node)}
    (each : ∀ jumps node value jumps', document.value depth jumps node = some (value, jumps') →
      value.Ordered)
    (ordered : (Value.mapping values).Ordered)
    (reads : entries.foldl (document.addEntry depth) (some (values, jumps)) =
      some (values', jumps')) :
    (Value.mapping values').Ordered := by
  induction entries generalizing values jumps with
  | nil => cases reads; exact ordered
  | cons entry entries ih =>
    rw [List.foldl_cons, Document.addEntry_some] at reads
    cases named : document.key? jumps entry.1 with
    | none => rw [named, Option.bind_none, foldl_addEntry_none] at reads; cases reads
    | some key =>
      rw [named, Option.bind_some] at reads
      cases means : document.value depth key.2 entry.2 with
      | none => simp only [means, Option.map_none, foldl_addEntry_none] at reads; cases reads
      | some found =>
        simp only [means, Option.map_some] at reads
        exact ih (ordered.bind key.1 (each _ _ _ _ means)) reads

/-- What a node means is ordered. -/
lemma ordered_of_value (means : document.value depth jumps node = some (value, jumps')) :
    value.Ordered := by
  induction depth using Nat.strongRecOn generalizing jumps node value jumps' with
  | ind depth ih =>
    rw [Document.value_eq] at means
    obtain ⟨⟨node, jumps⟩, -, means⟩ := Option.bind_eq_some_iff.mp means
    cases node with
    | «alias» _ => cases means
    | scalar _ text style tag =>
      obtain ⟨value, scalar, same⟩ := Option.map_eq_some_iff.mp means
      cases same
      exact .leaf (isLeaf_of_scalarValue? scalar)
    | sequence _ tag items =>
      obtain ⟨-, means⟩ := Option.ite_none_left_eq_some.mp means
      cases depth with
      | zero => cases means
      | succ depth =>
        obtain ⟨items, -, same⟩ := Option.map_eq_some_iff.mp means
        cases same
        exact .leaf fun inner e => nomatch e
    | mapping _ tag entries =>
      obtain ⟨-, means⟩ := Option.ite_none_left_eq_some.mp means
      cases depth with
      | zero => cases means
      | succ depth =>
        obtain ⟨⟨values, jumps⟩, reads, same⟩ := Option.map_eq_some_iff.mp means
        cases same
        exact ordered_of_foldl_addEntry (fun _ _ _ _ => ih depth depth.lt_succ_self) .empty reads

/-- What a text means is ordered. -/
lemma ordered_of_onlyValue? {text : List Char} (means : onlyValue? text = some value) :
    value.Ordered := by
  unfold onlyValue? at means
  split at means
  · cases means
    exact .leaf fun inner e => nomatch e
  · split_ifs at means
    obtain ⟨⟨value, jumps⟩, reads, same⟩ := Option.map_eq_some_iff.mp means
    cases same
    exact ordered_of_value reads
  · cases means

end Yaml.Content

/-! ## Trees of values -/

namespace ValuesTree

/-- A tree as it can be: its mappings have ascending keys. -/
def Ordered (tree : ValuesTree) : Prop := tree.toValue.Ordered

lemma ordered_empty : empty.Ordered := Value.Ordered.empty

/-- A tree is ordered if the value is that seeds it. -/
lemma ordered_of_ofValue? {value : Value} {tree : ValuesTree} (ordered : value.Ordered)
    (seeds : ofValue? value = some tree) : tree.Ordered := by
  cases value with
  | mapping entries => cases seeds; exact ordered
  | null => cases seeds; exact ordered_empty
  | _ => cases seeds

lemma Grows.ordered {entries grown : Entries} {segments : List String} {value : Value}
    (grows : Grows entries segments value grown) (ordered : (Value.mapping entries).Ordered)
    (new : value.Ordered) : (Value.mapping grown).Ordered := by
  induction grows with
  | leaf => exact ordered.bind _ new
  | branch slot _ ih => exact ordered.bind _ (ih (ordered.below? slot) new)

/-- Insertion keeps a tree ordered. -/
lemma Ordered.insert {tree grown : ValuesTree} {key : String} {value : Value}
    {previous : Option Value} (ordered : tree.Ordered) (new : value.Ordered)
    (inserted : tree.insert key value = .ok (grown, previous)) : grown.Ordered :=
  (insert_eq_ok_iff.mp inserted).2.1.ordered ordered new

end ValuesTree

/-- The values that a run begins with are ordered. -/
lemma Chart.ordered_of_baseValues {chart : Chart} {merge : Bool} {values : ValuesTree}
    (based : chart.baseValues merge = .ok values) : values.Ordered := by
  rw [baseValues] at based
  split at based
  · cases based
    exact ValuesTree.ordered_empty
  · split at based
    · cases based
    rename_i read
    split at based
    · cases based
    rename_i seeds
    cases based
    obtain ⟨text, -, means⟩ := Option.bind_eq_some_iff.mp read
    exact ValuesTree.ordered_of_ofValue? (Yaml.Content.ordered_of_onlyValue? means) seeds

/-- Extraction keeps values ordered. -/
lemma Extractor.ordered_run (extractor : Extractor) (documents : List Manifest) {values : ValuesTree}
    (ordered : values.Ordered) : (extractor.run documents values).values.Ordered := by
  obtain ⟨after, fates, runs⟩ := exists_runs extractor documents values
  obtain ⟨-, same, -⟩ := run_of_runs runs
  rw [same]
  refine runs.keeps (P := fun store => store.values.Ordered) (fun ordered puts => ?_) ordered
  obtain ⟨previous, inserted⟩ := puts.inserted
  exact ordered.insert (.leaf (Value.isLeaf_string _)) inserted

/-- The values that a run ends with are ordered. -/
theorem Config.ordered_of_run {config : Config} {flags : RunFlags} {files : FileTree}
    {outcome : Outcome} (ran : (config.run flags files).outcome = .ok outcome) :
    outcome.values.Ordered := by
  have ends := config.comesTo_run flags files
  generalize config.run flags files = result at ends ran
  cases ends with
  | saved extracts _ _ =>
    dsimp only at ran
    split at ran
    · cases ran
    · cases ran
      exact Extractor.ordered_run _ _ (Chart.ordered_of_baseValues extracts.based)
  | _ => cases ran

end ChartLift
