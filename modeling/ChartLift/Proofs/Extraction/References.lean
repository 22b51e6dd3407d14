import ChartLift.Proofs.Extraction.Turn
import ChartLift.Proofs.Rewrite.Span
import ChartLift.Proofs.Text.Utf8

/-!
# References of rewritten documents

What a rewritten document refers to is, at the end of the run, the value that was read from this
very document (`Extractor.run_value_of_planned`). The document itself is the one that came, with a range
behind the `:` of some entries cut out for a reference each, and nothing else changed
(`Extractor.run_document_eq_splice`).
-/

namespace ChartLift

/-! ## Cuts -/

/-- A document that decodes is written with the bytes that came. -/
lemma Extractor.Decodes.encode_text {document : Manifest} {decoded : Manifest.Decoded}
    (h : Decodes document decoded) : Text.Utf8.encode decoded.text = document.raw := by
  have decode := h.decoded
  rw [Manifest.decode] at decode
  cases read : Text.Utf8.decode document.raw with
  | error fault => rw [read] at decode; cases decode
  | ok text =>
    rw [read] at decode
    dsimp only at decode
    split at decode
    · cases decode
    · split at decode
      · cases decode
      · cases decode
        exact Text.Utf8.encode_of_decode read

/-- An entry of a text that is visited has its `:` where the text has one. -/
lemma Rewrite.mark_of_mem_walk {text : List Char} {tree : Yaml.Layout.Tree} {place : Path}
    {entry : Yaml.Layout.Entry} {flow : Bool} {colon : Nat}
    (indexed : Yaml.Layout.Tree.ofText? text = some tree)
    (visited : ⟨place, .entry entry flow⟩ ∈ walk tree) (known : entry.indicator = some colon) :
    (Text.Utf8.encode text)[colon]? = some 58 := by
  have everywhere : ∀ root, tree.root = some root →
      root.Everywhere (Yaml.Layout.Colon (Text.Utf8.encode text)) :=
    fun root rooted => (Yaml.Layout.Tree.built_of_ofText? indexed rooted).colon
  exact entry_of_mem_walk everywhere visited colon known

/-- An entry of a document that decodes has its `:` where the document has one. -/
lemma Extractor.Decodes.mark {document : Manifest} {decoded : Manifest.Decoded}
    {tree : Yaml.Layout.Tree} {place : Path} {entry : Yaml.Layout.Entry} {flow : Bool} {colon : Nat}
    (decodes : Decodes document decoded) (indexed : decoded.tree? = some tree)
    (visited : ⟨place, .entry entry flow⟩ ∈ Rewrite.walk tree)
    (known : entry.indicator = some colon) : document.raw[colon]? = some 58 := by
  rw [← decodes.encode_text]
  exact Rewrite.mark_of_mem_walk indexed visited known

/-- A byte in front of another last byte is not the last one. -/
lemma succ_lt_length_of_getLast? {source : Text.Bytes} {n : Nat} {b : UInt8}
    (here : source[n]? = some b) (last : source.getLast? ≠ some b) : n + 1 < source.length := by
  obtain ⟨short, is⟩ := List.getElem?_eq_some_iff.mp here
  refine Nat.lt_of_le_of_ne short fun whole => last ?_
  rw [List.getLast?_eq_getElem?, ← whole, Nat.add_sub_cancel, here]

/-- A cut that a rule makes: behind the `:` that the tree records for an entry at the place of the
rule's value, and up to the start of a line or the end of the source. -/
structure Application.Cuts (document : Manifest) (object : Value) (tree : Yaml.Layout.Tree)
    (rule : ReadyRule) (cut : Rewrite.Cut) : Prop where
  entry : ∃ place value entry, object.locate rule.path = .ok (place, value) ∧
    ⟨place, .entry entry false⟩ ∈ Rewrite.walk tree ∧ entry.indicator = some cut.colon
  rendered : rule.template.render object = .ok cut.key
  mark : document.raw[cut.colon]? = some 58
  ahead : cut.colon < cut.resume
  inside : cut.resume ≤ document.raw.length
  stop : cut.resume = document.raw.length ∨ document.raw[cut.resume - 1]? = some 10

/-- A patch that a rule has for a document whose last byte is no `:` is a cut that it makes. -/
lemma Application.Plans.cuts {document : Manifest} {decoded : Manifest.Decoded}
    {tree : Yaml.Layout.Tree} {rule : ReadyRule} {entry : Rewrite.Patch × String}
    (decodes : Extractor.Decodes document decoded) (indexed : decoded.tree? = some tree)
    (last : document.raw.getLast? ≠ some 58)
    (plans : Plans document decoded.object tree rule entry) :
    (∃ colon, Rewrite.Span document.raw colon entry.1.keep entry.1.resume) ∧
      Cuts document decoded.object tree rule (Rewrite.Cut.ofEntry document.raw entry) := by
  obtain ⟨place, value, patches, located, rendered, met, mem⟩ := plans
  obtain ⟨found, colon, visited, known, patch⟩ := (Rewrite.mem_iff_of_patchesAt met).mp mem
  have mark : document.raw[colon]? = some 58 := decodes.mark indexed visited known
  have span : Rewrite.Span document.raw colon entry.1.keep entry.1.resume := by
    rw [patch]
    exact Rewrite.span_entrySpan mark (succ_lt_length_of_getLast? mark last)
  refine ⟨⟨colon, span⟩, ?_⟩
  rw [Rewrite.Cut.ofEntry_eq span]
  have := span.nonempty
  have ahead : colon < entry.1.resume := by
    rcases span.kept with kept | ⟨kept, _⟩ <;> omega
  exact ⟨⟨place, value, found, located, visited, known⟩, rendered, mark, ahead, span.inside,
    span.stop⟩

namespace Extractor

variable {extractor : Extractor} {documents : List Manifest} {values : ValuesTree}

/-- What a document refers to is, at the end of the run, the value that was read from this very
document: a turn that ends with patches for a key leaves the value under this key for good. -/
theorem run_value_of_planned {turn : Turn} (h : turn.Of extractor documents)
    (planned : (turn.application extractor values).fault = none) :
    ∃ place value key patches,
      turn.decoded.object.locate turn.rule.path = .ok (place, value) ∧
      turn.rule.template.render turn.decoded.object = .ok key ∧
      (turn.application extractor values).plan.entries =
        (turn.before extractor values).plan.entries ++ patches.map (·, key) ∧
      patches ≠ [] ∧
      (extractor.run documents values).values.get? key = some (.string value.render) := by
  obtain ⟨after, fates, runs⟩ := exists_runs extractor documents values
  have ends := turn.ends extractor values
  rw [planned] at ends
  generalize plan : (turn.application extractor values).plan = grown at ends ⊢
  generalize store : (turn.application extractor values).store = behind at ends
  cases ends with
  | @planned place value key _ patches _ located rendered puts met added =>
    have held : after.Holds key value.render :=
      h.keeps (P := (·.Holds key value.render)) (fun held puts => held.puts puts) runs
        (store ▸ puts.holds)
    refine ⟨place, value, key, patches, located, rendered, Rewrite.Plan.entries_of_add added,
      Rewrite.ne_nil_of_patchesAt met, ?_⟩
    rw [(run_of_runs runs).2.1]
    exact held.value

/-- A value from before the run gives way to the one that is read, and the other value that the next
document has for the key does not replace it. -/
theorem run_value_of_planned_small :
    let extractor : Extractor := ⟨[.ofField "b" "l", .ofField "a" "k"], [], ⟨false, valuesName⟩⟩
    let documents := [Manifest.small, .ofFields "b.yaml" "z" "y"]
    let values : ValuesTree := ⟨[("k", .string "old")]⟩
    let turn : Turn := ⟨[], .small, Manifest.small.decoded, Manifest.small.tree, [.ofField "b" "l"],
      .ofField "a" "k"⟩
    turn.Of extractor documents ∧ (turn.application extractor values).fault = none ∧
      ∃ place value key patches,
        turn.decoded.object.locate turn.rule.path = .ok (place, value) ∧
        turn.rule.template.render turn.decoded.object = .ok key ∧
        (turn.application extractor values).plan.entries =
          (turn.before extractor values).plan.entries ++ patches.map (·, key) ∧
        patches ≠ [] ∧
        (extractor.run documents values).values.get? key = some (.string value.render) := by
  intro extractor documents values turn
  have of : turn.Of extractor documents :=
    ⟨⟨_, rfl⟩, Manifest.small.decodes, Manifest.small.indexed, ⟨[], rfl⟩, by decide +kernel⟩
  have fine : (turn.application extractor values).fault = none := by decide +kernel
  exact ⟨of, fine, run_value_of_planned of fine⟩

/-- A rewritten document whose last byte is no `:` is the one that came, with one range cut out for
each of its patches: a range between the `:` of an entry and the start of a line or the end, for a
reference to the key of the turn that planned it. No range reaches the `:` of another. -/
theorem run_document_eq_splice {i count failed : Nat} {document : Manifest} {name : String}
    (given : documents[i]? = some document) (last : document.raw.getLast? ≠ some 58)
    (state : (extractor.run documents values).report.documents[i]? =
      some (name, .rewritten count failed)) :
    ∃ cuts : List Rewrite.Cut, cuts.length = count ∧
      cuts.Pairwise (fun a b => a.resume ≤ b.colon) ∧
      (∀ cut ∈ cuts, ∃ turn : Turn, turn.Of extractor documents ∧
        turn.documentsBefore = documents.take i ∧ turn.document = document ∧
        (turn.application extractor values).fault = none ∧
        Application.Cuts document turn.decoded.object turn.tree turn.rule cut) ∧
      (extractor.run documents values).documents[i]? =
        some ⟨document.name, Rewrite.splice document.raw 0 (cuts.map Rewrite.Cut.replacement)⟩ := by
  obtain ⟨after, fates, runs⟩ := exists_runs extractor documents values
  obtain ⟨outputs, -, -, report⟩ := run_of_runs runs
  obtain ⟨middle, fate, there, treats⟩ := runs.treats given
  rw [report, List.getElem?_map, there] at state
  rw [outputs, List.getElem?_map, there]
  cases treats with
  | skipped => cases state
  | undecodable => cases state
  | unmatched => cases state
  | unindexed => cases state
  | @rewritten _ plan _ _ _ decodes busy indexed applied =>
    cases state
    have made : ∀ entry ∈ plan.entries,
        (∃ colon, Rewrite.Span document.raw colon entry.1.keep entry.1.resume) ∧
        ∃ turn : Turn, turn.Of extractor documents ∧ turn.documentsBefore = documents.take i ∧
          turn.document = document ∧ (turn.application extractor values).fault = none ∧
          Application.Cuts document turn.decoded.object turn.tree turn.rule
            (.ofEntry document.raw entry) := by
      intro entry mem
      obtain ⟨turn, of, before, rfl, fine, plans⟩ :=
        Turn.exists_of_planned given decodes indexed applied mem
      obtain ⟨span, cuts⟩ := plans.cuts of.decodes of.indexed last
      exact ⟨span, turn, of, before, rfl, fine, cuts⟩
    obtain ⟨entries, perm, apart, result⟩ := Rewrite.Plan.apply_eq_splice_cuts
      (applied.disjoint Rewrite.Plan.disjoint_empty) fun entry mem => (made entry mem).1
    refine ⟨entries.map (.ofEntry document.raw), ?_, apart, fun cut mem => ?_, ?_⟩
    · rw [List.length_map, perm.length_eq, Rewrite.Plan.size]
    · obtain ⟨entry, member, rfl⟩ := List.mem_map.mp mem
      exact (made entry (perm.mem_iff.mp member)).2
    · rw [← result, ← rewrite_eq]
      rfl

/-- Two fields of a document are cut out, the later one by the earlier rule. -/
theorem run_document_eq_splice_small :
    let extractor : Extractor := ⟨[.ofField "b" "l", .ofField "a" "k"], [], ⟨false, valuesName⟩⟩
    let documents := [Manifest.small, .ofFields "b.yaml" "z" "y"]
    let values : ValuesTree := ⟨[("k", .string "old")]⟩
    documents[0]? = some Manifest.small ∧ Manifest.small.raw.getLast? ≠ some 58 ∧
      (extractor.run documents values).report.documents[0]? = some ("a.yaml", .rewritten 2 0) ∧
      ∃ cuts : List Rewrite.Cut, cuts.length = 2 ∧
        cuts.Pairwise (fun a b => a.resume ≤ b.colon) ∧
        (∀ cut ∈ cuts, ∃ turn : Turn, turn.Of extractor documents ∧
          turn.documentsBefore = documents.take 0 ∧ turn.document = Manifest.small ∧
          (turn.application extractor values).fault = none ∧
          Application.Cuts Manifest.small turn.decoded.object turn.tree turn.rule cut) ∧
        (extractor.run documents values).documents[0]? =
          some ⟨Manifest.small.name,
            Rewrite.splice Manifest.small.raw 0 (cuts.map Rewrite.Cut.replacement)⟩ := by
  intro extractor documents values
  have last : Manifest.small.raw.getLast? ≠ some 58 := by decide +kernel
  have state : (extractor.run documents values).report.documents[0]? =
      some ("a.yaml", .rewritten 2 0) := by decide +kernel
  exact ⟨rfl, last, state, run_document_eq_splice rfl last state⟩

end Extractor

end ChartLift
