import ChartLift.Proofs.Rewrite.Clash

/-!
# What follows an entry

A patch for an entry ends at or before the next token exactly if no token follows, or a line feed
stands between the end of the key and the next token (`resume_le_iff`). It then leaves alone the whole
line of that token and all behind it (`patchesAt_upto_next`). A carriage return without a line feed
ends a line for the reader of the layout, but not for the search for the end of an entry, and a key
that is not written has the place of the next token, and with it the `:` of the next entry: there the
bytes behind the next token give way too (`patchesAt_beyond_next`).
-/

namespace ChartLift.Rewrite

open Text (Bytes)
open Yaml.Layout (Entry Tree keyStop)

variable {source : Bytes} {entry : Entry} {colon : Nat}

/-! ## The end of a patch -/

/-- The line of an offset ends before another one if there is a line feed between them. -/
lemma lineEnd_lt_iff {offset n : Nat} (inside : n ≤ source.length) :
    lineEnd source offset < n ↔ ∃ i, offset ≤ i ∧ i < n ∧ source[i]? = some 10 := by
  constructor
  · intro before
    refine ⟨lineEnd source offset, Nat.le_add_right .., before, ?_⟩
    rw [lineEnd] at before ⊢
    rcases line_stop (source.drop offset) with whole | feed
    · rw [List.length_drop] at whole
      omega
    · rwa [List.getElem?_drop] at feed
  · rintro ⟨i, ahead, before, feed⟩
    refine Nat.lt_of_le_of_lt (Nat.le_of_not_lt fun later => ?_) before
    exact ne_feed_of_lt_lineEnd ahead later feed

/-- A line feed before an offset stands before the line of the offset. -/
lemma lt_lineStart {i n : Nat} (before : i < n) (feed : source[i]? = some 10) :
    i < lineStart source n :=
  Nat.lt_of_not_le fun start => ne_feed_of_lineStart_le start before feed

lemma nextLine_mk (source : Bytes) (entry : Entry) (colon : Nat) :
    Marked.nextLine source ⟨entry, colon⟩ = if source.length ≤ entry.value.span.stop
      then source.length else lineStart source entry.value.span.stop := rfl

/-- The line of the next token starts at or before that token, and within the source. -/
lemma nextLine_le (source : Bytes) (entry : Entry) (colon : Nat) :
    Marked.nextLine source ⟨entry, colon⟩ ≤ source.length ∧
      (entry.value.span.stop < source.length →
        Marked.nextLine source ⟨entry, colon⟩ ≤ entry.value.span.stop) := by
  rw [nextLine_mk]
  split
  · next ends => exact ⟨Nat.le_refl _, fun short => absurd short (Nat.not_lt.mpr ends)⟩
  · exact ⟨lineStart_le_length _, fun _ => lineStart_le source _⟩

/-- What is left to the search for the end of an entry: the line behind its `:` or a later one, up to
the line of the next token. -/
lemma resume_entrySpan (entry : Entry) (mark : source[colon]? = some 58) :
    let floor := min (lineEnd source colon + 1) source.length
    floor ≤ (entrySpan source entry colon).2 ∧
      (entrySpan source entry colon).2 ≤ max (Marked.nextLine source ⟨entry, colon⟩) floor := by
  obtain ⟨short, -⟩ := List.getElem?_eq_some_iff.mp mark
  have boundary : Boundary source (Marked.nextLine source ⟨entry, colon⟩) := by
    rw [nextLine_mk]
    split
    · exact .inl rfl
    · exact boundary_lineStart _
  rw [entrySpan_eq entry short, ← nextLine_mk source entry colon]
  have back := (boundary_triviaStart (min (lineEnd source colon + 1) source.length)
    (entry.keySpan.start - lineStart source entry.keySpan.start) boundary).2
  exact ⟨Nat.le_max_right .., Nat.max_le.mpr ⟨Nat.le_trans back (Nat.le_max_left ..),
    Nat.le_max_right ..⟩⟩

/-- A patch for an entry ends at or before the next token if no token follows or a line ends between
the `:` and the token. -/
lemma resume_le_iff (mark : source[colon]? = some 58) :
    (entrySpan source entry colon).2 ≤ entry.value.span.stop ↔
      source.length ≤ entry.value.span.stop ∨
        ∃ i, colon ≤ i ∧ i < entry.value.span.stop ∧ source[i]? = some 10 := by
  obtain ⟨floor, ceiling⟩ := resume_entrySpan entry mark
  obtain ⟨inside, next⟩ := nextLine_le source entry colon
  by_cases ends : source.length ≤ entry.value.span.stop
  · simp only [ends, true_or, iff_true]
    omega
  · rw [or_iff_right ends, ← lineEnd_lt_iff (by omega)]
    omega

/-- A patch for an entry that ends at or before the next token ends at or before the line of that
token. -/
lemma resume_le_nextLine (mark : source[colon]? = some 58)
    (before : (entrySpan source entry colon).2 ≤ entry.value.span.stop) :
    (entrySpan source entry colon).2 ≤ Marked.nextLine source ⟨entry, colon⟩ := by
  obtain ⟨-, ceiling⟩ := resume_entrySpan entry mark
  refine Nat.le_trans ceiling (Nat.max_le.mpr ⟨Nat.le_refl _, ?_⟩)
  rcases (resume_le_iff mark).mp before with ends | ⟨i, ahead, short, feed⟩
  · rw [nextLine_mk, if_pos ends]
    exact Nat.min_le_right ..
  · -- the line of the `:` ends at the line feed at the latest, and that of the token starts behind it
    obtain ⟨inside, -⟩ := List.getElem?_eq_some_iff.mp feed
    have ending := (lineEnd_lt_iff inside).mpr ⟨i, ahead, Nat.lt_succ_self i, feed⟩
    have start := lt_lineStart short feed
    rw [nextLine_mk]
    split <;> omega

/-- A patch keeps all bytes from an offset on that is not before its end. -/
lemma Patch.suffix_apply {patch : Patch} {n : Nat} (key : String) (behind : patch.stop ≤ n) :
    source.drop n <:+ patch.apply key source := by
  rw [Patch.stop] at behind
  cases source with
  | nil => rw [List.drop_nil]; exact List.nil_suffix
  | cons b rest =>
    simp only [Patch.apply, List.isEmpty_cons, Bool.false_eq_true, ↓reduceIte]
    generalize resumes : min (max patch.resume _) (b :: rest).length = resume
    have le : resume ≤ n := by omega
    refine List.IsSuffix.trans ?_ (List.suffix_append _ _)
    rw [← Nat.sub_add_cancel le, Nat.add_comm, ← List.drop_drop]
    exact List.drop_suffix _ _

/-- A patch for an entry that ends at or before the next token keeps the line of that token and all
that is behind it. -/
lemma suffix_of_resume_le (mark : source[colon]? = some 58) (path : Path) (key : String)
    (before : (entrySpan source entry colon).2 ≤ entry.value.span.stop) :
    source.drop (Marked.nextLine source ⟨entry, colon⟩) <:+
      (entryPatch source path entry colon).apply key source := by
  have le := resume_le_nextLine mark before
  obtain ⟨floor, -⟩ := resume_entrySpan entry mark
  obtain ⟨short, -⟩ := List.getElem?_eq_some_iff.mp mark
  by_cases more : colon + 1 < source.length
  · have span : Span source colon (entrySpan source entry colon).1
        (entrySpan source entry colon).2 := span_entrySpan mark more
    have nonempty := span.nonempty
    refine Patch.suffix_apply key ?_
    simp only [Patch.stop, entryPatch]
    omega
  · -- nothing is left behind a `:` that is the last byte
    have ahead : colon ≤ lineEnd source colon := Nat.le_add_right ..
    rw [List.drop_of_length_le (by omega)]
    exact List.nil_suffix

/-! ## Line breaks -/

/-- That a line break ends with a byte: a line feed, or a carriage return without one behind it. -/
def Breaks (source : Bytes) (n : Nat) : Prop :=
  source[n]? = some 10 ∨ source[n]? = some 13 ∧ source[n + 1]? ≠ some 10

section Text

variable {text : List Char} {tree : Tree} {path : Path} {patches : List Patch} {patch : Patch}

/-- The `:` of a visited entry stands on the line on which its key ends. -/
lemma sameLine_of_mem_walk {flow : Bool} (read : Tree.ofText? text = some tree)
    (visited : ⟨path, .entry entry flow⟩ ∈ walk tree) (known : entry.indicator = some colon) :
    keyStop (Text.Utf8.encode text) entry.keySpan.start ≤ colon ∧
      ∀ i, keyStop (Text.Utf8.encode text) entry.keySpan.start ≤ i → i < colon →
        (Text.Utf8.encode text)[i]? ≠ some 10 := by
  have everywhere : ∀ root, tree.root = some root → root.Everywhere fun entry =>
      entry.indicator = entry.key.bind fun _ =>
        Yaml.Layout.findIndicator (Text.Utf8.encode text) entry.keySpan.start :=
    fun root rooted => (Yaml.Layout.Tree.built_of_ofText? read rooted).everywhere fun _ made => made
  have made := entry_of_mem_walk everywhere visited
  rw [known] at made
  obtain ⟨name, -, found⟩ := Option.bind_eq_some_iff.mp made.symm
  exact Yaml.Layout.sameLine_of_findIndicator found

/-- A patch ends at or before the token that follows the value of its entry exactly if no token
follows, or a line feed stands between the end of the key and the token. Then the line of the token
and all behind it is kept. Where no carriage return stands alone, any line break between the key and
the token will do. -/
theorem patchesAt_upto_next (read : Tree.ofText? text = some tree)
    (met : patchesAt tree (Text.Utf8.encode text) path = .ok patches) (mem : patch ∈ patches) :
    let source := Text.Utf8.encode text
    ∃ mapping around entry colon, Reaches tree path mapping around entry ∧
      flowOf mapping = false ∧ entry.indicator = some colon ∧
      patch = entryPatch source path entry colon ∧
      let stop := keyStop source entry.keySpan.start
      let next := entry.value.span.stop
      (patch.resume ≤ next ↔ source.length ≤ next ∨
        ∃ n, stop ≤ n ∧ n < next ∧ source[n]? = some 10) ∧
      (patch.resume ≤ next →
        ∀ key, source.drop (Marked.nextLine source ⟨entry, colon⟩) <:+ patch.apply key source) ∧
      ((∀ n : Nat, source[n]? = some 13 → source[n + 1]? = some 10) →
        (source.length ≤ next ∨ ∃ n, stop ≤ n ∧ n < next ∧ Breaks source n) →
        patch.resume ≤ next) := by
  intro source
  obtain ⟨entry, colon, visited, known, rfl⟩ := (mem_iff_of_patchesAt met).mp mem
  obtain ⟨mapping, around, reaches, flag⟩ := mem_walk_iff.mp visited
  obtain ⟨behind, line⟩ := sameLine_of_mem_walk read visited known
  have mark : source[colon]? = some 58 :=
    entry_of_mem_walk (P := Yaml.Layout.Colon source)
      (fun root rooted => (Yaml.Layout.Tree.built_of_ofText? read rooted).colon) visited colon known
  refine ⟨mapping, around, entry, colon, reaches, flag, known, rfl, ?_⟩
  intro stop next
  have exact_condition : (entryPatch source path entry colon).resume ≤ next ↔
      source.length ≤ next ∨ ∃ n, stop ≤ n ∧ n < next ∧ source[n]? = some 10 := by
    refine (resume_le_iff mark).trans (or_congr_right ⟨?_, ?_⟩)
    · rintro ⟨n, ahead, before, feed⟩
      exact ⟨n, Nat.le_trans behind ahead, before, feed⟩
    · rintro ⟨n, ahead, before, feed⟩
      exact ⟨n, Nat.le_of_not_lt fun short => line n ahead short feed, before, feed⟩
  refine ⟨exact_condition, fun before key => suffix_of_resume_le mark path key before, ?_⟩
  intro paired breaks
  refine exact_condition.mpr (breaks.imp_right ?_)
  rintro ⟨n, ahead, before, feed | ⟨turn, alone⟩⟩
  · exact ⟨n, ahead, before, feed⟩
  · exact absurd (paired n turn) alone

/-- The tree of two lines that end in a carriage return and a line feed, with a comment between. -/
def pairedTree : Tree :=
  ⟨some (.mapping ⟨1, 17⟩ false [⟨some "a", ⟨0, 3⟩, some 1, .scalar ⟨3, 11⟩ "1"⟩,
    ⟨some "b", ⟨11, 14⟩, some 12, .scalar ⟨14, 17⟩ "2"⟩]), 17⟩

/-- Before a comment and a further entry, the patch for an entry ends with its line. -/
theorem patchesAt_upto_next_paired :
    Tree.ofText? "a: 1\r\n# c\r\nb: 2\r\n".toList = some pairedTree ∧
      patchesAt pairedTree (Text.Utf8.encode "a: 1\r\n# c\r\nb: 2\r\n".toList) ⟨[.field "a"]⟩ =
        .ok [⟨"$.a", 2, 6⟩] ∧
      ∃ mapping around entry, Reaches pairedTree ⟨[.field "a"]⟩ mapping around entry ∧
        6 ≤ entry.value.span.stop := by
  have read : Tree.ofText? "a: 1\r\n# c\r\nb: 2\r\n".toList = some pairedTree := by rfl
  have met : patchesAt pairedTree (Text.Utf8.encode "a: 1\r\n# c\r\nb: 2\r\n".toList)
      ⟨[.field "a"]⟩ = .ok [⟨"$.a", 2, 6⟩] := by decide +kernel
  refine ⟨read, met, ?_⟩
  obtain ⟨mapping, around, entry, colon, reaches, -, -, -, -, -, upto⟩ :=
    patchesAt_upto_next read met (List.mem_singleton_self _)
  refine ⟨mapping, around, entry, reaches, upto ?_ (.inr ⟨5, ?_⟩)⟩
  · have inside : ∀ n < 17, (Text.Utf8.encode "a: 1\r\n# c\r\nb: 2\r\n".toList)[n]? = some 13 →
        (Text.Utf8.encode "a: 1\r\n# c\r\nb: 2\r\n".toList)[n + 1]? = some 10 := by
      decide +kernel
    intro n turn
    exact inside n (List.getElem?_eq_some_iff.mp turn).1 turn
  · -- only the first entry has the key
    obtain ⟨root, ⟨⟩, reached⟩ := reaches
    cases reached with
    | entry mem named =>
      rcases List.mem_cons.mp mem with rfl | mem
      · exact ⟨by decide +kernel, by decide, .inl (by decide +kernel)⟩
      · obtain rfl := List.mem_singleton.mp mem
        exact absurd named (by decide)
    | value _ _ reached => exact absurd reached not_reached_nil

/-- The tree of two lines of which the first one ends in a carriage return alone. -/
def returnTree : Tree :=
  ⟨some (.mapping ⟨1, 10⟩ false [⟨some "a", ⟨0, 3⟩, some 1, .scalar ⟨3, 5⟩ "1"⟩,
    ⟨some "b", ⟨5, 8⟩, some 6, .scalar ⟨8, 10⟩ "2"⟩]), 10⟩

/-- The tree of a key that is not written and of an entry behind it. -/
def unwrittenTree : Tree :=
  ⟨some (.mapping ⟨0, 7⟩ false [⟨some "", ⟨2, 2⟩, some 3, .scalar ⟨2, 2⟩ ""⟩,
    ⟨some "a", ⟨2, 5⟩, some 3, .scalar ⟨5, 7⟩ "1"⟩]), 7⟩

/-- Behind a line that ends in a carriage return alone, the patch for an entry takes the next entry
too; and the patch for a key that is not written takes the value of the next entry. -/
theorem patchesAt_beyond_next :
    (Tree.ofText? "a: 1\rb: 2\n".toList = some returnTree ∧
      Breaks (Text.Utf8.encode "a: 1\rb: 2\n".toList) 4 ∧
      patchesAt returnTree (Text.Utf8.encode "a: 1\rb: 2\n".toList) ⟨[.field "a"]⟩ =
        .ok [⟨"$.a", 2, 10⟩] ∧
      Patch.apply ⟨"$.a", 2, 10⟩ "k" (Text.Utf8.encode "a: 1\rb: 2\n".toList) =
        Text.Utf8.encode "a: \x7b\x7b .Values.k \x7d\x7d\n".toList) ∧
    Tree.ofText? "?\na: 1\n".toList = some unwrittenTree ∧
      patchesAt unwrittenTree (Text.Utf8.encode "?\na: 1\n".toList) ⟨[.field ""]⟩ =
        .ok [⟨"$['']", 4, 7⟩] ∧
      Patch.apply ⟨"$['']", 4, 7⟩ "k" (Text.Utf8.encode "?\na: 1\n".toList) =
        Text.Utf8.encode "?\na: \x7b\x7b .Values.k \x7d\x7d\n".toList := by
  refine ⟨⟨by rfl, .inr ⟨by decide +kernel, by decide +kernel⟩, by decide +kernel,
    by decide +kernel⟩, by rfl, by decide +kernel, by decide +kernel⟩

end Text

end ChartLift.Rewrite
