import ChartLift.Proofs.Rewrite.Match
import ChartLift.Proofs.Rewrite.Plan

/-!
# The bytes of an entry

The bytes of an entry that give way begin right behind its `:`, or behind the space that follows it,
and end where a line starts or the source ends (`Span`, `span_entrySpan`). So the patch for an entry
takes at least one byte (`Span.proper`), patches that do not overlap leave each other's `:` alone
(`Span.before`), and a plan cuts ranges behind `:` (`Plan.apply_eq_splice_cuts`).
-/

namespace ChartLift.Rewrite

open Text (Bytes)
open Yaml.Layout (Entry)

variable {source : Bytes}

/-! ## Lines -/

/-- What ends a line is a line feed. -/
lemma line_stop (bytes : Bytes) : (bytes.takeWhile inLine).length = bytes.length ∨
    bytes[(bytes.takeWhile inLine).length]? = some 10 := by
  induction bytes with
  | nil => exact .inl rfl
  | cons b rest ih =>
    by_cases inside : inLine b = true
    · rw [List.takeWhile_cons_of_pos inside, List.length_cons, List.length_cons,
        List.getElem?_cons_succ]
      rcases ih with whole | stop
      · exact .inl (congrArg (· + 1) whole)
      · exact .inr stop
    · have feed : b = 10 := by simpa [inLine] using inside
      rw [List.takeWhile_cons_of_neg inside]
      exact .inr (congrArg some feed)

/-- Places where the source ends or a line starts. -/
def Boundary (source : Bytes) (n : Nat) : Prop :=
  n = source.length ∨ n = 0 ∨ source[n - 1]? = some 10

lemma Boundary.max {m n : Nat} (first : Boundary source m) (second : Boundary source n) :
    Boundary source (max m n) := by
  rcases Nat.le_total m n with below | above
  · rwa [Nat.max_eq_right below]
  · rwa [Nat.max_eq_left above]

/-- A line starts where its start is said to be. -/
lemma boundary_lineStart (offset : Nat) : Boundary source (lineStart source offset) := by
  simp only [lineStart]
  generalize run : ((source.take offset).reverse.takeWhile inLine).length = n
  have fits : n ≤ (source.take offset).reverse.length := by
    rw [← run]
    exact (List.takeWhile_sublist _).length_le
  rw [List.length_reverse] at fits
  rcases line_stop (source.take offset).reverse with whole | feed
  · rw [run, List.length_reverse] at whole
    exact .inr (.inl (by omega))
  · rw [run] at feed
    obtain ⟨short, _⟩ := List.getElem?_eq_some_iff.mp feed
    rw [List.length_reverse] at short
    rw [List.getElem?_reverse short, List.getElem?_take_of_lt] at feed
    · refine .inr (.inr ?_)
      rw [← feed]
      congr 1
      omega
    · have := List.length_take_le offset source
      omega

lemma lineStart_le_length (offset : Nat) : lineStart source offset ≤ source.length := by
  have := List.length_take_le' offset source
  simp only [lineStart]
  omega

/-- Passing back over blank lines and comments leads from boundary to boundary. -/
lemma boundary_triviaStart (floor column : Nat) {stop : Nat} (start : Boundary source stop) :
    Boundary source (triviaStart source floor column stop) ∧
      triviaStart source floor column stop ≤ stop := by
  fun_induction triviaStart source floor column stop with
  | case1 stop above previous trivia ih =>
    obtain ⟨boundary, le⟩ := ih (boundary_lineStart _)
    have : previous ≤ stop - 1 := lineStart_le source (stop - 1)
    exact ⟨boundary, by omega⟩
  | case2 => exact ⟨start, Nat.le_refl _⟩
  | case3 => exact ⟨start, Nat.le_refl _⟩

/-- The line of the token behind an entry starts at a boundary, and so does what follows the last
one. -/
lemma boundary_next (next : Nat) :
    Boundary source (if source.length ≤ next then source.length else lineStart source next) ∧
      (if source.length ≤ next then source.length else lineStart source next) ≤
        source.length := by
  split
  · exact ⟨.inl rfl, Nat.le_refl _⟩
  · exact ⟨boundary_lineStart _, lineStart_le_length _⟩

/-- Behind the end of a line there is a boundary. -/
lemma boundary_lineEnd (offset : Nat) :
    Boundary source (min (lineEnd source offset + 1) source.length) := by
  rcases line_stop (source.drop offset) with whole | feed
  · rw [List.length_drop] at whole
    refine .inl ?_
    rw [lineEnd]
    omega
  · rw [List.getElem?_drop] at feed
    obtain ⟨short, _⟩ := List.getElem?_eq_some_iff.mp feed
    refine .inr (.inr ?_)
    rw [← feed, lineEnd]
    congr 1
    omega

/-! ## Spans -/

/-- The bytes of an entry that give way, by its `:`, the last byte kept before them and the first
one kept behind them. -/
structure Span (source : Bytes) (colon keep resume : Nat) : Prop where
  mark : source[colon]? = some 58
  kept : keep = colon ∨ keep = colon + 1 ∧ source[colon + 1]? = some 32
  nonempty : keep + 1 < resume
  inside : resume ≤ source.length
  stop : resume = source.length ∨ source[resume - 1]? = some 10

variable {colon : Nat}

/-- A line goes on behind a `:` up to its end. -/
lemma lineEnd_eq (mark : source[colon]? = some 58) :
    lineEnd source colon = colon + 1 + ((source.drop (colon + 1)).takeWhile inLine).length := by
  obtain ⟨short, is⟩ := List.getElem?_eq_some_iff.mp mark
  rw [lineEnd, List.drop_eq_getElem_cons short, is, List.takeWhile_cons_of_pos (by rfl),
    List.length_cons]
  omega

/-- A value that begins on the line of a `:`, behind a space, takes at least one byte of it. -/
lemma two_le_of_beginsInline (inline : beginsInline source colon = true)
    (space : source[colon + 1]? = some 32) :
    2 ≤ ((source.drop (colon + 1)).takeWhile inLine).length := by
  obtain ⟨short, is⟩ := List.getElem?_eq_some_iff.mp space
  rw [beginsInline, List.drop_eq_getElem_cons short, is,
    List.takeWhile_cons_of_pos (by rfl), List.dropWhile_cons_of_pos (by rfl)] at inline
  rw [List.drop_eq_getElem_cons short, is, List.takeWhile_cons_of_pos (by rfl), List.length_cons]
  cases behind : (source.drop (colon + 1 + 1)).takeWhile inLine with
  | nil => rw [behind] at inline; cases inline
  | cons b rest => rw [List.length_cons]; omega

/-- Of the bytes behind a `:` that is not the last one, the first that gives way stands before the
end of its line, and there is one. -/
lemma lt_of_kept (mark : source[colon]? = some 58) (more : colon + 1 < source.length) {keep : Nat}
    (keeps : keep = if beginsInline source colon && source[colon + 1]? == some 32
      then colon + 1 else colon) :
    (keep = colon ∨ keep = colon + 1 ∧ source[colon + 1]? = some 32) ∧
      keep + 1 < min (lineEnd source colon + 1) source.length := by
  have ending := lineEnd_eq mark
  split at keeps
  · next set =>
    obtain ⟨inline, space⟩ := Bool.and_eq_true_iff.mp set
    have space := beq_iff_eq.mp space
    have two := two_le_of_beginsInline inline space
    have within : ((source.drop (colon + 1)).takeWhile inLine).length ≤
        (source.drop (colon + 1)).length := (List.takeWhile_sublist _).length_le
    rw [List.length_drop] at within
    exact ⟨.inr ⟨keeps, space⟩, by omega⟩
  · exact ⟨.inl keeps, by omega⟩

/-- The bytes behind a `:` that is not the last one reach up to a boundary. -/
lemma span_entrySpan {entry : Entry} (mark : source[colon]? = some 58)
    (more : colon + 1 < source.length) :
    Span source colon (entrySpan source entry colon).1 (entrySpan source entry colon).2 := by
  rw [entrySpan_eq entry (by omega)]
  generalize keeps : (if beginsInline source colon && source[colon + 1]? == some 32
    then colon + 1 else colon) = keep
  generalize entry.keySpan.start - lineStart source entry.keySpan.start = column
  obtain ⟨kept, ahead⟩ := lt_of_kept mark more keeps.symm
  have start := @boundary_next source entry.value.span.stop
  generalize (if source.length ≤ entry.value.span.stop then source.length
    else lineStart source entry.value.span.stop) = stop at start ⊢
  have line : Boundary source (min (lineEnd source colon + 1) source.length) :=
    boundary_lineEnd colon
  have short : min (lineEnd source colon + 1) source.length ≤ source.length := Nat.min_le_right _ _
  generalize min (lineEnd source colon + 1) source.length = floor at *
  obtain ⟨trivia, le⟩ := boundary_triviaStart floor column start.1
  refine ⟨mark, kept, by omega, by omega, ?_⟩
  rcases trivia.max line with whole | start | feed
  · exact .inl whole
  · omega
  · exact .inr feed

/-- The patch for an entry takes at least one byte, and none beyond the source. -/
lemma Span.proper {keep resume : Nat} (span : Span source colon keep resume) (path : String) :
    Patch.Proper source ⟨path, keep, resume⟩ :=
  ⟨span.nonempty, span.inside⟩

/-- Bytes that end before those of another entry begin end before its `:`. -/
lemma Span.before {keep resume colon' keep' resume' : Nat} (span : Span source colon keep resume)
    (other : Span source colon' keep' resume') (before : resume ≤ keep' + 1) : resume ≤ colon' := by
  have := span.nonempty
  have := other.nonempty
  have := other.inside
  -- otherwise a line feed would stand where the other `:` or the space behind it stands
  refine Nat.le_of_not_lt fun behind => ?_
  have feed : source[resume - 1]? = some 10 := span.stop.resolve_left (by omega)
  rcases other.kept with kept | ⟨kept, space⟩
  · have mark : source[resume - 1]? = some 58 := by
      rw [← other.mark]
      congr 1
      omega
    rw [mark] at feed
    cases feed
  · rcases Nat.lt_or_ge (colon' + 1) resume with far | near
    · have same : resume - 1 = colon' + 1 := by omega
      rw [same, space] at feed
      cases feed
    · have same : resume - 1 = colon' := by omega
      rw [same, other.mark] at feed
      cases feed

/-- The `:` of an entry is the last byte kept or stands right before it. -/
lemma Span.colon_eq {keep resume : Nat} (span : Span source colon keep resume) :
    colon = if source[keep]? = some 58 then keep else keep - 1 := by
  rcases span.kept with rfl | ⟨rfl, space⟩
  · rw [if_pos span.mark]
  · rw [if_neg (by simp [space])]
    rfl

/-! ## Cuts -/

/-- A range of bytes, behind a `:` and up to a boundary, that gives way to a reference to a key. -/
structure Cut where
  colon : Nat
  resume : Nat
  key : String

namespace Cut

/-- What takes the place of the range: a space, the reference and a line feed. -/
def replacement (cut : Cut) : Replacement :=
  ⟨cut.colon + 1, cut.resume, 32 :: Text.bytes (referenceExpression cut.key)⟩

/-- The range behind the `:` of a planned patch. -/
def ofEntry (source : Bytes) (entry : Patch × String) : Cut :=
  ⟨if source[entry.1.keep]? = some 58 then entry.1.keep else entry.1.keep - 1, entry.1.resume,
    entry.2⟩

variable {entry : Patch × String}

/-- The range of a planned patch begins behind the `:` of its entry. -/
lemma ofEntry_eq (span : Span source colon entry.1.keep entry.1.resume) :
    ofEntry source entry = ⟨colon, entry.1.resume, entry.2⟩ := by
  rw [ofEntry, ← span.colon_eq]

/-- A patch that keeps the space behind a `:` does what the cut does that puts one there. -/
lemma splice_replacement (span : Span source colon entry.1.keep entry.1.resume) {start : Nat}
    (ahead : start ≤ colon) (rest : List Replacement) :
    splice source start (Patch.replacement source entry :: rest) =
      splice source start ((ofEntry source entry).replacement :: rest) := by
  rw [ofEntry_eq span]
  obtain ⟨short, _⟩ := List.getElem?_eq_some_iff.mp span.mark
  rcases span.kept with kept | ⟨kept, space⟩
  · simp only [splice, Patch.replacement, replacement, kept, span.mark, ↓reduceIte,
      List.singleton_append]
  · have taken : source.take (colon + 1 + 1) = source.take (colon + 1) ++ [32] := by
      rw [List.take_add_one, space]
      rfl
    have length : (source.take (colon + 1)).length = colon + 1 := List.length_take_of_le short
    simp only [splice, Patch.replacement, replacement, kept, space, taken]
    rw [List.drop_append_of_le_length (by omega), if_neg (by decide), List.nil_append,
      List.append_assoc (List.drop start _), List.singleton_append]

/-- Patches of entries in ascending order do what their cuts do. -/
lemma splice_map_replacement {entries : List (Patch × String)} {start : Nat}
    (spans : ∀ entry ∈ entries, ∃ colon, Span source colon entry.1.keep entry.1.resume ∧
      start ≤ colon)
    (ascending : entries.Pairwise fun a b => a.1.resume ≤ b.1.keep + 1) :
    splice source start (entries.map (Patch.replacement source)) =
      splice source start (entries.map fun entry => (ofEntry source entry).replacement) := by
  induction entries generalizing start with
  | nil => rfl
  | cons entry rest ih =>
    obtain ⟨before, ascending⟩ := List.pairwise_cons.mp ascending
    obtain ⟨⟨colon, span, ahead⟩, spans⟩ := List.forall_mem_cons.mp spans
    -- no range reaches the next `:`, so that what is kept starts in front of it
    have later : ∀ other ∈ rest, ∃ colon, Span source colon other.1.keep other.1.resume ∧
        entry.1.resume ≤ colon := by
      intro other mem
      obtain ⟨colon', span', _⟩ := spans other mem
      exact ⟨colon', span', span.before span' (before other mem)⟩
    rw [List.map_cons, List.map_cons, splice_replacement span ahead]
    rw [splice, splice]
    exact congrArg _ (ih later ascending)

end Cut

/-- Applying a plan of patches for entries cuts ranges behind their `:`, none of which reaches the
`:` of another. -/
lemma Plan.apply_eq_splice_cuts {plan : Plan} (disjoint : plan.Disjoint)
    (spans : ∀ entry ∈ plan.entries, ∃ colon, Span source colon entry.1.keep entry.1.resume) :
    ∃ entries : List (Patch × String), entries.Perm plan.entries ∧
      (entries.map (Cut.ofEntry source)).Pairwise (fun a b => a.resume ≤ b.colon) ∧
      plan.apply source =
        splice source 0 ((entries.map (Cut.ofEntry source)).map Cut.replacement) := by
  have proper : ∀ entry ∈ plan.entries, entry.1.Proper source := by
    intro entry mem
    obtain ⟨colon, span⟩ := spans entry mem
    exact span.proper entry.1.path
  have perm : plan.descending.reverse.Perm plan.entries :=
    (List.reverse_perm _).trans plan.descending_perm
  have ascending : plan.descending.reverse.Pairwise fun a b => a.1.resume ≤ b.1.keep + 1 :=
    List.pairwise_reverse.mpr (disjoint.descending proper)
  refine ⟨plan.descending.reverse, perm, ?_, ?_⟩
  · rw [List.pairwise_map]
    refine ascending.imp_of_mem fun {a b} memA memB before => ?_
    obtain ⟨colon, span⟩ := spans a (perm.mem_iff.mp memA)
    obtain ⟨colon', span'⟩ := spans b (perm.mem_iff.mp memB)
    rw [Cut.ofEntry_eq span, Cut.ofEntry_eq span']
    exact span.before span' before
  · rw [apply_eq_splice disjoint proper, Cut.splice_map_replacement _ ascending, List.map_map]
    · rfl
    · intro entry mem
      obtain ⟨colon, span⟩ := spans entry (perm.mem_iff.mp mem)
      exact ⟨colon, span, Nat.zero_le _⟩

end ChartLift.Rewrite
