import ChartLift.Proofs.Yaml.Indicator

/-!
# Where keys end

The search for the `:` of a key goes by the bytes alone. It passes over quotes as a whole, with the
escapes in them, and over other keys up to a `:` that has a blank behind it. Whatever bytes a key is
written with (`KeyBytes`) and whatever stands around it, the `:` behind the key and its spaces is found.
The search moves an index that escapes may carry beyond the end of the source (`findIndicator?`); it
comes to an end once it has more rounds than there are bytes, and finds nothing but a `:` behind where
the key starts (`findIndicator_keyed`).
-/

namespace ChartLift.Yaml.Layout

open Text (Bytes)

/-! ## Keys as they are written -/

/-- What stands in double quotes: a backslash takes the next byte with it, and no quote stands without
one. -/
inductive Escaped : Bytes → Prop where
  | nil :
    Escaped []
  | byte {b rest} :
    b ≠ 34 →
    b ≠ 92 →
    Escaped rest →
    Escaped (b :: rest)
  | pair {b rest} :
    Escaped rest →
    Escaped (92 :: b :: rest)

/-- What stands in single quotes for bytes: each quote among them is written twice. -/
def doubled (content : Bytes) : Bytes :=
  content.flatMap fun b => if b = 39 then [39, 39] else [b]

/-- The bytes of a key. A plain one is on one line, does not begin with a quote, and each `:` in it has
a byte behind it that is no blank. -/
inductive KeyBytes : Bytes → Prop where
  | single (content) :
    KeyBytes (39 :: (doubled content ++ [39]))
  | double {content} :
    Escaped content →
    KeyBytes (34 :: (content ++ [34]))
  | plain {key : Bytes} :
    key.head? ≠ some 34 →
    key.head? ≠ some 39 →
    10 ∉ key →
    (∀ front behind, key = front ++ 58 :: behind →
      ∃ b, behind.head? = some b ∧ isAsciiBlank b = false) →
    KeyBytes key

/-! ## Quotes -/

section Quotes

variable {b : UInt8} {content rest : Bytes}

lemma quotedLength_pair (rest : Bytes) :
    quotedLength true (92 :: rest) = quotedLength true (rest.drop 1) + 2 := by
  cases rest with
  | nil => rfl
  | cons c rest => rfl

lemma quotedLength_close (rest : Bytes) : quotedLength true (34 :: rest) = 1 := by
  cases rest with
  | nil => rfl
  | cons c rest => rfl

lemma quotedLength_byte (quote : b ≠ 34) (backslash : b ≠ 92) (rest : Bytes) :
    quotedLength true (b :: rest) = quotedLength true rest + 1 := by
  cases rest with
  | nil => simp [quotedLength, quote, backslash]
  | cons c rest => simp [quotedLength, quote, backslash]

lemma quotedLength_twice (rest : Bytes) :
    quotedLength false (39 :: 39 :: rest) = quotedLength false rest + 2 := rfl

lemma quotedLength_alone (alone : rest.head? ≠ some 39) : quotedLength false (39 :: rest) = 1 := by
  cases rest with
  | nil => rfl
  | cons c rest => simpa [quotedLength] using alone

lemma quotedLength_other (quote : b ≠ 39) (rest : Bytes) :
    quotedLength false (b :: rest) = quotedLength false rest + 1 := by
  cases rest with
  | nil => simp [quotedLength, quote]
  | cons c rest => simp [quotedLength, quote]

/-- Double quotes end at the first quote that no backslash takes. -/
lemma quotedLength_escaped (escaped : Escaped content) (rest : Bytes) :
    quotedLength true (content ++ 34 :: rest) = content.length + 1 := by
  induction escaped with
  | nil => exact quotedLength_close rest
  | byte quote backslash _ ih =>
    rw [List.cons_append, quotedLength_byte quote backslash, ih, List.length_cons]
  | pair _ ih =>
    rw [List.cons_append, quotedLength_pair, List.cons_append, List.drop_one, List.tail_cons, ih,
      List.length_cons, List.length_cons, Nat.add_right_comm]

/-- Single quotes end at the first quote that is not written twice. -/
lemma quotedLength_doubled (content : Bytes) (alone : rest.head? ≠ some 39) :
    quotedLength false (doubled content ++ 39 :: rest) = (doubled content).length + 1 := by
  induction content with
  | nil => exact quotedLength_alone alone
  | cons b content ih =>
    rw [doubled, List.flatMap_cons, ← doubled]
    by_cases quote : b = 39
    · rw [if_pos quote, List.append_assoc, List.cons_append, List.cons_append, List.nil_append,
        quotedLength_twice, ih, List.length_append, List.length_cons, List.length_singleton]
      omega
    · rw [if_neg quote, List.append_assoc, List.singleton_append, quotedLength_other quote, ih,
        List.length_append, List.length_singleton, Nat.add_comm 1]

end Quotes

/-! ## The search behind a key -/

section Search

variable {source key behind : Bytes} {start : Nat}

/-- The quote that stands around a key in quotes. -/
def quoteOf (double : Bool) : UInt8 := if double then 34 else 39

/-- A key in quotes ends behind them. -/
lemma keyStop_quoted (double : Bool) (quote : source[start]? = some (quoteOf double)) :
    keyStop source start = start + (quotedLength double (source.drop (start + 1)) + 1) := by
  obtain ⟨short, first⟩ := List.getElem?_eq_some_iff.mp quote
  rw [keyStop, List.drop_eq_getElem_cons short, first]
  cases double <;> rfl

/-- Other keys are searched from where they start. -/
lemma keyStop_plain (double : source[start]? ≠ some 34) (single : source[start]? ≠ some 39) :
    keyStop source start = start := by
  rw [← List.head?_drop] at double single
  rw [keyStop]
  split
  next eq => exact absurd (congrArg List.head? eq) double
  next eq => exact absurd (congrArg List.head? eq) single
  next => rfl

/-- The search goes over a line on which each `:` has a byte behind it that is no blank. -/
lemma colonIn_append_of_apart (rest : Bytes) (line : 10 ∉ key)
    (apart : ∀ front behind, key = front ++ 58 :: behind →
      ∃ b, behind.head? = some b ∧ isAsciiBlank b = false) :
    colonIn (key ++ rest) = (colonIn rest).map (· + key.length) := by
  induction key with
  | nil => simp
  | cons b key ih =>
    have feed : b ≠ 10 := fun feed => line (feed ▸ List.mem_cons_self)
    have on : ¬ (b == 58 && (key ++ rest).head?.all isAsciiBlank) = true := by
      intro ends
      obtain ⟨colon, blank⟩ := Bool.and_eq_true_iff.mp ends
      obtain ⟨c, next, solid⟩ := apart [] key (by rw [beq_iff_eq.mp colon]; rfl)
      rw [List.head?_append, next, Option.some_or, Option.all_some, solid] at blank
      cases blank
    rw [List.cons_append, colonIn, if_neg (by simpa using feed), if_neg on,
      ih (fun mem => line (List.mem_cons_of_mem _ mem))
        fun front behind eq => apart (b :: front) behind (congrArg _ eq), Option.map_map]
    rfl

/-- Behind a key the search finds the `:` that ends its spaces. -/
lemma colonIn_spaces (spaces : Nat) (blank : behind.head?.all isAsciiBlank = true) :
    colonIn (List.replicate spaces 32 ++ 58 :: behind) = some spaces := by
  rw [colonIn_append _ fun b mem => by rw [List.eq_of_mem_replicate mem]; decide, colonIn,
    if_neg (by decide), if_pos (by simpa using blank), List.length_replicate, Option.map_some,
    Nat.zero_add]

/-- What stands before a key is of no account. -/
lemma findIndicator_append (front bytes : Bytes) : findIndicator (front ++ bytes) front.length =
    (colonIn (bytes.drop (keyStop bytes 0))).map (· + (front.length + keyStop bytes 0)) := by
  have stop : keyStop (front ++ bytes) front.length = front.length + keyStop bytes 0 := by
    rw [keyStop, keyStop, List.drop_left, List.drop_zero, Nat.zero_add]
  rw [findIndicator_eq, stop, ← List.drop_drop, List.drop_left]

/-- A key in quotes that end where they are meant to is passed over as a whole. -/
lemma findIndicator_quoted (double : Bool) {content rest : Bytes} (front : Bytes)
    (closes : quotedLength double (content ++ quoteOf double :: rest) = content.length + 1) :
    findIndicator (front ++ (quoteOf double :: (content ++ [quoteOf double]) ++ rest)) front.length =
      (colonIn rest).map
        (· + (front.length + (quoteOf double :: (content ++ [quoteOf double])).length)) := by
  have stop : keyStop (quoteOf double :: (content ++ [quoteOf double]) ++ rest) 0 =
      (quoteOf double :: (content ++ [quoteOf double])).length := by
    rw [keyStop_quoted double rfl, List.cons_append, List.drop_succ_cons, List.drop_zero,
      List.append_assoc, List.singleton_append, closes, Nat.zero_add, List.length_cons,
      List.length_append, List.length_singleton]
  rw [findIndicator_append, stop, List.drop_left]

/-- However a key is written, the `:` behind it and its spaces is found. -/
lemma KeyBytes.findIndicator_eq (written : KeyBytes key) (front : Bytes) (spaces : Nat)
    (blank : behind.head?.all isAsciiBlank = true) :
    findIndicator (front ++ (key ++ (List.replicate spaces 32 ++ 58 :: behind))) front.length =
      some (front.length + key.length + spaces) := by
  have found := colonIn_spaces spaces blank
  have next : ∀ b ∈ (List.replicate spaces 32 ++ 58 :: behind).head?, b = 32 ∨ b = 58 := by
    cases spaces with
    | zero => simp
    | succ spaces => simp [List.replicate_succ]
  generalize List.replicate spaces 32 ++ 58 :: behind = rest at found next
  have unquoted : rest.head? ≠ some 34 ∧ rest.head? ≠ some 39 := by
    constructor <;>
    · intro quote
      rcases next _ quote with ⟨⟨⟩⟩ | ⟨⟨⟩⟩
  rw [Nat.add_comm _ spaces]
  cases written with
  | single content =>
    have closes := quotedLength_doubled content unquoted.2
    exact (findIndicator_quoted false front closes).trans (by rw [found]; rfl)
  | double escaped =>
    have closes := quotedLength_escaped escaped rest
    exact (findIndicator_quoted true front closes).trans (by rw [found]; rfl)
  | plain double single line apart =>
    have first (b : UInt8) (inKey : key.head? ≠ some b) (inRest : rest.head? ≠ some b) :
        (key ++ rest)[0]? ≠ some b := by
      cases key with
      | nil => rwa [List.nil_append, ← List.head?_eq_getElem?]
      | cons c key => exact inKey
    rw [findIndicator_append,
      keyStop_plain (first 34 double unquoted.1) (first 39 single unquoted.2), List.drop_zero,
      colonIn_append_of_apart rest line apart, found, Option.map_some, Option.map_some,
      Nat.add_zero, Nat.add_assoc, Nat.add_comm key.length]

end Search

/-! ## The search by an index -/

/-- Where the double quotes end that an index is in, if a search for it comes to an end within a number
of rounds: at a quote, or where there is no byte any more. -/
def doubleEnd? (source : Bytes) : Nat → Nat → Option Nat
  | 0, _ => none
  | rounds + 1, i =>
    if i < source.length then do
      let b ← source[i]?
      if b == 92 then doubleEnd? source rounds (i + 2)
      else if b == 34 then return i
      else doubleEnd? source rounds (i + 1)
    else return i

/-- Where the single quotes end that an index is in. -/
def singleEnd? (source : Bytes) : Nat → Nat → Option Nat
  | 0, _ => none
  | rounds + 1, i =>
    if i < source.length then do
      let b ← source[i]?
      if b == 39 then
        if source[i + 1]? == some 39 then singleEnd? source rounds (i + 2) else return i
      else singleEnd? source rounds (i + 1)
    else return i

/-- The first `:` of the line from an index on that has a blank or nothing behind it, if there is one. -/
def colonFrom? (source : Bytes) : Nat → Nat → Option (Option Nat)
  | 0, _ => none
  | rounds + 1, i =>
    if i < source.length then do
      let b ← source[i]?
      if b == 10 then return none
      else if b == 58 && source[i + 1]?.all isAsciiBlank then return some i
      else colonFrom? source rounds (i + 1)
    else return none

/-- Where the `:` behind the key at an offset stands, if the search comes to an end. -/
def findIndicator? (source : Bytes) (rounds start : Nat) : Option (Option Nat) := do
  let stop ←
    if source[start]? == some 34 then (doubleEnd? source rounds (start + 1)).map (· + 1)
    else if source[start]? == some 39 then (singleEnd? source rounds (start + 1)).map (· + 1)
    else some start
  colonFrom? source rounds stop

section Rounds

variable {source : Bytes} {rounds i : Nat}

lemma doubleEnd?_eq (enough : source.length - i < rounds) :
    (doubleEnd? source rounds i).map (· + 1) = some (i + quotedLength true (source.drop i)) := by
  induction rounds generalizing i with
  | zero => omega
  | succ rounds ih =>
    rw [doubleEnd?]
    by_cases inside : i < source.length
    · rw [if_pos inside, List.getElem?_eq_getElem inside, List.drop_eq_getElem_cons inside]
      generalize source[i] = b
      simp only [Option.bind_eq_bind, Option.bind_some, beq_iff_eq]
      split
      next backslash =>
        rw [ih (by omega), backslash, quotedLength_pair, List.drop_drop, Nat.add_assoc i 1 1]
        congr 1
        omega
      next backslash =>
        split
        next quote =>
          rw [quote, quotedLength_close]
          rfl
        next quote =>
          rw [ih (by omega), quotedLength_byte quote backslash]
          congr 1
          omega
    · rw [if_neg inside, List.drop_eq_nil_of_le (Nat.le_of_not_lt inside)]
      rfl

lemma singleEnd?_eq (enough : source.length - i < rounds) :
    (singleEnd? source rounds i).map (· + 1) = some (i + quotedLength false (source.drop i)) := by
  induction rounds generalizing i with
  | zero => omega
  | succ rounds ih =>
    rw [singleEnd?]
    by_cases inside : i < source.length
    · rw [if_pos inside, List.getElem?_eq_getElem inside, List.drop_eq_getElem_cons inside,
        ← List.head?_drop]
      generalize source[i] = b
      simp only [Option.bind_eq_bind, Option.bind_some, beq_iff_eq]
      split
      next quote =>
        subst quote
        split
        next again =>
          obtain ⟨rest, eq⟩ := List.head?_eq_some_iff.mp again
          have behind : source.drop (i + 2) = rest := by
            rw [← Nat.add_assoc i 1 1, ← List.drop_drop, eq]
            rfl
          rw [ih (by omega), eq, quotedLength_twice, behind]
          congr 1
          omega
        next alone =>
          rw [quotedLength_alone alone]
          rfl
      next quote =>
        rw [ih (by omega), quotedLength_other quote]
        congr 1
        omega
    · rw [if_neg inside, List.drop_eq_nil_of_le (Nat.le_of_not_lt inside)]
      rfl

lemma colonFrom?_eq (enough : source.length - i < rounds) :
    colonFrom? source rounds i = some ((colonIn (source.drop i)).map (· + i)) := by
  induction rounds generalizing i with
  | zero => omega
  | succ rounds ih =>
    rw [colonFrom?]
    by_cases inside : i < source.length
    · rw [if_pos inside, List.getElem?_eq_getElem inside, List.drop_eq_getElem_cons inside,
        ← List.head?_drop, colonIn]
      generalize source[i] = b
      simp only [Option.bind_eq_bind, Option.bind_some]
      split
      next => rfl
      next =>
        split
        next => simp
        next =>
          rw [ih (by omega), Option.map_map]
          congr 2
          funext n
          show n + (i + 1) = n + 1 + i
          omega
    · rw [if_neg inside, List.drop_eq_nil_of_le (Nat.le_of_not_lt inside)]
      rfl

/-- The search comes to an end within as many rounds as there are bytes, and one more. -/
lemma findIndicator?_eq (source : Bytes) (start : Nat) (enough : source.length < rounds) :
    findIndicator? source rounds start = some (findIndicator source start) := by
  have ends : colonFrom? source rounds (keyStop source start) = _ := colonFrom?_eq (by omega)
  rw [findIndicator?, findIndicator_eq, ← ends]
  by_cases double : source[start]? = some 34
  · rw [if_pos (beq_iff_eq.mpr double), doubleEnd?_eq (by omega), keyStop_quoted true double,
      Nat.add_right_comm]
    rfl
  · rw [if_neg (by simpa using double)]
    by_cases single : source[start]? = some 39
    · rw [if_pos (beq_iff_eq.mpr single), singleEnd?_eq (by omega), keyStop_quoted false single,
        Nat.add_right_comm]
      rfl
    · rw [if_neg (by simpa using single), keyStop_plain double single]
      rfl

/-- An escape carries the index beyond the end. -/
example : findIndicator? [34, 58, 92] 4 0 = some none := by decide

end Rounds

/-! ## What is found -/

/-- What is found for a key stands where the key starts or behind, with a blank or nothing behind it. -/
lemma apart_of_findIndicator {source : Bytes} {start c : Nat}
    (found : findIndicator source start = some c) :
    start ≤ c ∧ source[c + 1]?.all isAsciiBlank = true := by
  rw [findIndicator_eq] at found
  obtain ⟨n, hit, rfl⟩ := Option.map_eq_some_iff.mp found
  have behind : start ≤ keyStop source start := Nat.le_add_right ..
  have blank := blank_of_colonIn hit
  rw [List.getElem?_drop, ← Nat.add_assoc, Nat.add_comm (keyStop source start)] at blank
  exact ⟨Nat.le_trans behind (Nat.le_add_left ..), blank⟩

/-- For a key in quotes or a plain one, with any spaces and then a `:` behind it that a blank or nothing
follows, this `:` is found, whatever stands before the key. For every source and offset the search comes
to an end, and what it finds is a `:` at the offset or behind. -/
theorem findIndicator_keyed {key behind : Bytes} (written : KeyBytes key)
    (blank : behind.head?.all isAsciiBlank = true) :
    (∀ (front : Bytes) (spaces : Nat),
      findIndicator (front ++ (key ++ (List.replicate spaces 32 ++ 58 :: behind))) front.length =
        some (front.length + key.length + spaces)) ∧
    ∀ (source : Bytes) (start : Nat),
      (∀ rounds, source.length < rounds →
        findIndicator? source rounds start = some (findIndicator source start)) ∧
      ∀ c, findIndicator source start = some c →
        start ≤ c ∧ source[c]? = some 58 ∧ source[c + 1]?.all isAsciiBlank = true := by
  refine ⟨fun front spaces => written.findIndicator_eq front spaces blank, fun source start =>
    ⟨fun rounds enough => findIndicator?_eq source start enough, fun c found => ?_⟩⟩
  obtain ⟨behind, blank⟩ := apart_of_findIndicator found
  exact ⟨behind, findIndicator_eq_some found, blank⟩

/-- A key in double quotes with a quote, a `:` with a blank behind it, a `#` and a backslash in it,
`"\": #\\"`, is passed over up to the `:` behind its two spaces. -/
theorem findIndicator_keyed_escaped :
    KeyBytes [34, 92, 34, 58, 32, 35, 92, 92, 34] ∧ ([10] : Bytes).head?.all isAsciiBlank = true ∧
      findIndicator [45, 32, 34, 92, 34, 58, 32, 35, 92, 92, 34, 32, 32, 58, 10] 2 = some 13 := by
  have written : KeyBytes [34, 92, 34, 58, 32, 35, 92, 92, 34] :=
    .double (.pair (.byte (by decide) (by decide) (.byte (by decide) (by decide)
      (.byte (by decide) (by decide) (.pair .nil)))))
  have blank : ([10] : Bytes).head?.all isAsciiBlank = true := rfl
  exact ⟨written, blank, (findIndicator_keyed written blank).1 [45, 32] 2⟩

end ChartLift.Yaml.Layout
