import ChartLift.Proofs.Path.Canonical
import ChartLift.Proofs.Text.Utf8
import ChartLift.Proofs.Yaml.Layout
import ChartLift.Proofs.Yaml.PlainLine

/-!
# Keys and their indicators

The `:` of a key is looked for in the bytes of its line, apart from the reader that tells what the
key is. The search passes over a text in which no `:` looks as if a blank stood behind it
(`colonIn_encode_append`). Where a key is written as a plain scalar on one line (`PlainKey`), what
is found is the `:` of this key (`PlainKey.findIndicator_iff`), except where reader and search take
a part of the line for different things: a form feed, a comment, a carriage return alone, or a NUL
(`Strays`, `PlainKey.not_own`).
-/

namespace ChartLift.Yaml.Layout

open Text (Bytes)
open Text.Utf8

/-! ## Bytes of the line of a key -/

/-- Whether a character does not look like a blank behind a `:`. -/
def isWide (x : Char) : Bool := !(encodeChar x).head?.all isAsciiBlank

/-- The search passes over bytes that neither end the line nor are a `:`. -/
lemma colonIn_append {bytes : Bytes} (rest : Bytes) (plain : ∀ b ∈ bytes, b ≠ 10 ∧ b ≠ 58) :
    colonIn (bytes ++ rest) = (colonIn rest).map (· + bytes.length) := by
  induction bytes with
  | nil => simp
  | cons b bytes ih =>
    obtain ⟨⟨feed, colon⟩, plain⟩ := List.forall_mem_cons.mp plain
    rw [List.cons_append, colonIn, if_neg (by simpa using feed), if_neg (by simp [colon]), ih plain,
      Option.map_map]
    congr 1

lemma all_head?_encode (x : Char) (rest : List Char) :
    (encode (x :: rest)).head?.all isAsciiBlank = !isWide x := by
  rw [encode_cons, isWide, Bool.not_not]
  cases bytes : encodeChar x with
  | nil => exact absurd bytes (encodeChar_ne_nil x)
  | cons => rfl

/-- Of the characters that are solid for a scalar only a form feed looks like a blank. -/
lemma isWide_iff {x : Char} : isWide x = true ↔ isSolid x = true ∧ x ≠ '\x0c' := by
  constructor
  · intro wide
    constructor
    · rw [isSolid_iff, ← Bool.not_eq_true, ← Bool.not_eq_true, ← not_or]
      simp only [isSpaceOrTab, isBreak, Bool.or_eq_true, beq_iff_eq]
      rintro ((rfl | rfl) | (rfl | rfl)) <;> cases wide
    · rintro rfl
      cases wide
  · rintro ⟨solid, apart⟩
    rw [isWide, Bool.not_eq_true']
    cases bytes : encodeChar x with
    | nil => exact absurd bytes (encodeChar_ne_nil x)
    | cons b rest =>
      rw [List.head?_cons, Option.all_some]
      refine Bool.eq_false_iff.mpr fun blank => ?_
      have mem : b ∈ encodeChar x := bytes ▸ List.mem_cons_self
      simp only [isAsciiBlank, Bool.or_eq_true, beq_iff_eq] at blank
      rcases blank with (((rfl | rfl) | rfl) | rfl) | rfl
      · cases eq_of_mem_encodeChar (d := ' ') mem (by decide) (by decide)
        cases solid
      · cases eq_of_mem_encodeChar (d := '\t') mem (by decide) (by decide)
        cases solid
      · cases eq_of_mem_encodeChar (d := '\n') mem (by decide) (by decide)
        cases solid
      · exact apart (eq_of_mem_encodeChar mem (by decide) (by decide))
      · cases eq_of_mem_encodeChar (d := '\r') mem (by decide) (by decide)
        cases solid

/-- The search passes over a character that does not end the line and is no `:` with a blank behind
it. -/
lemma colonIn_encode_cons {x : Char} {rest : List Char} (feed : x ≠ '\n')
    (goes : x = ':' → ∃ y ∈ rest.head?, isWide y = true) :
    colonIn (encode (x :: rest)) = (colonIn (encode rest)).map (· + (encodeChar x).length) := by
  by_cases colon : x = ':'
  · obtain ⟨y, next, wide⟩ := goes colon
    subst colon
    obtain ⟨tail, rfl⟩ := List.head?_eq_some_iff.mp next
    have apart := all_head?_encode y tail
    rw [wide, Bool.not_true] at apart
    show colonIn (58 :: encode (y :: tail)) = _
    rw [colonIn, if_neg (by decide), apart, Bool.and_false, if_neg Bool.false_ne_true]
    rfl
  · refine colonIn_append _ fun b mem => ⟨?_, ?_⟩
    · rintro rfl
      exact feed (eq_of_mem_encodeChar mem (by decide) (by decide))
    · rintro rfl
      exact colon (eq_of_mem_encodeChar mem (by decide) (by decide))

/-- The search passes over a text within the line in which no `:` has a blank behind it. -/
lemma colonIn_encode_append {front : List Char} (rest : List Char) (inLine : ∀ x ∈ front, x ≠ '\n')
    (closed : Closed isWide front rest) :
    colonIn (encode (front ++ rest)) = (colonIn (encode rest)).map (· + (encode front).length) := by
  induction front with
  | nil => simp [encode]
  | cons x front ih =>
    obtain ⟨feed, inLine⟩ := List.forall_mem_cons.mp inLine
    rw [List.cons_append, colonIn_encode_cons feed closed.1, ih inLine closed.2, Option.map_map,
      encode_cons, List.length_append]
    congr 1
    funext n
    exact (Nat.add_assoc ..).trans (congrArg _ (Nat.add_comm ..))

/-- Behind what is found a blank stands, or nothing. -/
lemma blank_of_colonIn {bytes : Bytes} {n : Nat} (h : colonIn bytes = some n) :
    bytes[n + 1]?.all isAsciiBlank = true := by
  induction bytes generalizing n with
  | nil => cases h
  | cons b rest ih =>
    rw [colonIn] at h
    split at h
    · cases h
    · split at h
      next found =>
        cases h
        rw [List.getElem?_cons_succ, ← List.head?_eq_getElem?]
        exact (Bool.and_eq_true_iff.mp found).2
      next =>
        obtain ⟨m, found, rfl⟩ := Option.map_eq_some_iff.mp h
        exact ih found

/-- Nothing is found beyond a `:` with a blank behind it. -/
lemma le_of_colonIn {front rest : Bytes} {b : UInt8} {n : Nat} (blank : isAsciiBlank b = true)
    (h : colonIn (front ++ 58 :: b :: rest) = some n) : n ≤ front.length := by
  induction front generalizing n with
  | nil =>
    rw [List.nil_append, colonIn, if_neg (by decide), if_pos (by simpa using blank)] at h
    cases h
    exact Nat.le_refl 0
  | cons a front ih =>
    rw [List.cons_append, colonIn] at h
    split at h
    · cases h
    · split at h
      · cases h
        exact Nat.zero_le _
      · obtain ⟨m, found, rfl⟩ := Option.map_eq_some_iff.mp h
        exact Nat.succ_le_succ (ih found)

/-- The search for the `:` of a key that is not quoted begins where the key does. -/
lemma findIndicator_encode {front rest : List Char} {x : Char} (double : x ≠ '"')
    (single : x ≠ '\'') :
    findIndicator (encode (front ++ x :: rest)) (encode front).length =
      (colonIn (encode (x :: rest))).map (· + (encode front).length) := by
  have drop : (encode (front ++ x :: rest)).drop (encode front).length = encode (x :: rest) := by
    rw [encode_append, List.drop_left]
  have begins :
      keyStop (encode (front ++ x :: rest)) (encode front).length = (encode front).length := by
    rw [keyStop, drop, encode_cons]
    cases bytes : encodeChar x with
    | nil => exact absurd bytes (encodeChar_ne_nil x)
    | cons b tail =>
      have mem : b ∈ encodeChar x := bytes ▸ List.mem_cons_self
      split
      next eq =>
        obtain ⟨rfl, -⟩ := List.cons.inj eq
        exact absurd (eq_of_mem_encodeChar mem (by decide) (by decide)) double
      next eq =>
        obtain ⟨rfl, -⟩ := List.cons.inj eq
        exact absurd (eq_of_mem_encodeChar mem (by decide) (by decide)) single
      next => rfl
  rw [findIndicator_eq, begins, drop]

/-! ## Keys -/

/-- That the key of an entry is written as a plain scalar of a block on one line, with a text behind
it: it stands where the entry says that it starts, and it is what a plain scalar that begins there
is read to. -/
structure PlainKey (text : List Char) (entry : Entry) (name after : List Char) : Prop where
  key : entry.key = some (String.ofList name)
  /-- The text has the key where the entry says that it starts. -/
  place : ∃ front, text = front ++ (name ++ after) ∧ entry.keySpan.start = (encode front).length
  begins : ∃ x ∈ name.head?, isSolid x = true ∧ x ≠ '"' ∧ x ≠ '\''
  oneLine : ∀ x ∈ name, isBreak x = false ∧ x ≠ '\x00'
  /-- A reader of the text, which ends for it at a NUL, reads the key there. -/
  reads : ∃ indent fuel s s', s.gap = .none ∧ indent ≤ (s.cursor.column : Int) + 1 ∧
    s.cursor.rest = (name ++ after).takeWhile (· != '\x00') ∧
    plainFrom false indent fuel s = some (name, s')

/-- That an offset is that of the `:` of a key, behind its text and only blanks. -/
def Own (entry : Entry) (name after : List Char) (c : Nat) : Prop :=
  ∃ blanks behind, after = blanks ++ ':' :: behind ∧ (∀ x ∈ blanks, isSpaceOrTab x = true) ∧
    c = entry.keySpan.start + (encode (name ++ blanks)).length

/-- That something is on the line of a key that its reader and the search for its `:` take for
different things. -/
inductive Strays : List Char → List Char → Prop where
  /-- A `:` inside the key with a form feed behind it, which is no blank for the reader. -/
  | formFeed {front tail after} :
    Strays (front ++ ':' :: '\x0c' :: tail) after
  /-- A comment, which is a part of the line for the search. -/
  | comment {name blanks tail} :
    (∀ x ∈ blanks, isSpaceOrTab x = true) →
    Strays name (blanks ++ '#' :: tail)
  /-- A carriage return alone, which ends no line for the search. -/
  | ret {name blanks tail} :
    (∀ x ∈ blanks, isSpaceOrTab x = true) →
    tail.head? ≠ some '\n' →
    Strays name (blanks ++ '\r' :: tail)
  /-- A NUL, at which the text ends for the reader. -/
  | nul {name blanks tail} :
    (∀ x ∈ blanks, isSpaceOrTab x = true) →
    Strays name (blanks ++ '\x00' :: tail)
  /-- A NUL behind the `:` of the key. -/
  | colonNul {name blanks tail} :
    (∀ x ∈ blanks, isSpaceOrTab x = true) →
    Strays name (blanks ++ ':' :: '\x00' :: tail)

section

variable {text name after : List Char} {entry : Entry} {c : Nat}

lemma apart_cons {x : Char} {tail : List Char} (apart : isSpaceOrTab x = false) :
    ∀ y ∈ (x :: tail).head?, isSpaceOrTab y = false := by
  rintro y ⟨⟩
  exact apart

/-- Blanks in front of something else are told apart from it. -/
lemma eq_of_blank {blanks blanks' ahead ahead' : List Char}
    (blank : ∀ x ∈ blanks, isSpaceOrTab x = true) (blank' : ∀ x ∈ blanks', isSpaceOrTab x = true)
    (stop : ∀ x ∈ ahead.head?, isSpaceOrTab x = false)
    (stop' : ∀ x ∈ ahead'.head?, isSpaceOrTab x = false)
    (eq : blanks ++ ahead = blanks' ++ ahead') :
    blanks = blanks' ∧ ahead = ahead' :=
  Text.append_inj_of_all blank blank' (fun x mem => Bool.eq_false_iff.mp (stop x mem))
    (fun x mem => Bool.eq_false_iff.mp (stop' x mem)) eq

/-- Behind the blanks after a key there is at most one offset of its `:`. -/
lemma own_iff {blanks ahead : List Char} (blank : ∀ x ∈ blanks, isSpaceOrTab x = true)
    (stop : ∀ x ∈ ahead.head?, isSpaceOrTab x = false) :
    Own entry name (blanks ++ ahead) c ↔ ahead.head? = some ':' ∧
      c = entry.keySpan.start + (encode (name ++ blanks)).length := by
  constructor
  · rintro ⟨blanks', behind, eq, blank', rfl⟩
    obtain ⟨rfl, rfl⟩ := eq_of_blank blank blank' stop (apart_cons rfl) eq
    exact ⟨rfl, rfl⟩
  · rintro ⟨next, rfl⟩
    obtain ⟨behind, rfl⟩ := List.head?_eq_some_iff.mp next
    exact ⟨blanks, behind, rfl, blank, rfl⟩

/-- Nothing strays where neither a form feed is in the key nor a NUL behind its `:`. -/
lemma not_strays {blanks tail : List Char} (blank : ∀ x ∈ blanks, isSpaceOrTab x = true)
    (feedless : '\x0c' ∉ name) (more : tail.head? ≠ some '\x00') :
    ¬ Strays name (blanks ++ ':' :: tail) := by
  intro strays
  generalize eq : blanks ++ ':' :: tail = after at strays
  cases strays with
  | formFeed => simp at feedless
  | comment blank' => cases (eq_of_blank blank blank' (apart_cons rfl) (apart_cons rfl) eq).2
  | ret blank' => cases (eq_of_blank blank blank' (apart_cons rfl) (apart_cons rfl) eq).2
  | nul blank' => cases (eq_of_blank blank blank' (apart_cons rfl) (apart_cons rfl) eq).2
  | colonNul blank' =>
    cases (eq_of_blank blank blank' (apart_cons rfl) (apart_cons rfl) eq).2
    exact more rfl

/-- The search for the `:` of a key goes over its text. -/
lemma PlainKey.findIndicator_eq (plain : PlainKey text entry name after) :
    findIndicator (encode text) entry.keySpan.start =
      (colonIn (encode (name ++ after))).map (· + entry.keySpan.start) := by
  obtain ⟨front, rfl, start⟩ := plain.place
  obtain ⟨x, first, -, double, single⟩ := plain.begins
  obtain ⟨rest, rfl⟩ := List.head?_eq_some_iff.mp first
  rw [start, List.cons_append]
  exact findIndicator_encode double single

/-- What the reader takes for the key stands there as a plain scalar, up to where the text ends for
it. -/
lemma PlainKey.plainLine (plain : PlainKey text entry name after) :
    PlainLine name (after.takeWhile (· != '\x00')) := by
  obtain ⟨indent, fuel, s, s', fresh, within, rest, reads⟩ := plain.reads
  obtain ⟨x, first, solid, -⟩ := plain.begins
  obtain ⟨more, rfl⟩ := List.head?_eq_some_iff.mp first
  rw [List.takeWhile_append_of_pos fun y mem => by simpa using (plain.oneLine y mem).2] at rest
  exact plainLine_of_plainFrom reads fresh within rest solid fun y mem => (plain.oneLine y mem).1

/-- No form feed stands right behind a plain scalar. -/
lemma PlainLine.head?_ne (line : PlainLine name after) : after.head? ≠ some '\x0c' := by
  obtain ⟨blanks, ahead, rfl, blank, stops⟩ := line.ends
  intro first
  cases blanks with
  | nil =>
    obtain ⟨tail, eq⟩ := List.head?_eq_some_iff.mp first
    rcases stops _ tail eq with breaks | comment | ⟨colon, -⟩
    · cases breaks
    · cases comment
    · cases colon
  | cons y blanks =>
    cases first
    cases blank _ List.mem_cons_self

/-- Where no `:` of a plain scalar has a form feed behind it, none looks as if it had a blank
there. -/
lemma closed_isWide {ahead : List Char} (closed : Closed isSolid name ahead)
    (apart : ∀ front tail, name ≠ front ++ ':' :: '\x0c' :: tail)
    (next : ahead.head? ≠ some '\x0c') (more : List Char) : Closed isWide name (ahead ++ more) := by
  induction name with
  | nil => trivial
  | cons x name ih =>
    refine ⟨fun colon => ?_,
      ih closed.2 fun front tail eq => apart (x :: front) tail (congrArg _ eq)⟩
    obtain ⟨y, first, solid⟩ := closed.1 colon
    have feed : y ≠ '\x0c' := by
      rintro rfl
      cases name with
      | nil => exact next first
      | cons z name =>
        cases first
        exact apart [] name (by rw [colon]; rfl)
    obtain ⟨rest, eq⟩ := List.head?_eq_some_iff.mp first
    refine ⟨y, ?_, isWide_iff.mpr ⟨solid, feed⟩⟩
    rw [← List.append_assoc, eq]
    rfl

/-- Behind blanks where nothing strays the search is at a `:`, or comes to none. -/
lemma colonIn_of_stops {blanks ahead beyond : List Char}
    (blank : ∀ x ∈ blanks, isSpaceOrTab x = true) (stops : Stops ahead)
    (ended : ∀ x ∈ beyond.head?, x = '\x00')
    (straight : ¬ Strays name (blanks ++ (ahead ++ beyond))) :
    (∀ x ∈ (ahead ++ beyond).head?, isSpaceOrTab x = false) ∧
      colonIn (encode (ahead ++ beyond)) =
        if (ahead ++ beyond).head? = some ':' then some 0 else none := by
  cases ahead with
  | nil =>
    cases beyond with
    | nil => exact ⟨nofun, rfl⟩
    | cons x beyond =>
      obtain rfl := ended x rfl
      exact absurd (.nul blank) straight
  | cons x rest =>
    rcases stops x rest rfl with breaks | rfl | ⟨rfl, next⟩
    · rcases (by simpa [isBreak] using breaks : x = '\n' ∨ x = '\r') with rfl | rfl
      · exact ⟨apart_cons rfl, rfl⟩
      · by_cases feed : (rest ++ beyond).head? = some '\n'
        · obtain ⟨tail, eq⟩ := List.head?_eq_some_iff.mp feed
          rw [List.cons_append, eq]
          exact ⟨apart_cons rfl, rfl⟩
        · exact absurd (.ret blank feed) straight
    · exact absurd (.comment blank) straight
    · refine ⟨apart_cons rfl, ?_⟩
      show colonIn (58 :: encode (rest ++ beyond)) = some 0
      rw [colonIn, if_neg (by decide), if_pos]
      rw [beq_self_eq_true, Bool.true_and]
      cases rest with
      | nil =>
        cases beyond with
        | nil => rfl
        | cons y beyond =>
          obtain rfl := ended y rfl
          exact absurd (.colonNul blank) straight
      | cons y rest =>
        have apart : isSolid y = false := by simpa [isBlankOrEnd] using next
        rw [List.cons_append, all_head?_encode, Bool.not_eq_true']
        exact Bool.eq_false_iff.mpr fun wide =>
          Bool.noConfusion ((isWide_iff.mp wide).1.symm.trans apart)

/-- Where nothing strays, the search for the `:` of a key comes to the blanks behind it, and ends
right behind them. -/
lemma PlainKey.colonIn_eq (plain : PlainKey text entry name after)
    (straight : ¬ Strays name after) :
    ∃ blanks ahead, after = blanks ++ ahead ∧ (∀ x ∈ blanks, isSpaceOrTab x = true) ∧
      (∀ x ∈ ahead.head?, isSpaceOrTab x = false) ∧
      Closed isWide name after ∧
      colonIn (encode ahead) = if ahead.head? = some ':' then some 0 else none := by
  obtain ⟨-, closed, blanks, ahead, split, blank, stops⟩ := plain.plainLine
  obtain ⟨beyond, whole, ended⟩ : ∃ beyond, after = blanks ++ (ahead ++ beyond) ∧
      ∀ x ∈ beyond.head?, x = '\x00' := by
    refine ⟨after.dropWhile (· != '\x00'), ?_, fun x mem => ?_⟩
    · rw [← List.append_assoc, ← split, List.takeWhile_append_dropWhile]
    · have stop := List.head?_dropWhile_not (· != '\x00') after
      rw [Option.mem_def.mp mem] at stop
      simpa using stop
  subst whole
  obtain ⟨stop, found⟩ := colonIn_of_stops blank stops ended straight
  have next : (blanks ++ ahead).head? ≠ some '\x0c' := split ▸ plain.plainLine.head?_ne
  have apart : ∀ front tail, name ≠ front ++ ':' :: '\x0c' :: tail := by
    rintro front tail rfl
    exact straight .formFeed
  have wide := closed_isWide (split ▸ closed) apart next beyond
  rw [List.append_assoc] at wide
  exact ⟨blanks, ahead ++ beyond, rfl, blank, stop, wide, found⟩

/-- Where nothing strays, the `:` that is found for a key is its own, and is found. -/
lemma PlainKey.findIndicator_iff (plain : PlainKey text entry name after)
    (straight : ¬ Strays name after) :
    findIndicator (encode text) entry.keySpan.start = some c ↔ Own entry name after c := by
  obtain ⟨blanks, ahead, rfl, blank, stop, closed, found⟩ := plain.colonIn_eq straight
  have feedless : ∀ x ∈ name, x ≠ '\n' := by
    rintro x mem rfl
    cases (plain.oneLine _ mem).1
  have clear : ∀ x ∈ blanks, x ≠ '\n' ∧ x ≠ ':' := by
    intro x mem
    constructor <;>
    · rintro rfl
      cases blank _ mem
  rw [own_iff blank stop, plain.findIndicator_eq, colonIn_encode_append _ feedless closed,
    colonIn_encode_append _ (fun x mem => (clear x mem).1)
      (closed_of_forall_ne _ fun x mem => (clear x mem).2),
    found, encode_append, List.length_append]
  split
  next colon =>
    simp only [colon, Option.map_some, Option.some.injEq, true_and]
    omega
  next none => simp [none]

/-- Where something strays, the `:` that is found for a key, if any, is not its own. -/
lemma PlainKey.not_own (plain : PlainKey text entry name after) (strays : Strays name after)
    (found : findIndicator (encode text) entry.keySpan.start = some c) :
    ¬ Own entry name after c := by
  rw [plain.findIndicator_eq] at found
  obtain ⟨n, hit, rfl⟩ := Option.map_eq_some_iff.mp found
  cases strays with
  | @formFeed front tail =>
    rintro ⟨blanks, behind, rfl, -, place⟩
    rw [List.append_assoc, List.cons_append, encode_append] at hit
    have within := le_of_colonIn (b := 12) (by decide) hit
    rw [List.append_assoc, encode_append, List.length_append, List.cons_append, encode_cons,
      List.length_append] at place
    have : (encodeChar ':').length = 1 := rfl
    omega
  | comment blank =>
    rw [own_iff blank (apart_cons rfl)]
    rintro ⟨⟨⟩, -⟩
  | ret blank =>
    rw [own_iff blank (apart_cons rfl)]
    rintro ⟨⟨⟩, -⟩
  | nul blank =>
    rw [own_iff blank (apart_cons rfl)]
    rintro ⟨⟨⟩, -⟩
  | colonNul blank =>
    rw [own_iff blank (apart_cons rfl)]
    rintro ⟨-, place⟩
    have behind := blank_of_colonIn hit
    rw [← List.append_assoc, encode_append, List.getElem?_append_right (by omega)] at behind
    rw [show n + 1 - _ = 1 by omega] at behind
    cases behind

end

end ChartLift.Yaml.Layout
