import ChartLift.Proofs.Yaml.Content.Scalar

/-!
# Names, tags and directives of texts that go on alike

The scanners of anchors, tags and directives do not go back, and what they read within a stretch that
two texts share is the same in both.
-/

namespace ChartLift.Yaml.Content

open Fork

variable {f : Fork} {c c' d : Cursor}

/-! ## Versions and escapes -/

lemma versionNumber_le {n : Nat} (reads : versionNumber c = some (n, d)) :
    d.rest.length ≤ c.rest.length := by
  simp only [versionNumber, Option.ite_none_left_eq_some, Option.some.injEq, Prod.mk.injEq] at reads
  obtain ⟨-, -, rfl⟩ := reads
  exact advance_le c _

lemma versionNumber_twin {n : Nat} (twin : f.Twin c c') (reads : versionNumber c = some (n, d)) :
    ∃ d', versionNumber c' = some (n, d') ∧ f.Twin d d' := by
  have digits := @Twin.inside_skipWhile _ _ _ twin Char.isDigit rfl
  simp only [versionNumber, twin.ahead digits, Option.ite_none_left_eq_some, Option.some.injEq,
    Prod.mk.injEq] at reads ⊢
  obtain ⟨few, rfl, rfl⟩ := reads
  exact ⟨_, ⟨few, rfl, rfl⟩, twin.advance digits⟩

/-- The octet that an escape ahead writes. -/
def octet? (xs : List Char) : Option Nat :=
  match xs with
  | '%' :: a :: b :: _ => hexNumber? [a, b]
  | _ => none

/-- The last six bits of a trailing octet ahead. -/
def trail? (xs : List Char) : Option Nat :=
  (octet? xs).bind fun n => if n / 64 = 2 then some (n % 64) else none

/-- No escape of an octet holds a `:`. -/
lemma octet?_colon {xs : List Char} (colon : ':' ∈ xs.take 3) : octet? xs = none := by
  have digits (a b : Char) (no : a = ':' ∨ b = ':') : hexNumber? [a, b] = none := by
    rcases no with rfl | rfl <;> simp [hexNumber?, hexValue?]
  unfold octet?
  split
  case h_1 a b tail =>
    refine digits a b ?_
    simpa [eq_comm] using colon
  case h_2 => rfl

/-- An escape of an octet does not reach the `:` at the end of the stretch. -/
lemma octet?_ahead {xs xs' : List Char} (ahead : f.Ahead xs xs') :
    octet? xs' = octet? xs ∧ (octet? xs ≠ none → f.Ahead (xs.drop 3) (xs'.drop 3)) := by
  have parted (start far far' : List Char) (short : start.length < 3) :
      octet? (start ++ ':' :: far') = octet? (start ++ ':' :: far)
        ∧ (octet? (start ++ ':' :: far) ≠ none → f.Ahead ((start ++ ':' :: far).drop 3)
          ((start ++ ':' :: far').drop 3)) := by
    have colon (far : List Char) : octet? (start ++ ':' :: far) = none := by
      refine octet?_colon ?_
      rw [List.take_append, List.mem_append]
      right
      obtain ⟨n, eq⟩ : ∃ n, 3 - start.length = n + 1 := ⟨2 - start.length, by omega⟩
      simp [eq]
    simp [colon]
  cases xs with
  | nil =>
    obtain rfl := ahead.nil
    simp [octet?]
  | cons x xs =>
    obtain ⟨ys, rfl, one | ⟨rfl, rfl, rfl⟩⟩ := ahead.cons
    · cases xs with
      | nil =>
        obtain rfl := one.nil
        simp [octet?]
      | cons a xs =>
        obtain ⟨ys, rfl, two | ⟨rfl, rfl, rfl⟩⟩ := one.cons
        · cases xs with
          | nil =>
            obtain rfl := two.nil
            simp [octet?]
          | cons b xs =>
            obtain ⟨ys, rfl, three | ⟨rfl, rfl, rfl⟩⟩ := two.cons
            · refine ⟨?_, fun _ => three⟩
              by_cases percent : x = '%'
              · simp [octet?, percent]
              · simp [octet?, percent]
            · exact parted [x, a] _ _ (by simp)
        · exact parted [x] _ _ (by simp)
    · exact parted [] _ _ (by decide)

lemma trail?_ahead {xs xs' : List Char} (ahead : f.Ahead xs xs') :
    trail? xs' = trail? xs ∧ (trail? xs ≠ none → f.Ahead (xs.drop 3) (xs'.drop 3)) := by
  obtain ⟨same, on⟩ := octet?_ahead ahead
  refine ⟨by simp only [trail?, same], fun some => on fun none => some (by simp [trail?, none])⟩

/-- An escape of a character does not reach the `:` at the end of the stretch. -/
lemma takeUriEscapes_ahead {xs xs' : List Char} (ahead : f.Ahead xs xs') {x : Char} {count : Nat}
    (reads : takeUriEscapes xs = some (x, count)) :
    0 < count ∧ takeUriEscapes xs' = some (x, count) ∧ f.Ahead (xs.drop count) (xs'.drop count) := by
  -- behind `n` characters of the stretch an octet goes on in both texts
  have trail {n : Nat} (on : f.Ahead (xs.drop n) (xs'.drop n)) {a : Nat}
      (found : trail? (xs.drop n) = some a) :
      trail? (xs'.drop n) = some a ∧ f.Ahead (xs.drop (n + 3)) (xs'.drop (n + 3)) := by
    obtain ⟨same, on⟩ := trail?_ahead on
    exact ⟨same.trans found, by simpa using on (by simp [found])⟩
  obtain ⟨same, on⟩ := octet?_ahead ahead
  obtain ⟨first, found, reads⟩ := Option.bind_eq_some_iff.mp reads
  change octet? xs = some first at found
  have one := on (by simp [found])
  rw [show takeUriEscapes xs' = _ from congrArg (Option.bind · _) (same.trans found),
    Option.bind_some]
  split at reads
  case isTrue ascii =>
    obtain ⟨rfl, rfl⟩ : Char.ofNat first = x ∧ 3 = count := by simpa using reads
    exact ⟨by decide, by rw [if_pos ascii]; rfl, one⟩
  case isFalse wide =>
  rw [if_neg wide]
  split at reads
  case isTrue two =>
    rw [if_pos two]
    obtain ⟨a, second, reads⟩ := Option.bind_eq_some_iff.mp reads
    obtain ⟨second', two⟩ := trail one second
    obtain ⟨rfl, rfl⟩ : _ ∧ 6 = count := by simpa using reads
    exact ⟨by decide, congrArg (Option.bind · _) second', two⟩
  case isFalse noTwo =>
  rw [if_neg noTwo]
  split at reads
  case isTrue three =>
    rw [if_pos three]
    obtain ⟨a, second, reads⟩ := Option.bind_eq_some_iff.mp reads
    obtain ⟨b, third, reads⟩ := Option.bind_eq_some_iff.mp reads
    obtain ⟨second', two⟩ := trail one second
    obtain ⟨third', three⟩ := trail two third
    obtain ⟨rfl, rfl⟩ : _ ∧ 9 = count := by simpa using reads
    refine ⟨by decide, (congrArg (Option.bind · _) second').trans ?_, three⟩
    exact congrArg (Option.bind · _) third'
  case isFalse noThree =>
  rw [if_neg noThree]
  split at reads
  case isTrue four =>
    rw [if_pos four]
    obtain ⟨a, second, reads⟩ := Option.bind_eq_some_iff.mp reads
    obtain ⟨b, third, reads⟩ := Option.bind_eq_some_iff.mp reads
    obtain ⟨e, fourth, reads⟩ := Option.bind_eq_some_iff.mp reads
    obtain ⟨second', two⟩ := trail one second
    obtain ⟨third', three⟩ := trail two third
    obtain ⟨fourth', four⟩ := trail three fourth
    obtain ⟨rfl, rfl⟩ : _ ∧ 12 = count := by simpa using reads
    refine ⟨by decide, (congrArg (Option.bind · _) second').trans ?_, four⟩
    refine (congrArg (Option.bind · _) third').trans ?_
    exact congrArg (Option.bind · _) fourth'
  case isFalse => simp at reads

lemma uriCharacters_le {verbatim : Bool} {fuel : Nat} {text : List Char}
    (reads : uriCharacters verbatim fuel c = some (text, d)) : d.rest.length ≤ c.rest.length := by
  induction fuel generalizing c text with
  | zero => simp [uriCharacters] at reads
  | succ fuel ih =>
    rw [uriCharacters] at reads
    split at reads
    · simp_all
    · split at reads
      · split at reads
        · obtain ⟨⟨y, count⟩, -, reads⟩ := Option.bind_eq_some_iff.mp reads
          obtain ⟨⟨later, e⟩, tail, result⟩ := Option.bind_eq_some_iff.mp reads
          obtain ⟨-, rfl⟩ : _ ∧ e = d := by simpa using result
          exact Nat.le_trans (ih tail) (advance_le c count)
        · obtain ⟨⟨later, e⟩, tail, result⟩ := Option.bind_eq_some_iff.mp reads
          obtain ⟨-, rfl⟩ : _ ∧ e = d := by simpa using result
          exact Nat.le_trans (ih tail) (advance_le c 1)
      · simp_all

lemma uriCharacters_twin {verbatim : Bool} {fuel : Nat} {text : List Char} (twin : f.Twin c c')
    (reads : uriCharacters verbatim fuel c = some (text, d)) (inside : f.Inside d) {fuel' : Nat}
    (enough : c'.rest.length < fuel') :
    ∃ d', uriCharacters verbatim fuel' c' = some (text, d') ∧ f.Twin d d' := by
  induction fuel generalizing c c' text fuel' with
  | zero => simp [uriCharacters] at reads
  | succ fuel ih =>
    obtain ⟨fuel', rfl⟩ : ∃ n, fuel' = n + 1 := ⟨fuel' - 1, by omega⟩
    have first := twin.rest
    rw [uriCharacters] at reads ⊢
    cases rest : c.rest with
    | nil =>
      rw [rest] at first
      simp only [rest, first.nil, Option.some.injEq, Prod.mk.injEq] at reads ⊢
      obtain ⟨rfl, rfl⟩ := reads
      exact ⟨c', ⟨rfl, rfl⟩, twin⟩
    | cons x later =>
      rw [rest] at first
      obtain ⟨later', rest', -⟩ := first.cons
      have short {count : Nat} (positive : 0 < count) : (c'.advance count).rest.length < fuel' := by
        simp only [Cursor.advance, rest', List.length_drop, List.length_cons] at enough ⊢
        omega
      simp only [rest, rest'] at reads ⊢
      split at reads
      case isTrue fits =>
        rw [if_pos fits]
        split at reads
        case isTrue percent =>
          rw [if_pos percent]
          obtain ⟨⟨y, count⟩, escape, reads⟩ := Option.bind_eq_some_iff.mp reads
          obtain ⟨⟨tail, e⟩, tailReads, result⟩ := Option.bind_eq_some_iff.mp reads
          obtain ⟨rfl, rfl⟩ : y :: tail = text ∧ e = d := by simpa using result
          obtain ⟨positive, escape', -⟩ := takeUriEscapes_ahead first escape
          rw [rest'] at escape'
          obtain ⟨d', tail', last⟩ := ih (twin.advance (inside.mono (uriCharacters_le tailReads)))
            tailReads (short positive)
          exact ⟨d', by simp [escape', tail'], last⟩
        case isFalse plain =>
          rw [if_neg plain]
          obtain ⟨⟨tail, e⟩, tailReads, result⟩ := Option.bind_eq_some_iff.mp reads
          obtain ⟨rfl, rfl⟩ : x :: tail = text ∧ e = d := by simpa using result
          obtain ⟨d', tail', last⟩ := ih (twin.advance (inside.mono (uriCharacters_le tailReads)))
            tailReads (short (by decide))
          exact ⟨d', by simp [tail'], last⟩
      case isFalse other =>
        rw [if_neg other]
        simp only [Option.some.injEq, Prod.mk.injEq] at reads ⊢
        obtain ⟨rfl, rfl⟩ := reads
        exact ⟨c', ⟨rfl, rfl⟩, twin⟩

lemma tagUri_le {verbatim : Bool} {head text : List Char}
    (reads : tagUri verbatim head c = some (text, d)) : d.rest.length ≤ c.rest.length := by
  obtain ⟨⟨tail, e⟩, characters, reads⟩ := Option.bind_eq_some_iff.mp reads
  simp only [Option.ite_none_left_eq_some, Option.some.injEq, Prod.mk.injEq] at reads
  obtain ⟨-, -, rfl⟩ := reads
  exact uriCharacters_le characters

lemma tagUri_twin {verbatim : Bool} {head text : List Char} (twin : f.Twin c c')
    (reads : tagUri verbatim head c = some (text, d)) (inside : f.Inside d) :
    ∃ d', tagUri verbatim head c' = some (text, d') ∧ f.Twin d d' := by
  obtain ⟨⟨tail, e⟩, characters, reads⟩ := Option.bind_eq_some_iff.mp reads
  simp only [Option.ite_none_left_eq_some, Option.some.injEq, Prod.mk.injEq] at reads
  obtain ⟨some, rfl, rfl⟩ := reads
  obtain ⟨d', characters', last⟩ := uriCharacters_twin twin characters inside (Nat.lt_succ_self _)
  exact ⟨d', by simp only [tagUri, characters', Option.bind_eq_bind, Option.bind_some, if_neg some],
    last⟩

/-! ## Tag handles -/

/-- The word of a tag's handle, behind its exclamation mark. -/
def word (c : Cursor) : List Char := (c.advance 1).ahead isWordCharacter

/-- The place behind that word. -/
def pastWord (c : Cursor) : Cursor := c.advance ((word c).length + 1)

lemma tagHandle_eq (c : Cursor) :
    tagHandle c =
      if c.sees '!' then
        if (pastWord c).sees '!' then some ('!' :: word c ++ ['!'], (pastWord c).advance 1)
        else some ('!' :: word c, pastWord c)
      else none := rfl

lemma tagHandle_lt {handle : List Char} (reads : tagHandle c = some (handle, d)) :
    d.rest.length < c.rest.length := by
  rw [tagHandle_eq] at reads
  by_cases mark : c.sees '!' = true
  · have one := advance_lt (by simpa [Cursor.sees] using mark : c.peek = some '!')
    have word : (pastWord c).rest.length < c.rest.length := by
      simp only [pastWord, Cursor.advance, List.length_drop] at one ⊢
      omega
    rw [if_pos mark] at reads
    split at reads
    · obtain ⟨-, rfl⟩ : _ ∧ (pastWord c).advance 1 = d := by simpa using reads
      exact Nat.lt_of_le_of_lt (advance_le _ 1) word
    · obtain ⟨-, rfl⟩ : _ ∧ pastWord c = d := by simpa using reads
      exact word
  · simp [mark] at reads

lemma tagHandle_twin {handle : List Char} (twin : f.Twin c c')
    (reads : tagHandle c = some (handle, d)) :
    ∃ d', tagHandle c' = some (handle, d') ∧ f.Twin d d' := by
  rw [tagHandle_eq] at reads ⊢
  rw [twin.sees]
  split at reads
  case isTrue mark =>
    rw [if_pos mark]
    have behind := twin.advance_one (by simpa [Cursor.sees] using mark : c.peek = some '!') (by decide)
    have inside := @Twin.inside_skipWhile _ _ _ behind isWordCharacter rfl
    have same : word c' = word c := behind.ahead inside
    have past : f.Twin (pastWord c) (pastWord c') := by
      simp only [pastWord, same]
      refine twin.advance (inside.mono (Nat.le_of_eq ?_))
      simp only [Cursor.skipWhile, Cursor.advance, List.length_drop, word]
      omega
    rw [past.sees, same]
    split at reads
    case isTrue again =>
      simp only [Option.some.injEq, Prod.mk.injEq] at reads
      obtain ⟨rfl, rfl⟩ := reads
      have next : (pastWord c).peek = some '!' := by simpa [Cursor.sees] using again
      exact ⟨_, by rw [if_pos again], past.advance_one next (by decide)⟩
    case isFalse once =>
      simp only [Option.some.injEq, Prod.mk.injEq] at reads
      obtain ⟨rfl, rfl⟩ := reads
      exact ⟨_, by rw [if_neg once], past⟩
  case isFalse => simp at reads

/-! ## Directives -/

/-- What a directive says behind its name: a version, or a handle and what it stands for. -/
def directiveBody (name : List Char) (c : Cursor) : Option (TokenKind × Cursor) := do
  if name = "YAML".toList then
    let (major, c) ← versionNumber c
    if !c.sees '.' then none
    else
      let (minor, c) ← versionNumber (c.advance 1)
      pure (TokenKind.versionDirective major minor, c)
  else if name = "TAG".toList then
    let (handle, c) ← tagHandle c
    if !(handle = ['!'] || handle.getLast? == some '!') || !c.peek.any isSpaceOrTab then none
    else
      let (stem, c) ← tagUri true [] (c.skipWhile isSpaceOrTab)
      if !isBlankOrEnd c.peek then none
      else pure (TokenKind.tagDirective (String.ofList handle) (String.ofList stem), c)
  else none

lemma directive_eq (c : Cursor) :
    directive c =
      let behind := c.skipWhile isWordCharacter
      if !isBlankOrEnd behind.peek then none
      else
        (directiveBody (c.ahead isWordCharacter) (behind.skipWhile isSpaceOrTab)).bind fun (kind, c) =>
          (toLineEnd c).bind fun c => some (kind, (takeBreak c).2) := by
  have push {α β : Type} (p : Prop) [Decidable p] (m : Option α) (k : α → Option β) :
      (if p then none else m).bind k = if p then none else m.bind k := by split <;> rfl
  simp only [directive, directiveBody, Cursor.skipWhile, Option.bind_eq_bind, Option.pure_def]
  by_cases blank : (!isBlankOrEnd (c.advance (c.ahead isWordCharacter).length).peek) = true
  · simp only [if_pos blank]
  · by_cases yaml : c.ahead isWordCharacter = "YAML".toList
    · simp only [if_neg blank, if_pos yaml, Option.bind_assoc, push, Option.bind_some,
        Option.bind_none]
    · by_cases tag : c.ahead isWordCharacter = "TAG".toList
      · simp only [if_neg blank, if_neg yaml, if_pos tag, Option.bind_assoc, push, Option.bind_some,
        Option.bind_none]
      · simp only [if_neg blank, if_neg yaml, if_neg tag, Option.bind_none]

lemma directiveBody_le {name : List Char} {kind : TokenKind}
    (reads : directiveBody name c = some (kind, d)) : d.rest.length ≤ c.rest.length := by
  unfold directiveBody at reads
  split at reads
  · obtain ⟨⟨major, e⟩, first, reads⟩ := Option.bind_eq_some_iff.mp reads
    simp only at reads
    split at reads
    · simp at reads
    · obtain ⟨⟨minor, e₁⟩, second, result⟩ := Option.bind_eq_some_iff.mp reads
      obtain ⟨-, rfl⟩ : _ ∧ e₁ = d := by simpa using result
      have := versionNumber_le second
      have := advance_le e 1
      have := versionNumber_le first
      omega
  · split at reads
    · obtain ⟨⟨handle, e⟩, first, reads⟩ := Option.bind_eq_some_iff.mp reads
      simp only at reads
      split at reads
      · simp at reads
      · obtain ⟨⟨stem, e₁⟩, second, reads⟩ := Option.bind_eq_some_iff.mp reads
        simp only at reads
        split at reads
        · simp at reads
        · obtain ⟨-, rfl⟩ : _ ∧ e₁ = d := by simpa using reads
          have := tagUri_le second
          have := skipWhile_le e isSpaceOrTab
          have := tagHandle_lt first
          omega
    · simp at reads

lemma directiveBody_twin {name : List Char} {kind : TokenKind} (twin : f.Twin c c')
    (reads : directiveBody name c = some (kind, d)) (inside : f.Inside d) :
    ∃ d', directiveBody name c' = some (kind, d') ∧ f.Twin d d' := by
  unfold directiveBody at reads ⊢
  split at reads
  case isTrue yaml =>
    rw [if_pos yaml]
    obtain ⟨⟨major, e⟩, first, reads⟩ := Option.bind_eq_some_iff.mp reads
    obtain ⟨e', first', behind⟩ := versionNumber_twin twin first
    simp only [first', Option.bind_eq_bind, Option.bind_some, behind.sees] at reads ⊢
    split at reads
    · simp at reads
    case isFalse dot =>
      rw [if_neg dot]
      obtain ⟨⟨minor, e₁⟩, second, result⟩ := Option.bind_eq_some_iff.mp reads
      simp only [Option.pure_def, Option.some.injEq, Prod.mk.injEq] at result
      obtain ⟨rfl, rfl⟩ := result
      have next : e.peek = some '.' := by simpa [Cursor.sees] using dot
      obtain ⟨e₁', second', last⟩ := versionNumber_twin (behind.advance_one next (by decide)) second
      exact ⟨e₁', by simp [second'], last⟩
  case isFalse other =>
  rw [if_neg other]
  split at reads
  case isTrue tag =>
    rw [if_pos tag]
    obtain ⟨⟨handle, e⟩, first, reads⟩ := Option.bind_eq_some_iff.mp reads
    obtain ⟨e', first', behind⟩ := tagHandle_twin twin first
    simp only [first', Option.bind_eq_bind, Option.bind_some, behind.peek] at reads ⊢
    split at reads
    · simp at reads
    case isFalse blank =>
      rw [if_neg blank]
      obtain ⟨⟨stem, e₁⟩, second, reads⟩ := Option.bind_eq_some_iff.mp reads
      simp only at reads
      split at reads
      · simp at reads
      case isFalse ends =>
        simp only [Option.pure_def, Option.some.injEq, Prod.mk.injEq] at reads
        obtain ⟨rfl, rfl⟩ := reads
        obtain ⟨e₁', second', last⟩ :=
          tagUri_twin (behind.skipWhile (behind.inside_skipWhile rfl)) second inside
        exact ⟨e₁', by simp only [second', Option.bind_some, last.peek, if_neg ends, Option.pure_def], last⟩
  case isFalse => simp at reads

lemma directive_le {kind : TokenKind} (reads : directive c = some (kind, d)) :
    d.rest.length ≤ c.rest.length := by
  rw [directive_eq] at reads
  simp only at reads
  split at reads
  · simp at reads
  · obtain ⟨⟨kind, e⟩, body, reads⟩ := Option.bind_eq_some_iff.mp reads
    obtain ⟨e₁, ends, result⟩ := Option.bind_eq_some_iff.mp reads
    obtain ⟨-, rfl⟩ : _ ∧ (takeBreak e₁).2 = d := by simpa using result
    have name := Nat.le_trans (skipWhile_le _ isSpaceOrTab) (skipWhile_le c isWordCharacter)
    have line := Nat.le_trans (takeBreak_le e₁) (toLineEnd_le ends)
    exact Nat.le_trans line (Nat.le_trans (directiveBody_le body) name)

lemma directive_twin {kind : TokenKind} (twin : f.Twin c c') (reads : directive c = some (kind, d))
    (inside : f.Inside d) : ∃ d', directive c' = some (kind, d') ∧ f.Twin d d' := by
  have within := @Twin.inside_skipWhile _ _ _ twin isWordCharacter rfl
  have name := twin.skipWhile within
  have blanks := name.skipWhile (@Twin.inside_skipWhile _ _ _ name isSpaceOrTab rfl)
  rw [directive_eq] at reads ⊢
  simp only [twin.ahead within, name.peek] at reads ⊢
  split at reads
  · simp at reads
  case isFalse blank =>
    rw [if_neg blank]
    obtain ⟨⟨kind, e⟩, body, reads⟩ := Option.bind_eq_some_iff.mp reads
    obtain ⟨e₁, ends, result⟩ := Option.bind_eq_some_iff.mp reads
    simp only [Option.some.injEq, Prod.mk.injEq] at result
    obtain ⟨rfl, rfl⟩ := result
    have line := inside.mono (takeBreak_le e₁)
    obtain ⟨e', body', behind⟩ := directiveBody_twin blanks body (line.mono (toLineEnd_le ends))
    obtain ⟨e₁', ends', behind⟩ := toLineEnd_twin behind ends line
    refine ⟨(takeBreak e₁').2, ?_, (takeBreak_twin behind inside).2⟩
    simp only [body', ends', Option.bind_some]

/-! ## Anchors and tags -/

lemma anchorName_le {name : String} (reads : anchorName c = some (name, d)) :
    d.rest.length ≤ c.rest.length := by
  simp only [anchorName, Option.ite_none_left_eq_some, Option.some.injEq, Prod.mk.injEq] at reads
  obtain ⟨-, -, rfl⟩ := reads
  exact advance_le c _

/-- The name of an anchor ends before the `:` at the end of the stretch. -/
lemma anchorName_twin {name : String} (twin : f.Twin c c') (reads : anchorName c = some (name, d)) :
    ∃ d', anchorName c' = some (name, d') ∧ f.Twin d d' := by
  have within := @Twin.inside_skipWhile _ _ _ twin isWordCharacter rfl
  have behind := twin.skipWhile within
  simp only [Cursor.skipWhile, twin.ahead within] at behind
  simp only [anchorName, twin.ahead within, behind.peek, Option.ite_none_left_eq_some,
    Option.some.injEq, Prod.mk.injEq] at reads ⊢
  obtain ⟨some, rfl, rfl⟩ := reads
  exact ⟨_, ⟨some, rfl, rfl⟩, behind⟩

/-- A tag's handle and suffix: verbatim between angle brackets, with a handle, or short. -/
def tagBody (c : Cursor) : Option (List Char × List Char × Cursor) := do
  if c.peekAt 1 == some '<' then
    let (uri, c) ← tagUri true [] (c.advance 2)
    if c.sees '>' then pure ([], uri, c.advance 1) else none
  else
    let (handle, after) ← tagHandle c
    if decide (1 < handle.length) && handle.getLast? == some '!' then
      let (suffix, c) ← tagUri false [] after
      pure (handle, suffix, c)
    else
      let (rest, c) ← uriCharacters false (after.rest.length + 1) after
      if (handle.drop 1 ++ rest).isEmpty then pure ([], ['!'], c)
      else pure (['!'], handle.drop 1 ++ rest, c)

lemma tag_eq (flow : Bool) (c : Cursor) :
    tag flow c =
      (tagBody c).bind fun (handle, suffix, c) =>
        if isBlankOrEnd c.peek || (flow && c.sees ',') then
          some (.tag (String.ofList handle) (String.ofList suffix), c)
        else none := by
  have push {α β : Type} (p : Prop) [Decidable p] (m m' : Option α) (k : α → Option β) :
      (if p then m else m').bind k = if p then m.bind k else m'.bind k := by split <;> rfl
  simp only [tag, tagBody, Option.bind_eq_bind, Option.pure_def]
  by_cases verbatim : (c.peekAt 1 == some '<') = true
  · simp only [if_pos verbatim, Option.bind_assoc, push, Option.bind_some, Option.bind_none]
  · simp only [if_neg verbatim, Option.bind_assoc, push, Option.bind_some, Option.bind_none]

lemma tagBody_lt {handle suffix : List Char} (reads : tagBody c = some (handle, suffix, d)) :
    d.rest.length < c.rest.length := by
  unfold tagBody at reads
  split at reads
  case isTrue verbatim =>
    obtain ⟨⟨uri, e⟩, first, reads⟩ := Option.bind_eq_some_iff.mp reads
    simp only at reads
    split at reads
    · obtain ⟨-, -, rfl⟩ : _ ∧ _ ∧ e.advance 1 = d := by simpa using reads
      have two : 1 < c.rest.length := by
        simp only [Cursor.peekAt, beq_iff_eq] at verbatim
        exact (List.getElem?_eq_some_iff.mp verbatim).1
      have := tagUri_le first
      have := advance_le e 1
      simp only [Cursor.advance, List.length_drop] at *
      omega
    · simp at reads
  case isFalse =>
    obtain ⟨⟨handle, e⟩, first, reads⟩ := Option.bind_eq_some_iff.mp reads
    have on := tagHandle_lt first
    simp only at reads
    split at reads
    · obtain ⟨⟨tail, e₁⟩, second, result⟩ := Option.bind_eq_some_iff.mp reads
      obtain ⟨-, -, rfl⟩ : _ ∧ _ ∧ e₁ = d := by simpa using result
      exact Nat.lt_of_le_of_lt (tagUri_le second) on
    · obtain ⟨⟨tail, e₁⟩, second, result⟩ := Option.bind_eq_some_iff.mp reads
      have further := Nat.lt_of_le_of_lt (uriCharacters_le second) on
      split at result
      · obtain ⟨-, -, rfl⟩ : _ ∧ _ ∧ e₁ = d := by simpa using result
        exact further
      · obtain ⟨-, -, rfl⟩ : _ ∧ _ ∧ e₁ = d := by simpa using result
        exact further

lemma tagBody_twin {handle suffix : List Char} (twin : f.Twin c c') (mark : c.peek = some '!')
    (reads : tagBody c = some (handle, suffix, d)) (inside : f.Inside d) :
    ∃ d', tagBody c' = some (handle, suffix, d') ∧ f.Twin d d' := by
  have behind := twin.advance_one mark (by decide)
  have second : c'.peekAt 1 = c.peekAt 1 := by
    simpa [Cursor.peek, Cursor.peekAt, Cursor.advance, List.head?_drop] using behind.peek
  unfold tagBody at reads ⊢
  rw [second]
  split at reads
  case isTrue verbatim =>
    rw [if_pos verbatim]
    obtain ⟨⟨uri, e⟩, first, reads⟩ := Option.bind_eq_some_iff.mp reads
    simp only at reads
    split at reads
    case isTrue closed =>
      simp only [Option.pure_def, Option.some.injEq, Prod.mk.injEq] at reads
      obtain ⟨rfl, rfl, rfl⟩ := reads
      have within := inside.mono (advance_le e 1)
      obtain ⟨e', first', last⟩ := tagUri_twin
        (twin.advance (within.mono (tagUri_le first))) first within
      exact ⟨e'.advance 1, by simp [first', last.sees, closed], last.advance inside⟩
    case isFalse => simp at reads
  case isFalse other =>
  rw [if_neg other]
  obtain ⟨⟨handle, e⟩, first, reads⟩ := Option.bind_eq_some_iff.mp reads
  obtain ⟨e', first', next⟩ := tagHandle_twin twin first
  simp only [first', Option.bind_eq_bind, Option.bind_some] at reads ⊢
  split at reads
  case isTrue long =>
    rw [if_pos long]
    obtain ⟨⟨tail, e₁⟩, suffixReads, result⟩ := Option.bind_eq_some_iff.mp reads
    simp only [Option.pure_def, Option.some.injEq, Prod.mk.injEq] at result
    obtain ⟨rfl, rfl, rfl⟩ := result
    obtain ⟨e₁', suffix', last⟩ := tagUri_twin next suffixReads inside
    exact ⟨e₁', by simp [suffix'], last⟩
  case isFalse short =>
    rw [if_neg short]
    obtain ⟨⟨tail, e₁⟩, suffixReads, result⟩ := Option.bind_eq_some_iff.mp reads
    have same : e₁ = d := by
      split at result <;> simp_all
    subst same
    obtain ⟨e₁', suffix', last⟩ := uriCharacters_twin next suffixReads inside (Nat.lt_succ_self _)
    refine ⟨e₁', ?_, last⟩
    simp only [suffix', Option.bind_some]
    split at result
    case isTrue empty =>
      simp only [Option.pure_def, Option.some.injEq, Prod.mk.injEq] at result
      obtain ⟨rfl, rfl, -⟩ := result
      rw [if_pos empty]; rfl
    case isFalse full =>
      simp only [Option.pure_def, Option.some.injEq, Prod.mk.injEq] at result
      obtain ⟨rfl, rfl, -⟩ := result
      rw [if_neg full]; rfl

lemma tag_lt {flow : Bool} {kind : TokenKind} (reads : tag flow c = some (kind, d)) :
    d.rest.length < c.rest.length := by
  rw [tag_eq] at reads
  obtain ⟨⟨handle, suffix, e⟩, body, reads⟩ := Option.bind_eq_some_iff.mp reads
  simp only [Option.ite_none_right_eq_some, Option.some.injEq, Prod.mk.injEq] at reads
  obtain ⟨-, -, rfl⟩ := reads
  exact tagBody_lt body

lemma tag_twin {flow : Bool} {kind : TokenKind} (twin : f.Twin c c') (mark : c.peek = some '!')
    (reads : tag flow c = some (kind, d)) (inside : f.Inside d) :
    ∃ d', tag flow c' = some (kind, d') ∧ f.Twin d d' := by
  rw [tag_eq] at reads ⊢
  obtain ⟨⟨handle, suffix, e⟩, body, reads⟩ := Option.bind_eq_some_iff.mp reads
  simp only [Option.ite_none_right_eq_some, Option.some.injEq, Prod.mk.injEq] at reads
  obtain ⟨ends, rfl, rfl⟩ := reads
  obtain ⟨e', body', last⟩ := tagBody_twin twin mark body inside
  exact ⟨e', by simp only [body', Option.bind_some, last.peek, last.sees, if_pos ends], last⟩

end ChartLift.Yaml.Content
