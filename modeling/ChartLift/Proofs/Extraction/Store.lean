import ChartLift.Extraction.Store
import ChartLift.Proofs.ValuesTree.Insertion

/-!
# Deposits into the store of a run

`Puts` is the success of one deposit and `Takes` that of several. A key that the run has stored is
held for good (`Holds.takes`). Deposits that succeed in one order succeed in every order, with the
same values (`Takes.perm`); which document owns a shared key may differ.
-/

namespace ChartLift.Store

variable {store after after' : Store} {key literal document other text : String}

/-- A store takes a literal for a document. -/
structure Puts (store : Store) (key literal document : String) (after : Store) : Prop where
  noRival : store.rival? key literal = none
  inserted : ∃ previous, store.values.insert key (.string literal) = .ok (after.values, previous)
  owners : after.owners = match store.owners.lookup key with
    | some _ => store.owners
    | none => (key, document) :: store.owners

/-- Storing succeeds as `Puts` says. -/
lemma Puts.of_put {gone : Option Value} (h : store.put key literal document = .ok (after, gone)) :
    store.Puts key literal document after := by
  rw [put] at h
  cases rival : store.rival? key literal with
  | some found => rw [rival] at h; cases h
  | none =>
    rw [rival] at h
    cases inserted : store.values.insert key (.string literal) with
    | error fault => simp only [inserted] at h; cases h
    | ok result =>
      simp only [inserted] at h
      cases h
      exact ⟨rival, ⟨result.2, inserted⟩, rfl⟩

/-- What `Puts` says can be stored. -/
lemma Puts.put (h : store.Puts key literal document after) :
    ∃ gone, store.put key literal document = .ok (after, gone) := by
  obtain ⟨rival, ⟨previous, inserted⟩, owners⟩ := h
  obtain ⟨values, names⟩ := after
  cases owners
  refine ⟨previous.filter (·.asString? != some literal), ?_⟩
  cases lookup : store.owners.lookup key with
  | none => simp [Store.put, rival, inserted, lookup]
  | some owner => simp [Store.put, rival, inserted, lookup]

/-- Storing fails with another value under the key or with a key that does not fit. -/
lemma put_eq_error {failure : Failure} (h : store.put key literal document = .error failure) :
    (∃ existing owner, failure = .valueConflict key existing literal owner) ∨
      ∃ fault, failure = .insertion fault := by
  rw [put] at h
  cases rival : store.rival? key literal with
  | some found =>
    rw [rival] at h
    cases h
    exact .inl ⟨_, _, rfl⟩
  | none =>
    rw [rival] at h
    cases inserted : store.values.insert key (.string literal) with
    | error fault =>
      simp only [inserted] at h
      cases h
      exact .inr ⟨fault, rfl⟩
    | ok result => simp only [inserted] at h; cases h

lemma Puts.unique (h : store.Puts key literal document after)
    (h' : store.Puts key literal document after') : after = after' := by
  obtain ⟨_, stored⟩ := h.put
  obtain ⟨_, stored'⟩ := h'.put
  rw [stored] at stored'
  cases stored'
  rfl

/-- A literal without a rival whose key fits into the values is taken. -/
lemma Puts.intro {values : ValuesTree} {previous : Option Value} (document : String)
    (noRival : store.rival? key literal = none)
    (inserted : store.values.insert key (.string literal) = .ok (values, previous)) :
    ∃ after, store.Puts key literal document after ∧ after.values = values :=
  ⟨⟨values, match store.owners.lookup key with
    | some _ => store.owners
    | none => (key, document) :: store.owners⟩, ⟨noRival, ⟨previous, inserted⟩, rfl⟩, rfl⟩

/-- A key is free of rivals if nobody owns it or it holds the literal itself. -/
lemma rival?_eq_none_iff :
    store.rival? key literal = none ↔ ∀ owner existing, store.owners.lookup key = some owner →
      store.values.get? key = some existing → existing.asString? = some literal := by
  rw [rival?]
  cases store.owners.lookup key with
  | none => simp
  | some owner =>
    cases store.values.get? key with
    | none => simp
    | some existing => by_cases same : existing.asString? = some literal <;> simp [same]

lemma Puts.owned (h : store.Puts key literal document after) :
    ∃ owner, after.owners.lookup key = some owner := by
  rw [h.owners]
  cases lookup : store.owners.lookup key with
  | some owner => exact ⟨owner, lookup⟩
  | none => exact ⟨document, by simp⟩

/-- Storing under a key leaves the owner of every other one. -/
lemma Puts.lookup_of_ne (h : store.Puts key literal document after) (ne : other ≠ key) :
    after.owners.lookup other = store.owners.lookup other := by
  rw [h.owners]
  cases store.owners.lookup key with
  | some owner => rfl
  | none =>
    have apart : (other == key) = false := by simpa using ne
    simp [List.lookup_cons, apart]

/-- The keys owned after a deposit are its own and those owned before. -/
lemma Puts.isSome_lookup (h : store.Puts key literal document after) (other : String) :
    (after.owners.lookup other).isSome = (other == key || (store.owners.lookup other).isSome) := by
  by_cases same : other = key
  · subst same
    obtain ⟨owner, owned⟩ := h.owned
    rw [owned, beq_self_eq_true]
    rfl
  · rw [h.lookup_of_ne same, beq_eq_false_iff_ne.mpr same, Bool.false_or]

/-- A key that the run has stored, with the literal under it. -/
structure Holds (store : Store) (key literal : String) : Prop where
  owned : ∃ owner, store.owners.lookup key = some owner
  value : store.values.get? key = some (.string literal)

/-- A key that was stored holds its literal. -/
lemma Puts.holds (h : store.Puts key literal document after) : after.Holds key literal := by
  obtain ⟨previous, inserted⟩ := h.inserted
  exact ⟨h.owned, ValuesTree.get?_insert_self inserted⟩

/-- A held key takes no other literal. -/
lemma Holds.eq_of_puts (held : store.Holds key text) (h : store.Puts key literal document after) :
    literal = text := by
  obtain ⟨owner, owned⟩ := held.owned
  have same := rival?_eq_none_iff.mp h.noRival owner _ owned held.value
  exact (Option.some.inj same).symm

/-- A deposit keeps what is held. -/
lemma Holds.puts (held : store.Holds other text) (h : store.Puts key literal document after) :
    after.Holds other text := by
  by_cases same : other = key
  · subst same
    rw [← held.eq_of_puts h]
    exact h.holds
  · obtain ⟨previous, inserted⟩ := h.inserted
    refine ⟨?_, ?_⟩
    · rw [h.lookup_of_ne same]
      exact held.owned
    · exact (ValuesTree.get?_insert_of_ne inserted (Value.isLeaf_string _) (Value.isLeaf_string _)
        same).mpr held.value

/-- A store in which every owned key holds a text, as the run leaves it. -/
def Sound (store : Store) : Prop :=
  ∀ key owner, store.owners.lookup key = some owner → ∃ text, store.Holds key text

/-- Before the run nothing is owned. -/
lemma sound_ofValues (values : ValuesTree) : (ofValues values).Sound := by
  intro key owner owned
  cases owned

lemma Sound.puts (sound : store.Sound) (h : store.Puts key literal document after) :
    after.Sound := by
  intro other owner owned
  by_cases same : other = key
  · subst same
    exact ⟨literal, h.holds⟩
  · rw [h.lookup_of_ne same] at owned
    obtain ⟨text, held⟩ := sound other owner owned
    exact ⟨text, held.puts h⟩

/-- Stores with the same values and the same owned keys, whoever owns them. -/
structure Similar (a b : Store) : Prop where
  values : a.values = b.values
  owned : ∀ key, (a.owners.lookup key).isSome = (b.owners.lookup key).isSome

lemma Similar.refl (store : Store) : store.Similar store :=
  ⟨rfl, fun _ => rfl⟩

lemma Similar.trans {a b c : Store} (h : a.Similar b) (h' : b.Similar c) : a.Similar c :=
  ⟨h.values.trans h'.values, fun key => (h.owned key).trans (h'.owned key)⟩

/-- Similar stores take the same deposits, whoever makes them. -/
lemma Similar.puts {a b a' : Store} (similar : a.Similar b) (h : a.Puts key literal document a')
    (document' : String) : ∃ b', b.Puts key literal document' b' ∧ a'.Similar b' := by
  obtain ⟨previous, inserted⟩ := h.inserted
  have noRival : b.rival? key literal = none := by
    rw [rival?_eq_none_iff]
    intro owner existing owned found
    obtain ⟨owner', owned'⟩ := Option.isSome_iff_exists.mp
      ((similar.owned key).trans (Option.isSome_iff_exists.mpr ⟨owner, owned⟩))
    exact rival?_eq_none_iff.mp h.noRival owner' existing owned' (similar.values ▸ found)
  obtain ⟨b', stored, values⟩ := Puts.intro document' noRival (similar.values ▸ inserted)
  refine ⟨b', stored, values.symm, fun other => ?_⟩
  rw [h.isSome_lookup, stored.isSome_lookup, similar.owned]

/-- Two deposits commute, up to the owner of a key they share. -/
lemma Puts.comm {middle : Store} {key' literal' document' : String} (sound : store.Sound)
    (h : store.Puts key literal document middle)
    (h' : middle.Puts key' literal' document' after) :
    ∃ between final, store.Puts key' literal' document' between ∧
      between.Puts key literal document final ∧ after.Similar final := by
  by_cases same : key = key'
  · subst same
    cases h.holds.eq_of_puts h'
    obtain ⟨between, first, similar⟩ := (Similar.refl store).puts h document'
    obtain ⟨final, second, similar'⟩ := similar.puts h' document
    exact ⟨between, final, first, second, similar'⟩
  · obtain ⟨_, inserted⟩ := h.inserted
    obtain ⟨_, inserted'⟩ := h'.inserted
    obtain ⟨tree, early, late⟩ :=
      ValuesTree.insert_comm inserted inserted' (Value.isLeaf_string literal) same
    have noRival' : store.rival? key' literal' = none := by
      rw [rival?_eq_none_iff]
      intro owner existing owned found
      -- an owned key holds its text through the first deposit and up to the second
      obtain ⟨text, held⟩ := sound key' owner owned
      rw [held.value] at found
      cases found
      rw [(held.puts h).eq_of_puts h']
      rfl
    obtain ⟨between, first, rfl⟩ := Puts.intro document' noRival' early
    have noRival : between.rival? key literal = none := by
      rw [rival?_eq_none_iff]
      intro owner existing owned found
      rw [first.lookup_of_ne same] at owned
      obtain ⟨text, held⟩ := sound key owner owned
      rw [(held.puts first).value] at found
      cases found
      rw [held.eq_of_puts h]
      rfl
    obtain ⟨final, second, values⟩ := Puts.intro document noRival late
    refine ⟨between, final, first, second, values.symm, fun other => ?_⟩
    rw [h'.isSome_lookup, h.isSome_lookup, second.isSome_lookup, first.isSome_lookup,
      Bool.or_left_comm]

/-- What is stored on behalf of a document. -/
structure Deposit where
  key : String
  literal : String
  document : String

/-- A store takes deposits one after the other. -/
inductive Takes : Store → List Deposit → Store → Prop where
  | nil {store : Store} :
    Takes store [] store
  | cons {store middle after : Store} {deposit deposits} :
    store.Puts deposit.key deposit.literal deposit.document middle →
    Takes middle deposits after →
    Takes store (deposit :: deposits) after

variable {deposits deposits' : List Deposit}

lemma Takes.append {middle : Store} (h : store.Takes deposits middle)
    (h' : middle.Takes deposits' after) : store.Takes (deposits ++ deposits') after := by
  induction h with
  | nil => exact h'
  | cons first _ ih => exact .cons first (ih h')

/-- Deposits are taken as any two portions of them. -/
lemma takes_append_iff :
    store.Takes (deposits ++ deposits') after ↔
      ∃ middle, store.Takes deposits middle ∧ middle.Takes deposits' after := by
  constructor
  · intro h
    induction deposits generalizing store with
    | nil => exact ⟨store, .nil, h⟩
    | cons deposit deposits ih =>
      cases h with
      | cons first rest =>
        obtain ⟨middle, h, h'⟩ := ih rest
        exact ⟨middle, .cons first h, h'⟩
  · rintro ⟨middle, h, h'⟩
    exact h.append h'

/-- Similar stores take the same deposits one after the other. -/
lemma Similar.takes {a b a' : Store} (similar : a.Similar b) (h : a.Takes deposits a') :
    ∃ b', b.Takes deposits b' ∧ a'.Similar b' := by
  induction h generalizing b with
  | nil => exact ⟨b, .nil, similar⟩
  | cons first _ ih =>
    obtain ⟨middle, first', similar'⟩ := similar.puts first _
    obtain ⟨b', rest, similar''⟩ := ih similar'
    exact ⟨b', .cons first' rest, similar''⟩

lemma Sound.takes (sound : store.Sound) (h : store.Takes deposits after) : after.Sound := by
  induction h with
  | nil => exact sound
  | cons first _ ih => exact ih (sound.puts first)

/-- Deposits that are taken in one order are taken in every order, with similar results. -/
lemma Takes.perm (h : store.Takes deposits after) (sound : store.Sound)
    (perm : deposits.Perm deposits') :
    ∃ after', store.Takes deposits' after' ∧ after.Similar after' := by
  induction perm generalizing store after with
  | nil =>
    cases h
    exact ⟨store, .nil, .refl store⟩
  | cons deposit _ ih =>
    cases h with
    | cons first rest =>
      obtain ⟨after', rest', similar⟩ := ih rest (sound.puts first)
      exact ⟨after', .cons first rest', similar⟩
  | swap a b deposits =>
    -- the diamond closes up to owners, which later deposits do not look at
    cases h with
    | cons first rest =>
      cases rest with
      | cons second rest =>
        obtain ⟨between, final, first', second', similar⟩ := first.comm sound second
        obtain ⟨after', rest', similar'⟩ := similar.takes rest
        exact ⟨after', .cons first' (.cons second' rest'), similar'⟩
  | trans _ _ ih ih' =>
    obtain ⟨middle, h', similar⟩ := ih h sound
    obtain ⟨after', h'', similar'⟩ := ih' h' sound
    exact ⟨after', h'', similar.trans similar'⟩

lemma Holds.takes (held : store.Holds other text) (h : store.Takes deposits after) :
    after.Holds other text := by
  induction h with
  | nil => exact held
  | cons first _ ih => exact ih (held.puts first)

end ChartLift.Store
