import ChartLift.Proofs.Extraction.Rerun
import ChartLift.Proofs.ValuesTree.Refusal

/-!
# The history of a store

Calls that store a literal are made one after the other; one that fails leaves the store. What a call
comes to is told by the calls before it that succeeded (`Store.put_after_calls`): another literal under
a key is refused in the name of the first one, the same literal changes nothing, and a leaf that was
there before all calls gives way to the first one under its key. That takes a key without empty
segments: of another one a leaf may be there before, but it gives way to nothing
(`Store.put_of_empty_segment`).
-/

namespace ChartLift.Store

/-- The store after calls that are made one after the other. -/
def afterCalls (store : Store) : List Deposit → Store
  | [] => store
  | call :: calls =>
    match store.put call.key call.literal call.document with
    | .error _ => afterCalls store calls
    | .ok (next, _) => afterCalls next calls

/-- Of calls that are made one after the other, those that succeed. -/
def accepted (store : Store) : List Deposit → List Deposit
  | [] => []
  | call :: calls =>
    match store.put call.key call.literal call.document with
    | .error _ => accepted store calls
    | .ok (next, _) => call :: accepted next calls

variable {store after : Store} {deposits : List Deposit} {deposit : Deposit}
  {key literal document : String} {value : Value}

/-- The calls that succeed are all that the store takes. -/
lemma takes_accepted (store : Store) (calls : List Deposit) :
    store.Takes (store.accepted calls) (store.afterCalls calls) := by
  induction calls generalizing store with
  | nil => exact .nil
  | cons call calls ih =>
    rw [accepted, afterCalls]
    cases put : store.put call.key call.literal call.document with
    | error failure => exact ih store
    | ok result => exact .cons (.of_put put) (ih result.1)

/-! ## What deposits leave -/

/-- A key belongs to the document that has stored it first. -/
lemma Takes.lookup_owners (takes : store.Takes deposits after) (key : String) :
    after.owners.lookup key = (store.owners.lookup key).or
      ((deposits.find? (·.key == key)).map (·.document)) := by
  induction takes with
  | nil => simp
  | @cons store middle after deposit deposits puts _ ih =>
    rw [ih]
    by_cases same : deposit.key = key
    · subst same
      have first : (deposit :: deposits).find? (·.key == deposit.key) = some deposit :=
        List.find?_cons_of_pos (beq_self_eq_true deposit.key)
      rw [puts.owners, first]
      cases owned : store.owners.lookup deposit.key <;> simp [owned]
    · rw [puts.lookup_of_ne (Ne.symm same), List.find?_cons_of_neg (by simpa using same)]

lemma Stored.takes (stored : store.Stored key literal) (takes : store.Takes deposits after) :
    after.Stored key literal := by
  induction takes with
  | nil => exact stored
  | cons puts _ ih => exact ih (stored.puts puts)

/-- What is deposited stays, and storing it again has no effect. -/
lemma Takes.stored (takes : store.Takes deposits after) (mem : deposit ∈ deposits) :
    after.Stored deposit.key deposit.literal := by
  induction takes with
  | nil => cases mem
  | cons puts rest ih =>
    rcases List.mem_cons.mp mem with rfl | mem
    · exact puts.stored.takes rest
    · exact ih mem

/-- A leaf stays where nothing is deposited. -/
lemma Takes.get?_of_forall_ne (takes : store.Takes deposits after) (leaf : value.IsLeaf)
    (apart : ∀ deposit ∈ deposits, deposit.key ≠ key) :
    after.values.get? key = some value ↔ store.values.get? key = some value := by
  induction takes with
  | nil => exact Iff.rfl
  | cons puts _ ih =>
    obtain ⟨here, apart⟩ := List.forall_mem_cons.mp apart
    obtain ⟨previous, inserted⟩ := puts.inserted
    rw [ih apart,
      ValuesTree.get?_insert_of_ne inserted (Value.isLeaf_string _) leaf (Ne.symm here)]

/-! ## What a call comes to -/

/-- Storing fails in conflict where there is a rival. -/
lemma put_eq_valueConflict_iff {name existing new owner : String} :
    store.put key literal document = .error (.valueConflict name existing new owner) ↔
      ∃ rival, store.rival? key literal = some (owner, rival) ∧ name = key ∧
        existing = rival.render ∧ new = literal := by
  rw [put]
  cases store.rival? key literal with
  | some found =>
    obtain ⟨owner', rival⟩ := found
    constructor
    · rintro ⟨⟩
      exact ⟨rival, rfl, rfl, rfl, rfl⟩
    · rintro ⟨_, ⟨⟩, rfl, rfl, rfl⟩
      rfl
  | none =>
    constructor
    · intro fails
      dsimp only at fails
      split at fails <;> cases fails
    · rintro ⟨_, ⟨⟩, _⟩

/-- The rival of a literal is the first one that was deposited under its key, if that is another one. -/
lemma Takes.rival?_eq_some_iff {values : ValuesTree} {owner : String} {rival : Value}
    (takes : (ofValues values).Takes deposits after) :
    after.rival? key literal = some (owner, rival) ↔
      ∃ first, deposits.find? (·.key == key) = some first ∧ first.literal ≠ literal ∧
        owner = first.document ∧ rival = .string first.literal := by
  have owned : after.owners.lookup key = (deposits.find? (·.key == key)).map (·.document) :=
    takes.lookup_owners key
  rw [rival?, owned]
  cases here : deposits.find? (·.key == key) with
  | none => simp
  | some first =>
    obtain rfl : first.key = key := by simpa using List.find?_some here
    have held := (takes.stored (List.mem_of_find?_eq_some here)).held.value
    rw [Option.map_some, held]
    by_cases same : first.literal = literal
    · simp [Value.asString?, same]
    · simp [Value.asString?, same, eq_comm (a := owner), eq_comm (a := rival)]

/-- Deposits under one key have one literal. -/
lemma Takes.literal_eq {first : Deposit} (takes : store.Takes deposits after)
    (mem : first ∈ deposits) (mem' : deposit ∈ deposits) (same : first.key = deposit.key) :
    first.literal = deposit.literal := by
  have held := (takes.stored mem).held.value
  rw [same, (takes.stored mem').held.value] at held
  exact (Value.string.inj (Option.some.inj held)).symm

/-- What has been stored can be stored again, to no effect. -/
lemma Stored.put (stored : store.Stored key literal) (document : String) :
    store.put key literal document = .ok (store, none) := by
  obtain ⟨owner, owned⟩ := stored.held.owned
  have noRival : store.rival? key literal = none := by
    rw [rival?_eq_none_iff]
    intro owner existing _ found
    rw [stored.held.value] at found
    cases found
    rfl
  simp [Store.put, noRival, stored.again, owned, Value.asString?]

/-- Under a key that nobody owns a leaf gives way, if no segment of the key is empty. -/
lemma exists_put_of_leaf (unowned : store.owners.lookup key = none)
    (found : store.values.get? key = some value) (leaf : value.IsLeaf)
    (valid : "" ∉ keySegments key) (literal document : String) :
    ∃ next gone, store.put key literal document = .ok (next, gone) ∧ next.Holds key literal := by
  have noRival : store.rival? key literal = none := by
    rw [rival?_eq_none_iff, unowned]
    intro owner existing owned
    cases owned
  obtain ⟨grown, inserted⟩ :=
    ValuesTree.exists_insert_of_leaf valid found leaf (.string literal)
  obtain ⟨next, puts, -⟩ := Puts.intro document noRival inserted
  obtain ⟨gone, stored⟩ := puts.put
  exact ⟨next, gone, stored, puts.holds⟩

/-- A call fails in conflict exactly if another literal has been stored under its key, and names the
first one and its document. It changes nothing if its own literal has been stored. A leaf that was there
before all calls gives way to the first one under its key, if that has no empty segment. -/
theorem put_after_calls (values : ValuesTree) (calls : List Deposit) (key literal document : String) :
    let store := (ofValues values).afterCalls calls
    let earlier := (ofValues values).accepted calls
    ((∃ name existing new owner,
        store.put key literal document = .error (.valueConflict name existing new owner)) ↔
      ∃ call ∈ earlier, call.key = key ∧ call.literal ≠ literal) ∧
    (∀ name existing new owner,
      store.put key literal document = .error (.valueConflict name existing new owner) →
      ∃ first, earlier.find? (·.key == key) = some first ∧ name = key ∧
        existing = first.literal ∧ new = literal ∧ owner = first.document) ∧
    ((∃ call ∈ earlier, call.key = key ∧ call.literal = literal) →
      store.put key literal document = .ok (store, none)) ∧
    ∀ value, values.get? key = some value → value.IsLeaf → "" ∉ keySegments key →
      (∀ call ∈ earlier, call.key ≠ key) →
      ∃ next gone, store.put key literal document = .ok (next, gone) ∧
        next.Holds key literal := by
  intro store earlier
  have takes : (ofValues values).Takes earlier store := takes_accepted (ofValues values) calls
  refine ⟨⟨?_, ?_⟩, ?_, ?_, ?_⟩
  · rintro ⟨name, existing, new, owner, fails⟩
    obtain ⟨rival, found, -⟩ := put_eq_valueConflict_iff.mp fails
    obtain ⟨first, here, other, -⟩ := takes.rival?_eq_some_iff.mp found
    exact ⟨first, List.mem_of_find?_eq_some here, by simpa using List.find?_some here, other⟩
  · rintro ⟨call, mem, rfl, other⟩
    obtain ⟨first, here⟩ : ∃ first, earlier.find? (·.key == call.key) = some first :=
      Option.isSome_iff_exists.mp (List.find?_isSome.mpr ⟨call, mem, beq_self_eq_true _⟩)
    have same : first.key = call.key := by simpa using List.find?_some here
    have shared := takes.literal_eq (List.mem_of_find?_eq_some here) mem same
    have rival := takes.rival?_eq_some_iff.mpr ⟨first, here, shared ▸ other, rfl, rfl⟩
    exact ⟨_, _, _, _, put_eq_valueConflict_iff.mpr ⟨_, rival, rfl, rfl, rfl⟩⟩
  · intro name existing new owner fails
    obtain ⟨rival, found, rfl, rfl, rfl⟩ := put_eq_valueConflict_iff.mp fails
    obtain ⟨first, here, -, rfl, rfl⟩ := takes.rival?_eq_some_iff.mp found
    exact ⟨first, here, rfl, rfl, rfl, rfl⟩
  · rintro ⟨call, mem, rfl, rfl⟩
    exact (takes.stored mem).put document
  · intro value found leaf valid apart
    have unowned : store.owners.lookup key = none := by
      rw [takes.lookup_owners, List.find?_eq_none.mpr (by simpa using apart)]
      rfl
    exact exists_put_of_leaf unowned ((takes.get?_of_forall_ne leaf apart).mpr found) leaf valid
      literal document

/-- Calls of which the second is refused for its literal and the third for a leaf above its key. -/
def mixedCalls : List Deposit :=
  [⟨"a.b", "1", "x.yaml"⟩, ⟨"a.b", "2", "y.yaml"⟩, ⟨"a.b.c", "3", "y.yaml"⟩, ⟨"a.b", "1", "z.yaml"⟩]

/-- The values before them, with a leaf that they replace and one that they leave. -/
def mixedValues : ValuesTree := ⟨[("a", .mapping [("b", .bool true)]), ("s", .integer 4)]⟩

/-- A key that two documents share belongs to the first one, and what was there before all calls gives
way. -/
theorem put_after_calls_mixed :
    let store := (ofValues mixedValues).afterCalls mixedCalls
    let earlier := (ofValues mixedValues).accepted mixedCalls
    earlier = [⟨"a.b", "1", "x.yaml"⟩, ⟨"a.b", "1", "z.yaml"⟩] ∧
      store.put "a.b" "2" "w.yaml" = .error (.valueConflict "a.b" "1" "2" "x.yaml") ∧
      store.put "a.b" "1" "w.yaml" = .ok (store, none) ∧
      mixedValues.get? "s" = some (.integer 4) ∧ (Value.integer 4).IsLeaf ∧
      "" ∉ keySegments "s" ∧ (∀ call ∈ earlier, call.key ≠ "s") ∧
      ∃ next gone, store.put "s" "5" "w.yaml" = .ok (next, gone) ∧ next.Holds "s" "5" := by
  intro store earlier
  have all : earlier = [⟨"a.b", "1", "x.yaml"⟩, ⟨"a.b", "1", "z.yaml"⟩] := by rfl
  have mem : ⟨"a.b", "1", "x.yaml"⟩ ∈ earlier := by rw [all]; exact List.mem_cons_self
  have apart : ∀ call ∈ earlier, call.key ≠ "s" := by rw [all]; decide
  have found : mixedValues.get? "s" = some (.integer 4) := by rfl
  obtain ⟨fails, names, -⟩ := put_after_calls mixedValues mixedCalls "a.b" "2" "w.yaml"
  obtain ⟨name, existing, new, owner, refused⟩ := fails.mpr ⟨_, mem, rfl, by decide⟩
  obtain ⟨first, here, rfl, rfl, rfl, rfl⟩ := names name existing new owner refused
  obtain rfl : ⟨"a.b", "1", "x.yaml"⟩ = first := Option.some.inj here
  obtain ⟨-, -, again, -⟩ := put_after_calls mixedValues mixedCalls "a.b" "1" "w.yaml"
  obtain ⟨-, -, -, gives⟩ := put_after_calls mixedValues mixedCalls "s" "5" "w.yaml"
  exact ⟨all, refused, again ⟨_, mem, rfl, rfl⟩, found, by decide, by decide, apart,
    gives _ found (by decide) (by decide) apart⟩

/-- A leaf under a key with an empty segment, there before all calls, does not give way: the key is
refused. -/
theorem put_of_empty_segment :
    let values : ValuesTree := ⟨[("a", .mapping [("", .string "x")])]⟩
    values.get? "a." = some (.string "x") ∧ (Value.string "x").IsLeaf ∧
      (ofValues values).accepted [] = [] ∧
      ((ofValues values).afterCalls []).put "a." "1" "a.yaml" =
        .error (.insertion (.invalidKey "a.")) :=
  ⟨rfl, by decide, rfl, rfl⟩

end ChartLift.Store
