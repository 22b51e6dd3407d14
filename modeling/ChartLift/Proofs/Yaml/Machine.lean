import Mathlib.Tactic.Lemma

/-!
# Machines

Readers that go step by step, each of which may give something. Both the cutting of a text into tokens
and the reading of tokens as events are of this kind.
-/

namespace ChartLift.Yaml

/-- One step of a machine: what it gives, if anything, and the state behind it. -/
abbrev Machine (σ α : Type) := σ → Option (Option α × σ)

namespace Machine

variable {σ α : Type} {step : Machine σ α} {s t u : σ} {a b n fuel : Nat} {first second given : List α}

/-- Some steps: what they give, and the state behind them. -/
def steps (step : Machine σ α) : Nat → σ → Option (List α × σ)
  | 0, s => some ([], s)
  | n + 1, s => (step s).bind fun (said, t) => (steps step n t).map fun (later, u) =>
      (said.toList ++ later, u)

/-- All that is given within some steps. -/
def outputs (step : Machine σ α) : Nat → σ → List α
  | 0, _ => []
  | n + 1, s =>
    match step s with
    | none => []
    | some (said, t) => said.toList ++ outputs step n t

lemma steps_zero (goes : steps step 0 s = some (given, t)) : given = [] ∧ t = s := by
  obtain ⟨rfl, rfl⟩ : [] = given ∧ s = t := by simpa [steps] using goes
  exact ⟨rfl, rfl⟩

lemma steps_succ (goes : steps step (n + 1) s = some (given, u)) :
    ∃ said t later, step s = some (said, t) ∧ steps step n t = some (later, u)
      ∧ given = said.toList ++ later := by
  obtain ⟨⟨said, t⟩, one, goes⟩ := Option.bind_eq_some_iff.mp goes
  obtain ⟨⟨later, u'⟩, rest, result⟩ := Option.map_eq_some_iff.mp goes
  obtain ⟨rfl, rfl⟩ : said.toList ++ later = given ∧ u' = u := by simpa using result
  exact ⟨said, t, later, one, rest, rfl⟩

lemma steps_of_step {said : Option α} {later : List α} (one : step s = some (said, t))
    (rest : steps step n t = some (later, u)) :
    steps step (n + 1) s = some (said.toList ++ later, u) := by
  simp [steps, one, rest]

lemma steps_add (goes : steps step a s = some (first, t)) (on : steps step b t = some (second, u)) :
    steps step (a + b) s = some (first ++ second, u) := by
  induction a generalizing s first with
  | zero =>
    obtain ⟨rfl, rfl⟩ := steps_zero goes
    simpa using on
  | succ a ih =>
    obtain ⟨said, r, later, one, rest, rfl⟩ := steps_succ goes
    rw [Nat.add_right_comm, List.append_assoc]
    exact steps_of_step one (ih rest)

/-- What is given begins with what the first steps give. -/
lemma outputs_of_steps {fuel : Nat} (goes : steps step n s = some (given, t)) (le : n ≤ fuel) :
    outputs step fuel s = given ++ outputs step (fuel - n) t := by
  induction n generalizing s given fuel with
  | zero =>
    obtain ⟨rfl, rfl⟩ := steps_zero goes
    simp
  | succ n ih =>
    obtain ⟨said, r, later, one, rest, rfl⟩ := steps_succ goes
    obtain ⟨fuel, rfl⟩ : ∃ k, fuel = k + 1 := ⟨fuel - 1, by omega⟩
    rw [outputs, one]
    simp only [ih rest (Nat.le_of_succ_le_succ le), List.append_assoc, Nat.add_sub_add_right]

/-- What is given within some steps is what steps give that can be taken. -/
lemma exists_steps (step : Machine σ α) (fuel : Nat) (s : σ) :
    ∃ n t, n ≤ fuel ∧ steps step n s = some (outputs step fuel s, t) := by
  induction fuel generalizing s with
  | zero => exact ⟨0, s, Nat.le_refl _, rfl⟩
  | succ fuel ih =>
    cases one : step s with
    | none => exact ⟨0, s, Nat.zero_le _, by simp [steps, outputs, one]⟩
    | some result =>
      obtain ⟨n, t, le, goes⟩ := ih result.2
      exact ⟨n + 1, t, Nat.succ_le_succ le, by rw [steps_of_step one goes, outputs, one]⟩

end Machine

end ChartLift.Yaml
