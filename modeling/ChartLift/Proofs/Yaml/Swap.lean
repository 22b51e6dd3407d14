import Mathlib.Tactic.Lemma

/-!
# Exchanges in lists

Two lists that are the same but for some stretches, the old ones of the one standing against the new
ones of the other. A text and what becomes of it are related in this way, and so are then their tokens
and their events.
-/

namespace ChartLift.Yaml

/-- A stretch that gives way to another one, and what stands in front of it. -/
structure Swap (α : Type) where
  front : List α
  old : List α
  new : List α
  deriving DecidableEq

namespace Swap

variable {α : Type}

/-- The list with the old stretches, ending with `rest`. -/
def source : List (Swap α) → List α → List α
  | [], rest => rest
  | swap :: swaps, rest => swap.front ++ (swap.old ++ source swaps rest)

/-- The list with the new stretches, ending with `rest`. -/
def result : List (Swap α) → List α → List α
  | [], rest => rest
  | swap :: swaps, rest => swap.front ++ (swap.new ++ result swaps rest)

/-- What both lists begin with. -/
def stretch : List (Swap α) → List α → List α
  | [], rest => rest
  | swap :: _, _ => swap.front

/-- The list from the first old stretch on. -/
def fromOld : List (Swap α) → List α → List α
  | [], _ => []
  | swap :: swaps, rest => swap.old ++ source swaps rest

/-- The list from the first new stretch on. -/
def fromNew : List (Swap α) → List α → List α
  | [], _ => []
  | swap :: swaps, rest => swap.new ++ result swaps rest

lemma source_eq (swaps : List (Swap α)) (rest : List α) :
    source swaps rest = stretch swaps rest ++ fromOld swaps rest := by
  cases swaps with
  | nil => exact (List.append_nil rest).symm
  | cons => rfl

lemma result_eq (swaps : List (Swap α)) (rest : List α) :
    result swaps rest = stretch swaps rest ++ fromNew swaps rest := by
  cases swaps with
  | nil => exact (List.append_nil rest).symm
  | cons => rfl

end Swap

/-- How many steps lead to a stretch, past it, and past the one in its place. -/
structure Strides where
  before : Nat
  old : Nat
  new : Nat

end ChartLift.Yaml
