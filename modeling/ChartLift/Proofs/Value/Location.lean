import ChartLift.Value.Location
import Mathlib.Tactic.Lemma
import Mathlib.Tactic.SplitIfs

/-!
# Located values

A value is located at the end of the steps of a path, each of which leads from a mapping to a field or
from a sequence to an item (`Value.Takes`). The concrete path has the same steps with every position
counted from the front, and leads to the same value (`Value.locate_eq_ok_iff`).
-/

namespace ChartLift.Value

/-- That a step leads from a value to another one, and which step does so with its position counted
from the front. -/
inductive Takes : Value → Segment → Segment → Value → Prop where
  | field {entries : Entries} {name found} :
    entries.find? name = some found →
    Takes (.mapping entries) (.field name) (.field name) found
  | front {items : List Value} {i : Int} (low : 0 ≤ i) (high : i < items.length) :
    Takes (.sequence items) (.index i) (.index i) (items.get ⟨i.toNat, by omega⟩)
  | back {items : List Value} {i : Int} (low : -items.length ≤ i) (high : i < 0) :
    Takes (.sequence items) (.index i) (.index (items.length + i))
      (items.get ⟨(items.length + i).toNat, by omega⟩)

/-- That steps lead from a value to another one, and which concrete steps do so. -/
inductive Follows : Value → List Segment → List Segment → Value → Prop where
  | here {value} :
    Follows value [] [] value
  | step {value next found segment concrete segments places} :
    Takes value segment concrete next →
    Follows next segments places found →
    Follows value (segment :: segments) (concrete :: places) found

variable {value next found : Value} {segment concrete : Segment} {segments places : List Segment}

/-! ## One step -/

/-- An item that is found at a position from the front is taken. -/
lemma takes_item {items : List Value} {i : Int} (low : ¬ absolutePosition items.length i < 0)
    (item : items[(absolutePosition items.length i).toNat]? = some found) :
    Takes (.sequence items) (.index i) (.index (absolutePosition items.length i)) found := by
  obtain ⟨inside, rfl⟩ := List.getElem?_eq_some_iff.mp item
  unfold absolutePosition at low inside ⊢
  split_ifs at low inside ⊢ with negative
  · exact .back (by omega) negative
  · exact .front (by omega) (by omega)

lemma step_eq_ok_iff {place : Path} :
    value.step place segment = .ok (concrete, next) ↔ Takes value segment concrete next := by
  constructor
  · intro taken
    cases segment with
    | field name =>
      cases value with
      | mapping entries =>
        rw [step] at taken
        split at taken
        · rename_i found
          cases taken
          exact .field found
        · cases taken
      | _ => cases taken
    | index i =>
      cases value with
      | sequence items =>
        rw [step] at taken
        split_ifs at taken with low
        split at taken
        · rename_i item
          cases taken
          exact takes_item low item
        · cases taken
      | _ => cases taken
  · intro takes
    cases takes with
    | field found => rw [step, found]
    | @front items i low high =>
      have absolute : absolutePosition items.length i = i := if_neg (by omega)
      rw [step, absolute, if_neg (by omega), List.getElem?_eq_getElem (by omega)]
      rfl
    | @back items i low high =>
      have absolute : absolutePosition items.length i = items.length + i := if_pos high
      rw [step, absolute, if_neg (by omega), List.getElem?_eq_getElem (by omega)]
      rfl

/-- A concrete step leads where the step does that it was made from. -/
lemma Takes.again (takes : Takes value segment concrete next) :
    Takes value concrete concrete next := by
  cases takes with
  | field found => exact .field found
  | front low high => exact .front low high
  | back low high => exact .front (by omega) (by omega)

lemma Takes.nonneg (takes : Takes value segment concrete next) {i : Int}
    (index : concrete = .index i) : 0 ≤ i := by
  cases takes with
  | field _ => cases index
  | front low _ => cases index; exact low
  | back low _ => cases index; omega

/-! ## A path -/

lemma Follows.length (follows : Follows value segments places found) :
    places.length = segments.length := by
  induction follows with
  | here => rfl
  | step _ _ ih => rw [List.length_cons, List.length_cons, ih]

lemma Follows.nonneg (follows : Follows value segments places found) :
    ∀ i, .index i ∈ places → 0 ≤ i := by
  induction follows with
  | here => intro i mem; cases mem
  | step takes _ ih =>
    intro i mem
    rcases List.mem_cons.mp mem with here | behind
    · exact takes.nonneg here.symm
    · exact ih i behind

lemma Follows.again (follows : Follows value segments places found) :
    Follows value places places found := by
  induction follows with
  | here => exact .here
  | step takes _ ih => exact .step takes.again ih

lemma locateFrom_eq_ok_iff {place : Path} {target : Path} :
    value.locateFrom place segments = .ok (target, found) ↔
      ∃ places, target.segments = place.segments ++ places ∧
        Follows value segments places found := by
  induction segments generalizing value place with
  | nil =>
    constructor
    · intro located
      cases located
      exact ⟨[], (List.append_nil _).symm, .here⟩
    · rintro ⟨places, along, follows⟩
      cases follows
      rw [List.append_nil] at along
      rw [locateFrom, show target = place from congrArg Path.mk along]
  | cons segment rest ih =>
    rw [locateFrom]
    constructor
    · intro located
      split at located
      · cases located
      rename_i concrete next taken
      obtain ⟨places, along, follows⟩ := ih.mp located
      rw [Path.child, List.append_assoc] at along
      exact ⟨concrete :: places, along, .step (step_eq_ok_iff.mp taken) follows⟩
    · rintro ⟨_, along, follows⟩
      cases follows with
      | @step _ next _ _ concrete _ places takes follows =>
        rw [step_eq_ok_iff.mpr takes]
        refine ih.mpr ⟨places, ?_, follows⟩
        rw [along, Path.child, List.append_assoc]
        rfl

lemma locate_eq_ok_iff_follows {path place : Path} :
    value.locate path = .ok (place, found) ↔
      Follows value path.segments place.segments found := by
  rw [locate, locateFrom_eq_ok_iff]
  constructor
  · rintro ⟨places, along, follows⟩
    rw [along]
    exact follows
  · intro follows
    exact ⟨place.segments, rfl, follows⟩

/-- A value is located where the steps of a path lead, and where they lead nowhere none is. The
concrete path is as long as the path, its positions count from the front, and the same value is located
at it by the same concrete path. -/
theorem locate_eq_ok_iff (value : Value) (path : Path) :
    (∀ place found, value.locate path = .ok (place, found) ↔
      Follows value path.segments place.segments found) ∧
    ∀ place found, value.locate path = .ok (place, found) →
      place.segments.length = path.segments.length ∧
      (∀ i, .index i ∈ place.segments → 0 ≤ i) ∧
      value.locate place = .ok (place, found) := by
  refine ⟨fun place found => locate_eq_ok_iff_follows, fun place found located => ?_⟩
  have follows := locate_eq_ok_iff_follows.mp located
  exact ⟨follows.length, follows.nonneg, locate_eq_ok_iff_follows.mpr follows.again⟩

end ChartLift.Value
