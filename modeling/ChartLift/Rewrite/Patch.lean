import ChartLift.Text.Utf8

/-!
# Patches

A patch names bytes of a document that give way to a reference into the values. Patches of one
document are planned together: no two of them may overlap, and they are applied from the last one to
the first, so that no application moves the bytes of another.
-/

namespace ChartLift.Rewrite

open Text (Bytes)

/-- The text that refers to a values key. -/
def referenceExpression (key : String) : String :=
  "\x7b\x7b .Values." ++ key ++ " \x7d\x7d\n"

/-- Bytes that give way to a reference. -/
structure Patch where
  /-- The canonical path of the entry. -/
  path : String
  /-- The last byte kept before the reference. -/
  keep : Nat
  /-- The first byte kept behind it. -/
  resume : Nat
  deriving DecidableEq, Repr, Inhabited

namespace Patch

/-- The first byte that gives way. -/
def first (patch : Patch) : Nat := patch.keep + 1

/-- The byte behind the last one that gives way. -/
def stop (patch : Patch) : Nat := max patch.resume (patch.keep + 1)

/-- Whether a byte gives way to both patches, an empty patch inside the other counting too. -/
def overlaps (a b : Patch) : Bool :=
  decide (a.first < b.stop) && decide (b.first < a.stop)

/-- A document with a patch applied. A space sets the reference off from a `:`; offsets beyond the
document stand for its end. -/
def apply (patch : Patch) (key : String) (data : Bytes) : Bytes :=
  let reference := Text.bytes (referenceExpression key)
  if data.isEmpty then reference
  else
    let keep := min patch.keep (data.length - 1)
    let resume := min (max patch.resume (keep + 1)) data.length
    let space : Bytes := if data[keep]? = some 58 then [32] else []
    data.take (keep + 1) ++ space ++ reference ++ data.drop resume

end Patch

/-- Two patches that overlap: the one refused, and the one it is refused for. -/
structure Overlap where
  path : String
  other : String
  deriving DecidableEq, Repr

/-- The patches planned for a document, each with its values key. -/
structure Plan where
  entries : List (Patch × String)
  deriving DecidableEq, Repr, Inhabited

namespace Plan

/-- No patches. -/
def empty : Plan := ⟨[]⟩

/-- The first of some patches that overlaps one of `taken` or an earlier one of them. -/
def firstOverlap? (taken : List Patch) : List Patch → Option Overlap
  | [] => none
  | patch :: rest =>
    match taken.find? (·.overlaps patch) with
    | some other => some ⟨patch.path, other.path⟩
    | none => firstOverlap? (taken ++ [patch]) rest

/-- The overlap that keeps patches out of a plan. -/
def check (plan : Plan) (patches : List Patch) : Option Overlap :=
  firstOverlap? (plan.entries.map Prod.fst) patches

/-- A plan with patches for a values key, all of them or none. -/
def add (plan : Plan) (patches : List Patch) (key : String) : Except Overlap Plan :=
  match plan.check patches with
  | some overlap => .error overlap
  | none => .ok ⟨plan.entries ++ patches.map fun patch => (patch, key)⟩

/-- The number of planned patches. -/
def size (plan : Plan) : Nat := plan.entries.length

/-- The planned patches from the last one to the first; of patches at one place the earlier planned
comes first. -/
def descending (plan : Plan) : List (Patch × String) :=
  plan.entries.mergeSort fun a b => decide (b.1.keep ≤ a.1.keep)

/-- A document with all planned patches applied. -/
def apply (plan : Plan) (source : Bytes) : Bytes :=
  plan.descending.foldl (fun data (patch, key) => patch.apply key data) source

end Plan

end ChartLift.Rewrite
