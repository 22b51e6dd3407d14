import ChartLift.Yaml.Content.Value

/-!
# Data of any kind

What a document means where keys may be of any kind and local tags are kept. Equal keys of one
mapping are refused here, so that a text which reads as a datum says everything just once.
-/

namespace ChartLift.Yaml.Content

/-- A floating-point number of any kind. -/
inductive AnyFloat where
  | finite (x : Double)
  | infinite (negative : Bool)
  | notANumber
  deriving DecidableEq, Repr

/-- A datum of any kind. -/
inductive Datum where
  | null
  | bool (b : Bool)
  | integer (i : Int)
  | float (x : AnyFloat)
  | text (s : String)
  | sequence (items : List Datum)
  | mapping (entries : List (Datum × Datum))
  | tagged (tag : String) (datum : Datum)
  deriving Repr, Inhabited

namespace AnyFloat

/-- The number that a word for an infinity or NaN means. -/
def ofWord (word : String) : AnyFloat :=
  if [".nan", ".NaN", ".NAN"].contains word then .notANumber
  else .infinite (word.toList.head? == some '-')

/-- Whether two numbers count as one key: the zeros of both signs do, and so does NaN with itself.
-/
def same : AnyFloat → AnyFloat → Bool
  | .finite x, .finite y => x == y || (x.magnitude == 0 && y.magnitude == 0)
  | x, y => x == y

end AnyFloat

/-- A local tag without its mark. -/
def withoutMark (tag : String) : String :=
  match tag.toList with
  | '!' :: c :: rest => String.ofList (c :: rest)
  | _ => tag

namespace Datum

mutual

/-- Whether two data count as one key. The entries of a mapping have no order. -/
def same : Datum → Datum → Bool
  | .null, .null => true
  | .bool a, .bool b => a == b
  | .integer a, .integer b => a == b
  | .float a, .float b => a.same b
  | .text a, .text b => a == b
  | .sequence a, .sequence b => sameItems a b
  | .mapping a, .mapping b => a.length == b.length && within a b
  | .tagged s a, .tagged t b => withoutMark s == withoutMark t && same a b
  | _, _ => false

/-- Whether items count as the same, one by one. -/
def sameItems : List Datum → List Datum → Bool
  | [], [] => true
  | a :: as, b :: bs => same a b && sameItems as bs
  | _, _ => false

/-- Whether each of some entries counts as one of some others. -/
def within : List (Datum × Datum) → List (Datum × Datum) → Bool
  | [], _ => true
  | (key, value) :: rest, others =>
    (others.any fun other => same key other.1 && same value other.2) && within rest others

end

/-- The datum of a plain scalar without a tag. -/
def ofPlain? (text : String) : Option Datum :=
  match plainMeaning text with
  | .null => some .null
  | .bool b => some (.bool b)
  | .integer i => some (.integer i)
  | .tooLarge => none
  | .float x => some (.float (.finite x))
  | .special => some (.float (.ofWord text))
  | .text => some (.text text)

/-- The datum that a tag of the core schema forces on a scalar; other tags leave the text as it is.
-/
def ofTagged? (tag text : String) : Option Datum :=
  if tag = coreTag "bool" then (booleanWord? text).map Datum.bool
  else if tag = coreTag "int" then
    match integerReading text with
    | .fits i => some (.integer i)
    | _ => none
  else if tag = coreTag "float" then
    match floatReading text with
    | .finite x => some (.float (.finite x))
    | .special => some (.float (.ofWord text))
    | .no => none
  else if tag = coreTag "null" then (if isNullWord text then some .null else none)
  else some (.text text)

/-- The datum of a scalar without a local tag. -/
def ofScalar? (text : String) (style : ScalarStyle) (tag : Option String) : Option Datum :=
  match tag with
  | some tag => ofTagged? tag text
  | none => if style = .plain then ofPlain? text else some (.text text)

/-- A datum under the tag of its node, where that is a local one. -/
def underTag (tag : Option String) (datum : Datum) : Datum :=
  match tag.filter isLocalTag with
  | some tag => .tagged (withoutMark tag) datum
  | none => datum

end Datum

/-- The datum of a node within collections that may nest `depth` deep, and how often aliases have
been followed by then. -/
def Document.datum (document : Document) (depth jumps : Nat) (node : Node) : Option (Datum × Nat) :=
  match document.follow jumps node with
  | none => none
  | some (.alias _, _) => none
  | some (.scalar _ text style tag, jumps) =>
    (Datum.ofScalar? text style (tag.filter fun tag => !isLocalTag tag)).map fun datum =>
      (datum.underTag tag, jumps)
  | some (.sequence _ tag items, jumps) =>
    match depth with
    | 0 => none
    | depth + 1 =>
      let step (state : Option (List Datum × Nat)) (item : Node) : Option (List Datum × Nat) := do
        let (data, jumps) ← state
        let (datum, jumps) ← document.datum depth jumps item
        return (datum :: data, jumps)
      (items.foldl step (some ([], jumps))).map fun (data, jumps) =>
        ((Datum.sequence data.reverse).underTag tag, jumps)
  | some (.mapping _ tag entries, jumps) =>
    match depth with
    | 0 => none
    | depth + 1 =>
      let step (state : Option (List (Datum × Datum) × Nat)) (entry : Node × Node) :
          Option (List (Datum × Datum) × Nat) := do
        let (data, jumps) ← state
        let (key, jumps) ← document.datum depth jumps entry.1
        if data.any fun other => key.same other.1 then none
        else
          let (datum, jumps) ← document.datum depth jumps entry.2
          return ((key, datum) :: data, jumps)
      (entries.foldl step (some ([], jumps))).map fun (data, jumps) =>
        ((Datum.mapping data.reverse).underTag tag, jumps)

/-- The datum of a text that holds one document at most; a text without documents means null. -/
def onlyDatum? (text : List Char) : Option Datum :=
  match readStream text with
  | .empty => some .null
  | .document document more =>
    if more then none else (document.datum maximalDepth 0 document.root).map Prod.fst
  | .malformed => none

end ChartLift.Yaml.Content
