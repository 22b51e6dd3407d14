import ChartLift.Path.Basic
import ChartLift.Text.Quoted
import ChartLift.Value.Json

/-!
# Locating values

Following a path into a value, step by step. The walk also gives the concrete path, in which every
position counts from the front.
-/

namespace ChartLift

/-- What keeps a step of a path from being taken, and the place where. -/
inductive LocationFault where
  /-- A mapping without the field. -/
  | noField (name : String) (place : Path)
  /-- A sequence without the position. -/
  | outOfRange (position : Int) (place : Path) (length : Nat)
  /-- A value that has no such steps. -/
  | noSuchStep (segment : Segment) (value : Value) (place : Path)

/-- The reason in words. -/
def LocationFault.message : LocationFault → String
  | .noField name place => "no field " ++ Text.quoted name ++ " at " ++ place.canonical
  | .outOfRange position place length =>
    "index " ++ String.ofList (Text.decimal position) ++ " out of range at " ++ place.canonical
      ++ " (length " ++ String.ofList (Text.decimal length) ++ ")"
  | .noSuchStep segment value place =>
    let step := match segment with
      | .field name => "field " ++ Text.quoted name
      | .index position => "index " ++ String.ofList (Text.decimal position)
    "cannot take " ++ step ++ " of " ++ value.kindName ++ " at " ++ place.canonical

namespace Value

/-- A position of a sequence counted from the front. -/
def absolutePosition (length : Nat) (position : Int) : Int :=
  if position < 0 then length + position else position

/-- One step from a value at a place: the concrete step and the value it leads to. -/
def step (value : Value) (place : Path) (segment : Segment) :
    Except LocationFault (Segment × Value) :=
  match segment, value with
  | .field name, .mapping entries =>
    match Entries.find? entries name with
    | some found => .ok (.field name, found)
    | none => .error (.noField name place)
  | .index position, .sequence items =>
    let absolute := absolutePosition items.length position
    if absolute < 0 then .error (.outOfRange position place items.length)
    else
      match items[absolute.toNat]? with
      | some found => .ok (.index absolute, found)
      | none => .error (.outOfRange position place items.length)
  | segment, value => .error (.noSuchStep segment value place)

/-- The walk along the steps from a value at a place. -/
def locateFrom (place : Path) (value : Value) : List Segment → Except LocationFault (Path × Value)
  | [] => .ok (place, value)
  | segment :: rest =>
    match value.step place segment with
    | .error fault => .error fault
    | .ok (concrete, found) => locateFrom (place.child concrete) found rest

/-- The value at a path and the concrete path that leads to it. -/
def locate (value : Value) (path : Path) : Except LocationFault (Path × Value) :=
  locateFrom .root value path.segments

end Value

end ChartLift
