import ChartLift.Proofs.Yaml.Layout

/-!
# Nodes as their events write them

A node with all its events, each at an offset of its own (`Written`): which events these are
(`Written.events`) and what node they say in a source (`Written.node`), each part of it from its first
event up to the event behind its last one (`Written.span_node`). From the events of a written node the
builder makes this node, and it takes no other event (`build_events`).
-/

namespace ChartLift.Yaml.Layout

open Text (Bytes)

/-- A node with the events that say it. -/
inductive Written where
  | scalar (offset : Nat) (text : String) (style : ScalarStyle) (tag anchor : Option String)
  | alias (offset : Nat) (name : String)
  | sequence (start : Nat) (tag anchor : Option String) (items : List Written) (stop : Nat)
  /-- A mapping; its keys are nodes of any kind. -/
  | mapping (start : Nat) (tag anchor : Option String) (entries : List (Written × Written))
      (stop : Nat)

mutual

/-- The events of a written node. -/
def Written.events : Written → List Located
  | .scalar offset text style tag anchor => [⟨.scalar text style tag anchor, offset⟩]
  | .alias offset name => [⟨.alias name, offset⟩]
  | .sequence start tag anchor items stop =>
    ⟨.sequenceStart tag anchor, start⟩ :: (itemEvents items ++ [⟨.sequenceEnd, stop⟩])
  | .mapping start tag anchor entries stop =>
    ⟨.mappingStart tag anchor, start⟩ :: (entryEvents entries ++ [⟨.mappingEnd, stop⟩])

/-- The events of items, one after the other. -/
def itemEvents : List Written → List Located
  | [] => []
  | item :: rest => item.events ++ itemEvents rest

/-- The events of entries, each with its key before its value. -/
def entryEvents : List (Written × Written) → List Located
  | [] => []
  | (key, value) :: rest => key.events ++ (value.events ++ entryEvents rest)

end

/-- Behind the event that opens a collection stand its parts, the event that closes it and what stands
behind. -/
lemma enclosed_append (opens closes : Located) (parts behind : List Located) :
    opens :: (parts ++ [closes]) ++ behind = [opens] ++ (parts ++ closes :: behind) := by
  rw [List.cons_append, List.append_assoc]
  rfl

/-- The entry of a key and a value: of the key it keeps the text and the place. -/
def entryOf (source : Bytes) (key value : Node) : Entry :=
  ⟨key.text?, key.span, key.text?.bind fun _ => findIndicator source key.span.start, value⟩

mutual

/-- The node that events write with others behind them. -/
def Written.node (source : Bytes) (behind : List Located) : Written → Node
  | .scalar offset text _ _ _ => .scalar ⟨offset, following source behind⟩ text
  | .alias offset _ => .alias ⟨offset, following source behind⟩
  | .sequence start _ _ items stop =>
    .sequence ⟨start, following source behind⟩ (opensFlow source start 91)
      (itemNodes source (⟨.sequenceEnd, stop⟩ :: behind) items)
  | .mapping start _ _ entries stop =>
    .mapping ⟨start, following source behind⟩ (opensFlow source start 123)
      (entryNodes source (⟨.mappingEnd, stop⟩ :: behind) entries)

/-- The nodes of items; behind each of them stand the events of the later ones. -/
def itemNodes (source : Bytes) (behind : List Located) : List Written → List Node
  | [] => []
  | item :: rest => item.node source (itemEvents rest ++ behind) :: itemNodes source behind rest

/-- The entries of a mapping; behind each key stand the events of its value. -/
def entryNodes (source : Bytes) (behind : List Located) : List (Written × Written) → List Entry
  | [] => []
  | (key, value) :: rest =>
    entryOf source (key.node source (value.events ++ (entryEvents rest ++ behind)))
      (value.node source (entryEvents rest ++ behind)) :: entryNodes source behind rest

end

variable {source : Bytes}

/-- A written node reaches from its first event to the one behind its last event, or to the end of
the source. -/
lemma Written.span_node (written : Written) (behind : List Located) :
    (written.node source behind).span =
      ⟨following source (written.events ++ behind), following source behind⟩ := by
  cases written <;> rfl

/-! ## Building -/

/-- How building goes on with a node that is complete: it goes into the innermost collection that is
open, or is the result if there is none. -/
def resume (source : Bytes) (frames : List Frame) (node : Node) (rest : List Located) :
    Option (Node × List Located) :=
  match frames with
  | [] => some (node, rest)
  | frame :: outer => build source (frame.add source node :: outer) rest

section Steps

variable (frames outer : List Frame) (rest : List Located) (offset start : Nat)

lemma build_scalar (text : String) (style : ScalarStyle) (tag anchor : Option String) :
    build source frames (⟨.scalar text style tag anchor, offset⟩ :: rest) =
      resume source frames (.scalar ⟨offset, following source rest⟩ text) rest := by
  cases frames <;> rfl

lemma build_alias (name : String) :
    build source frames (⟨.alias name, offset⟩ :: rest) =
      resume source frames (.alias ⟨offset, following source rest⟩) rest := by
  cases frames <;> rfl

lemma build_sequenceStart (tag anchor : Option String) :
    build source frames (⟨.sequenceStart tag anchor, offset⟩ :: rest) =
      build source (.sequence offset [] :: frames) rest := rfl

lemma build_mappingStart (tag anchor : Option String) :
    build source frames (⟨.mappingStart tag anchor, offset⟩ :: rest) =
      build source (.mapping offset [] none :: frames) rest := rfl

lemma build_sequenceEnd (items : List Node) :
    build source (.sequence start items :: outer) (⟨.sequenceEnd, offset⟩ :: rest) =
      resume source outer
        (.sequence ⟨start, following source rest⟩ (opensFlow source start 91) items.reverse)
        rest := by
  cases outer <;> rfl

lemma build_mappingEnd (entries : List Entry) :
    build source (.mapping start entries none :: outer) (⟨.mappingEnd, offset⟩ :: rest) =
      resume source outer
        (.mapping ⟨start, following source rest⟩ (opensFlow source start 123) entries.reverse)
        rest := by
  cases outer <;> rfl

end Steps

mutual

/-- From the events of a written node the builder makes this node. -/
lemma build_events (written : Written) (frames : List Frame) (rest : List Located) :
    build source frames (written.events ++ rest) =
      resume source frames (written.node source rest) rest :=
  match written with
  | .scalar .. => build_scalar ..
  | .alias .. => build_alias ..
  | .sequence start tag anchor items stop => by
    rw [Written.events, List.cons_append, build_sequenceStart, List.append_assoc,
      List.singleton_append, build_itemEvents items, List.reverse_nil, List.nil_append]
    rfl
  | .mapping start tag anchor entries stop => by
    rw [Written.events, List.cons_append, build_mappingStart, List.append_assoc,
      List.singleton_append, build_entryEvents entries, List.reverse_nil, List.nil_append]
    rfl

/-- From the events of items and the end of their sequence it makes the sequence. -/
lemma build_itemEvents (items : List Written) (start stop : Nat) (made : List Node)
    (outer : List Frame) (rest : List Located) :
    build source (.sequence start made :: outer) (itemEvents items ++ ⟨.sequenceEnd, stop⟩ :: rest) =
      resume source outer (.sequence ⟨start, following source rest⟩ (opensFlow source start 91)
        (made.reverse ++ itemNodes source (⟨.sequenceEnd, stop⟩ :: rest) items)) rest :=
  match items with
  | [] => by
    rw [itemEvents, List.nil_append, build_sequenceEnd, itemNodes, List.append_nil]
  | item :: items => by
    rw [itemEvents, List.append_assoc, build_events item, resume, Frame.add,
      build_itemEvents items, itemNodes, List.reverse_cons, List.append_assoc, List.singleton_append]

/-- From the events of entries and the end of their mapping it makes the mapping. -/
lemma build_entryEvents (entries : List (Written × Written)) (start stop : Nat) (made : List Entry)
    (outer : List Frame) (rest : List Located) :
    build source (.mapping start made none :: outer)
        (entryEvents entries ++ ⟨.mappingEnd, stop⟩ :: rest) =
      resume source outer (.mapping ⟨start, following source rest⟩ (opensFlow source start 123)
        (made.reverse ++ entryNodes source (⟨.mappingEnd, stop⟩ :: rest) entries)) rest :=
  match entries with
  | [] => by
    rw [entryEvents, List.nil_append, build_mappingEnd, entryNodes, List.append_nil]
  | (key, value) :: entries => by
    rw [entryEvents, List.append_assoc, List.append_assoc, build_events key, resume, Frame.add,
      build_events value, resume, Frame.add, build_entryEvents entries, entryNodes, entryOf,
      List.reverse_cons, List.append_assoc, List.singleton_append]

end

end ChartLift.Yaml.Layout
