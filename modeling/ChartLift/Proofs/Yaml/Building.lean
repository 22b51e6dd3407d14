import ChartLift.Proofs.Yaml.Encoding

/-!
# Building with a cursor

A node can be built by descent, with one position in the events that is handed on from part to part
(`nodeAt?`). Each entry into a node and each turn of a loop over items or entries takes one of the
rounds given. With twice as many rounds as events the descent comes to an end, at a position within the
events: it has made the node that the events before this position write, or it has met a fault there
(`nodeAt?_inverts`). It comes to the same as the pass with a stack of open collections.
-/

namespace ChartLift.Yaml.Layout

open Text (Bytes)

/-! ## Descent -/

/-- The word for what an event says. -/
def eventWord : EventKind → String
  | .documentStart => "DocumentStart"
  | .documentEnd => "DocumentEnd"
  | .streamEnd => "StreamEnd"
  | .alias _ => "Alias"
  | .scalar _ _ _ _ => "Scalar"
  | .sequenceStart _ _ => "SequenceStart"
  | .sequenceEnd => "SequenceEnd"
  | .mappingStart _ _ => "MappingStart"
  | .mappingEnd => "MappingEnd"

/-- Why events say no node. -/
inductive BuildFault where
  /-- They end where a node is to begin. -/
  | exhausted
  /-- They end in a mapping, where a key or the end of the mapping is to come. -/
  | openMapping
  /-- They end in a sequence. -/
  | openSequence
  /-- An event at an offset that no node begins with. -/
  | unexpected (kind : EventKind) (offset : Nat)
  deriving DecidableEq, Repr

/-- The fault in words. -/
def BuildFault.message : BuildFault → String
  | .exhausted => "unexpected end of event stream"
  | .openMapping => "unterminated mapping"
  | .openSequence => "unterminated sequence"
  | .unexpected kind offset =>
    "unexpected event " ++ eventWord kind ++ " at byte " ++ toString offset

/-- What an attempt comes to and the position it reaches; nothing if it is not over after the rounds
given to it. -/
abbrev Attempt (α : Type) := Option (Except BuildFault α × Nat)

/-- An attempt that goes on with what another one has made; a fault ends both. -/
def Attempt.andThen {α β : Type} (attempt : Attempt α) (next : α → Nat → Attempt β) : Attempt β :=
  match attempt with
  | none => none
  | some (.error fault, reached) => some (.error fault, reached)
  | some (.ok made, reached) => next made reached

section Descent

variable (source : Bytes) (events : List Located)

/-- The offset of the event at a position; behind the last one it is the length of the source. -/
def offsetAt (pos : Nat) : Nat := (events[pos]?.map Located.offset).getD source.length

mutual

/-- The node that begins at a position. -/
def nodeAt? : Nat → Nat → Attempt Node
  | 0, _ => none
  | rounds + 1, pos =>
    match events[pos]? with
    | none => some (.error .exhausted, pos)
    | some event =>
      match event.kind with
      | .scalar text _ _ _ =>
        some (.ok (.scalar ⟨event.offset, offsetAt source events (pos + 1)⟩ text), pos + 1)
      | .alias _ => some (.ok (.alias ⟨event.offset, offsetAt source events (pos + 1)⟩), pos + 1)
      | .mappingStart _ _ =>
        (entriesAt? rounds [] (pos + 1)).andThen fun entries reached =>
          some (.ok (.mapping ⟨event.offset, offsetAt source events reached⟩
            (opensFlow source event.offset 123) entries), reached)
      | .sequenceStart _ _ =>
        (itemsAt? rounds [] (pos + 1)).andThen fun items reached =>
          some (.ok (.sequence ⟨event.offset, offsetAt source events reached⟩
            (opensFlow source event.offset 91) items), reached)
      | kind => some (.error (.unexpected kind event.offset), pos + 1)

/-- The items of a sequence up to its end, behind those made already. -/
def itemsAt? : Nat → List Node → Nat → Attempt (List Node)
  | 0, _, _ => none
  | rounds + 1, made, pos =>
    match events[pos]? with
    | none => some (.error .openSequence, pos)
    | some event =>
      if event.kind = .sequenceEnd then some (.ok made, pos + 1)
      else
        (nodeAt? rounds pos).andThen fun item reached =>
          itemsAt? rounds (made ++ [item]) reached

/-- The entries of a mapping up to its end, behind those made already. -/
def entriesAt? : Nat → List Entry → Nat → Attempt (List Entry)
  | 0, _, _ => none
  | rounds + 1, made, pos =>
    match events[pos]? with
    | none => some (.error .openMapping, pos)
    | some event =>
      if event.kind = .mappingEnd then some (.ok made, pos + 1)
      else
        (nodeAt? rounds pos).andThen fun key reached =>
          (nodeAt? rounds reached).andThen fun value reached =>
            entriesAt? rounds (made ++ [entryOf source key value]) reached

end

end Descent

section Attempts

variable {α β : Type} {attempt : Attempt α} {next : α → Nat → Attempt β}

/-- An attempt of two parts is over when the first one meets a fault, or else with the second one. -/
lemma Attempt.andThen_eq_some_iff {outcome : Except BuildFault β} {reached : Nat} :
    attempt.andThen next = some (outcome, reached) ↔
      (∃ fault, attempt = some (.error fault, reached) ∧ outcome = .error fault) ∨
        ∃ made there, attempt = some (.ok made, there) ∧
          next made there = some (outcome, reached) := by
  rcases attempt with _ | ⟨fault | made, there⟩
  · simp [Attempt.andThen]
  · simp only [Attempt.andThen, Option.some.injEq, Prod.mk.injEq, Except.error.injEq]
    constructor
    · rintro ⟨rfl, rfl⟩
      exact .inl ⟨fault, ⟨rfl, rfl⟩, rfl⟩
    · rintro (⟨_, ⟨rfl, rfl⟩, rfl⟩ | ⟨_, _, ⟨⟨⟩, -⟩, -⟩)
      exact ⟨rfl, rfl⟩
  · constructor
    · intro on
      exact .inr ⟨made, there, rfl, on⟩
    · rintro (⟨_, ⟨⟩, -⟩ | ⟨_, _, ⟨⟩, on⟩)
      exact on

/-- An attempt of two parts comes to an end if the first one does, and the second one wherever the
first one leads. -/
lemma Attempt.exists_andThen (first : ∃ result, attempt = some result)
    (second : ∀ made there, attempt = some (.ok made, there) →
      ∃ result, next made there = some result) :
    ∃ result, attempt.andThen next = some result := by
  obtain ⟨⟨fault | made, there⟩, rfl⟩ := first
  · exact ⟨_, rfl⟩
  · exact second made there rfl

end Attempts

variable {source : Bytes} {events : List Located} {rounds pos reached : Nat}

lemma drop_eq_cons {event : Located} (here : events[pos]? = some event) :
    events.drop pos = event :: events.drop (pos + 1) := by
  obtain ⟨inside, rfl⟩ := List.getElem?_eq_some_iff.mp here
  exact List.drop_eq_getElem_cons inside

lemma drop_eq_nil (gone : events[pos]? = none) : events.drop pos = [] :=
  List.drop_eq_nil_of_le (List.getElem?_eq_none_iff.mp gone)

lemma offsetAt_eq (source : Bytes) (events : List Located) (pos : Nat) :
    offsetAt source events pos = following source (events.drop pos) := by
  rw [offsetAt]
  cases here : events[pos]? with
  | none => rw [drop_eq_nil here]; rfl
  | some event => rw [drop_eq_cons here]; rfl

/-! ## What a descent comes to -/

/-- That the position of a fault is that behind the event that is out of place, or the end of the
events. -/
def BuildFault.Stands (events : List Located) (reached : Nat) : BuildFault → Prop
  | .exhausted | .openMapping | .openSequence => reached = events.length
  | .unexpected kind offset => 0 < reached ∧ events[reached - 1]? = some ⟨kind, offset⟩ ∧
    startsNode kind = false

lemma BuildFault.Stands.le {fault : BuildFault} (stands : fault.Stands events reached) :
    reached ≤ events.length := by
  cases fault with
  | exhausted | openMapping | openSequence => exact Nat.le_of_eq stands
  | unexpected kind offset =>
    obtain ⟨some, here, -⟩ := stands
    obtain ⟨inside, -⟩ := List.getElem?_eq_some_iff.mp here
    omega

/-- The outcome of a descent from a position and the position reached: something is made of the
events between, at least one, or a fault is met and building is stuck. -/
inductive Comes {α : Type} (events : List Located) (pos : Nat) (makes : α → Nat → Prop)
    (stuck : Prop) : Except BuildFault α → Nat → Prop where
  | made {value reached} :
    pos < reached →
    reached ≤ events.length →
    makes value reached →
    Comes events pos makes stuck (.ok value) reached
  | fault {fault reached} :
    pos ≤ reached →
    fault.Stands events reached →
    stuck →
    Comes events pos makes stuck (.error fault) reached

/-- That the events between two positions write a node. -/
def MakesNode (source : Bytes) (events : List Located) (pos : Nat) (node : Node) (reached : Nat) :
    Prop :=
  ∃ written : Written, events.drop pos = written.events ++ events.drop reached ∧
    node = written.node source (events.drop reached)

/-- That the events between two positions write the items behind some of a sequence, and its end. -/
def MakesItems (source : Bytes) (events : List Located) (pos : Nat) (before items : List Node)
    (reached : Nat) : Prop :=
  ∃ written stop, events.drop pos = itemEvents written ++ ⟨.sequenceEnd, stop⟩ :: events.drop reached ∧
    items = before ++ itemNodes source (⟨.sequenceEnd, stop⟩ :: events.drop reached) written

/-- That the events between two positions write the entries behind some of a mapping, and its end. -/
def MakesEntries (source : Bytes) (events : List Located) (pos : Nat) (before entries : List Entry)
    (reached : Nat) : Prop :=
  ∃ written stop, events.drop pos = entryEvents written ++ ⟨.mappingEnd, stop⟩ :: events.drop reached ∧
    entries = before ++ entryNodes source (⟨.mappingEnd, stop⟩ :: events.drop reached) written

/-- That an event of a kind closes an open collection. -/
def Frame.Closes (kind : EventKind) : Frame → Prop
  | .sequence _ _ => kind = .sequenceEnd
  | .mapping _ _ none => kind = .mappingEnd
  | .mapping _ _ (some _) => False

/-- That building comes to no node from a position on, unless the event there closes a collection. -/
def NodeStuck (source : Bytes) (events : List Located) (pos : Nat) : Prop :=
  ∀ frames : List Frame, (∀ frame ∈ frames.head?, ∀ event ∈ events[pos]?, ¬ frame.Closes event.kind) →
    build source frames (events.drop pos) = none

/-- That building comes to no node from a position in a sequence on. -/
def ItemsStuck (source : Bytes) (events : List Located) (pos : Nat) : Prop :=
  ∀ start made outer, build source (.sequence start made :: outer) (events.drop pos) = none

/-- That building comes to no node from a position before a key on. -/
def EntriesStuck (source : Bytes) (events : List Located) (pos : Nat) : Prop :=
  ∀ start made outer, build source (.mapping start made none :: outer) (events.drop pos) = none

lemma build_unexpected {kind : EventKind} {offset : Nat} {frames : List Frame} {rest : List Located}
    (other : startsNode kind = false) (open_ : ∀ frame ∈ frames.head?, ¬ frame.Closes kind) :
    build source frames (⟨kind, offset⟩ :: rest) = none := by
  cases kind with
  | scalar | «alias» | sequenceStart | mappingStart => cases other
  | documentStart | documentEnd | streamEnd => rfl
  | sequenceEnd =>
    rcases frames with _ | ⟨⟨start, items⟩ | ⟨start, entries, key⟩, outer⟩
    · rfl
    · exact absurd rfl (open_ _ rfl)
    · rfl
  | mappingEnd =>
    rcases frames with _ | ⟨⟨start, items⟩ | ⟨start, entries, _ | key⟩, outer⟩
    · rfl
    · rfl
    · exact absurd rfl (open_ _ rfl)
    · rfl

/-- What the descents of a number of rounds come to. -/
structure Sound (source : Bytes) (events : List Located) (rounds : Nat) : Prop where
  node : ∀ {pos outcome reached}, pos ≤ events.length →
    nodeAt? source events rounds pos = some (outcome, reached) →
      Comes events pos (MakesNode source events pos) (NodeStuck source events pos) outcome reached
  items : ∀ {before pos outcome reached}, pos ≤ events.length →
    itemsAt? source events rounds before pos = some (outcome, reached) →
      Comes events pos (MakesItems source events pos before) (ItemsStuck source events pos) outcome
        reached
  entries : ∀ {before pos outcome reached}, pos ≤ events.length →
    entriesAt? source events rounds before pos = some (outcome, reached) →
      Comes events pos (MakesEntries source events pos before) (EntriesStuck source events pos)
        outcome reached

lemma nodeAt?_unexpected {kind : EventKind} {offset : Nat} (here : events[pos]? = some ⟨kind, offset⟩)
    (other : startsNode kind = false) : nodeAt? source events (rounds + 1) pos =
      some (.error (.unexpected kind offset), pos + 1) := by
  rw [nodeAt?, here]
  cases kind with
  | scalar | «alias» | sequenceStart | mappingStart => cases other
  | documentStart | documentEnd | streamEnd | sequenceEnd | mappingEnd => rfl

/-- At the end of the events a descent stands where it was, and building is stuck. -/
lemma Comes.at_end {α : Type} {makes : α → Nat → Prop} {stuck : Prop} {fault : BuildFault}
    (inside : pos ≤ events.length) (gone : events[pos]? = none)
    (stands : pos = events.length → fault.Stands events pos) (none : events.drop pos = [] → stuck) :
    Comes events pos makes stuck (.error fault) pos :=
  .fault (Nat.le_refl pos)
    (stands (Nat.le_antisymm inside (List.getElem?_eq_none_iff.mp gone))) (none (drop_eq_nil gone))

section Steps

variable {outcome : Except BuildFault Node}

/-- A descent into a node, given what those of fewer rounds come to. -/
lemma Sound.node_succ (sound : Sound source events rounds) (inside : pos ≤ events.length)
    (h : nodeAt? source events (rounds + 1) pos = some (outcome, reached)) :
    Comes events pos (MakesNode source events pos) (NodeStuck source events pos) outcome reached := by
  cases here : events[pos]? with
  | none =>
    rw [nodeAt?, here] at h
    cases h
    refine .at_end inside here id fun gone frames _ => ?_
    rw [gone]
    rfl
  | some event =>
    obtain ⟨kind, offset⟩ := event
    have ahead := drop_eq_cons here
    have next : pos + 1 ≤ events.length := (List.getElem?_eq_some_iff.mp here).1
    cases kind with
    | scalar text style tag anchor =>
      rw [nodeAt?, here] at h
      cases h
      refine .made (Nat.lt_succ_self pos) next ⟨.scalar offset text style tag anchor, ahead, ?_⟩
      rw [offsetAt_eq]
      rfl
    | «alias» name =>
      rw [nodeAt?, here] at h
      cases h
      refine .made (Nat.lt_succ_self pos) next ⟨.alias offset name, ahead, ?_⟩
      rw [offsetAt_eq]
      rfl
    | sequenceStart tag anchor =>
      rw [nodeAt?, here] at h
      rcases Attempt.andThen_eq_some_iff.mp h with ⟨fault, failed, rfl⟩ | ⟨items, there, read, done⟩
      · cases sound.items next failed with
        | fault le stands stuck =>
          refine .fault (Nat.le_of_succ_le le) stands fun frames _ => ?_
          rw [ahead, build_sequenceStart]
          exact stuck ..
      · cases done
        cases sound.items next read with
        | made lt le makes =>
          obtain ⟨written, stop, split, rfl⟩ := makes
          refine .made (Nat.lt_of_succ_lt lt) le ⟨.sequence offset tag anchor written stop, ?_, ?_⟩
          · rw [ahead, split, Written.events, List.cons_append, List.append_assoc,
              List.singleton_append]
          · rw [offsetAt_eq]
            rfl
    | mappingStart tag anchor =>
      rw [nodeAt?, here] at h
      rcases Attempt.andThen_eq_some_iff.mp h with ⟨fault, failed, rfl⟩ | ⟨entries, there, read, done⟩
      · cases sound.entries next failed with
        | fault le stands stuck =>
          refine .fault (Nat.le_of_succ_le le) stands fun frames _ => ?_
          rw [ahead, build_mappingStart]
          exact stuck ..
      · cases done
        cases sound.entries next read with
        | made lt le makes =>
          obtain ⟨written, stop, split, rfl⟩ := makes
          refine .made (Nat.lt_of_succ_lt lt) le ⟨.mapping offset tag anchor written stop, ?_, ?_⟩
          · rw [ahead, split, Written.events, List.cons_append, List.append_assoc,
              List.singleton_append]
          · rw [offsetAt_eq]
            rfl
    | documentStart | documentEnd | streamEnd | sequenceEnd | mappingEnd =>
      rw [nodeAt?_unexpected here rfl] at h
      cases h
      refine .fault (Nat.le_succ pos) ⟨pos.succ_pos, here, rfl⟩ fun frames open_ => ?_
      rw [ahead]
      exact build_unexpected rfl fun frame top => open_ frame top _ here

variable {items before : List Node} {entries earlier : List Entry}

/-- A descent into the items of a sequence: the end, or one item and the later ones. -/
lemma Sound.items_succ (sound : Sound source events rounds) {outcome : Except BuildFault (List Node)}
    (inside : pos ≤ events.length)
    (h : itemsAt? source events (rounds + 1) before pos = some (outcome, reached)) :
    Comes events pos (MakesItems source events pos before) (ItemsStuck source events pos) outcome
      reached := by
  cases here : events[pos]? with
  | none =>
    rw [itemsAt?, here] at h
    cases h
    refine .at_end inside here id fun gone start made outer => ?_
    rw [gone]
    rfl
  | some event =>
    rw [itemsAt?, here] at h
    simp only at h
    split at h
    next closes =>
      cases h
      obtain ⟨kind, offset⟩ := event
      obtain rfl : kind = .sequenceEnd := closes
      refine .made (Nat.lt_succ_self pos) (List.getElem?_eq_some_iff.mp here).1
        ⟨[], offset, drop_eq_cons here, ?_⟩
      rw [itemNodes, List.append_nil]
    next other =>
      rcases Attempt.andThen_eq_some_iff.mp h with ⟨fault, failed, rfl⟩ | ⟨item, there, read, later⟩
      · cases sound.node inside failed with
        | fault le stands stuck =>
          refine .fault le stands fun start made outer => stuck _ ?_
          rintro frame ⟨⟩ event' here' closes
          cases here.symm.trans here'
          exact other closes
      · cases sound.node inside read with
        | made lt le makes =>
          obtain ⟨written, split, rfl⟩ := makes
          cases sound.items le later with
          | made lt' le' makes' =>
            obtain ⟨more, stop, split', rfl⟩ := makes'
            refine .made (Nat.lt_trans lt lt') le' ⟨written :: more, stop, ?_, ?_⟩
            · rw [split, split', itemEvents, List.append_assoc]
            · rw [itemNodes, split', List.append_assoc, List.singleton_append]
          | fault le' stands stuck =>
            refine .fault (Nat.le_trans (Nat.le_of_lt lt) le') stands fun start made outer => ?_
            rw [split, build_events]
            exact stuck ..

/-- A descent into the entries of a mapping: the end, or a key, its value and the later entries. -/
lemma Sound.entries_succ (sound : Sound source events rounds)
    {outcome : Except BuildFault (List Entry)} (inside : pos ≤ events.length)
    (h : entriesAt? source events (rounds + 1) earlier pos = some (outcome, reached)) :
    Comes events pos (MakesEntries source events pos earlier) (EntriesStuck source events pos) outcome
      reached := by
  cases here : events[pos]? with
  | none =>
    rw [entriesAt?, here] at h
    cases h
    refine .at_end inside here id fun gone start made outer => ?_
    rw [gone]
    rfl
  | some event =>
    rw [entriesAt?, here] at h
    simp only at h
    split at h
    next closes =>
      cases h
      obtain ⟨kind, offset⟩ := event
      obtain rfl : kind = .mappingEnd := closes
      refine .made (Nat.lt_succ_self pos) (List.getElem?_eq_some_iff.mp here).1
        ⟨[], offset, drop_eq_cons here, ?_⟩
      rw [entryNodes, List.append_nil]
    next other =>
      rcases Attempt.andThen_eq_some_iff.mp h with ⟨fault, failed, rfl⟩ | ⟨key, there, read, rest⟩
      · cases sound.node inside failed with
        | fault le stands stuck =>
          refine .fault le stands fun start made outer => stuck _ ?_
          rintro frame ⟨⟩ event' here' closes
          cases here.symm.trans here'
          exact other closes
      cases sound.node inside read with
      | made lt le makes =>
      obtain ⟨key, split, rfl⟩ := makes
      rcases Attempt.andThen_eq_some_iff.mp rest with ⟨fault, failed, rfl⟩ | ⟨value, behind, read', later⟩
      · cases sound.node le failed with
        | fault le' stands stuck =>
          refine .fault (Nat.le_trans (Nat.le_of_lt lt) le') stands fun start made outer => ?_
          rw [split, build_events]
          -- no event closes a mapping between a key and its value
          refine stuck _ ?_
          rintro frame ⟨⟩ event' here' ⟨⟩
      cases sound.node le read' with
      | made lt' le' makes' =>
      obtain ⟨value, split', rfl⟩ := makes'
      have further := Nat.lt_trans lt lt'
      cases sound.entries le' later with
      | made lt'' le'' makes'' =>
        obtain ⟨more, stop, split'', rfl⟩ := makes''
        refine .made (Nat.lt_trans further lt'') le'' ⟨(key, value) :: more, stop, ?_, ?_⟩
        · rw [split, split', split'', entryEvents, List.append_assoc, List.append_assoc]
        · rw [entryNodes, split', split'', List.append_assoc, List.singleton_append]
      | fault le'' stands stuck =>
        refine .fault (Nat.le_trans (Nat.le_of_lt further) le'') stands fun start made outer => ?_
        rw [split, build_events]
        show build source (.mapping start made (some _) :: outer) _ = none
        rw [split', build_events]
        exact stuck ..

end Steps

/-- Whatever descents come to, they come to what the events say. -/
lemma sound (source : Bytes) (events : List Located) (rounds : Nat) : Sound source events rounds := by
  induction rounds with
  | zero => exact ⟨nofun, nofun, nofun⟩
  | succ rounds ih => exact ⟨ih.node_succ, ih.items_succ, ih.entries_succ⟩

/-! ## The end of a descent -/

/-- That descents come to an end in a number of rounds if these are enough for the events ahead. -/
structure Halts (source : Bytes) (events : List Located) (rounds : Nat) : Prop where
  node : ∀ {pos}, 2 * (events.length - pos) < rounds →
    ∃ result, nodeAt? source events rounds pos = some result
  items : ∀ {before pos}, pos ≤ events.length → 2 * (events.length - pos) + 1 < rounds →
    ∃ result, itemsAt? source events rounds before pos = some result
  entries : ∀ {before pos}, pos ≤ events.length → 2 * (events.length - pos) + 1 < rounds →
    ∃ result, entriesAt? source events rounds before pos = some result

/-- A node that is made leads further on. -/
lemma progress {node : Node} (inside : pos ≤ events.length)
    (read : nodeAt? source events rounds pos = some (.ok node, reached)) :
    pos < reached ∧ reached ≤ events.length := by
  cases (sound source events rounds).node inside read with
  | made lt le _ => exact ⟨lt, le⟩

lemma Halts.node_succ (halts : Halts source events rounds)
    (enough : 2 * (events.length - pos) < rounds + 1) :
    ∃ result, nodeAt? source events (rounds + 1) pos = some result := by
  rw [nodeAt?]
  cases here : events[pos]? with
  | none => exact ⟨_, rfl⟩
  | some event =>
    have next : pos + 1 ≤ events.length := (List.getElem?_eq_some_iff.mp here).1
    obtain ⟨kind, offset⟩ := event
    cases kind with
    | sequenceStart tag anchor =>
      exact Attempt.exists_andThen (halts.items next (by omega)) fun _ _ _ => ⟨_, rfl⟩
    | mappingStart tag anchor =>
      exact Attempt.exists_andThen (halts.entries next (by omega)) fun _ _ _ => ⟨_, rfl⟩
    | scalar | «alias» | documentStart | documentEnd | streamEnd | sequenceEnd | mappingEnd =>
      exact ⟨_, rfl⟩

lemma Halts.items_succ (halts : Halts source events rounds) {before : List Node}
    (inside : pos ≤ events.length) (enough : 2 * (events.length - pos) + 1 < rounds + 1) :
    ∃ result, itemsAt? source events (rounds + 1) before pos = some result := by
  rw [itemsAt?]
  cases events[pos]? with
  | none => exact ⟨_, rfl⟩
  | some event =>
    simp only
    split
    · exact ⟨_, rfl⟩
    · refine Attempt.exists_andThen (halts.node (by omega)) fun item there read => ?_
      obtain ⟨further, le⟩ := progress inside read
      exact halts.items le (by omega)

lemma Halts.entries_succ (halts : Halts source events rounds) {before : List Entry}
    (inside : pos ≤ events.length) (enough : 2 * (events.length - pos) + 1 < rounds + 1) :
    ∃ result, entriesAt? source events (rounds + 1) before pos = some result := by
  rw [entriesAt?]
  cases events[pos]? with
  | none => exact ⟨_, rfl⟩
  | some event =>
    simp only
    split
    · exact ⟨_, rfl⟩
    · refine Attempt.exists_andThen (halts.node (by omega)) fun key there read => ?_
      obtain ⟨further, le⟩ := progress inside read
      refine Attempt.exists_andThen (halts.node (by omega)) fun value behind read' => ?_
      obtain ⟨further', le'⟩ := progress le read'
      exact halts.entries le' (by omega)

lemma halts (source : Bytes) (events : List Located) (rounds : Nat) :
    Halts source events rounds := by
  induction rounds with
  | zero => exact ⟨nofun, nofun, nofun⟩
  | succ rounds ih => exact ⟨ih.node_succ, ih.items_succ, ih.entries_succ⟩

/-- A node is built as the descent makes it, and none is where the descent meets a fault. -/
lemma build_eq_of_comes {outcome : Except BuildFault Node}
    (comes : Comes events pos (MakesNode source events pos) (NodeStuck source events pos) outcome
      reached) : build source [] (events.drop pos) =
        outcome.toOption.map fun node => (node, events.drop reached) := by
  cases comes with
  | made _ _ makes =>
    obtain ⟨written, split, rfl⟩ := makes
    rw [split, build_events]
    rfl
  | fault _ _ stuck => exact stuck [] nofun

/-- Events that a node is built from go on with those that write the node. -/
lemma exists_written_of_build {node : Node} {rest : List Located}
    (built : build source [] events = some (node, rest)) :
    ∃ written : Written, events = written.events ++ rest ∧ node = written.node source rest := by
  obtain ⟨⟨outcome, reached⟩, read⟩ :
      ∃ result, nodeAt? source events (2 * events.length + 1) 0 = some result :=
    (halts source events _).node (by omega)
  have comes := (sound source events _).node (Nat.zero_le _) read
  have same := build_eq_of_comes comes
  rw [List.drop_zero, built] at same
  cases comes with
  | made _ _ makes =>
    obtain ⟨written, split, rfl⟩ := makes
    obtain ⟨rfl, rfl⟩ := Prod.mk.inj (Option.some.inj same)
    exact ⟨written, split, rfl⟩
  | fault => cases same

/-- The root of the tree of events is written by some of them that stand together. -/
lemma exists_written_of_ofEvents? {tree : Tree} {root : Node}
    (made : Tree.ofEvents? source events = some tree) (rooted : tree.root = some root) :
    ∃ (front : List Located) (written : Written) (rest : List Located),
      events = front ++ (written.events ++ rest) ∧ root = written.node source rest := by
  rw [Tree.ofEvents?] at made
  split at made
  · cases made
    cases rooted
  next event behind ahead =>
    split at made
    · cases made
      cases rooted
    · obtain ⟨⟨node, rest⟩, built, rfl⟩ := Option.map_eq_some_iff.mp made
      cases rooted
      obtain ⟨written, split, rfl⟩ := exists_written_of_build built
      obtain ⟨front, whole⟩ : event :: behind <:+ events := ahead ▸ List.dropWhile_suffix _
      exact ⟨front, written, rest, by rw [← split, whole], rfl⟩

/-- A descent from any position within any events comes to an end, at a position within the events.
If these go on with the events of a written node, it makes that node and takes these events only; each
part reaches from its first event up to the one behind its last. If it makes a node, the events that
it takes write this node. Otherwise it meets a fault, at the event that is out of place or at the end.
The pass with a stack comes to the same. -/
theorem nodeAt?_inverts (inside : pos ≤ events.length) (enough : 2 * events.length < rounds) :
    ∃ outcome reached, nodeAt? source events rounds pos = some (outcome, reached) ∧
      pos ≤ reached ∧ reached ≤ events.length ∧
      (∀ (written : Written) (rest : List Located), events.drop pos = written.events ++ rest →
        outcome = .ok (written.node source rest) ∧ reached = pos + written.events.length ∧
          events.drop reached = rest ∧
          (written.node source rest).span =
            ⟨following source (written.events ++ rest), following source rest⟩) ∧
      (∀ node, outcome = .ok node → ∃ written : Written,
        events.drop pos = written.events ++ events.drop reached ∧
          node = written.node source (events.drop reached)) ∧
      (∀ fault, outcome = .error fault → fault.Stands events reached) ∧
      build source [] (events.drop pos) =
        outcome.toOption.map fun node => (node, events.drop reached) := by
  obtain ⟨⟨outcome, reached⟩, read⟩ : ∃ result, nodeAt? source events rounds pos = some result :=
    (halts source events rounds).node (by omega)
  have comes := (sound source events rounds).node inside read
  have same := build_eq_of_comes comes
  have bounds : pos ≤ reached ∧ reached ≤ events.length := by
    cases comes with
    | made lt le _ => exact ⟨Nat.le_of_lt lt, le⟩
    | fault le stands _ => exact ⟨le, stands.le⟩
  refine ⟨outcome, reached, read, bounds.1, bounds.2, ?_, ?_, ?_, same⟩
  · intro written rest split
    -- the pass makes the written node, so the descent does
    rw [split, build_events] at same
    cases outcome with
    | error fault => cases same
    | ok node =>
      obtain ⟨rfl, behind⟩ := Prod.mk.inj (Option.some.inj same)
      have length := congrArg List.length split
      have left := congrArg List.length behind
      rw [List.length_drop, List.length_append] at length
      rw [List.length_drop] at left
      exact ⟨rfl, by omega, behind.symm, written.span_node rest⟩
  · rintro node rfl
    cases comes with
    | made _ _ makes => exact makes
  · rintro fault rfl
    cases comes with
    | fault _ stands _ => exact stands

/-- A flow mapping with a sequence for its first key. -/
def keyedWritten : Written :=
  .mapping 0 none none
    [(.sequence 1 none none [.scalar 2 "x" .plain none none] 3, .scalar 6 "1" .plain none none),
      (.scalar 9 "y" .plain none none, .scalar 12 "2" .plain none none)] 13

/-- The events of a document with that mapping. -/
def keyedEvents : List Located :=
  ⟨.documentStart, 0⟩ :: (keyedWritten.events ++ [⟨.documentEnd, 15⟩])

/-- The mapping is made, and of the sequence only the place is kept. -/
theorem nodeAt?_inverts_keyed :
    1 ≤ keyedEvents.length ∧ 2 * keyedEvents.length < 30 ∧
      nodeAt? (Text.bytes "\x7b[x]: 1, y: 2\x7d\n") keyedEvents 30 1 =
        some (.ok (.mapping ⟨0, 15⟩ true [⟨none, ⟨1, 6⟩, none, .scalar ⟨6, 9⟩ "1"⟩,
          ⟨some "y", ⟨9, 12⟩, some 10, .scalar ⟨12, 13⟩ "2"⟩]), 9) := by
  have inside : 1 ≤ keyedEvents.length := by decide
  have enough : 2 * keyedEvents.length < 30 := by decide
  refine ⟨inside, enough, ?_⟩
  obtain ⟨outcome, reached, read, -, -, forth, -⟩ :=
    @nodeAt?_inverts (Text.bytes "\x7b[x]: 1, y: 2\x7d\n") _ _ _ inside enough
  obtain ⟨rfl, rfl, -⟩ := forth keyedWritten _ rfl
  exact read

/-- A key without a value is found out at the end of the mapping. -/
example : (nodeAt? (Text.bytes "\x7ba\x7d")
    [⟨.mappingStart none none, 0⟩, ⟨.scalar "a" .plain none none, 1⟩, ⟨.mappingEnd, 2⟩] 7 0).map
      (fun (outcome, reached) => (outcome.map (fun _ => ()) |>.mapError BuildFault.message, reached)) =
        some (.error "unexpected event MappingEnd at byte 2", 3) := by
  rfl

end ChartLift.Yaml.Layout
