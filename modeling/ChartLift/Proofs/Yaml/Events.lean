import ChartLift.Proofs.Yaml.Grammar
import ChartLift.Proofs.Yaml.Swap

/-!
# Events of tokens with others among them

Where a reading comes past some tokens of its list and would come past others in their place alike, the
events with the others in place are those of the list, but for the events of these tokens
(`events_of_passes`).
-/

namespace ChartLift.Yaml

namespace Reading

/-- A reading with tokens of these kinds ahead. -/
def facing (r : Reading) (kinds : List TokenKind) : Reading :=
  { r with tokens := kinds.map fun kind => ⟨kind, 0, 0⟩ }

@[simp] lemma facing_kinds (r : Reading) (kinds : List TokenKind) :
    (r.facing kinds).tokens.map Token.kind = kinds := by
  simp [facing, Function.comp_def]

/-- What two readings expect that have come equally far. -/
structure Level (r r' : Reading) : Prop where
  expects : r'.expects = r.expects
  handles : r'.handles = r.handles
  anchors : r'.anchors = r.anchors

/-- A reading comes past some tokens, with the token `ahead` next, having said some events before these
tokens or along with them. Were the other tokens in their place, it would come as far, having said
other events. -/
inductive Passes (dialect : Dialect) (swap : Swap TokenKind) (ahead : TokenKind) :
    Reading → Swap EventKind → Reading → Prop where
  | intro {r q s s' : Reading} {front old new : List Event} {first : TokenKind}
      {later later' : List TokenKind} {a b c : Nat}
      (begins : swap.old = first :: later) (begins' : swap.new = first :: later')
      (way : (next dialect).steps a (r.facing (swap.front ++ [first])) = some (front, q))
      (here : q.tokens.map Token.kind = [first])
      (past : (next dialect).steps b (q.facing (swap.old ++ [ahead])) = some (old, s))
      (there : s.tokens.map Token.kind = [ahead])
      (past' : (next dialect).steps c (q.facing (swap.new ++ [ahead])) = some (new, s'))
      (there' : s'.tokens.map Token.kind = [ahead])
      (level : s.Level s') :
      Passes dialect swap ahead r
        ⟨front.map Event.kind, old.map Event.kind, new.map Event.kind⟩ s

/-- A reading comes past some tokens of its list, one after the other. -/
inductive PassesAll (dialect : Dialect) (tail : List TokenKind) :
    Reading → List (Swap TokenKind) → List (Swap EventKind) → Prop
  | done {r : Reading} : PassesAll dialect tail r [] []
  | cons {r s : Reading} {swap : Swap TokenKind} {swaps : List (Swap TokenKind)} {ahead : TokenKind}
      {kinds : Swap EventKind} {more : List (Swap EventKind)}
      (next : (Swap.source swaps tail).head? = some ahead) (first : Passes dialect swap ahead r kinds s)
      (later : PassesAll dialect tail s swaps more) :
      PassesAll dialect tail r (swap :: swaps) (kinds :: more)

variable {dialect : Dialect} {tail tail' : List TokenKind} {r s : Reading} {swap : Swap TokenKind}
  {swaps : List (Swap TokenKind)} {kinds : List (Swap EventKind)}

/-! ## Finding passages -/

/-- Whether so many steps lead a reading past some tokens and equally far past the other ones: the
events on the way, and the reading behind the tokens. -/
def pass? (dialect : Dialect) (swap : Swap TokenKind) (ahead : TokenKind) (strides : Strides)
    (r : Reading) : Option (Swap EventKind × Reading) := do
  let first ← swap.old.head?
  let (front, q) ← (next dialect).steps strides.before (r.facing (swap.front ++ [first]))
  let (old, s) ← (next dialect).steps strides.old (q.facing (swap.old ++ [ahead]))
  let (new, s') ← (next dialect).steps strides.new (q.facing (swap.new ++ [ahead]))
  if swap.new.head? = some first ∧ q.tokens.map Token.kind = [first] ∧
      s.tokens.map Token.kind = [ahead] ∧ s'.tokens.map Token.kind = [ahead] ∧
      s'.expects = s.expects ∧ s'.handles = s.handles ∧ s'.anchors = s.anchors then
    some (⟨front.map Event.kind, old.map Event.kind, new.map Event.kind⟩, s)
  else none

/-- The events on the way past some tokens, if so many steps lead past each of them. -/
def passAll? (dialect : Dialect) (tail : List TokenKind) :
    Reading → List (Swap TokenKind) → List Strides → Option (List (Swap EventKind))
  | _, [], _ => some []
  | _, _ :: _, [] => none
  | r, swap :: swaps, strides :: more => do
    let ahead ← (Swap.source swaps tail).head?
    let (kinds, s) ← r.pass? dialect swap ahead strides
    let later ← passAll? dialect tail s swaps more
    return kinds :: later

lemma passes_of_pass? {ahead : TokenKind} {strides : Strides} {kinds : Swap EventKind}
    (found : r.pass? dialect swap ahead strides = some (kinds, s)) :
    Passes dialect swap ahead r kinds s := by
  obtain ⟨first, begins, found⟩ := Option.bind_eq_some_iff.mp found
  obtain ⟨⟨front, q⟩, way, found⟩ := Option.bind_eq_some_iff.mp found
  obtain ⟨⟨old, s₁⟩, past, found⟩ := Option.bind_eq_some_iff.mp found
  obtain ⟨⟨new, s'⟩, past', found⟩ := Option.bind_eq_some_iff.mp found
  obtain ⟨⟨begins', here, there, there', expects, handles, anchors⟩, eq⟩ :=
    Option.ite_none_right_eq_some.mp found
  obtain ⟨later, begins⟩ := List.head?_eq_some_iff.mp begins
  obtain ⟨later', begins'⟩ := List.head?_eq_some_iff.mp begins'
  cases eq
  exact .intro begins begins' way here past there past' there' ⟨expects, handles, anchors⟩

lemma passesAll_of_passAll? {strides : List Strides}
    (found : r.passAll? dialect tail swaps strides = some kinds) :
    PassesAll dialect tail r swaps kinds := by
  induction swaps generalizing strides r kinds with
  | nil =>
    cases found
    exact .done
  | cons swap swaps ih =>
    cases strides with
    | nil => cases found
    | cons strides more =>
      obtain ⟨ahead, next_, found⟩ := Option.bind_eq_some_iff.mp found
      obtain ⟨⟨first, s⟩, passes, found⟩ := Option.bind_eq_some_iff.mp found
      obtain ⟨later, all, eq⟩ := Option.bind_eq_some_iff.mp found
      cases eq
      exact .cons next_ (passes_of_pass? passes) (ih all)

/-! ## Readings that have come equally far -/

/-- Both lists begin with the same token. -/
lemma PassesAll.head? (passes : PassesAll dialect tail r swaps kinds) (shorter : tail <+: tail')
    {ahead : TokenKind} (next : (Swap.source swaps tail).head? = some ahead) :
    (Swap.result swaps tail').head? = some ahead := by
  cases passes with
  | done =>
    obtain ⟨more, rfl⟩ := shorter
    cases tail with
    | nil => simp [Swap.source] at next
    | cons => exact next
  | cons _ first _ =>
    cases first with
    | intro begins begins' =>
      simp only [Swap.source, Swap.result, begins, begins'] at next ⊢
      simpa [List.head?_append] using next

lemma Level.extends_ {kinds more : List TokenKind} (level : r.Level s)
    (tokens : s.tokens.map Token.kind = kinds ++ more) : Extends more (r.facing kinds) s :=
  ⟨by rw [tokens, facing_kinds], level.expects, level.handles, level.anchors⟩

lemma Extends.level {more : List TokenKind} (extends_ : Extends more r s) : r.Level s :=
  ⟨extends_.expects, extends_.handles, extends_.anchors⟩

lemma Level.symm (level : r.Level s) : s.Level r :=
  ⟨level.expects.symm, level.handles.symm, level.anchors.symm⟩

lemma Level.trans {t : Reading} (level : r.Level s) (on : s.Level t) : r.Level t :=
  ⟨on.expects.trans level.expects, on.handles.trans level.handles, on.anchors.trans level.anchors⟩

/-- The way of a reading past some tokens, in a list that goes on behind the next token. -/
lemma exists_steps_of_facing {q : Reading} {given : List Event} {n : Nat} {seen left more : List TokenKind}
    (goes : (next dialect).steps n (r.facing (seen ++ left)) = some (given, q))
    (there : q.tokens.map Token.kind = left) (level : r.Level s)
    (tokens : s.tokens.map Token.kind = seen ++ (left ++ more)) :
    ∃ given' q', (next dialect).steps n s = some (given', q')
      ∧ given'.map Event.kind = given.map Event.kind ∧ q.Level q'
      ∧ q'.tokens.map Token.kind = left ++ more := by
  obtain ⟨given', q', goes', same, on⟩ :=
    (level.extends_ (tokens.trans (List.append_assoc ..).symm)).steps goes
  exact ⟨given', q', goes', same, on.level, by rw [on.tokens, there]⟩

/-- What a reading says that comes up to some tokens and past them: what is said on the way, what is said
past them, and then what a reading says that has come as far. -/
lemma exists_outputs_of_facing (lean : dialect.missingKeys = false) {q r₁ : Reading} {front given : List Event}
    {a b fuel : Nat} {first ahead : TokenKind} {before range later rest : List TokenKind}
    (way : (next dialect).steps a (r.facing (before ++ [first])) = some (front, q))
    (here : q.tokens.map Token.kind = [first]) (begins : range = first :: later)
    (past : (next dialect).steps b (q.facing (range ++ [ahead])) = some (given, s))
    (there : s.tokens.map Token.kind = [ahead]) (next_ : rest.head? = some ahead) (level : r.Level r₁)
    (tokens : r₁.tokens.map Token.kind = before ++ (range ++ rest)) (enough : r₁.potential ≤ fuel) :
    ∃ s₁ fuel₁, s.Level s₁ ∧ s₁.tokens.map Token.kind = rest ∧ s₁.potential ≤ fuel₁ ∧
      ((next dialect).outputs fuel r₁).map Event.kind =
        front.map Event.kind ++ (given.map Event.kind ++ ((next dialect).outputs fuel₁ s₁).map Event.kind) := by
  obtain ⟨others, rfl⟩ := List.head?_eq_some_iff.mp next_
  obtain ⟨front₁, q₁, way₁, same, on, left⟩ := exists_steps_of_facing way here level
    (show _ = before ++ ([first] ++ (later ++ ahead :: others)) by rw [tokens, begins]; rfl)
  obtain ⟨given₁, s₁, past₁, same₁, on₁, left₁⟩ := exists_steps_of_facing past there on
    (show _ = range ++ ([ahead] ++ others) by rw [left, begins]; rfl)
  have both := Machine.steps_add way₁ past₁
  have spent := steps_potential lean both
  refine ⟨s₁, fuel - (a + b), on₁, left₁, by omega, ?_⟩
  rw [Machine.outputs_of_steps both (by omega), List.map_append, List.map_append, same, same₁,
    List.append_assoc]

/-- The events that readings say which come past the ones and the others of some tokens differ in those
of these tokens only. -/
theorem PassesAll.outputs (lean : dialect.missingKeys = false)
    (passes : PassesAll dialect tail r swaps kinds) (shorter : tail <+: tail') {r₁ r₂ : Reading}
    (level : r.Level r₁) (tokens : r₁.tokens.map Token.kind = Swap.source swaps tail)
    (level' : r.Level r₂) (tokens' : r₂.tokens.map Token.kind = Swap.result swaps tail')
    {fuel fuel' : Nat} (enough : r₁.potential ≤ fuel) (enough' : r₂.potential ≤ fuel') :
    ∃ said said', said <+: said' ∧
      ((next dialect).outputs fuel r₁).map Event.kind = Swap.source kinds said ∧
      ((next dialect).outputs fuel' r₂).map Event.kind = Swap.result kinds said' := by
  induction passes generalizing r₁ r₂ fuel fuel' with
  | done =>
    -- whatever is said of the shorter list is said of the longer one
    obtain ⟨more, rfl⟩ := shorter
    obtain ⟨n, t, -, goes⟩ := Machine.exists_steps (next dialect) fuel r₁
    have further : Extends more r₁ r₂ :=
      ⟨by rw [tokens, tokens']; rfl, (level.symm.trans level').expects, (level.symm.trans level').handles,
        (level.symm.trans level').anchors⟩
    obtain ⟨given', t', goes', same, -⟩ := further.steps goes
    have spent := steps_potential lean goes'
    refine ⟨_, _, ?_, rfl, rfl⟩
    rw [Machine.outputs_of_steps goes' (by omega), List.map_append, ← same]
    exact List.prefix_append ..
  | cons next_ first later ih =>
    cases first with
    | intro begins begins' way here past there past' there' level₁ =>
      obtain ⟨s₁, _, on, left, enough, tells⟩ :=
        exists_outputs_of_facing lean way here begins past there next_ level tokens enough
      obtain ⟨s₂, _, on', left', enough', tells'⟩ :=
        exists_outputs_of_facing lean way here begins' past' there' (later.head? shorter next_) level' tokens'
          enough'
      obtain ⟨said, said', few, eq, eq'⟩ := ih on left (level₁.trans on') left' enough enough'
      exact ⟨said, said', few, by rw [tells, eq]; rfl, by rw [tells', eq']; rfl⟩

/-- A reading at the start of a stream. -/
def begun : Reading := ⟨[], 0, [.document true], [], []⟩

end Reading

/-- The events of a stream are what a reading says of the tokens behind its start. -/
lemma events_eq (dialect : Dialect) {stream : TokenStream} {first : TokenKind}
    {kinds : List TokenKind} (tokens : stream.tokens.map Token.kind = .streamStart :: kinds)
    (begins : kinds.head? = some first) (once : first ≠ .streamStart) :
    ∃ r fuel, Reading.begun.Level r ∧ r.tokens.map Token.kind = kinds ∧ r.potential ≤ fuel ∧
      (stream.events dialect).events = (Reading.next dialect).outputs fuel r := by
  obtain ⟨start, list, eq, kind, rfl⟩ := List.map_eq_cons_iff.mp tokens
  have dropped : stream.tokens.dropWhile (·.kind == .streamStart) = list := by
    rw [eq, List.dropWhile_cons_of_pos (by simp [kind])]
    cases list with
    | nil => rfl
    | cons token rest =>
      obtain rfl : token.kind = first := by simpa using begins
      exact List.dropWhile_cons_of_neg (by simpa using once)
  refine ⟨⟨list, 0, [.document true], [], []⟩, 8 * (list.length + 4), ⟨rfl, rfl, rfl⟩, rfl, ?_, ?_⟩
  · simp only [Reading.potential, Expect.weight, List.map_cons, List.map_nil, List.sum_cons,
      List.sum_nil, if_true]
    omega
  · rw [TokenStream.events, dropped, Reading.run_events]

/-- Where the reading of a stream comes past some tokens, the events of the stream and those with the
other tokens in place differ in those of these tokens only. -/
theorem events_of_passes {dialect : Dialect} (lean : dialect.missingKeys = false)
    {tail tail' : List TokenKind} {swaps : List (Swap TokenKind)} {kinds : List (Swap EventKind)}
    (passes : Reading.begun.PassesAll dialect tail swaps kinds) (shorter : tail <+: tail')
    {first : TokenKind} (begins : (Swap.source swaps tail).head? = some first)
    (once : first ≠ .streamStart) {stream stream' : TokenStream}
    (tokens : stream.tokens.map Token.kind = .streamStart :: Swap.source swaps tail)
    (tokens' : stream'.tokens.map Token.kind = .streamStart :: Swap.result swaps tail') :
    ∃ said said', said <+: said' ∧
      (stream.events dialect).events.map Event.kind = Swap.source kinds said ∧
      (stream'.events dialect).events.map Event.kind = Swap.result kinds said' := by
  obtain ⟨r, fuel, level, here, enough, eq⟩ := events_eq dialect tokens begins once
  obtain ⟨r', fuel', level', here', enough', eq'⟩ :=
    events_eq dialect tokens' (passes.head? shorter begins) once
  rw [eq, eq']
  exact passes.outputs lean shorter level here level' here' enough enough'

end ChartLift.Yaml
