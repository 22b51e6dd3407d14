import ChartLift.Proofs.Yaml.Machine
import ChartLift.Yaml.Grammar
import Mathlib.Algebra.GroupWithZero.Nat
import Mathlib.Tactic.Lemma

/-!
# Steps of the grammar

`Move` says once what a step can do: how many tokens it takes, what it says, and what it expects from
then on. A bound on the steps follows from it (`Reading.steps_potential`). `Reading.Extends` relates the
readings of two token lists, the one with more tokens at the end; a step that can be taken of the shorter
list is taken of the longer one as well, since it looks at no token that is not there
(`Reading.Extends.step`).
-/

namespace ChartLift.Yaml

/-- What a step can do where keys are never left out: the tokens that it takes, the event that it says,
and what it expects then. -/
inductive Move : Expect → Nat → Option EventKind → List Expect → Prop where
  | streamEnd {first n} : Move (.document first) (n + 1) (some .streamEnd) []
  | marker {first n} : Move (.document first) (n + 1) (some .documentStart) [.content, .documentEnd]
  | bare {n} : Move (.document true) n (some .documentStart) [.node true false, .documentEnd]
  | noContent : Move .content 0 (some (.scalar "" .plain none none)) []
  | content : Move .content 0 none [.node true false]
  | endMarker {first} : Move .documentEnd 1 (some .documentEnd) [.document first]
  | noMarker : Move .documentEnd 0 (some .documentEnd) [.document false]
  | alias {block indentless n name} : Move (.node block indentless) (n + 1) (some (.alias name)) []
  | scalar {block indentless n text style tag anchor} :
      Move (.node block indentless) (n + 1) (some (.scalar text style tag anchor)) []
  | indentlessSequence {block indentless n tag anchor} :
      Move (.node block indentless) n (some (.sequenceStart tag anchor)) [.indentlessItem]
  | blockSequence {block indentless n tag anchor} :
      Move (.node block indentless) (n + 1) (some (.sequenceStart tag anchor)) [.blockItem]
  | blockMapping {block indentless n tag anchor} :
      Move (.node block indentless) (n + 1) (some (.mappingStart tag anchor)) [.blockKey]
  | flowSequence {block indentless n tag anchor} :
      Move (.node block indentless) (n + 1) (some (.sequenceStart tag anchor)) [.flowItem true]
  | flowMapping {block indentless n tag anchor} :
      Move (.node block indentless) (n + 1) (some (.mappingStart tag anchor)) [.flowKey true]
  | noBlockItem : Move .blockItem 1 (some (.scalar "" .plain none none)) [.blockItem]
  | blockItem : Move .blockItem 1 none [.node true false, .blockItem]
  | blockItemsEnd : Move .blockItem 1 (some .sequenceEnd) []
  | noIndentlessItem : Move .indentlessItem 1 (some (.scalar "" .plain none none)) [.indentlessItem]
  | indentlessItem : Move .indentlessItem 1 none [.node true false, .indentlessItem]
  | indentlessItemsEnd : Move .indentlessItem 0 (some .sequenceEnd) []
  | noBlockKey : Move .blockKey 1 (some (.scalar "" .plain none none)) [.blockValue]
  | blockKey : Move .blockKey 1 none [.node true true, .blockValue]
  | blockKeysEnd : Move .blockKey 1 (some .mappingEnd) []
  | noBlockValue {n} : Move .blockValue n (some (.scalar "" .plain none none)) [.blockKey]
  | blockValue : Move .blockValue 1 none [.node true true, .blockKey]
  | flowItemsEnd {first n} : Move (.flowItem first) (n + 1) (some .sequenceEnd) []
  | pair {first n} :
      Move (.flowItem first) (n + 1) (some (.mappingStart none none)) [.pairKey, .flowItem false]
  | firstFlowItem : Move (.flowItem true) 0 none [.node false false, .flowItem false]
  | flowItem {first} : Move (.flowItem first) 1 none [.node false false, .flowItem false]
  | noPairKey : Move .pairKey 1 (some (.scalar "" .plain none none)) [.pairValue]
  | pairKey : Move .pairKey 0 none [.node false false, .pairValue]
  | noPairValue {n} : Move .pairValue n (some (.scalar "" .plain none none)) [.pairEnd]
  | pairValue : Move .pairValue 1 none [.node false false, .pairEnd]
  | pairEnd : Move .pairEnd 0 (some .mappingEnd) []
  | flowKeysEnd {first n} : Move (.flowKey first) (n + 1) (some .mappingEnd) []
  | noFlowKey {first n} :
      Move (.flowKey first) (n + 1) (some (.scalar "" .plain none none)) [.flowValue false]
  | flowKey {first n} : Move (.flowKey first) (n + 1) none [.node false false, .flowValue false]
  | firstLoneKey : Move (.flowKey true) 0 none [.node false false, .flowValue true]
  | loneKey {first} : Move (.flowKey first) 1 none [.node false false, .flowValue true]
  | noFlowValue {absent n} :
      Move (.flowValue absent) n (some (.scalar "" .plain none none)) [.flowKey false]
  | flowValue {absent} : Move (.flowValue absent) 1 none [.node false false, .flowKey false]

namespace Reading

variable {r : Reading} {said : Option Event} {k m : Reading} {dialect : Dialect}

/-- What comes of a step: it makes one of the moves. -/
def Moves (expected : Expect) (r : Reading) (result : Step) : Prop :=
  ∀ said m, result = some (said, m) →
    ∃ seen new, Move expected seen.length (said.map Event.kind) new ∧ r.tokens = seen ++ m.tokens
      ∧ m.expects = new ++ r.expects

/-- A reading on the way of a step: the first tokens are taken, and new expectations put up. -/
def Behind (n : Nat) (new : List Expect) (r k : Reading) : Prop :=
  (∃ seen, seen.length = n ∧ r.tokens = seen ++ k.tokens) ∧ k.expects = new ++ r.expects

variable {n : Nat} {new : List Expect}

lemma Behind.refl (r : Reading) : Behind 0 [] r r := ⟨⟨[], rfl, rfl⟩, rfl⟩

lemma Behind.take {token : Token} {rest : List Token} (behind : Behind n new r k)
    (ahead : k.tokens = token :: rest) : Behind (n + 1) new r k.take := by
  obtain ⟨⟨seen, rfl, eq⟩, expects⟩ := behind
  exact ⟨⟨seen ++ [token], by simp, by simp [Reading.take, eq, ahead]⟩, expects⟩

lemma Behind.trans {a : Nat} {k : Reading} (first : Behind 0 [] r k) (then_ : Behind a [] k m) :
    Behind a [] r m := by
  obtain ⟨⟨_, none, eq⟩, expects⟩ := first
  obtain rfl := List.length_eq_zero_iff.mp none
  exact ⟨by rw [eq]; exact then_.1, then_.2.trans expects⟩

lemma Behind.expect (behind : Behind n new r k) (more : List Expect) :
    Behind n (more ++ new) r (k.expect more) :=
  ⟨behind.1, by simp [Reading.expect, behind.2]⟩

lemma Moves.say {expected : Expect} {kind : EventKind} (behind : Behind n new r k) (place : Nat)
    (move : Move expected n (some kind) new) : Moves expected r (k.say kind place) := by
  intro said m result
  obtain ⟨rfl, rfl⟩ : some ⟨kind, place⟩ = said ∧ k = m := by simpa [Reading.say] using result
  obtain ⟨⟨seen, rfl, eq⟩, expects⟩ := behind
  exact ⟨seen, new, move, eq, expects⟩

lemma Moves.silent {expected : Expect} (behind : Behind n new r k) (move : Move expected n none new) :
    Moves expected r k.silent := by
  intro said m result
  obtain ⟨rfl, rfl⟩ : none = said ∧ k = m := by simpa [Reading.silent] using result
  obtain ⟨⟨seen, rfl, eq⟩, expects⟩ := behind
  exact ⟨seen, new, move, eq, expects⟩

lemma Moves.none {expected : Expect} : Moves expected r none := nofun

lemma Moves.look {expected : Expect} {next : Token → Reading → Step} (behind : Behind n new r k)
    (then_ : ∀ token j, Behind n new r j → Behind (n + 1) new r j.take →
      Moves expected r (next token j)) : Moves expected r (k.look next) := by
  unfold Reading.look
  split
  · exact Moves.none
  case h_2 token rest ahead => exact then_ token _ behind (behind.take ahead)

lemma Moves.ite {p : Prop} [Decidable p] {expected : Expect} {a b : Step} (yes : p → Moves expected r a)
    (no : ¬p → Moves expected r b) : Moves expected r (if p then a else b) := by
  split
  case isTrue holds => exact yes holds
  case isFalse fails => exact no fails

lemma Behind.directives {version : Bool} {fuel : Nat} (behind : Behind n new r k)
    (reads : directives dialect version k fuel = some m) : ∃ n, Behind n new r m := by
  induction fuel generalizing k n version with
  | zero => simp [Yaml.directives] at reads
  | succ fuel ih =>
    unfold Yaml.directives at reads
    split at reads
    · simp at reads
    case h_2 ahead =>
      have taken := behind.take ahead
      simp only at reads
      split at reads
      · split at reads
        · simp at reads
        · split at reads
          · simp at reads
          · exact ih (by exact taken) reads
      · split at reads
        · simp at reads
        · exact ih (by exact taken) reads
      · obtain rfl : _ = m := by simpa using reads
        exact ⟨n, behind⟩

lemma documentStep_moves (first : Bool) (r : Reading) :
    Moves (.document first) r (documentStep dialect first r) := by
  have skipped : ∃ n, Behind n [] r (skipDocumentEnds r) :=
    ⟨_, ⟨_, rfl, (List.takeWhile_append_dropWhile).symm⟩, rfl⟩
  obtain ⟨n, begun⟩ : ∃ n, Behind n [] r
      (if first && dialect.strictDirectives then r else skipDocumentEnds r) := by
    split
    · exact ⟨0, Behind.refl r⟩
    · exact skipped
  unfold documentStep
  refine Moves.look ⟨begun.1, begun.2⟩ fun token j behind taken => ?_
  have marked : Moves (.document first) r (markedDocument dialect j) := by
    unfold markedDocument
    split
    · exact Moves.none
    case h_2 k reads =>
      obtain ⟨n, behind⟩ := behind.directives reads
      refine Moves.look behind fun token j behind taken => ?_
      split
      · exact Moves.say (Behind.expect taken _) _ .marker
      · exact Moves.none
  split
  · exact Moves.say taken _ .streamEnd
  · exact marked
  · exact marked
  · exact marked
  · refine Moves.ite (fun first => ?_) fun _ => Moves.none
    subst first
    exact Moves.say (Behind.expect behind _) _ .bare

/-- The properties of a node are tokens of their own. -/
lemma properties_behind {anchor : Option String} {shorthand : Option (String × String)}
    (reads : properties r = some (anchor, shorthand, m)) :
    ∃ n, Behind n [] r m ∧ (anchor = none ∧ shorthand = none ∨ n ≠ 0) := by
  unfold properties at reads
  split at reads
  all_goals
    simp only [Option.some.injEq, Prod.mk.injEq] at reads
    obtain ⟨rfl, rfl, rfl⟩ := reads
  case h_1 tokens => exact ⟨2, ⟨⟨[_, _], rfl, tokens⟩, rfl⟩, .inr (by decide)⟩
  case h_2 tokens => exact ⟨1, ⟨⟨[_], rfl, tokens⟩, rfl⟩, .inr (by decide)⟩
  case h_3 tokens => exact ⟨2, ⟨⟨[_, _], rfl, tokens⟩, rfl⟩, .inr (by decide)⟩
  case h_4 tokens => exact ⟨1, ⟨⟨[_], rfl, tokens⟩, rfl⟩, .inr (by decide)⟩
  case h_5 => exact ⟨0, Behind.refl r, .inl ⟨rfl, rfl⟩⟩

lemma contentStep_moves (behind : Behind n [] r k) (block indentless : Bool)
    {tag anchor : Option String} (owns : anchor = none ∧ tag = none ∨ n ≠ 0) :
    Moves (.node block indentless) r (contentStep block indentless tag anchor k) := by
  unfold contentStep
  refine Moves.look behind fun token j behind taken => ?_
  have empty : Moves (.node block indentless) r
      (if tag.isSome || anchor.isSome then j.say (.scalar "" .plain tag anchor) token.start
        else none) := by
    refine Moves.ite (fun some => ?_) fun _ => Moves.none
    obtain ⟨n, rfl⟩ := Nat.exists_eq_succ_of_ne_zero
      (owns.resolve_left fun none => by simp [none] at some)
    exact Moves.say behind _ .scalar
  split
  · exact Moves.ite (fun _ => Moves.say (Behind.expect behind _) _ .indentlessSequence) fun _ => empty
  · exact Moves.say taken _ .scalar
  · exact Moves.say (Behind.expect taken _) _ .flowSequence
  · exact Moves.say (Behind.expect taken _) _ .flowMapping
  · exact Moves.ite (fun _ => Moves.say (Behind.expect taken _) _ .blockSequence) fun _ => empty
  · exact Moves.ite (fun _ => Moves.say (Behind.expect taken _) _ .blockMapping) fun _ => empty
  · exact empty

lemma nodeStep_moves (block indentless : Bool) (r : Reading) :
    Moves (.node block indentless) r (nodeStep block indentless r) := by
  unfold nodeStep
  refine Moves.look (Behind.refl r) fun token j behind taken => ?_
  split
  · exact Moves.ite (fun _ => Moves.say taken _ .alias) fun _ => Moves.none
  · split
    · exact Moves.none
    case h_2 anchor shorthand k reads =>
      obtain ⟨n, on, owns⟩ := properties_behind reads
      have behind : Behind n [] r { k with anchors := anchor.toList ++ k.anchors } :=
        behind.trans on
      dsimp only
      split
      · exact contentStep_moves behind block indentless (owns.imp (fun none => ⟨none.1, rfl⟩) id)
      · split
        · exact Moves.none
        · exact contentStep_moves behind block indentless (.inr (owns.resolve_left (by simp)))

lemma documentEndStep_moves (r : Reading) :
    Moves .documentEnd r (documentEndStep dialect r) := by
  unfold documentEndStep
  refine Moves.look (Behind.refl r) fun token j behind taken => ?_
  split
  · exact Moves.say (Behind.expect taken _) _ .endMarker
  · exact Moves.ite (fun _ => Moves.say (Behind.expect behind _) _ .noMarker) fun _ => Moves.none
  · exact Moves.ite (fun _ => Moves.say (Behind.expect behind _) _ .noMarker) fun _ => Moves.none
  · exact Moves.say (Behind.expect behind _) _ .noMarker

lemma blockItemStep_moves (r : Reading) : Moves .blockItem r (blockItemStep r) := by
  unfold blockItemStep
  refine Moves.look (Behind.refl r) fun token j behind taken => ?_
  split
  · refine Moves.look taken fun next j behind _ => ?_
    split
    · exact Moves.say (Behind.expect behind _) _ .noBlockItem
    · exact Moves.say (Behind.expect behind _) _ .noBlockItem
    · exact Moves.silent (Behind.expect behind _) .blockItem
  · exact Moves.say taken _ .blockItemsEnd
  · exact Moves.none

lemma indentlessItemStep_moves (r : Reading) : Moves .indentlessItem r (indentlessItemStep r) := by
  unfold indentlessItemStep
  refine Moves.look (Behind.refl r) fun token j behind taken => ?_
  split
  · refine Moves.look taken fun next j behind _ => ?_
    split
    · exact Moves.say (Behind.expect behind _) _ .noIndentlessItem
    · exact Moves.say (Behind.expect behind _) _ .noIndentlessItem
    · exact Moves.say (Behind.expect behind _) _ .noIndentlessItem
    · exact Moves.say (Behind.expect behind _) _ .noIndentlessItem
    · exact Moves.silent (Behind.expect behind _) .indentlessItem
  · exact Moves.say behind _ .indentlessItemsEnd

lemma blockKeyStep_moves (lean : dialect.missingKeys = false) (r : Reading) :
    Moves .blockKey r (blockKeyStep dialect r) := by
  unfold blockKeyStep
  refine Moves.look (Behind.refl r) fun token j behind taken => ?_
  split
  · refine Moves.look taken fun next j behind _ => ?_
    split
    · exact Moves.say (Behind.expect behind _) _ .noBlockKey
    · exact Moves.say (Behind.expect behind _) _ .noBlockKey
    · exact Moves.say (Behind.expect behind _) _ .noBlockKey
    · exact Moves.silent (Behind.expect behind _) .blockKey
  · rw [lean, if_neg Bool.false_ne_true]
    exact Moves.none
  · exact Moves.say taken _ .blockKeysEnd
  · exact Moves.none

lemma blockValueStep_moves (r : Reading) : Moves .blockValue r (blockValueStep r) := by
  unfold blockValueStep
  refine Moves.look (Behind.refl r) fun token j behind taken => ?_
  split
  · refine Moves.look taken fun next j behind _ => ?_
    split
    · exact Moves.say (Behind.expect behind _) _ .noBlockValue
    · exact Moves.say (Behind.expect behind _) _ .noBlockValue
    · exact Moves.say (Behind.expect behind _) _ .noBlockValue
    · exact Moves.silent (Behind.expect behind _) .blockValue
  · exact Moves.say (Behind.expect behind _) _ .noBlockValue

lemma behindComma_moves {expected : Expect} {first : Bool} {close : TokenKind}
    {next : Token → Reading → Step}
    (then_ : ∀ n token j, Behind n [] r j → Behind (n + 1) [] r j.take → n ≤ 1 →
      (n = 0 → first = true ∨ token.kind = close) → Moves expected r (next token j))
    (behind : Behind 0 [] r k) : Moves expected r (behindComma first close k next) := by
  unfold behindComma
  refine Moves.look behind fun token j behind taken => ?_
  refine Moves.ite (fun here => ?_) fun _ => Moves.ite (fun _ => ?_) fun _ => Moves.none
  · exact then_ 0 token j behind taken (Nat.zero_le 1) fun _ => by simpa using here
  · exact Moves.look taken fun token j behind taken =>
      then_ 1 token j behind taken (Nat.le_refl 1) (by simp)

lemma flowItemStep_moves (first : Bool) (r : Reading) :
    Moves (.flowItem first) r (flowItemStep first r) := by
  refine behindComma_moves (fun n token j behind taken few here => ?_) (Behind.refl r)
  split
  · exact Moves.say taken _ .flowItemsEnd
  · exact Moves.say (Behind.expect taken _) _ .pair
  case h_3 other _ =>
    obtain rfl | rfl : n = 0 ∨ n = 1 := by omega
    · obtain rfl := (here rfl).resolve_right other
      exact Moves.silent (Behind.expect behind _) .firstFlowItem
    · exact Moves.silent (Behind.expect behind _) .flowItem

lemma pairKeyStep_moves (r : Reading) : Moves .pairKey r (pairKeyStep r) := by
  unfold pairKeyStep
  refine Moves.look (Behind.refl r) fun token j behind taken => ?_
  split
  · exact Moves.say (Behind.expect taken _) _ .noPairKey
  · exact Moves.say (Behind.expect taken _) _ .noPairKey
  · exact Moves.say (Behind.expect taken _) _ .noPairKey
  · exact Moves.silent (Behind.expect behind _) .pairKey

lemma pairValueStep_moves (r : Reading) : Moves .pairValue r (pairValueStep r) := by
  unfold pairValueStep
  refine Moves.look (Behind.refl r) fun token j behind taken => ?_
  split
  · refine Moves.look taken fun next j behind _ => ?_
    split
    · exact Moves.say (Behind.expect behind _) _ .noPairValue
    · exact Moves.say (Behind.expect behind _) _ .noPairValue
    · exact Moves.silent (Behind.expect behind _) .pairValue
  · exact Moves.say (Behind.expect behind _) _ .noPairValue

lemma flowKeyStep_moves (lean : dialect.missingKeys = false) (first : Bool) (r : Reading) :
    Moves (.flowKey first) r (flowKeyStep dialect first r) := by
  refine Moves.look (Behind.refl r) fun early j behind _ => ?_
  refine behindComma_moves (fun n token j behind taken few here => ?_) behind
  have lone (other : token.kind ≠ .flowMappingEnd) :
      Moves (.flowKey first) r (j.expect [.node false false, .flowValue true]).silent := by
    obtain rfl | rfl : n = 0 ∨ n = 1 := by omega
    · obtain rfl := (here rfl).resolve_right other
      exact Moves.silent (Behind.expect behind _) .firstLoneKey
    · exact Moves.silent (Behind.expect behind _) .loneKey
  split
  · exact Moves.say taken _ .flowKeysEnd
  · refine Moves.look taken fun next j behind _ => ?_
    split
    · exact Moves.say (Behind.expect behind _) _ .noFlowKey
    · exact Moves.say (Behind.expect behind _) _ .noFlowKey
    · exact Moves.say (Behind.expect behind _) _ .noFlowKey
    · exact Moves.silent (Behind.expect behind _) .flowKey
  case h_3 kind =>
    rw [lean, if_neg Bool.false_ne_true]
    exact lone (by rw [kind]; exact TokenKind.noConfusion)
  case h_4 other _ _ => exact lone other

lemma flowValueStep_moves (absent : Bool) (r : Reading) :
    Moves (.flowValue absent) r (flowValueStep absent r) := by
  unfold flowValueStep
  refine Moves.look (Behind.refl r) fun token j behind taken => ?_
  have behind := Behind.expect behind [.flowKey false]
  have taken : Behind 1 [.flowKey false] r (j.expect [.flowKey false]).take :=
    Behind.expect taken [.flowKey false]
  refine Moves.ite (fun _ => Moves.say behind _ .noFlowValue) fun _ => ?_
  split
  · refine Moves.look taken fun next j behind _ => ?_
    split
    · exact Moves.say behind _ .noFlowValue
    · exact Moves.say behind _ .noFlowValue
    · exact Moves.silent (Behind.expect behind _) .flowValue
  · exact Moves.say behind _ .noFlowValue

/-- A step makes one of the moves. -/
lemma step_moves (lean : dialect.missingKeys = false) (expected : Expect) (r : Reading) :
    Moves expected r (Yaml.step dialect expected r) := by
  have here := Behind.refl r
  cases expected <;> simp only [Yaml.step]
  case document first => exact documentStep_moves first r
  case content =>
    refine Moves.look here fun token j behind taken => Moves.ite (fun _ => ?_) fun _ => ?_
    · exact Moves.say behind _ .noContent
    · exact Moves.silent (Behind.expect behind _) .content
  case documentEnd => exact documentEndStep_moves r
  case node block indentless => exact nodeStep_moves block indentless r
  case blockItem => exact blockItemStep_moves r
  case indentlessItem => exact indentlessItemStep_moves r
  case blockKey => exact blockKeyStep_moves lean r
  case blockValue => exact blockValueStep_moves r
  case flowItem first => exact flowItemStep_moves first r
  case pairKey => exact pairKeyStep_moves r
  case pairValue => exact pairValueStep_moves r
  case pairEnd => exact Moves.say here _ .pairEnd
  case flowKey first => exact flowKeyStep_moves lean first r
  case flowValue absent => exact flowValueStep_moves absent r

end Reading

/-! ## How many steps there are -/

/-- How many steps an expectation is worth, where a token is worth six. -/
def Expect.weight : Expect → Nat
  | .document first => if first then 5 else 1
  | .content => 3
  | .documentEnd => 2
  | .node .. => 2
  | .blockItem => 1
  | .indentlessItem => 1
  | .blockKey => 1
  | .blockValue => 2
  | .flowItem first => if first then 4 else 1
  | .pairKey => 5
  | .pairValue => 2
  | .pairEnd => 1
  | .flowKey first => if first then 5 else 1
  | .flowValue _ => 2

lemma Expect.weight_pos (expected : Expect) : 1 ≤ expected.weight := by
  cases expected with
  | document first => cases first <;> decide
  | flowItem first => cases first <;> decide
  | flowKey first => cases first <;> decide
  | _ => simp only [weight]; omega

lemma Expect.weight_document_le (first : Bool) : (Expect.document first).weight ≤ 5 := by
  cases first <;> decide

/-- A move costs a step at least. -/
lemma Move.cost {expected : Expect} {n : Nat} {said : Option EventKind} {new : List Expect}
    (move : Move expected n said new) :
    (new.map Expect.weight).sum < 6 * n + expected.weight := by
  have some_ := expected.weight_pos
  cases move with
  | @endMarker first =>
    have := Expect.weight_document_le first
    simp only [Expect.weight, List.map_cons, List.map_nil, List.sum_cons, List.sum_nil] at *
    omega
  | _ =>
    simp only [Expect.weight, List.map_cons, List.map_nil, List.sum_cons, List.sum_nil, if_true,
      Bool.false_eq_true, if_false] at *
    omega

namespace Reading

variable {dialect : Dialect} {r m : Reading}

/-- One step of a reading. -/
def next (dialect : Dialect) : Machine Reading Event := fun r =>
  match r.expects with
  | [] => none
  | expected :: expects => Yaml.step dialect expected { r with expects := expects }

lemma run_events (fuel : Nat) (r : Reading) :
    (run dialect fuel r).events = (next dialect).outputs fuel r := by
  induction fuel generalizing r with
  | zero => rfl
  | succ fuel ih =>
    rw [run, Machine.outputs, next]
    cases r.expects with
    | nil => rfl
    | cons expected expects =>
      simp only
      split
      case h_1 none => simp [none]
      case h_2 said r goes => simp [goes, ih]

/-- A bound on the steps that are left. -/
def potential (r : Reading) : Nat := 6 * r.tokens.length + (r.expects.map Expect.weight).sum

lemma next_potential (lean : dialect.missingKeys = false) {said : Option Event}
    (goes : next dialect r = some (said, m)) : m.potential < r.potential := by
  unfold next at goes
  split at goes
  · simp at goes
  case h_2 expected expects eq =>
    obtain ⟨seen, new, move, tokens, stack⟩ := step_moves lean expected _ said m goes
    have := move.cost
    simp only at tokens stack
    simp only [potential, tokens, stack, eq, List.length_append, List.map_append, List.sum_append,
      List.map_cons, List.sum_cons]
    omega

/-- The steps of a reading are bounded by what they bring it nearer to the end. -/
lemma steps_potential (lean : dialect.missingKeys = false) {n : Nat} {given : List Event}
    (goes : (next dialect).steps n r = some (given, m)) : n + m.potential ≤ r.potential := by
  induction n generalizing r given with
  | zero => exact Nat.le_of_eq (by rw [(Machine.steps_zero goes).2, Nat.zero_add])
  | succ n ih =>
    obtain ⟨said, k, later, one, rest, -⟩ := Machine.steps_succ goes
    have := next_potential lean one
    have := ih rest
    omega

end Reading

/-! ## More tokens at the end -/

namespace Reading

variable {dialect : Dialect} {more : List TokenKind} {r r' k m : Reading}

/-- One reading is at the same point as the other one and has more tokens ahead, behind the same ones at
whatever places. -/
structure Extends (more : List TokenKind) (r r' : Reading) : Prop where
  tokens : r'.tokens.map Token.kind = r.tokens.map Token.kind ++ more
  expects : r'.expects = r.expects
  handles : r'.handles = r.handles
  anchors : r'.anchors = r.anchors

/-- What the one step can do, the other one does as well. -/
def Follows (more : List TokenKind) (step step' : Step) : Prop :=
  ∀ said m, step = some (said, m) →
    ∃ said' m', step' = some (said', m') ∧ said'.map Event.kind = said.map Event.kind
      ∧ Extends more m m'

lemma Extends.expect (extends_ : Extends more r r') (new : List Expect) :
    Extends more (r.expect new) (r'.expect new) :=
  { extends_ with expects := by simp [Reading.expect, extends_.expects] }

lemma Extends.say (extends_ : Extends more r r') (kind : EventKind) (place place' : Nat) :
    Follows more (r.say kind place) (r'.say kind place') := by
  intro said m goes
  obtain ⟨rfl, rfl⟩ : some ⟨kind, place⟩ = said ∧ r = m := by simpa [Reading.say] using goes
  exact ⟨_, _, rfl, rfl, extends_⟩

lemma Extends.silent (extends_ : Extends more r r') : Follows more r.silent r'.silent := by
  intro said m goes
  obtain ⟨rfl, rfl⟩ : none = said ∧ r = m := by simpa [Reading.silent] using goes
  exact ⟨_, _, rfl, rfl, extends_⟩

lemma Follows.none (step : Step) : Follows more none step := nofun

lemma Follows.ite {p : Prop} [Decidable p] {a a' b b' : Step} (yes : p → Follows more a a')
    (no : ¬p → Follows more b b') : Follows more (if p then a else b) (if p then a' else b') := by
  split
  case isTrue holds => exact yes holds
  case isFalse fails => exact no fails

lemma exists_cons {kind : TokenKind} {start reached : Nat} {rest tokens : List Token}
    (same : tokens.map Token.kind = (⟨kind, start, reached⟩ :: rest).map Token.kind ++ more) :
    ∃ start' reached' rest', tokens = ⟨kind, start', reached'⟩ :: rest'
      ∧ rest'.map Token.kind = rest.map Token.kind ++ more := by
  cases tokens with
  | nil => simp at same
  | cons token rest' =>
    obtain ⟨kind', start', reached'⟩ := token
    obtain ⟨rfl, rests⟩ : kind' = kind ∧ rest'.map Token.kind = rest.map Token.kind ++ more := by
      simpa using same
    exact ⟨start', reached', rest', rfl, rests⟩

/-- Where there is a next token, it is the same for both. -/
lemma Extends.look (extends_ : Extends more r r') {next next' : Token → Reading → Step}
    (then_ : ∀ kind start start' reached reached' j j', Extends more j j' →
      Extends more j.take j'.take → Follows more (next ⟨kind, start, reached⟩ j)
        (next' ⟨kind, start', reached'⟩ j')) : Follows more (r.look next) (r'.look next') := by
  obtain ⟨tokens, reached, expects, handles, anchors⟩ := r
  obtain ⟨tokens', reached', expects', handles', anchors'⟩ := r'
  cases tokens with
  | nil => exact Follows.none _
  | cons token rest =>
    obtain ⟨kind, start, seen⟩ := token
    have same := extends_.tokens
    obtain ⟨start', seen', rest', rfl, rests⟩ := exists_cons same
    exact then_ kind start start' seen seen' _ _ { extends_ with tokens := same }
      { extends_ with tokens := rests }

lemma Extends.directives (extends_ : Extends more r r') {version : Bool} {fuel fuel' : Nat}
    (le : fuel ≤ fuel') (reads : directives dialect version r fuel = some m) :
    ∃ m', directives dialect version r' fuel' = some m' ∧ Extends more m m' := by
  induction fuel generalizing r r' version fuel' with
  | zero => simp [Yaml.directives] at reads
  | succ fuel ih =>
    obtain ⟨fuel', rfl⟩ : ∃ n, fuel' = n + 1 := ⟨fuel' - 1, by omega⟩
    have le : fuel ≤ fuel' := by omega
    obtain ⟨tokens, reached, expects, handles, anchors⟩ := r
    obtain ⟨tokens', reached', expects', handles', anchors'⟩ := r'
    obtain ⟨same, rfl, rfl, rfl⟩ := extends_
    cases tokens with
    | nil => simp [Yaml.directives] at reads
    | cons token rest =>
      obtain ⟨kind, start, seen⟩ := token
      obtain ⟨start', seen', rest', rfl, rests⟩ := exists_cons same
      have taken (handles : List (String × String)) :
          Extends more ⟨rest, seen, expects', handles, anchors'⟩
            ⟨rest', seen', expects', handles, anchors'⟩ := ⟨rests, rfl, rfl, rfl⟩
      unfold Yaml.directives at reads ⊢
      cases kind with
      | versionDirective major minor =>
        simp only [Option.ite_none_left_eq_some] at reads ⊢
        obtain ⟨first, known, reads⟩ := reads
        obtain ⟨m', reads', behind⟩ := ih (taken _) le reads
        exact ⟨m', ⟨first, known, reads'⟩, behind⟩
      | tagDirective handle stem =>
        simp only [Option.ite_none_left_eq_some] at reads ⊢
        obtain ⟨fresh, reads⟩ := reads
        obtain ⟨m', reads', behind⟩ := ih (taken _) le reads
        exact ⟨m', ⟨fresh, reads'⟩, behind⟩
      | _ =>
        obtain rfl := Option.some.inj reads
        exact ⟨_, rfl, same, rfl, rfl, rfl⟩

lemma Extends.skipDocumentEnds (extends_ : Extends more r r') :
    Extends more (Yaml.skipDocumentEnds r) (Yaml.skipDocumentEnds r')
      ∨ (Yaml.skipDocumentEnds r).tokens = [] := by
  have skipped (tokens tokens' : List Token)
      (same : tokens'.map Token.kind = tokens.map Token.kind ++ more) :
      (tokens'.dropWhile (·.kind == .documentEnd)).map Token.kind =
          (tokens.dropWhile (·.kind == .documentEnd)).map Token.kind ++ more
        ∨ tokens.dropWhile (·.kind == .documentEnd) = [] := by
    induction tokens generalizing tokens' with
    | nil => exact .inr rfl
    | cons token rest ih =>
      obtain ⟨kind, start, reached⟩ := token
      obtain ⟨start', reached', rest', rfl, rests⟩ := exists_cons same
      cases ends : kind == .documentEnd with
      | true => simpa [ends] using ih rest' rests
      | false => exact .inl (by simpa [ends] using rests)
  exact (skipped _ _ extends_.tokens).imp (fun same => { extends_ with tokens := same }) id

lemma Extends.documentStep (extends_ : Extends more r r') (first : Bool) :
    Follows more (documentStep dialect first r) (documentStep dialect first r') := by
  have marked {j j' : Reading} (on : Extends more j j') :
      Follows more (markedDocument dialect j) (markedDocument dialect j') := by
    intro said m goes
    unfold markedDocument at goes ⊢
    cases reads : Yaml.directives dialect false j (j.tokens.length + 1) with
    | none => simp [reads] at goes
    | some k =>
      have longer : j.tokens.length + 1 ≤ j'.tokens.length + 1 := by
        have := congrArg List.length on.tokens
        simp only [List.length_map, List.length_append] at this
        omega
      obtain ⟨k', reads', behind⟩ := on.directives longer reads
      simp only [reads, reads'] at goes ⊢
      refine behind.look (fun kind _ _ _ _ j j' _ taken => ?_) said m goes
      cases kind
      case documentStart => exact (taken.expect _).say _ _ _
      all_goals exact Follows.none _
  have begun : Extends more (if first && dialect.strictDirectives then r else Yaml.skipDocumentEnds r)
        (if first && dialect.strictDirectives then r' else Yaml.skipDocumentEnds r')
      ∨ (if first && dialect.strictDirectives then r else Yaml.skipDocumentEnds r).tokens = [] := by
    split
    · exact .inl extends_
    · exact extends_.skipDocumentEnds
  unfold Yaml.documentStep
  rcases begun with begun | nothing
  · have begun : Extends more
        { (if first && dialect.strictDirectives then r else Yaml.skipDocumentEnds r) with
          handles := [], anchors := [] }
        { (if first && dialect.strictDirectives then r' else Yaml.skipDocumentEnds r') with
          handles := [], anchors := [] } := ⟨begun.tokens, begun.expects, rfl, rfl⟩
    refine begun.look fun kind _ _ _ _ j j' on taken => ?_
    cases kind
    case streamEnd => exact taken.say _ _ _
    case versionDirective => exact marked on
    case tagDirective => exact marked on
    case documentStart => exact marked on
    all_goals exact Follows.ite (fun _ => (on.expect _).say _ _ _) fun _ => Follows.none _
  · intro said m goes
    simp only [Reading.look, nothing, reduceCtorEq] at goes

lemma Extends.documentEndStep (extends_ : Extends more r r') :
    Follows more (documentEndStep dialect r) (documentEndStep dialect r') := by
  unfold Yaml.documentEndStep
  refine extends_.look fun kind _ _ _ _ j j' on taken => ?_
  cases kind
  case documentEnd => exact (taken.expect _).say _ _ _
  case versionDirective =>
    exact Follows.ite (fun _ => (on.expect _).say _ _ _) fun _ => Follows.none _
  case tagDirective => exact Follows.ite (fun _ => (on.expect _).say _ _ _) fun _ => Follows.none _
  all_goals exact (on.expect _).say _ _ _

/-- The properties ahead are the same for both, unless the tokens end with them. -/
lemma Extends.properties (extends_ : Extends more r r') {anchor : Option String}
    {shorthand : Option (String × String)} (reads : properties r = some (anchor, shorthand, m)) :
    (∃ m', properties r' = some (anchor, shorthand, m') ∧ Extends more m m') ∨ m.tokens = [] := by
  obtain ⟨tokens, reached, expects, handles, anchors⟩ := r
  obtain ⟨tokens', reached', expects', handles', anchors'⟩ := r'
  obtain ⟨same, rfl, rfl, rfl⟩ := extends_
  have on {rest rest' : List Token} (reached reached' : Nat)
      (rests : rest'.map Token.kind = rest.map Token.kind ++ more) :
      Extends more ⟨rest, reached, expects', handles', anchors'⟩
        ⟨rest', reached', expects', handles', anchors'⟩ := ⟨rests, rfl, rfl, rfl⟩
  cases tokens with
  | nil =>
    obtain ⟨-, -, rfl⟩ : none = anchor ∧ none = shorthand ∧ _ = m := by
      simpa [Yaml.properties] using reads
    exact .inr rfl
  | cons token rest =>
    obtain ⟨kind, start, seen⟩ := token
    obtain ⟨start', seen', rest', rfl, rests⟩ := exists_cons same
    cases kind
    case anchor name =>
      cases rest with
      | nil =>
        obtain ⟨-, -, rfl⟩ : some name = anchor ∧ none = shorthand ∧ _ = m := by
          simpa [Yaml.properties] using reads
        exact .inr rfl
      | cons second rest =>
        obtain ⟨kind, start, seen⟩ := second
        obtain ⟨start', seen', rest', rfl, others⟩ := exists_cons rests
        cases kind
        case tag handle suffix =>
          obtain ⟨rfl, rfl, rfl⟩ : some name = anchor ∧ some (handle, suffix) = shorthand ∧ _ = m := by
            simpa [Yaml.properties] using reads
          exact .inl ⟨_, rfl, on _ _ others⟩
        all_goals
          obtain ⟨rfl, rfl, rfl⟩ : some name = anchor ∧ none = shorthand ∧ _ = m := by
            simpa [Yaml.properties] using reads
          exact .inl ⟨_, by simp only [Yaml.properties]; rfl, on _ _ rests⟩
    case tag handle suffix =>
      cases rest with
      | nil =>
        obtain ⟨-, -, rfl⟩ : none = anchor ∧ some (handle, suffix) = shorthand ∧ _ = m := by
          simpa [Yaml.properties] using reads
        exact .inr rfl
      | cons second rest =>
        obtain ⟨kind, start, seen⟩ := second
        obtain ⟨start', seen', rest', rfl, others⟩ := exists_cons rests
        cases kind
        case anchor name =>
          obtain ⟨rfl, rfl, rfl⟩ : some name = anchor ∧ some (handle, suffix) = shorthand ∧ _ = m := by
            simpa [Yaml.properties] using reads
          exact .inl ⟨_, rfl, on _ _ others⟩
        all_goals
          obtain ⟨rfl, rfl, rfl⟩ : none = anchor ∧ some (handle, suffix) = shorthand ∧ _ = m := by
            simpa [Yaml.properties] using reads
          exact .inl ⟨_, by simp only [Yaml.properties]; rfl, on _ _ rests⟩
    all_goals
      obtain ⟨rfl, rfl, rfl⟩ : none = anchor ∧ none = shorthand ∧ _ = m := by
        simpa [Yaml.properties] using reads
      exact .inl ⟨_, by simp only [Yaml.properties]; rfl, on _ _ same⟩

lemma Extends.contentStep (extends_ : Extends more r r') (block indentless : Bool)
    (tag anchor : Option String) :
    Follows more (contentStep block indentless tag anchor r)
      (contentStep block indentless tag anchor r') := by
  unfold Yaml.contentStep
  refine extends_.look fun kind start start' _ _ j j' on taken => ?_
  have empty : Follows more
      (if tag.isSome || anchor.isSome then j.say (.scalar "" .plain tag anchor) start else none)
      (if tag.isSome || anchor.isSome then j'.say (.scalar "" .plain tag anchor) start' else none) :=
    Follows.ite (fun _ => on.say _ _ _) fun _ => Follows.none _
  cases kind
  case blockEntry => exact Follows.ite (fun _ => (on.expect _).say _ _ _) fun _ => empty
  case scalar => exact taken.say _ _ _
  case flowSequenceStart => exact (taken.expect _).say _ _ _
  case flowMappingStart => exact (taken.expect _).say _ _ _
  case blockSequenceStart => exact Follows.ite (fun _ => (taken.expect _).say _ _ _) fun _ => empty
  case blockMappingStart => exact Follows.ite (fun _ => (taken.expect _).say _ _ _) fun _ => empty
  all_goals exact empty

/-- A node that is no alias, with the properties before it. -/
def ownedStep (block indentless : Bool) (r : Reading) : Step :=
  match Yaml.properties r with
  | none => none
  | some (anchor, shorthand, r) =>
    let r := { r with anchors := anchor.toList ++ r.anchors }
    match shorthand with
    | none => Yaml.contentStep block indentless none anchor r
    | some (handle, suffix) =>
      match resolveTag r.handles handle suffix with
      | none => none
      | some tag => Yaml.contentStep block indentless (some tag) anchor r

lemma Extends.ownedStep (extends_ : Extends more r r') (block indentless : Bool) :
    Follows more (r.ownedStep block indentless) (r'.ownedStep block indentless) := by
  intro said m goes
  unfold Reading.ownedStep at goes ⊢
  cases reads : Yaml.properties r with
  | none => simp [reads] at goes
  | some result =>
    obtain ⟨anchor, shorthand, k⟩ := result
    simp only [reads] at goes
    rcases extends_.properties reads with ⟨k', reads', behind⟩ | nothing
    · have behind : Extends more { k with anchors := anchor.toList ++ k.anchors }
          { k' with anchors := anchor.toList ++ k'.anchors } :=
        { behind with anchors := by simp only [behind.anchors] }
      have handles : k'.handles = k.handles := behind.handles
      simp only [reads']
      cases shorthand with
      | none => exact behind.contentStep block indentless none anchor said m goes
      | some pair =>
        obtain ⟨handle, suffix⟩ := pair
        simp only at goes ⊢
        cases resolves : resolveTag k.handles handle suffix with
        | none => simp [resolves] at goes
        | some tag =>
          simp only [resolves] at goes
          simp only [handles, resolves]
          rw [← handles]
          exact behind.contentStep block indentless (some tag) anchor said m goes
    · have none (tag : Option String) :
          Yaml.contentStep block indentless tag anchor { k with anchors := anchor.toList ++ k.anchors } =
            none := by
        simp only [Yaml.contentStep, Reading.look, nothing]
      cases shorthand with
      | none => simp [none] at goes
      | some pair =>
        obtain ⟨handle, suffix⟩ := pair
        simp only [none] at goes
        split at goes <;> simp at goes

lemma Extends.nodeStep (extends_ : Extends more r r') (block indentless : Bool) :
    Follows more (nodeStep block indentless r) (nodeStep block indentless r') := by
  unfold Yaml.nodeStep
  refine extends_.look fun kind start start' _ _ j j' on taken => ?_
  cases kind
  case «alias» name =>
    simp only [on.anchors]
    exact Follows.ite (fun _ => taken.say _ _ _) fun _ => Follows.none _
  all_goals exact on.ownedStep block indentless

lemma Extends.behindComma (extends_ : Extends more r r') {first : Bool} {close : TokenKind}
    {next next' : Token → Reading → Step}
    (then_ : ∀ kind start start' reached reached' j j', Extends more j j' →
      Extends more j.take j'.take → Follows more (next ⟨kind, start, reached⟩ j)
        (next' ⟨kind, start', reached'⟩ j')) :
    Follows more (behindComma first close r next) (behindComma first close r' next') := by
  unfold Yaml.behindComma
  refine extends_.look fun kind _ _ _ _ j j' on taken => ?_
  exact Follows.ite (fun _ => then_ _ _ _ _ _ _ _ on taken) fun _ =>
    Follows.ite (fun _ => taken.look then_) fun _ => Follows.none _

lemma Extends.blockItemStep (extends_ : Extends more r r') :
    Follows more (blockItemStep r) (blockItemStep r') := by
  unfold Yaml.blockItemStep
  refine extends_.look fun kind _ _ _ _ j j' on taken => ?_
  cases kind
  case blockEntry =>
    refine taken.look fun kind _ _ _ _ j j' on _ => ?_
    cases kind
    case blockEntry | blockEnd => exact (on.expect _).say _ _ _
    all_goals exact (on.expect _).silent
  case blockEnd => exact taken.say _ _ _
  all_goals exact Follows.none _

lemma Extends.indentlessItemStep (extends_ : Extends more r r') :
    Follows more (indentlessItemStep r) (indentlessItemStep r') := by
  unfold Yaml.indentlessItemStep
  refine extends_.look fun kind _ _ _ _ j j' on taken => ?_
  cases kind
  case blockEntry =>
    refine taken.look fun kind _ _ _ _ j j' on _ => ?_
    cases kind
    case blockEntry | key | value | blockEnd => exact (on.expect _).say _ _ _
    all_goals exact (on.expect _).silent
  all_goals exact on.say _ _ _

lemma Extends.blockKeyStep (extends_ : Extends more r r') :
    Follows more (blockKeyStep dialect r) (blockKeyStep dialect r') := by
  unfold Yaml.blockKeyStep
  refine extends_.look fun kind _ _ _ _ j j' on taken => ?_
  cases kind
  case key =>
    refine taken.look fun kind _ _ _ _ j j' on _ => ?_
    cases kind
    case key | value | blockEnd => exact (on.expect _).say _ _ _
    all_goals exact (on.expect _).silent
  case value => exact Follows.ite (fun _ => (on.expect _).say _ _ _) fun _ => Follows.none _
  case blockEnd => exact taken.say _ _ _
  all_goals exact Follows.none _

lemma Extends.blockValueStep (extends_ : Extends more r r') :
    Follows more (blockValueStep r) (blockValueStep r') := by
  unfold Yaml.blockValueStep
  refine extends_.look fun kind _ _ _ _ j j' on taken => ?_
  cases kind
  case value =>
    refine taken.look fun kind _ _ _ _ j j' on _ => ?_
    cases kind
    case key | value | blockEnd => exact (on.expect _).say _ _ _
    all_goals exact (on.expect _).silent
  all_goals exact (on.expect _).say _ _ _

lemma Extends.flowItemStep (extends_ : Extends more r r') (first : Bool) :
    Follows more (flowItemStep first r) (flowItemStep first r') := by
  unfold Yaml.flowItemStep
  refine extends_.behindComma fun kind _ _ _ _ j j' on taken => ?_
  cases kind
  case flowSequenceEnd => exact taken.say _ _ _
  case key => exact (taken.expect _).say _ _ _
  all_goals exact (on.expect _).silent

lemma Extends.pairKeyStep (extends_ : Extends more r r') :
    Follows more (pairKeyStep r) (pairKeyStep r') := by
  unfold Yaml.pairKeyStep
  refine extends_.look fun kind _ _ _ _ j j' on taken => ?_
  cases kind
  case value | flowEntry | flowSequenceEnd => exact (taken.expect _).say _ _ _
  all_goals exact (on.expect _).silent

lemma Extends.pairValueStep (extends_ : Extends more r r') :
    Follows more (pairValueStep r) (pairValueStep r') := by
  unfold Yaml.pairValueStep
  refine extends_.look fun kind _ _ _ _ j j' on taken => ?_
  cases kind
  case value =>
    refine taken.look fun kind _ _ _ _ j j' on _ => ?_
    cases kind
    case flowEntry | flowSequenceEnd => exact (on.expect _).say _ _ _
    all_goals exact (on.expect _).silent
  all_goals exact (on.expect _).say _ _ _

lemma Extends.flowKeyStep (extends_ : Extends more r r') (first : Bool) :
    Follows more (flowKeyStep dialect first r) (flowKeyStep dialect first r') := by
  unfold Yaml.flowKeyStep
  refine extends_.look fun _ _ _ _ _ j j' on _ => ?_
  refine on.behindComma fun kind _ _ _ _ j j' on taken => ?_
  cases kind
  case flowMappingEnd => exact taken.say _ _ _
  case key =>
    refine taken.look fun kind _ _ _ _ j j' on _ => ?_
    cases kind
    case value | flowEntry | flowMappingEnd => exact (on.expect _).say _ _ _
    all_goals exact (on.expect _).silent
  case value => exact Follows.ite (fun _ => (on.expect _).say _ _ _) fun _ => (on.expect _).silent
  all_goals exact (on.expect _).silent

lemma Extends.flowValueStep (extends_ : Extends more r r') (absent : Bool) :
    Follows more (flowValueStep absent r) (flowValueStep absent r') := by
  unfold Yaml.flowValueStep
  refine extends_.look fun kind _ _ _ _ j j' on taken => ?_
  have on := on.expect [.flowKey false]
  have taken := taken.expect [.flowKey false]
  refine Follows.ite (fun _ => on.say _ _ _) fun _ => ?_
  cases kind
  case value =>
    refine taken.look fun kind _ _ _ _ j j' on' _ => ?_
    cases kind
    case flowEntry | flowMappingEnd => exact on'.say _ _ _
    all_goals exact (on'.expect _).silent
  all_goals exact on.say _ _ _

/-- A step that can be taken is taken as well where more tokens follow: it looks no further. -/
lemma Extends.step (extends_ : Extends more r r') (expected : Expect) :
    Follows more (Yaml.step dialect expected r) (Yaml.step dialect expected r') := by
  cases expected <;> simp only [Yaml.step]
  case document first => exact extends_.documentStep first
  case content =>
    exact extends_.look fun kind _ _ _ _ j j' on _ =>
      Follows.ite (fun _ => on.say _ _ _) fun _ => (on.expect _).silent
  case documentEnd => exact extends_.documentEndStep
  case node block indentless => exact extends_.nodeStep block indentless
  case blockItem => exact extends_.blockItemStep
  case indentlessItem => exact extends_.indentlessItemStep
  case blockKey => exact extends_.blockKeyStep
  case blockValue => exact extends_.blockValueStep
  case flowItem first => exact extends_.flowItemStep first
  case pairKey => exact extends_.pairKeyStep
  case pairValue => exact extends_.pairValueStep
  case pairEnd => exact extends_.say _ _ _
  case flowKey first => exact extends_.flowKeyStep first
  case flowValue absent => exact extends_.flowValueStep absent

/-- Steps that can be taken are taken as well where more tokens follow. -/
lemma Extends.steps (extends_ : Extends more r r') {n : Nat} {given : List Event}
    (goes : (next dialect).steps n r = some (given, m)) :
    ∃ given' m', (next dialect).steps n r' = some (given', m')
      ∧ given'.map Event.kind = given.map Event.kind ∧ Extends more m m' := by
  induction n generalizing r r' given with
  | zero =>
    obtain ⟨rfl, rfl⟩ := Machine.steps_zero goes
    exact ⟨[], r', rfl, rfl, extends_⟩
  | succ n ih =>
    obtain ⟨said, k, later, one, rest, rfl⟩ := Machine.steps_succ goes
    obtain ⟨said', k', one', same, behind⟩ : ∃ said' k', next dialect r' = some (said', k')
        ∧ said'.map Event.kind = said.map Event.kind ∧ Extends more k k' := by
      unfold next at one ⊢
      rw [extends_.expects]
      cases eq : r.expects with
      | nil => simp [eq] at one
      | cons expected expects =>
        simp only [eq] at one ⊢
        have on : Extends more { r with expects := expects } { r' with expects := expects } :=
          { extends_ with expects := rfl }
        exact on.step expected said k one
    obtain ⟨later', m', rest', kinds, last⟩ := ih behind rest
    refine ⟨_, m', Machine.steps_of_step one' rest', ?_, last⟩
    simp only [List.map_append, kinds, ← Option.toList_map, same]

end Reading

end ChartLift.Yaml
