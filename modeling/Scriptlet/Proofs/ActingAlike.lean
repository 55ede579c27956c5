import Mathlib.Data.List.Forall2
import Scriptlet.Host.Standard
import Scriptlet.Proofs.Renumbering
import Scriptlet.Proofs.SideBySide
import Scriptlet.Value.Operation

namespace Scriptlet

/-!
# Actions on heaps that are alike

Two heaps may hold the same lists at different addresses, and two runs may report their faults
on different lines.  What has to be known for the runs to go alike is collected in one
structure: when values and heaps correspond, and that the few things that evaluation does with
them respect it.  Everything that operators and list methods do is put together from these.

Which lists correspond is found out along the way, so the relations depend on what is known.
What is known never becomes wrong: knowledge only grows.
-/

/-- Two values of one kind, which are equal unless they are references. -/
inductive Value.Matches : Value → Value → Prop
  | number (x : Float) : Matches (.number x) (.number x)
  | text (s : String) : Matches (.text s) (.text s)
  | truth (b : Bool) : Matches (.truth b) (.truth b)
  | list (address other : Nat) : Matches (.list address) (.list other)
  | object (object other : Object) : Matches (.object object) (.object other)

theorem Value.Matches.refl (value : Value) : value.Matches value := by
  cases value with
  | number x => exact .number x
  | text s => exact .text s
  | truth b => exact .truth b
  | list address => exact .list address address
  | object object => exact .object object object

theorem Value.Matches.kind_eq {value other : Value} (same : value.Matches other) :
    other.kind = value.kind := by
  cases same <;> rfl

theorem Value.Matches.isText_eq {value other : Value} (same : value.Matches other) :
    other.isText = value.isText := by
  cases same <;> rfl

theorem World.onHeap_of_ok {α : Type} {action : Heap.Action α} {heap after : Heap} {sink : Sink}
    {result : α} (ran : action heap = .ok result after) :
    World.onHeap action ⟨heap, sink⟩ = .ok result ⟨after, sink⟩ := by
  simp only [World.onHeap, ran]

theorem World.onHeap_of_error {α : Type} {action : Heap.Action α} {heap after : Heap} {sink : Sink}
    {fault : RuntimeFault} (ran : action heap = .error fault after) :
    World.onHeap action ⟨heap, sink⟩ = .error fault ⟨after, sink⟩ := by
  simp only [World.onHeap, ran]

/-- How the values and heaps of two runs belong together. -/
structure Likeness where
  Knowledge : Type
  /-- The second knowledge includes the first. -/
  later : Knowledge → Knowledge → Prop
  /-- Where the second run has a line of the first one. -/
  place : Nat → Nat
  value : Knowledge → Value → Value → Prop
  heap : Knowledge → Heap → Heap → Prop
  later_refl : ∀ known, later known known
  later_trans : ∀ {known now after}, later known now → later now after → later known after
  kept : ∀ {known now x y}, later known now → value known x y → value now x y
  kinds : ∀ {known x y}, value known x y → x.Matches y
  number : ∀ known x, value known (.number x) (.number x)
  text : ∀ known s, value known (.text s) (.text s)
  truth : ∀ known b, value known (.truth b) (.truth b)
  elements : ∀ {known first second a b}, heap known first second →
    value known (.list a) (.list b) →
    List.Forall₂ (value known) (first.elements a) (second.elements b)
  renders : ∀ {known first second x y}, heap known first second → value known x y →
    second.render y = first.render x
  sames : ∀ {known first second x y u v}, heap known first second → value known x y →
    value known u v → second.same y v = first.same x u
  keeps : ∀ {known first second} {xs ys : Array Value}, heap known first second →
    List.Forall₂ (value known) xs.toList ys.toList →
    ∃ now, later known now ∧ value now (Heap.keep xs first).1 (Heap.keep ys second).1 ∧
      heap now (Heap.keep xs first).2 (Heap.keep ys second).2
  updates : ∀ {known first second a b} {change otherChange : Array Value → Array Value},
    heap known first second → value known (.list a) (.list b) →
    List.Forall₂ (value known) (change (first.storage a)).toList
      (otherChange (second.storage b)).toList →
    heap known (Heap.update a change first).2 (Heap.update b otherChange second).2

namespace Likeness

variable {likeness : Likeness} {σ α β : Type}

/-- Where the first run fails, the second one fails alike. -/
def rule (likeness : Likeness) (states : likeness.Knowledge → σ → σ → Prop)
    (known : likeness.Knowledge) : FaultRule RuntimeFault σ where
  excused _ := False
  alike fault other state otherState :=
    other = fault.renumbered likeness.place ∧
      ∃ now, likeness.later known now ∧ states now state otherState

/-- From states that are alike as far as is known, or as is known later, the computations end
alike as far as is known then. -/
def Goes (likeness : Likeness) (states : likeness.Knowledge → σ → σ → Prop)
    (results : likeness.Knowledge → α → α → Prop) (known : likeness.Knowledge)
    (step other : EStateM RuntimeFault σ α) : Prop :=
  ∀ now, likeness.later known now →
    Tracks (states now) step other
      (fun result otherResult state otherState => ∃ after, likeness.later now after ∧
        results after result otherResult ∧ states after state otherState)
      (likeness.rule states now)

/-- Results that are the same, whatever is known. -/
def Equal (likeness : Likeness) (_ : likeness.Knowledge) (result other : α) : Prop :=
  result = other

def Values (likeness : Likeness) (known : likeness.Knowledge) : List Value → List Value → Prop :=
  List.Forall₂ (likeness.value known)

/-- Both computations produce a value, or none does. -/
def Produced (likeness : Likeness) (known : likeness.Knowledge) : Option Value → Option Value → Prop
  | some value, some other => likeness.value known value other
  | none, none => True
  | _, _ => False

def Addresses (likeness : Likeness) (known : likeness.Knowledge) (address other : Nat) : Prop :=
  likeness.value known (.list address) (.list other)

def Storages (likeness : Likeness) (known : likeness.Knowledge) (values others : Array Value) :
    Prop :=
  List.Forall₂ (likeness.value known) values.toList others.toList

section Composition

variable {states : likeness.Knowledge → σ → σ → Prop}
  {results : likeness.Knowledge → α → α → Prop} {known now : likeness.Knowledge}

theorem Goes.later {step other : EStateM RuntimeFault σ α}
    (goes : likeness.Goes states results known step other) (later : likeness.later known now) :
    likeness.Goes states results now step other :=
  fun after more => goes after (likeness.later_trans later more)

theorem goes_pure {result other : α}
    (holds : ∀ now, likeness.later known now → results now result other) :
    likeness.Goes states results known (pure result) (pure other) :=
  fun now later => Tracks.pure fun _ _ start =>
    ⟨now, likeness.later_refl now, holds now later, start⟩

theorem goes_throw (fault : RuntimeFault) :
    likeness.Goes states results known (throw fault) (throw (fault.renumbered likeness.place)) :=
  fun now _ => Tracks.throw fun _ _ start =>
    Or.inr ⟨rfl, now, likeness.later_refl now, start⟩

theorem Goes.bind {middle : likeness.Knowledge → β → β → Prop}
    {first otherFirst : EStateM RuntimeFault σ β} {next otherNext : β → EStateM RuntimeFault σ α}
    (before : likeness.Goes states middle known first otherFirst)
    (after : ∀ now result other, likeness.later known now → middle now result other →
      likeness.Goes states results now (next result) (otherNext other)) :
    likeness.Goes states results known (first >>= next) (otherFirst >>= otherNext) := by
  intro now later
  apply Tracks.bind (before now later)
  rintro result other state otherState ⟨between, sooner, holds, start⟩
  have rest := after between result other (likeness.later_trans later sooner) holds between
    (likeness.later_refl between) state otherState start
  refine EndAlike.weakenFaults (rest.weaken ?_) id ?_
  · rintro final otherFinal _ _ ⟨last, lastLater, reached⟩
    exact ⟨last, likeness.later_trans sooner lastLater, reached⟩
  · rintro fault otherFault _ _ ⟨faults, last, lastLater, reached⟩
    exact ⟨faults, last, likeness.later_trans sooner lastLater, reached⟩

theorem Goes.weaken {weaker : likeness.Knowledge → α → α → Prop}
    {step other : EStateM RuntimeFault σ α} (goes : likeness.Goes states results known step other)
    (implies : ∀ now result otherResult, results now result otherResult →
      weaker now result otherResult) : likeness.Goes states weaker known step other := by
  intro now later
  refine (goes now later).weaken (fun _ _ start => start) ?_
  rintro result otherResult _ _ ⟨after, sooner, holds, reached⟩
  exact ⟨after, sooner, implies after result otherResult holds, reached⟩

theorem Values.later {values others : List Value} (related : likeness.Values known values others)
    (later : likeness.later known now) : likeness.Values now values others :=
  related.imp fun _ _ => likeness.kept later

end Composition

/-! ## Readers of the heap -/

/-- Both readers find results that are related, or the same fault. -/
def Found (likeness : Likeness) (results : α → α → Prop) :
    Except RuntimeFault α → Except RuntimeFault α → Prop
  | .ok result, .ok other => results result other
  | .error fault, .error other => other = fault.renumbered likeness.place
  | _, _ => False

theorem Found.bind {middle : β → β → Prop} {results : α → α → Prop}
    {first otherFirst : Except RuntimeFault β} {next otherNext : β → Except RuntimeFault α}
    (before : likeness.Found middle first otherFirst)
    (after : ∀ result other, middle result other →
      likeness.Found results (next result) (otherNext other)) :
    likeness.Found results (first >>= next) (otherFirst >>= otherNext) := by
  cases first with
  | error fault =>
      cases otherFirst with
      | error other => exact before
      | ok other => exact before.elim
  | ok result =>
      cases otherFirst with
      | error other => exact before.elim
      | ok other => exact after result other before

section Heaps

variable {known : likeness.Knowledge}

theorem goes_read {results : likeness.Knowledge → α → α → Prop}
    {reader otherReader : Heap → Except RuntimeFault α}
    (found : ∀ now first second, likeness.later known now → likeness.heap now first second →
      likeness.Found (results now) (reader first) (otherReader second)) :
    likeness.Goes likeness.heap results known (Heap.Action.read reader)
      (Heap.Action.read otherReader) := by
  intro now later first second heaps
  have both := found now first second later heaps
  unfold Heap.Action.read
  cases reads : reader first with
  | error fault =>
      cases otherReads : otherReader second with
      | error other =>
          rw [reads, otherReads] at both
          exact Or.inr ⟨both, now, likeness.later_refl now, heaps⟩
      | ok other =>
          rw [reads, otherReads] at both
          exact both.elim
  | ok result =>
      cases otherReads : otherReader second with
      | error other =>
          rw [reads, otherReads] at both
          exact both.elim
      | ok other =>
          rw [reads, otherReads] at both
          exact ⟨now, likeness.later_refl now, both, heaps⟩

theorem goes_sure {results : likeness.Knowledge → α → α → Prop} {step otherStep : StateM Heap α}
    (done : ∀ now first second, likeness.later known now → likeness.heap now first second →
      ∃ after, likeness.later now after ∧ results after (step first).1 (otherStep second).1 ∧
        likeness.heap after (step first).2 (otherStep second).2) :
    likeness.Goes likeness.heap results known (Heap.Action.sure step)
      (Heap.Action.sure otherStep) :=
  fun now later first second heaps => done now first second later heaps

/-- An action that depends on the whole heap. -/
theorem goes_get {results : likeness.Knowledge → α → α → Prop}
    {next otherNext : Heap → Heap.Action α}
    (goes : ∀ now first second, likeness.later known now → likeness.heap now first second →
      likeness.Goes likeness.heap results now (next first) (otherNext second)) :
    likeness.Goes likeness.heap results known (get >>= next) (get >>= otherNext) :=
  fun now later first second heaps =>
    goes now first second later heaps now (likeness.later_refl now) first second heaps

theorem goes_keep {values others : Array Value} (related : likeness.Storages known values others) :
    likeness.Goes likeness.heap likeness.value known (Heap.Action.sure (Heap.keep values))
      (Heap.Action.sure (Heap.keep others)) := by
  apply goes_sure
  intro now first second later heaps
  exact likeness.keeps heaps (related.imp fun _ _ => likeness.kept later)

theorem goes_allocate {values others : List Value} (related : likeness.Values known values others) :
    likeness.Goes likeness.heap likeness.value known (Heap.Action.sure (Heap.allocate values))
      (Heap.Action.sure (Heap.allocate others)) :=
  goes_keep related

theorem goes_value {value other : Value} (related : likeness.value known value other) :
    likeness.Goes likeness.heap likeness.value known (pure value) (pure other) :=
  goes_pure fun _ later => likeness.kept later related

/-! ## Storage -/

theorem storages_of {first second : Heap} {a b : Nat} (heaps : likeness.heap known first second)
    (addresses : likeness.Addresses known a b) :
    likeness.Storages known (first.storage a) (second.storage b) :=
  likeness.elements heaps addresses

section Storages

variable {values others : Array Value} (storages : likeness.Storages known values others)
include storages

theorem Storages.push {value other : Value} (related : likeness.value known value other) :
    likeness.Storages known (values.push value) (others.push other) := by
  unfold Storages
  rw [Array.toList_push, Array.toList_push]
  exact List.rel_append storages (.cons related .nil)

theorem Storages.size_eq : others.size = values.size := by
  have lengths := storages.length_eq
  simpa using lengths.symm

variable {first second : Heap} (heaps : likeness.heap known first second)
include heaps

theorem Storages.eraseFirst {value other : Value} (related : likeness.value known value other) :
    likeness.Storages known (first.eraseFirst value values) (second.eraseFirst other others) := by
  rcases values with ⟨values⟩
  rcases others with ⟨others⟩
  unfold Storages Heap.eraseFirst at *
  rw [List.eraseP_toArray, List.eraseP_toArray]
  change List.Forall₂ _ values others at storages
  change List.Forall₂ _ (values.eraseP _) (others.eraseP _)
  induction storages with
  | nil => exact .nil
  | @cons element _ _ _ head tail inductionHypothesis =>
      rw [List.eraseP_cons, List.eraseP_cons, likeness.sames heaps head related]
      cases first.same element value with
      | true => exact tail
      | false => exact .cons head inductionHypothesis

theorem Storages.without {removed otherRemoved : Array Value}
    (removals : likeness.Storages known removed otherRemoved) :
    likeness.Storages known (first.without values removed)
      (second.without others otherRemoved) := by
  unfold Heap.without
  rw [← Array.foldl_toList, ← Array.foldl_toList]
  unfold Storages at removals
  generalize removed.toList = gone at removals
  generalize otherRemoved.toList = otherGone at removals
  induction removals generalizing values others with
  | nil => exact storages
  | cons head _ inductionHypothesis =>
      exact inductionHypothesis (storages.eraseFirst heaps head)

end Storages

/-! ## Operators -/

section Operators

variable {left otherLeft right otherRight : Value}
  (lefts : likeness.value known left otherLeft) (rights : likeness.value known right otherRight)

include lefts rights

theorem goes_invalidOperands (operator : BinaryOperator) (line : Nat) :
    likeness.Goes likeness.heap likeness.value known
      (Heap.invalidOperands operator left right line)
      (Heap.invalidOperands operator otherLeft otherRight (likeness.place line)) := by
  apply goes_read
  intro now first second later heaps
  have leftText := likeness.renders heaps (likeness.kept later lefts)
  have rightText := likeness.renders heaps (likeness.kept later rights)
  rw [leftText, rightText]
  rfl

theorem goes_sum (line : Nat) :
    likeness.Goes likeness.heap likeness.value known (Heap.sum left right line)
      (Heap.sum otherLeft otherRight (likeness.place line)) := by
  apply goes_get
  intro now first second later heaps
  have leftsNow := likeness.kept later lefts
  have rightsNow := likeness.kept later rights
  have joined : likeness.Goes likeness.heap likeness.value now
      (if left.isText || right.isText then
        pure (.text (first.render left ++ first.render right))
        else Heap.invalidOperands .add left right line)
      (if otherLeft.isText || otherRight.isText then
        pure (.text (second.render otherLeft ++ second.render otherRight))
        else Heap.invalidOperands .add otherLeft otherRight (likeness.place line)) := by
    rw [(likeness.kinds lefts).isText_eq, (likeness.kinds rights).isText_eq,
      likeness.renders heaps leftsNow, likeness.renders heaps rightsNow]
    split
    · exact goes_value (likeness.text now _)
    · exact goes_invalidOperands leftsNow rightsNow .add line
  cases likeness.kinds lefts with
  | number x =>
      cases likeness.kinds rights with
      | number y => exact goes_value (likeness.number now (x + y))
      | _ => exact joined
  | list a b =>
      have storages := storages_of heaps leftsNow
      cases likeness.kinds rights with
      | list c d =>
          apply goes_keep
          unfold Storages
          rw [Array.toList_append, Array.toList_append]
          exact List.rel_append storages (storages_of heaps rightsNow)
      | _ => exact goes_keep (storages.push rightsNow)
  | _ => exact joined

theorem goes_difference (line : Nat) :
    likeness.Goes likeness.heap likeness.value known (Heap.difference left right line)
      (Heap.difference otherLeft otherRight (likeness.place line)) := by
  apply goes_get
  intro now first second later heaps
  have leftsNow := likeness.kept later lefts
  have rightsNow := likeness.kept later rights
  have taken : likeness.Goes likeness.heap likeness.value now
      (if left.isText || right.isText then
        pure (.text (Heap.erased (first.render left) (first.render right)))
        else Heap.invalidOperands .subtract left right line)
      (if otherLeft.isText || otherRight.isText then
        pure (.text (Heap.erased (second.render otherLeft) (second.render otherRight)))
        else Heap.invalidOperands .subtract otherLeft otherRight (likeness.place line)) := by
    rw [(likeness.kinds lefts).isText_eq, (likeness.kinds rights).isText_eq,
      likeness.renders heaps leftsNow, likeness.renders heaps rightsNow]
    split
    · exact goes_value (likeness.text now _)
    · exact goes_invalidOperands leftsNow rightsNow .subtract line
  cases likeness.kinds lefts with
  | number x =>
      cases likeness.kinds rights with
      | number y => exact goes_value (likeness.number now (x - y))
      | _ => exact taken
  | list a b =>
      have storages := storages_of heaps leftsNow
      cases likeness.kinds rights with
      | list c d => exact goes_keep (storages.without heaps (storages_of heaps rightsNow))
      | _ => exact goes_keep (storages.eraseFirst heaps rightsNow)
  | _ => exact taken

theorem goes_product (operator : BinaryOperator) (line : Nat) :
    likeness.Goes likeness.heap likeness.value known (Heap.product operator left right line)
      (Heap.product operator otherLeft otherRight (likeness.place line)) := by
  have invalid := goes_invalidOperands lefts rights operator line
  cases likeness.kinds lefts with
  | number x =>
      cases likeness.kinds rights with
      | number y => exact goes_value (likeness.number known _)
      | _ => exact invalid
  | _ => exact invalid

theorem goes_comparison (operator : BinaryOperator) (line : Nat) :
    likeness.Goes likeness.heap likeness.value known (Heap.comparison operator left right line)
      (Heap.comparison operator otherLeft otherRight (likeness.place line)) := by
  apply goes_get
  intro now first second later heaps
  have leftsNow := likeness.kept later lefts
  have rightsNow := likeness.kept later rights
  have invalid := goes_invalidOperands leftsNow rightsNow operator line
  cases operator with
  | greater =>
      cases likeness.kinds lefts with
      | number x =>
          cases likeness.kinds rights with
          | number y => exact goes_value (likeness.truth now _)
          | _ => exact invalid
      | _ => exact invalid
  | less =>
      cases likeness.kinds lefts with
      | number x =>
          cases likeness.kinds rights with
          | number y => exact goes_value (likeness.truth now _)
          | _ => exact invalid
      | _ => exact invalid
  | equal =>
      simp only
      rw [(likeness.kinds lefts).kind_eq, (likeness.kinds rights).kind_eq,
        likeness.sames heaps leftsNow rightsNow]
      split
      · exact goes_value (likeness.truth now _)
      · exact invalid
  | _ => exact invalid

theorem goes_connective (operator : BinaryOperator) (line : Nat) :
    likeness.Goes likeness.heap likeness.value known (Heap.connective operator left right line)
      (Heap.connective operator otherLeft otherRight (likeness.place line)) := by
  have invalid := goes_invalidOperands lefts rights operator line
  cases likeness.kinds lefts with
  | truth x =>
      cases likeness.kinds rights with
      | truth y => exact goes_value (likeness.truth known _)
      | _ => exact invalid
  | _ => exact invalid

theorem goes_binary (operator : BinaryOperator) (line : Nat) :
    likeness.Goes likeness.heap likeness.value known (Heap.binary operator left right line)
      (Heap.binary operator otherLeft otherRight (likeness.place line)) := by
  cases operator with
  | add => exact goes_sum lefts rights line
  | subtract => exact goes_difference lefts rights line
  | multiply => exact goes_product lefts rights .multiply line
  | divide => exact goes_product lefts rights .divide line
  | modulo => exact goes_product lefts rights .modulo line
  | greater => exact goes_comparison lefts rights .greater line
  | less => exact goes_comparison lefts rights .less line
  | equal => exact goes_comparison lefts rights .equal line
  | and => exact goes_connective lefts rights .and line
  | or => exact goes_connective lefts rights .or line

end Operators

theorem goes_unary {operand other : Value} (operands : likeness.value known operand other)
    (operator : UnaryOperator) (line : Nat) :
    likeness.Goes likeness.heap likeness.value known (Heap.unary operator operand line)
      (Heap.unary operator other (likeness.place line)) := by
  have invalid : likeness.Goes likeness.heap likeness.value known
      (Heap.Action.read fun heap =>
        .error (.invalidOperand operator (heap.render operand) line))
      (Heap.Action.read fun heap =>
        .error (.invalidOperand operator (heap.render other) (likeness.place line))) := by
    apply goes_read
    intro now first second later heaps
    rw [likeness.renders heaps (likeness.kept later operands)]
    rfl
  cases operator with
  | negate =>
      cases likeness.kinds operands with
      | number x => exact goes_value (likeness.number known (-x))
      | _ => exact invalid
  | not =>
      cases likeness.kinds operands with
      | truth b => exact goes_value (likeness.truth known (!b))
      | _ => exact invalid

/-! ## Readers and ranges -/

theorem found_asNumber {value other : Value} (values : likeness.value known value other)
    {first second : Heap} (heaps : likeness.heap known first second) (line : Nat) :
    likeness.Found Eq (Heap.asNumber value line first)
      (Heap.asNumber other (likeness.place line) second) := by
  have text := likeness.renders heaps values
  cases likeness.kinds values with
  | number x => exact rfl
  | _ => exact congrArg (fun text => RuntimeFault.expectedNumber text _) text

theorem found_toNumber {value other : Value} (values : likeness.value known value other)
    {first second : Heap} (heaps : likeness.heap known first second) (line : Nat) :
    likeness.Found Eq (Heap.toNumber value line first)
      (Heap.toNumber other (likeness.place line) second) := by
  have text := likeness.renders heaps values
  cases likeness.kinds values with
  | number x => exact rfl
  | text s =>
      simp only [Heap.toNumber]
      split <;> exact rfl
  | _ => exact congrArg (fun text => RuntimeFault.expectedNumber text _) text

theorem found_asTruth {value other : Value} (values : likeness.value known value other)
    {first second : Heap} (heaps : likeness.heap known first second) (line : Nat) :
    likeness.Found Eq (Heap.asTruth value line first)
      (Heap.asTruth other (likeness.place line) second) := by
  have text := likeness.renders heaps values
  cases likeness.kinds values with
  | truth b => exact rfl
  | _ => exact congrArg (fun text => RuntimeFault.expectedTruth text _) text

theorem found_asList {value other : Value} (values : likeness.value known value other)
    {first second : Heap} (heaps : likeness.heap known first second) (line : Nat) :
    likeness.Found (likeness.Addresses known) (Heap.asList value line first)
      (Heap.asList other (likeness.place line) second) := by
  have text := likeness.renders heaps values
  cases likeness.kinds values with
  | list a b => exact values
  | _ => exact congrArg (fun text => RuntimeFault.expectedList text _) text

theorem found_integerOn (line : Nat) (x : Float) :
    likeness.Found Eq (Number.integerOn line x) (Number.integerOn (likeness.place line) x) := by
  unfold Number.integerOn
  split <;> exact rfl

theorem found_indexOn (line : Nat) (x : Float) :
    likeness.Found Eq (Number.indexOn line x) (Number.indexOn (likeness.place line) x) := by
  unfold Number.indexOn
  split <;> exact rfl

theorem found_ofIntOn (line : Nat) (n : Int) :
    likeness.Found Eq (Number.ofIntOn line n) (Number.ofIntOn (likeness.place line) n) := by
  unfold Number.ofIntOn
  split <;> exact rfl

theorem found_rangeBound {value other : Value} (values : likeness.value known value other)
    {first second : Heap} (heaps : likeness.heap known first second) (line : Nat) :
    likeness.Found Eq (Heap.rangeBound value line first)
      (Heap.rangeBound other (likeness.place line) second) := by
  apply Found.bind (found_toNumber values heaps line)
  rintro x _ rfl
  exact found_integerOn line x

theorem found_integers (line : Nat) (integers : List Int) :
    likeness.Found (likeness.Values known)
      (integers.mapM fun i => do
        let x ← Number.ofIntOn line i
        pure (Value.number x))
      (integers.mapM fun i => do
        let x ← Number.ofIntOn (likeness.place line) i
        pure (Value.number x)) := by
  induction integers with
  | nil => exact List.Forall₂.nil
  | cons i rest inductionHypothesis =>
      rw [List.mapM_cons, List.mapM_cons]
      have first : likeness.Found (likeness.value known)
          (do
            let x ← Number.ofIntOn line i
            pure (Value.number x))
          (do
            let x ← Number.ofIntOn (likeness.place line) i
            pure (Value.number x)) := by
        apply Found.bind (found_ofIntOn line i)
        rintro x _ rfl
        exact likeness.number known x
      apply Found.bind first
      intro value other related
      apply Found.bind inductionHypothesis
      intro values others rest
      exact List.Forall₂.cons related rest

theorem goes_range {left otherLeft right otherRight : Value}
    (lefts : likeness.value known left otherLeft) (rights : likeness.value known right otherRight)
    (line : Nat) :
    likeness.Goes likeness.heap likeness.value known (Heap.range left right line)
      (Heap.range otherLeft otherRight (likeness.place line)) := by
  have bound : ∀ {value other : Value}, likeness.value known value other →
      likeness.Goes likeness.heap likeness.Equal known
        (Heap.Action.read (Heap.rangeBound value line))
        (Heap.Action.read (Heap.rangeBound other (likeness.place line))) :=
    fun values => goes_read fun _ _ _ later heaps =>
      found_rangeBound (likeness.kept later values) heaps line
  apply Goes.bind (bound lefts)
  rintro now m _ sooner rfl
  apply Goes.bind ((bound rights).later sooner)
  rintro after n _ _ rfl
  have integers : likeness.Goes likeness.heap likeness.Values after
      (Heap.Action.read fun _ => (Heap.integersBetween m n).mapM fun i => do
        let x ← Number.ofIntOn line i
        pure (Value.number x))
      (Heap.Action.read fun _ => (Heap.integersBetween m n).mapM fun i => do
        let x ← Number.ofIntOn (likeness.place line) i
        pure (Value.number x)) :=
    goes_read fun _ _ _ _ _ => found_integers line _
  apply Goes.bind integers
  intro last values others _ related
  exact goes_allocate related

/-! ## Finding elements -/

theorem produced_getElem? {values others : Array Value}
    (storages : likeness.Storages known values others) (index : Nat) :
    likeness.Produced known values[index]? others[index]? := by
  rw [← Array.getElem?_toList, ← Array.getElem?_toList]
  unfold Storages at storages
  generalize values.toList = elements at storages
  generalize others.toList = otherElements at storages
  induction storages generalizing index with
  | nil => exact trivial
  | cons head _ inductionHypothesis =>
      cases index with
      | zero => exact head
      | succ index => exact inductionHypothesis index

theorem any_eq {values others : List Value} {test otherTest : Value → Bool}
    (related : likeness.Values known values others)
    (same : ∀ value other, likeness.value known value other → otherTest other = test value) :
    others.any otherTest = values.any test := by
  induction related with
  | nil => rfl
  | cons head _ inductionHypothesis =>
      rw [List.any_cons, List.any_cons, same _ _ head, inductionHypothesis]

theorem all_eq {values others : List Value} {test otherTest : Value → Bool}
    (related : likeness.Values known values others)
    (same : ∀ value other, likeness.value known value other → otherTest other = test value) :
    others.all otherTest = values.all test := by
  induction related with
  | nil => rfl
  | cons head _ inductionHypothesis =>
      rw [List.all_cons, List.all_cons, same _ _ head, inductionHypothesis]

theorem holds_eq {first second : Heap} (heaps : likeness.heap known first second) {a b : Nat}
    (addresses : likeness.Addresses known a b) {value other : Value}
    (related : likeness.value known value other) :
    second.holds b other = first.holds a value := by
  unfold Heap.holds
  rw [← Array.any_toList, ← Array.any_toList]
  apply any_eq (storages_of heaps addresses)
  intro element otherElement elements
  exact likeness.sames heaps elements related

theorem count_eq {first second : Heap} (heaps : likeness.heap known first second) {a b : Nat}
    (addresses : likeness.Addresses known a b) : second.count b = first.count a :=
  (storages_of heaps addresses).size_eq

theorem found_position {value other : Value} (values : likeness.value known value other)
    {first second : Heap} (heaps : likeness.heap known first second) (line : Nat) :
    likeness.Found Eq (ListMethod.position value line first)
      (ListMethod.position other (likeness.place line) second) := by
  apply Found.bind (found_asNumber values heaps line)
  rintro x _ rfl
  exact found_indexOn line x

/-! ## List methods -/

end Heaps

/-- The method treats related receivers and arguments alike. -/
def Respects (likeness : Likeness) (body : ListMethod.Body) : Prop :=
  ∀ {known receiver other arguments others} (line : Nat), likeness.value known receiver other →
    likeness.Values known arguments others →
    likeness.Goes likeness.heap likeness.Produced known (body receiver arguments line)
      (body other others (likeness.place line))

section Methods

theorem goes_argumentCount {known : likeness.Knowledge} {arguments others : List Value}
    (related : likeness.Values known arguments others) (name : String) (arity : Arity)
    (line : Nat) :
    likeness.Goes likeness.heap likeness.Produced known
      (throw (.argumentCount name arity arguments.length line))
      (throw (.argumentCount name arity others.length (likeness.place line))) := by
  rw [← related.length_eq]
  exact goes_throw _

theorem respects_element : likeness.Respects ListMethod.element := by
  intro known receiver other arguments others line receivers related
  rcases related with _ | ⟨argument, _ | ⟨next, more⟩⟩
  · exact goes_argumentCount .nil "at" (.exactly 1) line
  · apply goes_read
    intro now first second later heaps
    apply Found.bind (found_asList (likeness.kept later receivers) heaps line)
    intro a b addresses
    apply Found.bind (found_position (likeness.kept later argument) heaps line)
    rintro index _ rfl
    have found := produced_getElem? (storages_of heaps addresses) index
    rw [count_eq heaps addresses]
    generalize (first.storage a)[index]? = element at found ⊢
    generalize (second.storage b)[index]? = otherElement at found ⊢
    cases element with
    | none =>
        cases otherElement with
        | none => exact rfl
        | some value => exact found.elim
    | some value =>
        cases otherElement with
        | none => exact found.elim
        | some other => exact found
  · exact goes_argumentCount (.cons argument (.cons next more)) "at" (.exactly 1) line

theorem respects_count : likeness.Respects ListMethod.count := by
  intro known receiver other arguments others line receivers _
  apply goes_read
  intro now first second later heaps
  apply Found.bind (found_asList (likeness.kept later receivers) heaps line)
  intro a b addresses
  rw [count_eq heaps addresses]
  apply Found.bind (found_ofIntOn line _)
  rintro total _ rfl
  exact likeness.number now total

/-- Changes of one list that treat related elements alike. -/
def Edits (likeness : Likeness) (known : likeness.Knowledge) (edit other : ListMethod.Edit) :
    Prop :=
  likeness.Addresses known edit.address other.address ∧
    ∀ now values others, likeness.later known now → likeness.Storages now values others →
      likeness.Storages now (edit.change values) (other.change others)

theorem goes_edit {known : likeness.Knowledge}
    {plan otherPlan : Heap → Except RuntimeFault ListMethod.Edit}
    (found : ∀ now first second, likeness.later known now → likeness.heap now first second →
      likeness.Found (likeness.Edits now) (plan first) (otherPlan second)) :
    likeness.Goes likeness.heap likeness.Produced known (ListMethod.edit plan)
      (ListMethod.edit otherPlan) := by
  apply Goes.bind (goes_read found)
  rintro now edit other _ ⟨addresses, changes⟩
  have updated : likeness.Goes likeness.heap likeness.Equal now
      (Heap.Action.sure (Heap.update edit.address edit.change))
      (Heap.Action.sure (Heap.update other.address other.change)) := by
    apply goes_sure
    intro after first second later heaps
    have addressesThen := likeness.kept later addresses
    refine ⟨after, likeness.later_refl after, rfl, likeness.updates heaps addressesThen ?_⟩
    exact changes after _ _ later (storages_of heaps addressesThen)
  apply Goes.bind updated
  intro _ _ _ _ _
  exact goes_pure fun _ _ => trivial

theorem respects_add : likeness.Respects ListMethod.add := by
  intro known receiver other arguments others line receivers related
  apply goes_edit
  intro now first second later heaps
  apply Found.bind (found_asList (likeness.kept later receivers) heaps line)
  intro a b addresses
  refine ⟨addresses, ?_⟩
  intro after values otherValues more storages
  unfold Storages
  rw [Array.toList_appendList, Array.toList_appendList]
  exact List.rel_append storages (related.later (likeness.later_trans later more))

theorem heap_removeFirst {known : likeness.Knowledge} {first second : Heap} {a b : Nat}
    {value other : Value} (heaps : likeness.heap known first second)
    (addresses : likeness.Addresses known a b) (related : likeness.value known value other) :
    likeness.heap known (ListMethod.removeFirst a value first).2
      (ListMethod.removeFirst b other second).2 :=
  likeness.updates heaps addresses ((storages_of heaps addresses).eraseFirst heaps related)

theorem heap_removeEach {known : likeness.Knowledge} {a b : Nat} {values others : List Value}
    (addresses : likeness.Addresses known a b) (related : likeness.Values known values others)
    {first second : Heap} (heaps : likeness.heap known first second) :
    likeness.heap known (values.forM (ListMethod.removeFirst a) first).2
      (others.forM (ListMethod.removeFirst b) second).2 := by
  induction related generalizing first second with
  | nil => exact heaps
  | cons head _ inductionHypothesis =>
      exact inductionHypothesis (heap_removeFirst heaps addresses head)

theorem respects_remove : likeness.Respects ListMethod.remove := by
  intro known receiver other arguments others line receivers related
  have receiving : likeness.Goes likeness.heap likeness.Addresses known
      (Heap.Action.read (Heap.asList receiver line))
      (Heap.Action.read (Heap.asList other (likeness.place line))) :=
    goes_read fun _ _ _ later heaps => found_asList (likeness.kept later receivers) heaps line
  apply Goes.bind receiving
  intro now a b later addresses
  have removed : likeness.Goes likeness.heap likeness.Equal now
      (Heap.Action.sure (arguments.forM (ListMethod.removeFirst a)))
      (Heap.Action.sure (others.forM (ListMethod.removeFirst b))) := by
    apply goes_sure
    intro after first second more heaps
    refine ⟨after, likeness.later_refl after, rfl, ?_⟩
    exact heap_removeEach (likeness.kept more addresses)
      (related.later (likeness.later_trans later more)) heaps
  apply Goes.bind removed
  intro _ _ _ _ _
  exact goes_pure fun _ _ => trivial

theorem storages_insertIdx {known : likeness.Knowledge} {values others : Array Value}
    (storages : likeness.Storages known values others) {value other : Value}
    (related : likeness.value known value other) (index : Nat) :
    likeness.Storages known (values.insertIdxIfInBounds index value)
      (others.insertIdxIfInBounds index other) := by
  have sizes := storages.size_eq
  unfold Array.insertIdxIfInBounds
  by_cases inside : index ≤ values.size
  · rw [dif_pos inside, dif_pos (by omega)]
    unfold Storages at storages ⊢
    rw [Array.toList_insertIdx, Array.toList_insertIdx]
    generalize values.toList = elements at storages
    generalize others.toList = otherElements at storages
    clear sizes inside
    induction storages generalizing index with
    | nil =>
        cases index with
        | zero => exact .cons related .nil
        | succ index => exact .nil
    | cons head tail inductionHypothesis =>
        cases index with
        | zero => exact .cons related (.cons head tail)
        | succ index => exact .cons head (inductionHypothesis index)
  · rw [dif_neg inside, dif_neg (by omega)]
    exact storages

theorem storages_eraseIdx {known : likeness.Knowledge} {values others : Array Value}
    (storages : likeness.Storages known values others) (index : Nat) :
    likeness.Storages known (values.eraseIdxIfInBounds index)
      (others.eraseIdxIfInBounds index) := by
  unfold Storages
  rw [Array.toList_eraseIdxIfInBounds, Array.toList_eraseIdxIfInBounds,
    List.eraseIdx_eq_take_drop_succ, List.eraseIdx_eq_take_drop_succ]
  exact List.rel_append (List.forall₂_take index storages) (List.forall₂_drop (index + 1) storages)

theorem respects_insert : likeness.Respects ListMethod.insert := by
  intro known receiver other arguments others line receivers related
  rcases related with _ | ⟨argument, _ | ⟨value, _ | ⟨next, more⟩⟩⟩
  · exact goes_argumentCount .nil "insert" (.exactly 2) line
  · exact goes_argumentCount (.cons argument .nil) "insert" (.exactly 2) line
  · apply goes_edit
    intro now first second later heaps
    apply Found.bind (found_asList (likeness.kept later receivers) heaps line)
    intro a b addresses
    apply Found.bind (found_position (likeness.kept later argument) heaps line)
    rintro index _ rfl
    rw [count_eq heaps addresses]
    split
    · refine ⟨addresses, ?_⟩
      intro after values otherValues later' storages
      have related := likeness.kept (likeness.later_trans later later') value
      exact storages_insertIdx storages related index
    · exact rfl
  · exact goes_argumentCount (.cons argument (.cons value (.cons next more))) "insert" (.exactly 2)
      line

theorem respects_removeAt : likeness.Respects ListMethod.removeAt := by
  intro known receiver other arguments others line receivers related
  rcases related with _ | ⟨argument, _ | ⟨next, more⟩⟩
  · exact goes_argumentCount .nil "remove_at" (.exactly 1) line
  · apply goes_edit
    intro now first second later heaps
    apply Found.bind (found_asList (likeness.kept later receivers) heaps line)
    intro a b addresses
    apply Found.bind (found_position (likeness.kept later argument) heaps line)
    rintro index _ rfl
    rw [count_eq heaps addresses]
    split
    · exact ⟨addresses, fun _ _ _ _ storages => storages_eraseIdx storages index⟩
    · exact rfl
  · exact goes_argumentCount (.cons argument (.cons next more)) "remove_at" (.exactly 1) line

theorem respects_clear : likeness.Respects ListMethod.clear := by
  intro known receiver other arguments others line receivers _
  apply goes_edit
  intro now first second later heaps
  apply Found.bind (found_asList (likeness.kept later receivers) heaps line)
  intro a b addresses
  exact ⟨addresses, fun _ _ _ _ _ => List.Forall₂.nil⟩

theorem respects_contains : likeness.Respects ListMethod.contains := by
  intro known receiver other arguments others line receivers related
  apply goes_read
  intro now first second later heaps
  apply Found.bind (found_asList (likeness.kept later receivers) heaps line)
  intro a b addresses
  have same := any_eq (related.later later) fun _ _ values => holds_eq heaps addresses values
  rw [same]
  exact likeness.truth now _

theorem respects_containsAll : likeness.Respects ListMethod.containsAll := by
  intro known receiver other arguments others line receivers related
  apply goes_read
  intro now first second later heaps
  apply Found.bind (found_asList (likeness.kept later receivers) heaps line)
  intro a b addresses
  have same := all_eq (related.later later) fun _ _ values => holds_eq heaps addresses values
  rw [same]
  exact likeness.truth now _

/-- Every list method, called with any number of arguments. -/
theorem respects_checked {method : ListMethod} (member : method ∈ ListMethod.all) :
    likeness.Respects method.checked := by
  have body : likeness.Respects method.body := by
    simp only [ListMethod.all, List.mem_cons, List.not_mem_nil, or_false] at member
    rcases member with rfl | rfl | rfl | rfl | rfl | rfl | rfl | rfl | rfl
    · exact respects_element
    · exact respects_count
    · exact respects_add
    · exact respects_remove
    · exact respects_insert
    · exact respects_removeAt
    · exact respects_clear
    · exact respects_contains
    · exact respects_containsAll
  intro known receiver other arguments others line receivers related
  unfold ListMethod.checked
  rw [← related.length_eq]
  split
  · exact body line receivers related
  · exact goes_throw _

end Methods

/-! ## What lies outside -/

theorem standard_function {name : String} {function : HostFunction}
    (found : Standard.library.function? name = some function) : function = Standard.print := by
  simp only [Library.function?, Standard.library, List.lookup_cons] at found
  split at found
  · exact (Option.some.inj found).symm
  · cases found

theorem standard_named {name : String} {method : HostMethod}
    (found : Standard.library.method? name = some method) :
    ∃ listMethod ∈ ListMethod.all,
      listMethod.name = name ∧ method = Standard.method listMethod := by
  rcases List.lookup_eq_some_iff.mp found with ⟨front, back, same, _⟩
  have member : (name, method) ∈ Standard.library.methods := by
    rw [same]
    exact List.mem_append_right _ List.mem_cons_self
  rcases List.mem_map.mp member with ⟨listMethod, listed, paired⟩
  have pair := Prod.mk.inj paired
  exact ⟨listMethod, listed, pair.1, pair.2.symm⟩

theorem standard_method {name : String} {method : HostMethod}
    (found : Standard.library.method? name = some method) :
    ∃ listMethod ∈ ListMethod.all, method = Standard.method listMethod := by
  rcases standard_named found with ⟨listMethod, listed, _, same⟩
  exact ⟨listMethod, listed, same⟩

/-- The heaps are alike, and the same was printed. -/
def worlds (likeness : Likeness) (known : likeness.Knowledge) (world other : World) : Prop :=
  likeness.heap known world.heap other.heap ∧ other.sink = world.sink

/-- The functions answer related arguments alike. -/
def Functions (likeness : Likeness) (function other : HostFunction) : Prop :=
  ∀ {known arguments others} (line : Nat), likeness.Values known arguments others →
    likeness.Goes likeness.worlds likeness.Produced known (function arguments line)
      (other others (likeness.place line))

def Methods (likeness : Likeness) (method other : HostMethod) : Prop :=
  ∀ {known receiver otherReceiver arguments others} (line : Nat),
    likeness.value known receiver otherReceiver → likeness.Values known arguments others →
    likeness.Goes likeness.worlds likeness.Produced known (method receiver arguments line)
      (other otherReceiver others (likeness.place line))

theorem goes_onHeap {results : likeness.Knowledge → α → α → Prop} {known : likeness.Knowledge}
    {action other : Heap.Action α} (goes : likeness.Goes likeness.heap results known action other) :
    likeness.Goes likeness.worlds results known (World.onHeap action) (World.onHeap other) := by
  rintro now later ⟨first, sink⟩ ⟨second, otherSink⟩ ⟨heaps, same⟩
  change otherSink = sink at same
  subst same
  rcases (goes now later first second heaps).returns_or_fails id with
    ⟨_, _, _, _, ran, otherRan, last, sooner, holds, reached⟩ |
    ⟨_, _, _, _, ran, otherRan, faults, last, sooner, reached⟩
  · rw [World.onHeap_of_ok ran, World.onHeap_of_ok otherRan]
    exact ⟨last, sooner, holds, reached, rfl⟩
  · rw [World.onHeap_of_error ran, World.onHeap_of_error otherRan]
    exact Or.inr ⟨faults, last, sooner, reached, rfl⟩

theorem methods_standard {method : ListMethod} (member : method ∈ ListMethod.all) :
    likeness.Methods (Standard.method method) (Standard.method method) := by
  intro known receiver other arguments others line receivers related
  exact goes_onHeap (respects_checked member line receivers related)

theorem printed_eq {known : likeness.Knowledge} {first second : Heap} {values others : List Value}
    (heaps : likeness.heap known first second) (related : likeness.Values known values others) :
    Standard.printed second others = Standard.printed first values := by
  have texts : others.map second.render = values.map first.render := by
    induction related with
    | nil => rfl
    | cons head _ inductionHypothesis =>
        rw [List.map_cons, List.map_cons, likeness.renders heaps head, inductionHypothesis]
  unfold Standard.printed
  rw [texts]

theorem functions_print : likeness.Functions Standard.print Standard.print := by
  rintro known arguments others line related now later ⟨first, sink⟩ ⟨second, otherSink⟩
    ⟨heaps, same⟩
  change otherSink = sink at same
  subst same
  have texts : Standard.printed second others = Standard.printed first arguments :=
    printed_eq heaps (related.later later)
  simp only [Standard.print, texts]
  cases otherSink.accept (Standard.printed first arguments) with
  | ok sink => exact ⟨now, likeness.later_refl now, trivial, heaps, rfl⟩
  | error reason => exact Or.inr ⟨rfl, now, likeness.later_refl now, heaps, rfl⟩

end Likeness
end Scriptlet
