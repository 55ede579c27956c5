import Scriptlet.Proofs.DirectEvaluation

namespace Scriptlet

/-!
# The discipline of the value stack

All forms of nodes share one stack, and a fault may leave it with values that nobody took.
The discipline is therefore said relative to the stack a computation starts with: that stack
stays below everything the computation pushes, whatever it holds, and what is left above it
at the end is known from the outcome of the evaluator without a stack.
-/

namespace Stack

theorem eq_of_values {first second : Stack} (same : first.values = second.values) :
    first = second := by
  rcases first with ⟨values, height, heightEq⟩
  rcases second with ⟨others, otherHeight, otherHeightEq⟩
  cases same
  cases heightEq.trans otherHeightEq.symm
  rfl

/-- Everything on the lower stack is still where it was on the upper one. -/
def Below (lower upper : Stack) : Prop :=
  lower.values <:+ upper.values

theorem Below.refl (stack : Stack) : stack.Below stack :=
  List.suffix_refl _

theorem Below.trans {lower middle upper : Stack} (first : lower.Below middle)
    (second : middle.Below upper) : lower.Below upper :=
  List.IsSuffix.trans first second

theorem below_push (stack : Stack) (value : Value) : stack.Below (stack.push value) :=
  List.suffix_cons value stack.values

/-- The stack with a value on top, if there is one. -/
def pushed (stack : Stack) : Option Value → Stack
  | some value => stack.push value
  | none => stack

theorem pushed_cut (stack : Stack) (value? : Option Value) :
    (stack.pushed value?).cut stack.height = stack := by
  apply eq_of_values
  cases value? with
  | none => simp [pushed, cut]
  | some value => simp [pushed, cut, push]

/-- The stack with some values on top, the last one highest. -/
def pushAll (stack : Stack) (values : List Value) : Stack :=
  values.foldl push stack

theorem pushAll_values (stack : Stack) (values : List Value) :
    (stack.pushAll values).values = values.reverse ++ stack.values := by
  induction values generalizing stack with
  | nil => rfl
  | cons value rest inductionHypothesis =>
      have tail := inductionHypothesis (stack.push value)
      simp only [pushAll, List.foldl_cons] at tail ⊢
      rw [tail]
      simp [push]

theorem pushAll_excess (stack : Stack) (values : List Value) :
    (stack.pushAll values).height - stack.height = values.length := by
  rw [(stack.pushAll values).height_eq, stack.height_eq, pushAll_values]
  simp

theorem pushAll_above (stack : Stack) (values : List Value) :
    (stack.pushAll values).above stack.height = values := by
  unfold above
  rw [pushAll_excess, pushAll_values, List.take_left' (List.length_reverse)]
  exact List.reverse_reverse values

theorem pushAll_cut (stack : Stack) (values : List Value) :
    (stack.pushAll values).cut stack.height = stack := by
  apply eq_of_values
  change (stack.pushAll values).values.drop ((stack.pushAll values).height - stack.height) = _
  rw [pushAll_excess, pushAll_values, List.drop_left' (List.length_reverse)]

end Stack

namespace Machine

/-! ## Computations that match -/

/-- The two evaluators end alike.  After a result the machine's stack is the one that is
named; after a fault the starting stack is at least still there. -/
inductive Matches {α β : Type} (answer : β → α) (leaves : Stack → β → Stack) (stack : Stack) :
    EStateM.Result RuntimeFault (Direct.State Store) β →
      EStateM.Result RuntimeFault Machine α → Prop
  | ok (result : β) (store : Store) (world : World) :
      Matches answer leaves stack (.ok result ⟨store, world⟩)
        (.ok (answer result) ⟨leaves stack result, store, world⟩)
  | error (fault : RuntimeFault) (store : Store) (world : World) (left : Stack) :
      stack.Below left →
        Matches answer leaves stack (.error fault ⟨store, world⟩)
          (.error fault ⟨left, store, world⟩)

/-- A computation on the machine does what a computation without a stack does, from every
stack. -/
def Mirrors {α β : Type} (answer : β → α) (leaves : Stack → β → Stack)
    (direct : Direct.Run Store β) (run : Run α) : Prop :=
  ∀ stack store world,
    Matches answer leaves stack (direct ⟨store, world⟩) (run ⟨stack, store, world⟩)

/-- The computation on the machine leaves the stack as it was. -/
abbrev Keeps {α : Type} (direct : Direct.Run Store α) (run : Run α) : Prop :=
  Mirrors id (fun stack _ => stack) direct run

/-- The computation on the machine leaves the value of the outcome, if it has one. -/
abbrev Leaves (direct : Direct.Run Store Direct.Outcome) (run : Run Signal) : Prop :=
  Mirrors Direct.Outcome.signal (fun stack outcome => stack.pushed outcome.value?) direct run

section Composition

variable {α β γ : Type} {answer : β → α} {leaves : Stack → β → Stack}

theorem keeps_pure (result : α) : Keeps (pure result) (pure result) :=
  fun _ store world => .ok result store world

theorem mirrors_throw (fault : RuntimeFault) :
    Mirrors answer leaves (throw fault) (throw fault) :=
  fun stack store world => .error fault store world stack (.refl stack)

/-- What the machine goes on to do may depend on the stack it started from, as taking a value
does.  It is therefore given as a whole computation, which must pass faults on. -/
theorem Mirrors.follow {γ δ : Type} {lastAnswer : δ → γ} {lastLeaves : Stack → δ → Stack}
    {direct : Direct.Run Store β} {run : Run α} (mirrored : Mirrors answer leaves direct run)
    {directNext : β → Direct.Run Store δ} {continued : Run γ}
    (faults : ∀ machine fault after, run machine = .error fault after →
      continued machine = .error fault after)
    (results : ∀ stack store world outcome after worldAfter,
      direct ⟨store, world⟩ = .ok outcome ⟨after, worldAfter⟩ →
      run ⟨stack, store, world⟩ =
        .ok (answer outcome) ⟨leaves stack outcome, after, worldAfter⟩ →
      Matches lastAnswer lastLeaves stack (directNext outcome ⟨after, worldAfter⟩)
        (continued ⟨stack, store, world⟩)) :
    Mirrors lastAnswer lastLeaves (direct >>= directNext) continued := by
  intro stack store world
  have started := mirrored stack store world
  change Matches lastAnswer lastLeaves stack (EStateM.bind direct directNext ⟨store, world⟩) _
  unfold EStateM.bind
  cases directRan : direct ⟨store, world⟩ with
  | ok outcome after =>
      rw [directRan] at started
      generalize ran : run ⟨stack, store, world⟩ = result at started
      cases started with
      | ok outcome after worldAfter =>
          exact results stack store world outcome after worldAfter directRan ran
  | error fault after =>
      rw [directRan] at started
      generalize ran : run ⟨stack, store, world⟩ = result at started
      cases started with
      | error fault after worldAfter left below =>
          change Matches lastAnswer lastLeaves stack (.error fault ⟨after, worldAfter⟩) _
          rw [faults _ _ _ ran]
          exact .error fault after worldAfter left below

/-- Once the first computation is over the second starts from the same stack, so a fault of
the second leaves that stack in place as well. -/
theorem Keeps.bind {direct : Direct.Run Store γ} {run : Run γ}
    {directNext : γ → Direct.Run Store β} {next : γ → Run α} (first : Keeps direct run)
    (second : ∀ result, Mirrors answer leaves (directNext result) (next result)) :
    Mirrors answer leaves (direct >>= directNext) (run >>= next) := by
  apply Mirrors.follow first
  · intro machine fault after ran
    exact bind_of_error ran
  · intro stack store world result after worldAfter _ ran
    rw [bind_of_ok ran]
    exact second result stack after worldAfter

theorem keeps_onWorld (action : World.Action α) :
    Keeps (Direct.onWorld action) (onWorld action) := by
  intro stack store world
  unfold Direct.onWorld onWorld
  cases ran : action world with
  | ok result after =>
      simp only [ran]
      exact .ok result store after
  | error fault after =>
      simp only [ran]
      exact .error fault store after stack (.refl stack)

theorem keeps_onHeap (action : Heap.Action α) : Keeps (Direct.onHeap action) (onHeap action) :=
  keeps_onWorld (World.onHeap action)

end Composition

/-! ## The steps of evaluation -/

section Steps

variable (config : Config)

theorem keeps_lookup (name : String) (line : Nat) :
    Keeps (Direct.lookup (.ofStore config) name line) (lookup name line) := by
  intro stack store world
  cases found : store.slot? name with
  | none =>
      simp only [Direct.lookup, lookup, Variables.ofStore, Store.value?, found, Option.map_none]
      exact .error _ store world stack (.refl stack)
  | some slot =>
      simp only [Direct.lookup, lookup, Variables.ofStore, Store.value?, found, Option.map_some]
      exact .ok slot.value store world

theorem keeps_assign (name : String) (value : Value) :
    Keeps (Direct.assign (.ofStore config) name value) (assign name value) :=
  fun _ store world => .ok () (store.allocate name value) world

theorem keeps_enter : Keeps (Direct.enter (.ofStore config)) enter := by
  intro stack store world
  cases full : store.isFull with
  | true =>
      simp only [Direct.enter, enter, Variables.ofStore, Store.enter, full, if_true]
      exact .error _ store world stack (.refl stack)
  | false =>
      simp only [Direct.enter, enter, Variables.ofStore, Store.enter, full, Bool.false_eq_true,
        if_false]
      exact .ok () store.withFrame world

/-- Leaving a block is where the policy decides. -/
theorem keeps_leave (library : Library) (framed : Bool) (ending : Ending) :
    Keeps (do Direct.leaveIf (.ofStore config) framed ending.early; pure ending.signal)
      (leave ⟨library, config⟩ framed ending) := by
  intro stack store world
  cases framed with
  | false => exact .ok ending.signal store world
  | true =>
      cases early : ending.early <;> cases policy : config.closesEarly <;>
        simp only [leave, early, policy, Bool.true_and, Bool.not_true, Bool.not_false,
          Bool.or_true, Bool.or_false, Bool.false_eq_true, if_true, if_false] <;>
        simp only [Direct.leaveIf, Variables.ofStore, policy, if_true]
      · exact .ok ending.signal store.exit world
      · exact .ok ending.signal store.exit world
      · exact .ok ending.signal store world
      · exact .ok ending.signal store.exit world

/-- The heights before and after differ when there is a value to take. -/
theorem taking_of_value {run : Run Signal} {signal : Signal} {value : Value} {stack : Stack}
    {store after : Store} {world worldAfter : World} (line : Nat)
    (ran : run ⟨stack, store, world⟩ = .ok signal ⟨stack.push value, after, worldAfter⟩) :
    Machine.taking line run ⟨stack, store, world⟩ = .ok value ⟨stack, after, worldAfter⟩ := by
  unfold Machine.taking
  rw [ran]
  exact if_neg (Nat.succ_ne_self stack.height)

theorem taking_of_nothing {run : Run Signal} {signal : Signal} {stack : Stack}
    {store after : Store} {world worldAfter : World} (line : Nat)
    (ran : run ⟨stack, store, world⟩ = .ok signal ⟨stack, after, worldAfter⟩) :
    Machine.taking line run ⟨stack, store, world⟩ =
      .error (.missingValue line) ⟨stack, after, worldAfter⟩ := by
  unfold Machine.taking
  rw [ran]
  exact if_pos rfl

theorem Leaves.taking {direct : Direct.Run Store Direct.Outcome} {run : Run Signal}
    (left : Leaves direct run) (line : Nat) :
    Keeps (Direct.valueOf line direct) (Machine.taking line run) := by
  apply Mirrors.follow left
  · intro machine fault after ran
    simp only [Machine.taking, ran]
  · intro stack store world outcome after worldAfter _ ran
    rcases outcome with ⟨signal, value?⟩
    cases value? with
    | none =>
        rw [taking_of_nothing line ran]
        exact .error (.missingValue line) after worldAfter stack (.refl stack)
    | some value =>
        rw [taking_of_value line ran]
        exact .ok value after worldAfter

theorem Leaves.discarding {direct : Direct.Run Store Direct.Outcome} {run : Run Signal}
    (left : Leaves direct run)
    (proceeds : Ensures (fun _ => True) direct (fun outcome => outcome.signal = .proceed)
      (fun _ => True)) :
    Keeps (Direct.signalOf direct) (Machine.discarding run) := by
  apply Mirrors.follow left
  · intro machine fault after ran
    simp only [Machine.discarding, ran]
  · intro stack store world outcome after worldAfter directRan ran
    have signal := (proceeds.of_ok trivial directRan).1
    simp only [Machine.discarding, ran, Stack.pushed_cut]
    change Matches id _ stack (.ok outcome.signal ⟨after, worldAfter⟩) _
    rw [signal]
    exact .ok Signal.proceed after worldAfter

theorem Leaves.statement {direct : Direct.Run Store Direct.Outcome} {run : Run Signal}
    (left : Leaves direct run)
    (valueless : Ensures (fun _ => True) direct (fun outcome => outcome.value? = none)
      (fun _ => True)) :
    Keeps (Direct.signalOf direct) run := by
  apply Mirrors.follow left
  · intro machine fault after ran
    exact ran
  · intro stack store world outcome after worldAfter directRan ran
    have nothing := (valueless.of_ok trivial directRan).1
    rw [ran, nothing]
    exact .ok outcome.signal after worldAfter

/-- The elements are pushed one by one, so that a fault may leave some of them; a list made of
all of them takes their place. -/
theorem gathering_leaves {direct : Direct.Run Store (List Value)} {run : Run Unit}
    (pushes : Mirrors (fun _ => ()) Stack.pushAll direct run) :
    Leaves
      (do
        let values ← direct
        let list ← Direct.onHeap (Heap.Action.sure (Heap.allocate values))
        pure (.ofValue? (some list)))
      (do gathering run; pure .proceed) := by
  apply Mirrors.follow pushes
  · intro machine fault after ran
    apply bind_of_error
    simp only [gathering, ran]
  · intro stack store world values after worldAfter _ ran
    have gathered : gathering run ⟨stack, store, world⟩ =
        .ok () ⟨stack.push (Heap.allocate values worldAfter.heap).1, after,
          { worldAfter with heap := (Heap.allocate values worldAfter.heap).2 }⟩ := by
      unfold gathering
      rw [ran]
      simp only [Stack.pushAll_above, Stack.pushAll_cut]
      rfl
    rw [bind_of_ok gathered]
    exact .ok (Direct.Outcome.ofValue? _) after _

theorem keeps_iterate {directBind : Value → Direct.Run Store Unit} {bind : Value → Run Unit}
    {directBody : Direct.Run Store Signal} {body : Run Signal}
    (binding : ∀ item, Keeps (directBind item) (bind item)) (bodies : Keeps directBody body)
    (items : List Value) :
    Keeps (Direct.iterate directBind directBody items) (iterate bind body items) := by
  induction items with
  | nil => exact keeps_pure Signal.proceed
  | cons item rest inductionHypothesis =>
      apply Keeps.bind (binding item)
      intro _
      apply Keeps.bind bodies
      intro signal
      cases signal with
      | proceed => exact inductionHypothesis
      | «break» => exact keeps_pure Signal.proceed
      | halt => exact keeps_pure Signal.halt

/-- Pushing a computed value is what an expression ends with. -/
theorem Keeps.push {direct : Direct.Run Store Value} {run : Run Value} (kept : Keeps direct run) :
    Leaves (do let value ← direct; pure (.ofValue? (some value)))
      (do push (← run); pure .proceed) :=
  kept.bind fun value _ store world => .ok (Direct.Outcome.ofValue? (some value)) store world

theorem Keeps.pushResult {direct : Direct.Run Store (Option Value)} {run : Run (Option Value)}
    (kept : Keeps direct run) :
    Leaves (do let value? ← direct; pure (.ofValue? value?))
      (do pushResult (← run); pure .proceed) := by
  apply Keeps.bind kept
  intro value? stack store world
  cases value? with
  | none => exact .ok (Direct.Outcome.ofValue? none) store world
  | some value => exact .ok (Direct.Outcome.ofValue? (some value)) store world

/-- A statement ends with a signal and leaves nothing. -/
theorem Keeps.signals {direct : Direct.Run Store Signal} {run : Run Signal}
    (kept : Keeps direct run) :
    Leaves (do let signal ← direct; pure (.ofSignal signal)) run := by
  apply Mirrors.follow kept
  · intro machine fault after ran
    exact ran
  · intro stack store world signal after worldAfter _ ran
    rw [ran]
    exact .ok (Direct.Outcome.ofSignal signal) after worldAfter

end Steps

/-! ## Whole trees -/

section Trees

variable (library : Library) (config : Config)

/-- In statement position only the signal of an outcome counts. -/
theorem Leaves.asStatement {node : Node} {run : Run Signal}
    (left : Leaves (Direct.perform (.ofStore config) library node) run) :
    Keeps (Direct.signalOf (Direct.perform (.ofStore config) library node))
      (Machine.asStatement node run) := by
  have fits := Direct.perform_fits (.ofStore config) library node
  unfold Machine.asStatement
  cases expression : node.isExpression with
  | true =>
      exact left.discarding
        (fits.weaken (fun _ fit => fit.proceeds expression) (fun _ known => known))
  | false =>
      exact left.statement
        (fits.weaken (fun _ fit => fit.valueless expression) (fun _ known => known))

mutual

/-- The machine does on a node what evaluation without a stack does, and leaves the value. -/
theorem perform_leaves : ∀ node : Node,
    Leaves (Direct.perform (.ofStore config) library node) (perform ⟨library, config⟩ node)
  | .literal value _ => by
      rw [Direct.perform, perform]
      exact (keeps_onHeap _).push
  | .array elements line => by
      rw [Direct.perform, perform]
      exact gathering_leaves (pushEach_pushes line elements)
  | .variable name line => by
      rw [Direct.perform, perform]
      exact (keeps_lookup config name line).push
  | .binary operator left right line => by
      rw [Direct.perform, perform]
      apply Keeps.bind ((perform_leaves left).taking line)
      intro x
      apply Keeps.bind ((perform_leaves right).taking line)
      intro y
      exact (keeps_onHeap _).push
  | .unary operator operand line => by
      rw [Direct.perform, perform]
      apply Keeps.bind ((perform_leaves operand).taking line)
      intro x
      exact (keeps_onHeap _).push
  | .call function arguments line => by
      rw [Direct.perform, perform]
      cases library.function? function with
      | none => exact mirrors_throw _
      | some body =>
          apply Keeps.bind (valuesOf_keeps line arguments)
          intro values
          exact (keeps_onWorld _).pushResult
  | .methodCall receiver method arguments line => by
      rw [Direct.perform, perform]
      cases library.method? method with
      | none => exact mirrors_throw _
      | some body =>
          apply Keeps.bind (keeps_lookup config receiver line)
          intro target
          apply Keeps.bind (valuesOf_keeps line arguments)
          intro values
          exact (keeps_onWorld _).pushResult
  | .range first last line => by
      rw [Direct.perform, perform]
      apply Keeps.bind ((perform_leaves first).taking line)
      intro x
      apply Keeps.bind ((perform_leaves last).taking line)
      intro y
      exact (keeps_onHeap _).push
  | .assignment name value line => by
      rw [Direct.perform, perform]
      apply Keeps.bind ((perform_leaves value).taking line)
      intro x
      apply Keeps.bind (keeps_assign config name x)
      intro _
      exact fun _ store world => .ok (Direct.Outcome.ofSignal .proceed) store world
  | .conditional condition thenBranch elseBranch line => by
      rw [Direct.perform, perform]
      apply Keeps.bind ((perform_leaves condition).taking line)
      intro x
      apply Keeps.bind (keeps_onHeap _)
      intro holds
      cases holds with
      | true => exact (performBlock_keeps thenBranch).signals
      | false => exact (performBranch_keeps elseBranch).signals
  | .compound block => by
      rw [Direct.perform, perform]
      exact (performBlock_keeps block).signals
  | .loop iterator iterable body line => by
      rw [Direct.perform, perform]
      apply Keeps.bind ((perform_leaves iterable).taking line)
      intro x
      apply Keeps.bind (keeps_onHeap _)
      intro address stack store world
      exact (keeps_iterate (keeps_assign config iterator) (performBody_keeps body)
        (world.heap.elements address)).signals stack store world
  | .flag flag _ => by
      rw [Direct.perform, perform]
      exact fun _ store world => .ok (Direct.Outcome.ofSignal flag.signal) store world

/-- The elements of a list literal stand on the stack in order. -/
theorem pushEach_pushes (line : Nat) : ∀ nodes : List Node,
    Mirrors (fun _ => ()) Stack.pushAll (Direct.valuesOf (.ofStore config) library line nodes)
      (pushEach ⟨library, config⟩ line nodes)
  | [] => by
      rw [Direct.valuesOf, pushEach]
      exact fun _ store world => .ok [] store world
  | node :: rest => by
      rw [Direct.valuesOf, pushEach]
      apply Keeps.bind ((perform_leaves node).taking line)
      intro value stack store world
      -- The rest starts from the stack with the value on it, which is above the given one.
      have others := pushEach_pushes line rest (stack.push value) store world
      change Matches _ _ stack _
        (pushEach ⟨library, config⟩ line rest ⟨stack.push value, store, world⟩)
      generalize directRan : Direct.valuesOf _ library line rest ⟨store, world⟩ = directResult
        at others
      generalize pushEach _ line rest ⟨stack.push value, store, world⟩ = result at others ⊢
      cases others with
      | ok values after worldAfter =>
          rw [bind_of_ok directRan]
          exact .ok (value :: values) after worldAfter
      | error fault after worldAfter left below =>
          rw [bind_of_error directRan]
          exact .error fault after worldAfter left ((stack.below_push value).trans below)

theorem valuesOf_keeps (line : Nat) : ∀ nodes : List Node,
    Keeps (Direct.valuesOf (.ofStore config) library line nodes)
      (valuesOf ⟨library, config⟩ line nodes)
  | [] => by
      rw [Direct.valuesOf, valuesOf]
      exact keeps_pure []
  | node :: rest => by
      rw [Direct.valuesOf, valuesOf]
      apply Keeps.bind ((perform_leaves node).taking line)
      intro value
      apply Keeps.bind (valuesOf_keeps line rest)
      intro values
      exact keeps_pure (value :: values)

theorem performEach_keeps : ∀ nodes : List Node,
    Keeps (Direct.performEach (.ofStore config) library nodes)
      (performEach ⟨library, config⟩ nodes)
  | [] => by
      rw [Direct.performEach, performEach]
      exact keeps_pure _
  | node :: rest => by
      rw [Direct.performEach, performEach]
      apply Keeps.bind (perform_leaves node).asStatement
      intro signal
      cases signal with
      | proceed => exact performEach_keeps rest
      | «break» => exact keeps_pure _
      | halt => exact keeps_pure _

theorem performBlock_keeps : ∀ block : Block,
    Keeps (Direct.performBlock (.ofStore config) library block)
      (performBlock ⟨library, config⟩ block)
  | .mk framed statements line => by
      rw [Direct.performBlock, performBlock]
      cases framed with
      | false =>
          apply Keeps.bind (performEach_keeps statements)
          intro ending
          exact keeps_leave config library false ending
      | true =>
          apply Keeps.bind (keeps_enter config)
          intro _
          apply Keeps.bind (performEach_keeps statements)
          intro ending
          exact keeps_leave config library true ending

theorem performBranch_keeps : ∀ branch : Option Block,
    Keeps (Direct.performBranch (.ofStore config) library branch)
      (performBranch ⟨library, config⟩ branch)
  | none => by
      rw [Direct.performBranch, performBranch]
      exact keeps_pure _
  | some block => by
      rw [Direct.performBranch, performBranch]
      exact performBlock_keeps block

theorem performBody_keeps : ∀ block : Block,
    Keeps (Direct.performBody (.ofStore config) library block)
      (performBody ⟨library, config⟩ block)
  | .mk framed statements line => by
      rw [Direct.performBody, performBody]
      apply Keeps.bind (performEach_keeps statements)
      intro ending
      exact keeps_pure ending.signal

end

end Trees

/-! ## Requests -/

/-- A result on the machine with the stack left out of it. -/
def withoutStack {α : Type} :
    EStateM.Result RuntimeFault Machine α → EStateM.Result RuntimeFault (Direct.State Store) α
  | .ok result machine => .ok result ⟨machine.store, machine.world⟩
  | .error fault machine => .error fault ⟨machine.store, machine.world⟩

theorem Mirrors.of_ok {α β : Type} {answer : β → α} {leaves : Stack → β → Stack}
    {direct : Direct.Run Store β} {run : Run α} (mirrored : Mirrors answer leaves direct run)
    {machine after : Machine} {result : α} (ran : run machine = .ok result after) :
    ∃ outcome, direct ⟨machine.store, machine.world⟩ = .ok outcome ⟨after.store, after.world⟩ ∧
      result = answer outcome ∧ after.stack = leaves machine.stack outcome := by
  have both := mirrored machine.stack machine.store machine.world
  change Matches answer leaves machine.stack _ (run machine) at both
  rw [ran] at both
  generalize direct ⟨machine.store, machine.world⟩ = directResult at both ⊢
  cases both with
  | ok outcome store world => exact ⟨outcome, rfl, rfl, rfl⟩

theorem Mirrors.of_error {α β : Type} {answer : β → α} {leaves : Stack → β → Stack}
    {direct : Direct.Run Store β} {run : Run α} (mirrored : Mirrors answer leaves direct run)
    {machine after : Machine} {fault : RuntimeFault} (ran : run machine = .error fault after) :
    direct ⟨machine.store, machine.world⟩ = .error fault ⟨after.store, after.world⟩ ∧
      machine.stack.Below after.stack := by
  have both := mirrored machine.stack machine.store machine.world
  change Matches answer leaves machine.stack _ (run machine) at both
  rw [ran] at both
  generalize direct ⟨machine.store, machine.world⟩ = directResult at both ⊢
  cases both with
  | error fault store world left below => exact ⟨rfl, below⟩

/-- What the machine does where evaluation without a stack has returned. -/
theorem Mirrors.ran {α β : Type} {answer : β → α} {leaves : Stack → β → Stack}
    {direct : Direct.Run Store β} {run : Run α} (mirrored : Mirrors answer leaves direct run)
    (stack : Stack) {store after : Store} {world worldAfter : World} {outcome : β}
    (directRan : direct ⟨store, world⟩ = .ok outcome ⟨after, worldAfter⟩) :
    run ⟨stack, store, world⟩ =
      .ok (answer outcome) ⟨leaves stack outcome, after, worldAfter⟩ := by
  have both := mirrored stack store world
  rw [directRan] at both
  generalize run ⟨stack, store, world⟩ = result at both ⊢
  cases both with
  | ok outcome after worldAfter => rfl

/-- Answering with something made of the result changes nothing else. -/
theorem Mirrors.map {α β γ : Type} {answer : β → α} {leaves : Stack → β → Stack}
    {direct : Direct.Run Store β} {run : Run α} (mirrored : Mirrors answer leaves direct run)
    (make : α → γ) :
    Mirrors (fun outcome => make (answer outcome)) leaves direct
      (do let result ← run; pure (make result)) := by
  intro stack store world
  have both := mirrored stack store world
  generalize direct ⟨store, world⟩ = directResult at both ⊢
  generalize ran : run ⟨stack, store, world⟩ = result at both
  cases both with
  | ok outcome after worldAfter =>
      rw [bind_of_ok ran]
      exact .ok outcome after worldAfter
  | error fault after worldAfter left below =>
      rw [bind_of_error ran]
      exact .error fault after worldAfter left below

theorem Mirrors.withoutStack_eq {α β : Type} {answer : β → α} {leaves : Stack → β → Stack}
    {direct : Direct.Run Store β} {run : Run α} (mirrored : Mirrors answer leaves direct run)
    (machine : Machine) :
    withoutStack (run machine) =
      (do let outcome ← direct; pure (answer outcome)) ⟨machine.store, machine.world⟩ := by
  cases ran : run machine with
  | ok result after =>
      rcases mirrored.of_ok ran with ⟨outcome, directRan, same, _⟩
      rw [bind_of_ok directRan, same]
      rfl
  | error fault after =>
      rw [bind_of_error (mirrored.of_error ran).1]
      rfl

section Requests

variable (library : Library) (config : Config)

theorem execute_keeps (node : Node) :
    Keeps (Direct.signalOf (Direct.perform (.ofStore config) library node))
      (execute ⟨library, config⟩ node) :=
  (perform_leaves library config node).asStatement

theorem evaluate_leaves (node : Node) :
    Mirrors (fun _ => ()) (fun stack outcome => stack.pushed outcome.value?)
      (Direct.perform (.ofStore config) library node) (evaluate ⟨library, config⟩ node) :=
  (perform_leaves library config node).map fun _ => ()

theorem evaluateValue_keeps (node : Node) (line : Nat) :
    Keeps (Direct.valueOf line (Direct.perform (.ofStore config) library node))
      (evaluateValue ⟨library, config⟩ node line) :=
  (perform_leaves library config node).taking line

/-- Every request is a computation without a stack with an answer made of its outcome. -/
theorem answer_mirrors (request : Request) :
    ∃ (β : Type) (make : β → Answer) (leaves : Stack → β → Stack) (direct : Direct.Run Store β),
      Mirrors make leaves direct (answer ⟨library, config⟩ request) ∧
        Direct.answer (.ofStore config) library request =
          (do let outcome ← direct; pure (make outcome)) := by
  cases request with
  | run program =>
      have ended := (performBlock_keeps library config program.root).map fun _ => ()
      exact ⟨_, _, _, _, ended.map fun _ => Answer.done, rfl⟩
  | execute node => exact ⟨_, _, _, _, (execute_keeps library config node).map Answer.signal, rfl⟩
  | executeBlock block =>
      exact ⟨_, _, _, _, (performBlock_keeps library config block).map Answer.signal, rfl⟩
  | evaluate node =>
      exact ⟨_, _, _, _, (evaluate_leaves library config node).map fun _ => Answer.done, rfl⟩
  | evaluateValue node line =>
      exact ⟨_, _, _, _, (evaluateValue_keeps library config node line).map Answer.value, rfl⟩

/-- Whatever is asked, the answer and the state outside the stack are those of evaluation
without a stack. -/
theorem answer_withoutStack (request : Request) (machine : Machine) :
    withoutStack (answer ⟨library, config⟩ request machine) =
      Direct.answer (.ofStore config) library request ⟨machine.store, machine.world⟩ := by
  rcases answer_mirrors library config request with ⟨β, make, leaves, direct, mirrored, same⟩
  rw [same]
  exact mirrored.withoutStack_eq machine

/-- A fault leaves everything that was on the stack before. -/
theorem answer_below {request : Request} {machine after : Machine} {fault : RuntimeFault}
    (ran : answer ⟨library, config⟩ request machine = .error fault after) :
    machine.stack.Below after.stack := by
  rcases answer_mirrors library config request with ⟨β, make, leaves, direct, mirrored, _⟩
  exact (mirrored.of_error ran).2

end Requests

/-! ## Missing values -/

/-- The node is a call that reaches its host, and the host gives no value. -/
inductive Silent (environment : Environment) (machine : Machine) : Node → Prop
  | call {function : String} {arguments : List Node} {line : Nat} {body : HostFunction}
      {values : List Value} {before : Machine} {after : World} :
      environment.library.function? function = some body →
      valuesOf environment line arguments machine = .ok values before →
      body values line before.world = .ok none after →
      Silent environment machine (.call function arguments line)
  | methodCall {receiver method : String} {arguments : List Node} {line : Nat}
      {body : HostMethod} {slot : Slot} {values : List Value} {before : Machine} {after : World} :
      environment.library.method? method = some body →
      machine.store.slot? receiver = some slot →
      valuesOf environment line arguments machine = .ok values before →
      body slot.value values line before.world = .ok none after →
      Silent environment machine (.methodCall receiver method arguments line)

theorem onWorld_eq_ok {α : Type} {action : World.Action α} {store : Store} {world : World}
    {result : α} {after : Direct.State Store}
    (ran : Direct.onWorld action ⟨store, world⟩ = .ok result after) :
    action world = .ok result after.world := by
  unfold Direct.onWorld at ran
  cases acted : action world with
  | ok result worldAfter =>
      simp only [acted] at ran
      cases ran
      rfl
  | error fault worldAfter =>
      simp only [acted] at ran
      cases ran

theorem lookup_eq_ok {config : Config} {name : String} {line : Nat}
    {state after : Direct.State Store} {value : Value}
    (ran : Direct.lookup (.ofStore config) name line state = .ok value after) :
    ∃ slot, state.bindings.slot? name = some slot ∧ slot.value = value ∧ state = after := by
  simp only [Direct.lookup, Variables.ofStore, Store.value?] at ran
  cases found : state.bindings.slot? name with
  | none =>
      simp only [found, Option.map_none] at ran
      cases ran
  | some slot =>
      simp only [found, Option.map_some] at ran
      cases ran
      exact ⟨slot, rfl, rfl, rfl⟩

/-- An outcome without a value is that of a statement or of a call with a silent host. -/
theorem silent_of_valueless {library : Library} {config : Config} {node : Node}
    {machine : Machine} {outcome : Direct.Outcome} {after : Direct.State Store}
    (ran : Direct.perform (.ofStore config) library node ⟨machine.store, machine.world⟩ =
      .ok outcome after) (valueless : outcome.value? = none) :
    node.isExpression = false ∨ Silent ⟨library, config⟩ machine node := by
  have fits := ((Direct.perform_fits (.ofStore config) library node).of_ok trivial ran).1
  have hosted : Direct.yieldsValue node = false := by
    cases yields : Direct.yieldsValue node with
    | false => rfl
    | true =>
        have present := fits.valued yields
        rw [valueless] at present
        cases present
  cases node with
  | call function arguments line =>
      rw [Direct.perform] at ran
      cases found : library.function? function with
      | none =>
          rw [found] at ran
          cases ran
      | some body =>
          rw [found] at ran
          rcases bind_eq_ok ran with ⟨values, between, valuesRan, called⟩
          rcases bind_eq_ok called with ⟨result?, final, bodyRan, ended⟩
          cases ended
          cases (valueless : result? = none)
          have machineValues := (valuesOf_keeps library config line arguments).ran machine.stack
            valuesRan
          exact Or.inr (.call found machineValues (onWorld_eq_ok bodyRan))
  | methodCall receiver method arguments line =>
      rw [Direct.perform] at ran
      cases found : library.method? method with
      | none =>
          rw [found] at ran
          cases ran
      | some body =>
          rw [found] at ran
          rcases bind_eq_ok ran with ⟨target, start, lookedUp, rest⟩
          rcases bind_eq_ok rest with ⟨values, between, valuesRan, called⟩
          rcases bind_eq_ok called with ⟨result?, final, bodyRan, ended⟩
          cases ended
          cases (valueless : result? = none)
          rcases lookup_eq_ok lookedUp with ⟨slot, bound, rfl, rfl⟩
          have machineValues := (valuesOf_keeps library config line arguments).ran machine.stack
            valuesRan
          exact Or.inr (.methodCall found bound machineValues (onWorld_eq_ok bodyRan))
  | assignment | conditional | compound | loop | flag => exact Or.inl rfl
  | literal | array | «variable» | binary | unary | range => cases hosted

/-- A fault of evaluation for a value is a fault of the evaluation itself, unless there was no
value to take: then the node is a statement or a call with a silent host, and nothing but the
value is missing. -/
theorem evaluateValue_fault {environment : Environment} {node : Node} {line : Nat}
    {machine after : Machine} {fault : RuntimeFault}
    (ran : evaluateValue environment node line machine = .error fault after) :
    evaluate environment node machine = .error fault after ∨
      (fault = .missingValue line ∧ evaluate environment node machine = .ok () after ∧
        (node.isExpression = false ∨ Silent environment machine node)) := by
  rcases environment with ⟨library, config⟩
  rcases machine with ⟨stack, store, world⟩
  change Machine.taking line (perform ⟨library, config⟩ node) ⟨stack, store, world⟩ = _ at ran
  cases performed : perform ⟨library, config⟩ node ⟨stack, store, world⟩ with
  | error fault between =>
      have passedOn : Machine.taking line (perform ⟨library, config⟩ node) ⟨stack, store, world⟩ =
          .error fault between := by
        simp only [Machine.taking, performed]
      cases passedOn.symm.trans ran
      exact Or.inl (bind_of_error performed)
  | ok signal between =>
      have evaluated : evaluate ⟨library, config⟩ node ⟨stack, store, world⟩ = .ok () between :=
        bind_of_ok performed
      rcases (perform_leaves library config node).of_ok performed with
        ⟨outcome, directRan, _, leftStack⟩
      rcases between with ⟨stackBetween, storeBetween, worldBetween⟩
      cases present : outcome.value? with
      | some value =>
          rw [present] at leftStack
          cases leftStack
          cases (taking_of_value line performed).symm.trans ran
      | none =>
          rw [present] at leftStack
          cases leftStack
          cases (taking_of_nothing line performed).symm.trans ran
          exact Or.inr ⟨rfl, evaluated, silent_of_valueless directRan present⟩

/-! ## The discipline -/

/-- Executing, running a block and evaluating for a value leave the stack as it was;
evaluating leaves it as it was or with one value on top, by the form of the node.  A fault
never reaches below the starting height.  Answers, variables and the world do not depend on
the stack.  A value is missing only where a statement stands or a host kept silent. -/
theorem stack_discipline (environment : Environment) :
    (∀ node machine signal after, execute environment node machine = .ok signal after →
      after.stack = machine.stack) ∧
    (∀ block machine signal after, performBlock environment block machine = .ok signal after →
      after.stack = machine.stack) ∧
    (∀ node line machine value after,
      evaluateValue environment node line machine = .ok value after →
      after.stack = machine.stack) ∧
    (∀ node machine after, evaluate environment node machine = .ok () after →
      (after.stack = machine.stack ∨ ∃ value, after.stack = machine.stack.push value) ∧
      (Direct.yieldsValue node = true → ∃ value, after.stack = machine.stack.push value) ∧
      (node.isExpression = false → after.stack = machine.stack)) ∧
    (∀ request machine fault after, answer environment request machine = .error fault after →
      machine.stack.values <:+ after.stack.values) ∧
    (∀ request store world first second,
      withoutStack (answer environment request ⟨first, store, world⟩) =
        withoutStack (answer environment request ⟨second, store, world⟩)) ∧
    (∀ node line machine fault after,
      evaluateValue environment node line machine = .error fault after →
      evaluate environment node machine = .error fault after ∨
        (fault = .missingValue line ∧ evaluate environment node machine = .ok () after ∧
          (node.isExpression = false ∨ Silent environment machine node))) := by
  rcases environment with ⟨library, config⟩
  refine ⟨?_, ?_, ?_, ?_, ?_, ?_, ?_⟩
  · intro node machine signal after ran
    rcases (execute_keeps library config node).of_ok ran with ⟨_, _, _, same⟩
    exact same
  · intro block machine signal after ran
    rcases (performBlock_keeps library config block).of_ok ran with ⟨_, _, _, same⟩
    exact same
  · intro node line machine value after ran
    rcases (evaluateValue_keeps library config node line).of_ok ran with ⟨_, _, _, same⟩
    exact same
  · intro node machine after ran
    rcases (evaluate_leaves library config node).of_ok ran with ⟨outcome, directRan, _, left⟩
    have fits := ((Direct.perform_fits (.ofStore config) library node).of_ok trivial directRan).1
    rw [left]
    cases present : outcome.value? with
    | none =>
        refine ⟨Or.inl rfl, ?_, fun _ => rfl⟩
        intro yields
        have some := fits.valued yields
        rw [present] at some
        cases some
    | some value =>
        refine ⟨Or.inr ⟨value, rfl⟩, fun _ => ⟨value, rfl⟩, ?_⟩
        intro statement
        cases present.symm.trans (fits.valueless statement)
  · intro request machine fault after ran
    exact answer_below library config ran
  · intro request store world first second
    rw [answer_withoutStack, answer_withoutStack]
  · intro node line machine fault after ran
    exact evaluateValue_fault ran

/-- A literal leaves one value, and a flag leaves its value missing. -/
theorem stack_discipline_forms :
    (∃ value, (stateAfter (evaluate ⟨{}, {}⟩ (.literal (.truth true) 1) (start {}))).stack =
        (start {}).stack.push value) ∧
      (evaluate ⟨{}, {}⟩ (.flag .halt 1) (start {}) = .error (.missingValue 2) (start {}) ∨
        (RuntimeFault.missingValue 2 = .missingValue 2 ∧
          evaluate ⟨{}, {}⟩ (.flag .halt 1) (start {}) = .ok () (start {}) ∧
          ((Node.flag .halt 1).isExpression = false ∨
            Silent ⟨{}, {}⟩ (start {}) (.flag .halt 1)))) := by
  rcases stack_discipline ⟨{}, {}⟩ with ⟨_, _, _, evaluated, _, _, missing⟩
  constructor
  · exact (evaluated (.literal (.truth true) 1) (start {}) _ rfl).2.1 rfl
  · exact missing (.flag .halt 1) 2 (start {}) (.missingValue 2) (start {}) rfl

end Machine
end Scriptlet
