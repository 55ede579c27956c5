import Scriptlet.Proofs.GroundedActions
import Scriptlet.Proofs.Isolation

namespace Scriptlet

/-!
# Runs that close no cycle

Lists are shared: assignments, loops, operators and methods hand them on and put them into one
another.  Only `add` and `insert` change what a list holds to something new.  As long as these
are given nothing from which their own receiver can be got at, no list ever becomes a part of
itself, and whatever can be got at from the stack and the variables can be followed to its
end.
-/

/-! ## Variables -/

namespace Store

/-- What holds of the values of all variables. -/
def EveryValue (property : Value → Prop) (store : Store) : Prop :=
  ∀ entry ∈ store.slots, property entry.2.value

section EveryValue

variable {property : Value → Prop} {store : Store} (every : store.EveryValue property)
include every

theorem EveryValue.slot? {name : String} {slot : Slot} (found : store.slot? name = some slot) :
    property slot.value := by
  rcases List.lookup_eq_some_iff.mp found with ⟨front, back, same, _⟩
  have member : (name, slot) ∈ store.slots := by
    rw [same]
    exact List.mem_append_right _ List.mem_cons_self
  exact every _ member

theorem EveryValue.withoutSlot (name : String) : (store.withoutSlot name).EveryValue property :=
  fun entry member => every entry (List.mem_of_mem_filter member)

theorem EveryValue.withSlot (name : String) {slot : Slot} (holds : property slot.value) :
    (store.withSlot name slot).EveryValue property :=
  List.forall_mem_cons.mpr ⟨holds, fun entry member => every entry (List.mem_of_mem_filter member)⟩

theorem EveryValue.lower (name : String) {slot : Slot} (holds : property slot.value) :
    (store.lower name slot).EveryValue property := by
  unfold Store.lower
  split
  · exact every.withoutSlot name
  · exact every.withSlot name holds

theorem EveryValue.allocate (name : String) {value : Value} (holds : property value) :
    (store.allocate name value).EveryValue property := by
  unfold Store.allocate
  have recorded : (store.inInnermost fun names => name :: names).EveryValue property := every
  generalize store.inInnermost (fun names => name :: names) = after at recorded
  cases found : after.slot? name with
  | none =>
      simp only [found]
      exact recorded.withSlot name holds
  | some slot =>
      simp only [found]
      exact (recorded.lower name (recorded.slot? found)).withSlot name holds

theorem EveryValue.dropReference (name : String) :
    (store.dropReference name).EveryValue property := by
  unfold Store.dropReference
  cases found : store.slot? name with
  | none => exact every
  | some slot =>
      have holds : property slot.value := every.slot? found
      exact EveryValue.withSlot every name
        (show property { slot with references := slot.references - 1 }.value from holds)

theorem EveryValue.exit : store.exit.EveryValue property := by
  unfold Store.exit
  cases store.frames.back? with
  | none => exact every
  | some names =>
      have start : ({ store with frames := store.frames.pop } : Store).EveryValue property := every
      change (names.foldl Store.dropReference _).EveryValue property
      generalize ({ store with frames := store.frames.pop } : Store) = after at start
      induction names generalizing after with
      | nil => exact start
      | cons name rest inductionHypothesis =>
          exact inductionHypothesis _ (start.dropReference name)

end EveryValue
end Store

namespace Machine

/-! ## Steps of a run -/

/-- All values on the stack and all values of variables are grounded. -/
structure Grounded (machine : Machine) : Prop where
  stack : ∀ value ∈ machine.stack.values, machine.world.heap.Grounded value
  store : machine.store.EveryValue machine.world.heap.Grounded

theorem grounded_iff {machine : Machine} :
    machine.Grounded ↔ ∀ value ∈ machine.values, machine.world.heap.Grounded value := by
  constructor
  · intro grounded value member
    rcases List.mem_append.mp member with onStack | inStore
    · exact grounded.stack value onStack
    · rcases List.mem_map.mp inStore with ⟨entry, listed, rfl⟩
      exact grounded.store entry listed
  · intro all
    exact ⟨fun value member => all value (List.mem_append_left _ member),
      fun entry member => all _ (List.mem_append_right _ (List.mem_map_of_mem member))⟩

/-- What was grounded stays so, and the machine is grounded again. -/
structure Advances (machine after : Machine) : Prop where
  heap : machine.world.heap.Sustains after.world.heap
  grounded : after.Grounded

theorem Advances.trans {machine between after : Machine} (first : machine.Advances between)
    (second : between.Advances after) : machine.Advances after :=
  ⟨first.heap.trans second.heap, second.grounded⟩

/-- Started from a grounded machine, the run ends with one, whether it fails or not, and its
result is as it should be. -/
def Settles {α : Type} (results : Heap → α → Prop) (machine : Machine) (run : Run α) : Prop :=
  machine.Grounded →
    match run machine with
    | .ok result after => machine.Advances after ∧ results after.world.heap result
    | .error _ after => machine.Advances after

section Steps

variable {α β : Type} {results : Heap → α → Prop} {middle : Heap → β → Prop} {machine : Machine}

theorem settles_pure {result : α} (holds : results machine.world.heap result) :
    Settles results machine (pure result) :=
  fun grounded => ⟨⟨Heap.Sustains.refl _, grounded⟩, holds⟩

theorem settles_throw (fault : RuntimeFault) : Settles results machine (throw fault) :=
  fun grounded => ⟨Heap.Sustains.refl _, grounded⟩

theorem Settles.bind {first : Run β} {next : β → Run α} (starts : Settles middle machine first)
    (goesOn : ∀ result between, first machine = .ok result between →
      machine.world.heap.Sustains between.world.heap → middle between.world.heap result →
      Settles results between (next result)) :
    Settles results machine (first >>= next) := by
  intro grounded
  have started := starts grounded
  cases ran : first machine with
  | ok result between =>
      rw [ran] at started
      have ends := goesOn result between ran started.1.heap started.2 started.1.grounded
      rw [bind_of_ok ran]
      cases ended : next result between with
      | ok final after =>
          rw [ended] at ends
          exact ⟨started.1.trans ends.1, ends.2⟩
      | error fault after =>
          rw [ended] at ends
          exact started.1.trans ends
  | error fault between =>
      rw [ran] at started
      rw [bind_of_error ran]
      exact started

/-- What is known of a run that returned. -/
theorem Settles.of_ok {run : Run α} (settles : Settles results machine run)
    (grounded : machine.Grounded) {result : α} {after : Machine}
    (ran : run machine = .ok result after) :
    machine.Advances after ∧ results after.world.heap result := by
  have ends := settles grounded
  rwa [ran] at ends

theorem Settles.advances {run : Run α} (settles : Settles results machine run)
    (grounded : machine.Grounded) : machine.Advances (stateAfter (run machine)) := by
  have ends := settles grounded
  cases ran : run machine with
  | ok result after =>
      rw [ran] at ends
      exact ends.1
  | error fault after =>
      rw [ran] at ends
      exact ends

/-- An action on the heap leaves the stack and the variables as they are. -/
theorem settles_onHeap {action : Heap.Action α}
    (settles : Heap.Settles results machine.world.heap action) :
    Settles results machine (onHeap action) := by
  intro grounded
  rcases machine with ⟨stack, store, heap, sink⟩
  have moved : ∀ after : Heap, heap.Sustains after →
      Advances ⟨stack, store, heap, sink⟩ ⟨stack, store, after, sink⟩ := by
    intro after sustains
    exact ⟨sustains, fun value member => sustains value (grounded.stack value member),
      fun entry member => sustains _ (grounded.store entry member)⟩
  unfold Heap.Settles at settles
  simp only [onHeap, onWorld, World.onHeap]
  cases ran : action heap with
  | ok result after =>
      simp only [ran] at settles ⊢
      exact ⟨moved after settles.1, settles.2⟩
  | error fault after =>
      simp only [ran] at settles ⊢
      exact moved after settles

theorem settles_push {value : Value} (grounded : machine.world.heap.Grounded value) :
    Settles Heap.Anything machine (push value) := by
  intro started
  have stack := List.forall_mem_cons.mpr ⟨grounded, started.stack⟩
  exact ⟨⟨Heap.Sustains.refl _, stack, started.store⟩, trivial⟩

theorem settles_pushResult {produced : Option Value}
    (grounded : Heap.GroundedIfAny machine.world.heap produced) :
    Settles Heap.Anything machine (pushResult produced) := by
  cases produced with
  | none => exact settles_pure trivial
  | some value => exact settles_push (grounded value rfl)

theorem settles_lookup (name : String) (line : Nat) :
    Settles Heap.Grounded machine (lookup name line) := by
  intro started
  have stays : machine.Advances machine := ⟨Heap.Sustains.refl _, started⟩
  unfold lookup
  cases found : machine.store.slot? name with
  | none => exact stays
  | some slot => exact ⟨stays, started.store.slot? found⟩

theorem settles_assign {value : Value} (name : String)
    (grounded : machine.world.heap.Grounded value) :
    Settles Heap.Anything machine (assign name value) :=
  fun started =>
    ⟨⟨Heap.Sustains.refl _, started.stack, started.store.allocate name grounded⟩, trivial⟩

theorem settles_enter : Settles Heap.Anything machine enter := by
  intro started
  by_cases full : machine.store.isFull = true
  · simp only [enter, if_pos full]
    exact ⟨Heap.Sustains.refl _, started⟩
  · simp only [enter, if_neg full]
    exact ⟨⟨Heap.Sustains.refl _, started.stack, started.store⟩, trivial⟩

theorem settles_exit : Settles Heap.Anything machine exit :=
  fun started => ⟨⟨Heap.Sustains.refl _, started.stack, started.store.exit⟩, trivial⟩

theorem settles_leave (environment : Environment) (framed : Bool) (ending : Ending) :
    Settles Heap.Anything machine (leave environment framed ending) := by
  unfold leave
  split
  · exact settles_exit.bind fun _ _ _ _ _ => settles_pure trivial
  · exact settles_pure trivial

variable {expression : Run Signal}

theorem Settles.taking (settles : Settles Heap.Anything machine expression) (line : Nat) :
    Settles Heap.Grounded machine (taking line expression) := by
  intro started
  have ends := settles started
  unfold Machine.taking
  cases ran : expression machine with
  | error fault after =>
      rw [ran] at ends
      exact ends
  | ok signal after =>
      rw [ran] at ends
      rcases after with ⟨⟨values, height, height_eq⟩, store, world⟩
      by_cases unchanged : height = machine.stack.height
      · simp only [if_pos unchanged]
        exact ends.1
      · simp only [if_neg unchanged]
        have grounded := ends.1.grounded
        cases values with
        | nil => exact ends.1
        | cons value rest =>
            have parts := List.forall_mem_cons.mp grounded.stack
            exact ⟨⟨ends.1.heap, parts.2, grounded.store⟩, parts.1⟩

theorem Settles.discarding (settles : Settles Heap.Anything machine expression) :
    Settles Heap.Anything machine (discarding expression) := by
  intro started
  have ends := settles started
  unfold Machine.discarding
  cases ran : expression machine with
  | error fault after =>
      rw [ran] at ends
      exact ends
  | ok signal after =>
      rw [ran] at ends
      have grounded := ends.1.grounded
      exact ⟨⟨ends.1.heap, fun value member => grounded.stack value (List.mem_of_mem_drop member),
        grounded.store⟩, trivial⟩

theorem Settles.asStatement (settles : Settles Heap.Anything machine expression) (node : Node) :
    Settles Heap.Anything machine (asStatement node expression) := by
  unfold Machine.asStatement
  split
  · exact settles.discarding
  · exact settles

theorem Settles.gathering {elements : Run Unit}
    (settles : Settles Heap.Anything machine elements) :
    Settles Heap.Anything machine (gathering elements) := by
  intro started
  have ends := settles started
  unfold Machine.gathering
  cases ran : elements machine with
  | error fault after =>
      rw [ran] at ends
      exact ends
  | ok _ after =>
      rw [ran] at ends
      rcases after with ⟨stack, store, heap, sink⟩
      have grounded := ends.1.grounded
      have above : ∀ value ∈ stack.above machine.stack.height, heap.Grounded value :=
        fun value member =>
          grounded.stack value (List.mem_of_mem_take (List.mem_reverse.mp member))
      have allocated := Heap.grounded_allocate above
      have below : ∀ value ∈ (stack.cut machine.stack.height).values,
          (Heap.allocate (stack.above machine.stack.height) heap).2.Grounded value :=
        fun value member =>
          allocated.1 value (grounded.stack value (List.mem_of_mem_drop member))
      exact ⟨⟨ends.1.heap.trans allocated.1, List.forall_mem_cons.mpr ⟨allocated.2, below⟩,
        fun entry member => allocated.1 _ (grounded.store entry member)⟩, trivial⟩

end Steps

/-! ## Operations -/

/-- While the part is run, the node works on the values: it copies a literal, or it computes, or
hands over to a callable, what its own parts have come to. -/
inductive Handles (environment : Environment) :
    Piece → Machine → Node → List Value → Machine → Prop
  | literal {machine : Machine} (value : Value) (line : Nat) :
      Handles environment (.tree (.literal value line)) machine (.literal value line) [value]
        machine
  | binary {machine between now : Machine} {left right : Node} {line : Nat} {x y : Value}
      (operator : BinaryOperator)
      (first : taking line (perform environment left) machine = .ok x between)
      (second : taking line (perform environment right) between = .ok y now) :
      Handles environment (.tree (.binary operator left right line)) machine
        (.binary operator left right line) [x, y] now
  | unary {machine now : Machine} {operand : Node} {line : Nat} {x : Value}
      (operator : UnaryOperator)
      (taken : taking line (perform environment operand) machine = .ok x now) :
      Handles environment (.tree (.unary operator operand line)) machine
        (.unary operator operand line) [x] now
  | call {machine now : Machine} {function : String} {body : HostFunction} {nodes : List Node}
      {line : Nat} {values : List Value}
      (found : environment.library.function? function = some body)
      (computed : valuesOf environment line nodes machine = .ok values now) :
      Handles environment (.tree (.call function nodes line)) machine (.call function nodes line)
        values now
  | methodCall {machine between now : Machine} {receiver method : String} {body : HostMethod}
      {nodes : List Node} {line : Nat} {target : Value} {values : List Value}
      (found : environment.library.method? method = some body)
      (bound : lookup receiver line machine = .ok target between)
      (computed : valuesOf environment line nodes between = .ok values now) :
      Handles environment (.tree (.methodCall receiver method nodes line)) machine
        (.methodCall receiver method nodes line) (target :: values) now
  | inside {piece part : Piece} {machine between now : Machine} {node : Node}
      {values : List Value} (leads : Leads environment piece machine part between)
      (handles : Handles environment part between node values now) :
      Handles environment piece machine node values now

/-- No call of `add` or `insert` is given a value from which its receiver can be got at. -/
def Harmless (environment : Environment) (piece : Piece) (machine : Machine) : Prop :=
  ∀ receiver method nodes line address values now,
    Handles environment piece machine (.methodCall receiver method nodes line)
      (.list address :: values) now →
    method = "add" ∨ method = "insert" →
    ∀ value ∈ values, ¬ now.world.heap.Reaches value (.list address)

section Operations

variable {environment : Environment} {piece part : Piece} {machine next : Machine}

theorem Harmless.leads (harmless : Harmless environment piece machine)
    (leads : Leads environment piece machine part next) : Harmless environment part next :=
  fun receiver method nodes line address values now handles =>
    harmless receiver method nodes line address values now (.inside leads handles)

theorem settles_copy (value : Value) :
    Settles Heap.Grounded machine (onHeap (Heap.Action.sure (Heap.copy value))) :=
  settles_onHeap (Heap.settles_sure (Heap.grounded_copyWithin _ _ value machine.world.heap))

theorem settles_asTruth (value : Value) (line : Nat) :
    Settles Heap.Anything machine (onHeap (Heap.Action.read (Heap.asTruth value line))) :=
  settles_onHeap (Heap.settles_read fun _ _ => trivial)

theorem settles_asList (value : Value) (line : Nat) :
    Settles (fun _ address => value = .list address) machine
      (onHeap (Heap.Action.read (Heap.asList value line))) :=
  settles_onHeap (Heap.settles_read fun _ found => Heap.eq_list_of_asList found)

/-- Printing changes no list. -/
theorem settles_print (values : List Value) (line : Nat) :
    Settles Heap.GroundedIfAny machine (onWorld (Standard.print values line)) := by
  intro started
  rcases machine with ⟨stack, store, heap, sink⟩
  have moved : ∀ after : Sink,
      Advances ⟨stack, store, heap, sink⟩ ⟨stack, store, heap, after⟩ :=
    fun after => ⟨Heap.Sustains.refl heap, started.stack, started.store⟩
  simp only [onWorld, Standard.print]
  cases sink.accept (Standard.printed heap values) with
  | ok after => exact ⟨moved after, fun value produced => by cases produced⟩
  | error reason => exact moved sink

theorem settles_function {function : String} {body : HostFunction}
    (found : Standard.library.function? function = some body) (values : List Value) (line : Nat) :
    Settles Heap.GroundedIfAny machine (onWorld (body values line)) := by
  rw [Likeness.standard_function found]
  exact settles_print values line

theorem settles_method {method : String} {body : HostMethod}
    (found : Standard.library.method? method = some body) {target : Value} {values : List Value}
    (receiving : machine.world.heap.Grounded target)
    (given : ∀ value ∈ values, machine.world.heap.Grounded value)
    (apart : method = "add" ∨ method = "insert" → ∀ value ∈ values, ∀ address,
      target = .list address → ¬ machine.world.heap.Reaches value (.list address)) (line : Nat) :
    Settles Heap.GroundedIfAny machine (onWorld (body target values line)) := by
  rcases Likeness.standard_named found with ⟨listMethod, listed, rfl, rfl⟩
  exact settles_onHeap (Heap.settles_checked receiving listed given apart line)

end Operations

/-! ## Runs -/

section Trees

variable {config : Config}

/-- What is computed is pushed, and the run goes on. -/
theorem Settles.pushed {machine : Machine} {compute : Run Value}
    (settles : Settles Heap.Grounded machine compute) :
    Settles Heap.Anything machine (do
      push (← compute)
      pure Signal.proceed) :=
  settles.bind fun _ _ _ _ grounded =>
    (settles_push grounded).bind fun _ _ _ _ _ => settles_pure trivial

theorem Settles.pushedIfAny {machine : Machine} {compute : Run (Option Value)}
    (settles : Settles Heap.GroundedIfAny machine compute) :
    Settles Heap.Anything machine (do
      pushResult (← compute)
      pure Signal.proceed) :=
  settles.bind fun _ _ _ _ grounded =>
    (settles_pushResult grounded).bind fun _ _ _ _ _ => settles_pure trivial

theorem settles_iterate {iterator : String} {body : Block}
    (bodies : ∀ bound, Harmless ⟨Standard.library, config⟩ (.statements body.statements) bound →
      Settles Heap.Anything bound (performBody ⟨Standard.library, config⟩ body))
    {items : List Value} {machine : Machine}
    (harmless : Harmless ⟨Standard.library, config⟩ (.rounds iterator body items) machine)
    (grounded : ∀ item ∈ items, machine.world.heap.Grounded item) :
    Settles Heap.Anything machine
      (iterate (assign iterator) (performBody ⟨Standard.library, config⟩ body) items) := by
  induction items generalizing machine with
  | nil => exact settles_pure trivial
  | cons item rest inductionHypothesis =>
      have parts := List.forall_mem_cons.mp grounded
      apply (settles_assign iterator parts.1).bind
      intro _ bound assigned sustains _
      apply (bodies bound (harmless.leads (.round body rest assigned))).bind
      intro signal after proceeded more _
      cases signal with
      | proceed =>
          exact inductionHypothesis (harmless.leads (.laterRounds rest assigned proceeded))
            fun other member => more other (sustains other (parts.2 other member))
      | «break» => exact settles_pure trivial
      | halt => exact settles_pure trivial

mutual

theorem settles_perform : ∀ (node : Node) (machine : Machine),
    Harmless ⟨Standard.library, config⟩ (.tree node) machine →
    Settles Heap.Anything machine (perform ⟨Standard.library, config⟩ node)
  | .literal value line, machine, _ => by
      rw [perform]
      exact (settles_copy value).pushed
  | .array elements line, machine, harmless => by
      rw [perform]
      have pushes := settles_pushEach line elements machine
        (harmless.leads (.elements elements line))
      exact pushes.gathering.bind fun _ _ _ _ _ => settles_pure trivial
  | .variable name line, machine, _ => by
      rw [perform]
      exact (settles_lookup name line).pushed
  | .binary operator left right line, machine, harmless => by
      rw [perform]
      have lefts := settles_perform left machine (harmless.leads (.left operator left right line))
      apply (lefts.taking line).bind
      intro x between taken _ leftGrounded
      have rights := settles_perform right between (harmless.leads (.right operator right taken))
      apply (rights.taking line).bind
      intro y after _ sustains rightGrounded
      exact (settles_onHeap
        (Heap.settles_binary (sustains x leftGrounded) rightGrounded operator line)).pushed
  | .unary operator operand line, machine, harmless => by
      rw [perform]
      have operands := settles_perform operand machine
        (harmless.leads (.operand operator operand line))
      apply (operands.taking line).bind
      intro x between _ _ _
      exact (settles_onHeap (Heap.settles_unary operator x line)).pushed
  | .call function arguments line, machine, harmless => by
      rw [perform]
      cases found : Standard.library.function? function with
      | none => exact settles_throw _
      | some body =>
          have computes := settles_valuesOf line arguments machine
            (harmless.leads (.callArguments arguments line found))
          apply computes.bind
          intro values after _ _ _
          exact (settles_function found values line).pushedIfAny
  | .methodCall receiver method arguments line, machine, harmless => by
      rw [perform]
      cases found : Standard.library.method? method with
      | none => exact settles_throw _
      | some body =>
          apply (settles_lookup receiver line).bind
          intro target between bound _ receiving
          have computes := settles_valuesOf line arguments between
            (harmless.leads (.methodArguments arguments found bound))
          apply computes.bind
          intro values after computed sustains given
          refine (settles_method found (sustains target receiving) given ?_ line).pushedIfAny
          rintro linking value member address rfl
          exact harmless receiver method arguments line address values after
            (.methodCall found bound computed) linking value member
  | .range first last line, machine, harmless => by
      rw [perform]
      have firsts := settles_perform first machine (harmless.leads (.first first last line))
      apply (firsts.taking line).bind
      intro x between taken _ _
      have lasts := settles_perform last between (harmless.leads (.last last taken))
      apply (lasts.taking line).bind
      intro y after _ _ _
      exact (settles_onHeap (Heap.settles_range x y line)).pushed
  | .assignment name value line, machine, harmless => by
      rw [perform]
      have values := settles_perform value machine (harmless.leads (.assigned name value line))
      apply (values.taking line).bind
      intro x between _ _ grounded
      exact (settles_assign name grounded).bind fun _ _ _ _ _ => settles_pure trivial
  | .conditional condition thenBranch elseBranch line, machine, harmless => by
      rw [perform]
      have conditions := settles_perform condition machine
        (harmless.leads (.condition condition thenBranch elseBranch line))
      apply (conditions.taking line).bind
      intro x between taken _ _
      apply (settles_asTruth x line).bind
      intro holds after tested _ _
      cases holds with
      | true =>
          exact settles_performBlock thenBranch after
            (harmless.leads (.thenBranch thenBranch elseBranch taken tested))
      | false =>
          apply settles_performBranch elseBranch after
          rintro block rfl
          exact harmless.leads (.elseBranch thenBranch block taken tested)
  | .compound block, machine, harmless => by
      rw [perform]
      exact settles_performBlock block machine (harmless.leads (.compound block))
  | .loop iterator iterable body line, machine, harmless => by
      rw [perform]
      have iterables := settles_perform iterable machine
        (harmless.leads (.iterable iterator iterable body line))
      apply (iterables.taking line).bind
      intro x between taken _ grounded
      apply (settles_asList x line).bind
      rintro address after listed sustains rfl
      exact settles_iterate (fun bound => settles_performBody body bound)
        (harmless.leads (.rounds iterator body taken listed))
        (Heap.grounded_storage (sustains _ grounded))
  | .flag flag line, machine, _ => by
      rw [perform]
      exact settles_pure trivial

theorem settles_pushEach (line : Nat) : ∀ (nodes : List Node) (machine : Machine),
    Harmless ⟨Standard.library, config⟩ (.elements line nodes) machine →
    Settles Heap.Anything machine (pushEach ⟨Standard.library, config⟩ line nodes)
  | [], machine, _ => by
      rw [pushEach]
      exact settles_pure trivial
  | node :: rest, machine, harmless => by
      rw [pushEach]
      have first := settles_perform node machine (harmless.leads (.element line node rest))
      apply (first.taking line).bind
      intro value between taken _ grounded
      apply (settles_push grounded).bind
      intro _ after pushed _ _
      exact settles_pushEach line rest after (harmless.leads (.laterElements rest taken pushed))

theorem settles_valuesOf (line : Nat) : ∀ (nodes : List Node) (machine : Machine),
    Harmless ⟨Standard.library, config⟩ (.arguments line nodes) machine →
    Settles (fun heap values => ∀ value ∈ values, heap.Grounded value) machine
      (valuesOf ⟨Standard.library, config⟩ line nodes)
  | [], machine, _ => by
      rw [valuesOf]
      exact settles_pure (List.forall_mem_nil _)
  | node :: rest, machine, harmless => by
      rw [valuesOf]
      have first := settles_perform node machine (harmless.leads (.argument line node rest))
      apply (first.taking line).bind
      intro value between taken _ grounded
      have others := settles_valuesOf line rest between
        (harmless.leads (.laterArguments rest taken))
      apply others.bind
      intro values after _ sustains given
      exact settles_pure (List.forall_mem_cons.mpr ⟨sustains value grounded, given⟩)

theorem settles_performEach : ∀ (nodes : List Node) (machine : Machine),
    Harmless ⟨Standard.library, config⟩ (.statements nodes) machine →
    Settles Heap.Anything machine (performEach ⟨Standard.library, config⟩ nodes)
  | [], machine, _ => by
      rw [performEach]
      exact settles_pure trivial
  | node :: rest, machine, harmless => by
      rw [performEach]
      have first := settles_perform node machine (harmless.leads (.statement node rest))
      apply (first.asStatement node).bind
      intro signal between proceeded _ _
      cases signal with
      | proceed =>
          exact settles_performEach rest between
            (harmless.leads (.laterStatements rest proceeded))
      | «break» => exact settles_pure trivial
      | halt => exact settles_pure trivial

theorem settles_performBlock : ∀ (block : Block) (machine : Machine),
    Harmless ⟨Standard.library, config⟩ (.block block) machine →
    Settles Heap.Anything machine (performBlock ⟨Standard.library, config⟩ block)
  | .mk framed statements line, machine, harmless => by
      rw [performBlock]
      cases framed with
      | true =>
          apply settles_enter.bind
          intro _ entered opened _ _
          have each := settles_performEach statements entered
            (harmless.leads (.framed statements line opened))
          exact each.bind fun ending _ _ _ _ => settles_leave _ true ending
      | false =>
          have each := settles_performEach statements machine
            (harmless.leads (.unframed statements line))
          exact each.bind fun ending _ _ _ _ => settles_leave _ false ending

theorem settles_performBranch : ∀ (branch : Option Block) (machine : Machine),
    (∀ block, branch = some block →
      Harmless ⟨Standard.library, config⟩ (.block block) machine) →
    Settles Heap.Anything machine (performBranch ⟨Standard.library, config⟩ branch)
  | none, machine, _ => by
      rw [performBranch]
      exact settles_pure trivial
  | some block, machine, harmless => by
      rw [performBranch]
      exact settles_performBlock block machine (harmless block rfl)

theorem settles_performBody : ∀ (block : Block) (machine : Machine),
    Harmless ⟨Standard.library, config⟩ (.statements block.statements) machine →
    Settles Heap.Anything machine (performBody ⟨Standard.library, config⟩ block)
  | .mk framed statements line, machine, harmless => by
      rw [performBody]
      have each := settles_performEach statements machine harmless
      exact each.bind fun _ _ _ _ _ => settles_pure trivial

end

/-! ## Every moment of a run -/

/-- What a run relies on wherever it is: whatever it holds is grounded, and so are the literals
that are still ahead. -/
structure Tame (config : Config) (base : Heap) (piece : Piece) (machine : Machine) : Prop where
  sustains : base.Sustains machine.world.heap
  grounded : machine.Grounded
  items : ∀ item ∈ piece.items, machine.world.heap.Grounded item
  literals : piece.All (Node.LiteralOf base.Grounded)
  harmless : Harmless ⟨Standard.library, config⟩ piece machine

section Tame

variable {base : Heap} {piece part : Piece} {machine next : Machine}
  (tame : Tame config base piece machine)
include tame

theorem Tame.taken {node : Node} {line : Nat} {value : Value}
    (leads : Leads ⟨Standard.library, config⟩ piece machine (.tree node) machine)
    (taken : taking line (perform ⟨Standard.library, config⟩ node) machine = .ok value next) :
    machine.Advances next ∧ next.world.heap.Grounded value :=
  ((settles_perform node machine (tame.harmless.leads leads)).taking line).of_ok tame.grounded taken

theorem Tame.leads (leads : Leads ⟨Standard.library, config⟩ piece machine part next) :
    Tame config base part next := by
  have harmless := tame.harmless.leads leads
  have literals := leads.all tame.literals
  have goesOn : machine.Advances next → (∀ item ∈ part.items, next.world.heap.Grounded item) →
      Tame config base part next := fun advances items =>
    ⟨tame.sustains.trans advances.heap, advances.grounded, items, literals, harmless⟩
  cases leads with
  | elements | element | left | operand | callArguments | argument | first | assigned | condition
  | compound | unframed | statement | iterable =>
      exact ⟨tame.sustains, tame.grounded, List.forall_mem_nil _, literals, harmless⟩
  | right operator right taken =>
      exact goesOn (tame.taken (.left operator _ right _) taken).1 (List.forall_mem_nil _)
  | last last taken =>
      exact goesOn (tame.taken (.first _ last _) taken).1 (List.forall_mem_nil _)
  | laterArguments rest taken =>
      exact goesOn (tame.taken (.argument _ _ rest) taken).1 (List.forall_mem_nil _)
  | laterElements rest taken pushed =>
      have reached := tame.taken (.element _ _ rest) taken
      have grown := (settles_push reached.2).of_ok reached.1.grounded pushed
      exact goesOn (reached.1.trans grown.1) (List.forall_mem_nil _)
  | methodArguments _ _ bound =>
      exact goesOn ((settles_lookup _ _).of_ok tame.grounded bound).1 (List.forall_mem_nil _)
  | thenBranch thenBranch elseBranch taken tested =>
      have reached := tame.taken (.condition _ thenBranch elseBranch _) taken
      have looked := (settles_asTruth _ _).of_ok reached.1.grounded tested
      exact goesOn (reached.1.trans looked.1) (List.forall_mem_nil _)
  | elseBranch thenBranch elseBranch taken tested =>
      have reached := tame.taken (.condition _ thenBranch (some elseBranch) _) taken
      have looked := (settles_asTruth _ _).of_ok reached.1.grounded tested
      exact goesOn (reached.1.trans looked.1) (List.forall_mem_nil _)
  | framed _ _ opened =>
      exact goesOn (settles_enter.of_ok tame.grounded opened).1 (List.forall_mem_nil _)
  | laterStatements rest proceeded =>
      have first := settles_perform _ machine (tame.harmless.leads (.statement _ rest))
      exact goesOn ((first.asStatement _).of_ok tame.grounded proceeded).1 (List.forall_mem_nil _)
  | rounds iterator body taken listed =>
      have reached := tame.taken (.iterable iterator _ body _) taken
      rcases (settles_asList _ _).of_ok reached.1.grounded listed with ⟨looked, rfl⟩
      exact goesOn (reached.1.trans looked) (Heap.grounded_storage (looked.heap _ reached.2))
  | round body rest assigned =>
      have head := List.forall_mem_cons.mp tame.items
      exact goesOn ((settles_assign _ head.1).of_ok tame.grounded assigned).1
        (List.forall_mem_nil _)
  | laterRounds rest assigned proceeded =>
      have head := List.forall_mem_cons.mp tame.items
      have bound := (settles_assign _ head.1).of_ok tame.grounded assigned
      have body := settles_performBody _ _ (tame.harmless.leads (.round _ rest assigned))
      have ended := bound.1.trans (body.of_ok bound.1.grounded proceeded).1
      exact goesOn ended fun item member => ended.heap item (head.2 item member)

theorem Tame.final : machine.Advances (piece.final ⟨Standard.library, config⟩ machine) := by
  have harmless := tame.harmless
  cases piece with
  | tree root => exact (settles_perform root machine harmless).advances tame.grounded
  | elements line rest => exact (settles_pushEach line rest machine harmless).advances tame.grounded
  | arguments line rest =>
      exact (settles_valuesOf line rest machine harmless).advances tame.grounded
  | statements rest => exact (settles_performEach rest machine harmless).advances tame.grounded
  | block whole => exact (settles_performBlock whole machine harmless).advances tame.grounded
  | rounds iterator body rest =>
      exact (settles_iterate (fun bound => settles_performBody body bound) harmless
        tame.items).advances tame.grounded

end Tame

section Moments

variable {base : Heap} {piece : Piece} {machine passed now : Machine}

/-- Every machine that is passed is grounded. -/
theorem Tame.passes (tame : Tame config base piece machine)
    (passes : Passes ⟨Standard.library, config⟩ piece machine passed) :
    base.Sustains passed.world.heap ∧ passed.Grounded := by
  induction passes with
  | start piece machine => exact ⟨tame.sustains, tame.grounded⟩
  | final piece machine =>
      have ended := tame.final
      exact ⟨tame.sustains.trans ended.heap, ended.grounded⟩
  | inside leads _ inductionHypothesis => exact inductionHypothesis (tame.leads leads)

/-- Every node works on grounded values. -/
theorem Tame.handles (tame : Tame config base piece machine) {node : Node} {values : List Value}
    (handles : Handles ⟨Standard.library, config⟩ piece machine node values now) :
    ∀ value ∈ values, now.world.heap.Grounded value := by
  induction handles with
  | literal value line =>
      have literal : base.Grounded value := Node.All.here tame.literals
      exact List.forall_mem_singleton.mpr (tame.sustains value literal)
  | @binary machine between now left right line x y operator first second =>
      have lefts := tame.taken (.left operator left right line) first
      have rights := (tame.leads (.right operator right first)).harmless
      have ended := ((settles_perform right between rights).taking line).of_ok lefts.1.grounded
        second
      exact List.forall_mem_cons.mpr
        ⟨ended.1.heap x lefts.2, List.forall_mem_singleton.mpr ended.2⟩
  | @unary machine now operand line x operator taken =>
      exact List.forall_mem_singleton.mpr (tame.taken (.operand operator operand line) taken).2
  | @call machine now function body nodes line values found computed =>
      have ahead := tame.harmless.leads (.callArguments nodes line found)
      exact ((settles_valuesOf line nodes machine ahead).of_ok tame.grounded computed).2
  | @methodCall machine between now receiver method body nodes line target values found bound
      computed =>
      have looked := (settles_lookup receiver line).of_ok tame.grounded bound
      have ahead := tame.harmless.leads (.methodArguments nodes found bound)
      have ended := (settles_valuesOf line nodes between ahead).of_ok looked.1.grounded computed
      exact List.forall_mem_cons.mpr ⟨ended.1.heap target looked.2, ended.2⟩
  | inside leads _ inductionHypothesis => exact inductionHypothesis (tame.leads leads)

end Moments

end Trees

/-- The value can be got at from the stack, from a variable or from a literal of the program. -/
def InUse (program : Program) (machine : Machine) (value : Value) : Prop :=
  ∃ root, (root ∈ machine.values ∨ program.HasLiteral root) ∧
    machine.world.heap.Reaches root value

end Machine

/-- None of the values is part of a cycle.  Plain recursion renders, copies and compares them: it
comes to its end and gives what the guarded functions give. -/
structure Heap.Acyclic (heap : Heap) (values : Value → Prop) : Prop where
  grounded : ∀ value, values value → heap.Grounded value
  renders : ∀ value, values value → ∀ depth, heap.lists.size < depth →
    heap.plainRender depth value = some (heap.render value)
  copies : ∀ value, values value → ∀ depth, heap.lists.size < depth →
    Heap.plainCopy depth value heap = some (Heap.copy value heap)
  compares : ∀ value other, values value → values other →
    ∀ depth, heap.lists.size * heap.lists.size < depth →
      heap.plainSame depth value other = some (heap.same value other)

theorem Heap.acyclic_of_grounded {heap : Heap} {values : Value → Prop}
    (grounded : ∀ value, values value → heap.Grounded value) : heap.Acyclic values where
  grounded := grounded
  renders value given _ enough := (grounded value given).plainRender_eq enough
  copies value given _ enough := (grounded value given).plainCopy_eq enough
  compares value other given otherGiven _ enough :=
    (grounded value given).plainSame_eq (grounded other otherGiven) enough

/-- Only a script can close a cycle, and only by giving `add` or `insert` something from which the
receiver can be got at.  If a run with the standard library starts from grounded values and none
of its calls does that, then at every machine that is passed no list in use is a part of itself,
and neither is any that an operator, a function or a method works on. -/
theorem Machine.lists_stay_acyclic (config : Config) {program : Program} {machine : Machine}
    (start : ∀ value, machine.InUse program value → machine.world.heap.Grounded value)
    (harmless : Machine.Harmless ⟨Standard.library, config⟩ (.block program.root) machine) :
    (∀ passed, Machine.Passes ⟨Standard.library, config⟩ (.block program.root) machine passed →
      passed.world.heap.Acyclic (passed.InUse program)) ∧
    ∀ node values now,
      Machine.Handles ⟨Standard.library, config⟩ (.block program.root) machine node values now →
      now.world.heap.Acyclic (· ∈ values) := by
  have literals : ∀ value, program.HasLiteral value → machine.world.heap.Grounded value :=
    fun value given => start value ⟨value, Or.inr given, .self value⟩
  have tame : Machine.Tame config machine.world.heap (.block program.root) machine := by
    refine ⟨Heap.Sustains.refl _, ?_, List.forall_mem_nil _, ?_, harmless⟩
    · exact Machine.grounded_iff.mpr fun value member =>
        start value ⟨value, Or.inl member, .self value⟩
    · intro root member part inside
      cases part with
      | literal value line => exact literals value ⟨root, member, line, inside⟩
      | _ => exact trivial
  constructor
  · intro passed passes
    have reached := tame.passes passes
    apply Heap.acyclic_of_grounded
    rintro value ⟨root, member | given, reaches⟩
    · exact (Machine.grounded_iff.mp reached.2 root member).part reaches
    · exact (reached.1 root (literals root given)).part reaches
  · intro node values now handles
    exact Heap.acyclic_of_grounded (tame.handles handles)

/-- Two lists in variables, the second one an element of the first. -/
def Machine.sharing : Machine :=
  { Machine.start {} with
    store := { slots := [("xs", ⟨.list 0, 0⟩), ("ys", ⟨.list 1, 0⟩)], depthLimit := 8 }
    world := { heap := { lists := #[#[.list 1], #[.text "a"]] } } }

/-- Puts the second list into the first once more. -/
def Program.linking : Program where
  root := .mk false [.methodCall "xs" "add" [.variable "ys" 1] 1] 1

theorem Machine.not_reaches_sharing :
    ¬ Machine.sharing.world.heap.Reaches (.list 1) (.list 0) := by
  intro reaches
  cases reaches with
  | inside member reaches =>
      have elements : Machine.sharing.world.heap.elements 1 = [.text "a"] := rfl
      rw [elements] at member
      cases List.mem_singleton.mp member
      cases Heap.eq_of_reaches rfl reaches

theorem Machine.grounded_sharing :
    ∀ value, Machine.sharing.InUse Program.linking value →
      Machine.sharing.world.heap.Grounded value := by
  have inner : Machine.sharing.world.heap.Grounded (.list 1) := by
    refine Heap.grounded_list (by decide) ?_
    intro element member
    cases List.mem_singleton.mp member
    exact ⟨Heap.grounded_of_plain rfl, fun reaches => nomatch Heap.eq_of_reaches rfl reaches⟩
  have outer : Machine.sharing.world.heap.Grounded (.list 0) := by
    refine Heap.grounded_list (by decide) ?_
    intro element member
    cases List.mem_singleton.mp member
    exact ⟨inner, Machine.not_reaches_sharing⟩
  rintro value ⟨root, member | ⟨node, listed, line, inside⟩, reaches⟩
  · have roots : root = .list 0 ∨ root = .list 1 := by
      simpa [Machine.values, Machine.sharing, Machine.start] using member
    rcases roots with rfl | rfl
    · exact outer.part reaches
    · exact inner.part reaches
  · -- The program has no literals.
    cases List.mem_singleton.mp listed
    cases inside with
    | child member inside =>
        cases List.mem_singleton.mp member
        cases inside with
        | child member _ => cases member

theorem Machine.harmless_sharing :
    Machine.Harmless ⟨Standard.library, {}⟩ (.block Program.linking.root) Machine.sharing := by
  intro receiver method nodes line address values now handles linking value member
  have looked : Machine.lookup "xs" 1 Machine.sharing = .ok (.list 0) Machine.sharing := rfl
  have computed : Machine.valuesOf ⟨Standard.library, {}⟩ 1 [.variable "ys" 1] Machine.sharing =
      .ok [.list 1] Machine.sharing := rfl
  -- The block leads to one statement, and that one to its argument.
  rcases handles with _ | _ | _ | _ | _ | ⟨leads, handles⟩
  rcases leads with _ | _ | _
  rcases handles with _ | _ | _ | _ | _ | ⟨leads, handles⟩
  cases leads with
  | laterStatements rest proceeded =>
      rcases handles with _ | _ | _ | _ | _ | ⟨leads, _⟩
      cases leads
  | statement node rest =>
      cases handles with
      | methodCall found bound evaluated =>
          rw [looked] at bound
          cases bound
          rw [computed] at evaluated
          cases evaluated
          cases List.mem_singleton.mp member
          exact Machine.not_reaches_sharing
      | inside leads handles =>
          cases leads with
          | methodArguments nodes found bound =>
              rcases handles with _ | _ | _ | _ | _ | ⟨leads, handles⟩
              cases leads with
              | argument line node rest =>
                  rcases handles with _ | _ | _ | _ | _ | ⟨leads, _⟩
                  cases leads
              | laterArguments rest taken =>
                  rcases handles with _ | _ | _ | _ | _ | ⟨leads, _⟩
                  cases leads

theorem Machine.lists_stay_acyclic_shared :
    (∀ value, Machine.sharing.InUse Program.linking value →
      Machine.sharing.world.heap.Grounded value) ∧
    Machine.Harmless ⟨Standard.library, {}⟩ (.block Program.linking.root) Machine.sharing ∧
    (∀ passed, Machine.Passes ⟨Standard.library, {}⟩ (.block Program.linking.root)
      Machine.sharing passed → passed.world.heap.Acyclic (passed.InUse Program.linking)) ∧
    ∀ node values now,
      Machine.Handles ⟨Standard.library, {}⟩ (.block Program.linking.root) Machine.sharing node
        values now → now.world.heap.Acyclic (· ∈ values) :=
  ⟨Machine.grounded_sharing, Machine.harmless_sharing,
    Machine.lists_stay_acyclic {} Machine.grounded_sharing Machine.harmless_sharing⟩

end Scriptlet
