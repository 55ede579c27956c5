import Scriptlet.Machine.Evaluation
import Scriptlet.Proofs.ActingAlike
import Scriptlet.Proofs.StackDiscipline

namespace Scriptlet
namespace Likeness

/-!
# Runs on machines that are alike

Machines are alike when their stacks, their variables and their worlds are.  Evaluation takes
machines that are alike to machines that are alike, and it ends with the same signal or with the
same fault on its other line, for every tree whose literals are copied alike and whose callables
answer alike.  The two runs may use different libraries, as long as these agree on what is called.
-/

variable {likeness : Likeness} {α : Type}

/-- Two entries of one name, with as many references and related values. -/
def entries (likeness : Likeness) (known : likeness.Knowledge) (entry other : String × Slot) :
    Prop :=
  other.1 = entry.1 ∧ other.2.references = entry.2.references ∧
    likeness.value known entry.2.value other.2.value

structure stores (likeness : Likeness) (known : likeness.Knowledge) (store other : Store) :
    Prop where
  slots : List.Forall₂ (likeness.entries known) store.slots other.slots
  frames : other.frames = store.frames
  depthLimit : other.depthLimit = store.depthLimit

structure machines (likeness : Likeness) (known : likeness.Knowledge) (machine other : Machine) :
    Prop where
  stack : likeness.Values known machine.stack.values other.stack.values
  store : likeness.stores known machine.store other.store
  world : likeness.worlds known machine.world other.world

section Stores

variable {known now : likeness.Knowledge} {store other : Store}

theorem stores.later (related : likeness.stores known store other)
    (later : likeness.later known now) : likeness.stores now store other where
  slots := related.slots.imp fun _ _ ⟨names, references, values⟩ =>
    ⟨names, references, likeness.kept later values⟩
  frames := related.frames
  depthLimit := related.depthLimit

/-- Both slots are missing, or both are there and alike. -/
def slots (likeness : Likeness) (known : likeness.Knowledge) : Option Slot → Option Slot → Prop
  | some slot, some other => other.references = slot.references ∧
      likeness.value known slot.value other.value
  | none, none => True
  | _, _ => False

variable (related : likeness.stores known store other)
include related

theorem stores.slot? (name : String) :
    likeness.slots known (store.slot? name) (other.slot? name) := by
  have entries := related.slots
  unfold Store.slot?
  generalize store.slots = first at entries
  generalize other.slots = second at entries
  induction entries with
  | nil => exact trivial
  | @cons entry otherEntry _ _ head _ inductionHypothesis =>
      rcases entry with ⟨key, slot⟩
      rcases otherEntry with ⟨otherKey, otherSlot⟩
      rcases head with ⟨keys, slots⟩
      change otherKey = key at keys
      subst keys
      rw [List.lookup_cons, List.lookup_cons]
      cases name == otherKey with
      | true => exact slots
      | false => exact inductionHypothesis

theorem stores.withoutSlot (name : String) :
    likeness.stores known (store.withoutSlot name) (other.withoutSlot name) where
  slots := by
    apply List.rel_filter _ related.slots
    rintro entry otherEntry ⟨names, _⟩
    simp only [decide_eq_true_eq, names]
  frames := related.frames
  depthLimit := related.depthLimit

theorem stores.withSlot (name : String) {slot otherSlot : Slot}
    (references : otherSlot.references = slot.references)
    (values : likeness.value known slot.value otherSlot.value) :
    likeness.stores known (store.withSlot name slot) (other.withSlot name otherSlot) where
  slots := .cons ⟨rfl, references, values⟩ (related.withoutSlot name).slots
  frames := related.frames
  depthLimit := related.depthLimit

theorem stores.inInnermost (change : List String → List String) :
    likeness.stores known (store.inInnermost change) (other.inInnermost change) where
  slots := related.slots
  frames := by
    unfold Store.inInnermost
    rw [related.frames]
  depthLimit := related.depthLimit

theorem stores.lower (name : String) {slot otherSlot : Slot}
    (references : otherSlot.references = slot.references)
    (values : likeness.value known slot.value otherSlot.value) :
    likeness.stores known (store.lower name slot) (other.lower name otherSlot) := by
  unfold Store.lower
  rw [references]
  split
  · exact (related.inInnermost _).withoutSlot name
  · exact related.withSlot name rfl values

theorem stores.allocate (name : String) {value otherValue : Value}
    (values : likeness.value known value otherValue) :
    likeness.stores known (store.allocate name value) (other.allocate name otherValue) := by
  have recorded := related.inInnermost fun names => name :: names
  have found := recorded.slot? name
  simp only [Store.allocate]
  refine stores.withSlot ?_ name rfl values
  generalize (store.inInnermost fun names => name :: names) = first at recorded found ⊢
  generalize (other.inInnermost fun names => name :: names) = second at recorded found ⊢
  generalize first.slot? name = slot at found ⊢
  generalize second.slot? name = otherSlot at found ⊢
  cases slot with
  | none =>
      cases otherSlot with
      | none => exact recorded
      | some otherSlot => exact found.elim
  | some slot =>
      cases otherSlot with
      | none => exact found.elim
      | some otherSlot => exact recorded.lower name found.1 found.2

theorem stores.withFrame : likeness.stores known store.withFrame other.withFrame where
  slots := related.slots
  frames := by
    unfold Store.withFrame
    rw [related.frames]
  depthLimit := related.depthLimit

theorem stores.dropReference (name : String) :
    likeness.stores known (store.dropReference name) (other.dropReference name) := by
  have found := related.slot? name
  unfold Store.dropReference
  generalize store.slot? name = slot at found ⊢
  generalize other.slot? name = otherSlot at found ⊢
  cases slot with
  | none =>
      cases otherSlot with
      | none => exact related
      | some otherSlot => exact found.elim
  | some slot =>
      cases otherSlot with
      | none => exact found.elim
      | some otherSlot => exact related.withSlot name (by rw [found.1]) found.2

theorem stores.exit : likeness.stores known store.exit other.exit := by
  unfold Store.exit
  rw [related.frames]
  cases store.frames.back? with
  | none => exact related
  | some names =>
      simp only
      have popped : likeness.stores known { store with frames := store.frames.pop }
          { other with frames := store.frames.pop } :=
        ⟨related.slots, rfl, related.depthLimit⟩
      generalize ({ store with frames := store.frames.pop } : Store) = first at popped
      generalize ({ other with frames := store.frames.pop } : Store) = second at popped
      induction names generalizing first second with
      | nil => exact popped
      | cons name rest inductionHypothesis =>
          exact inductionHypothesis _ _ (popped.dropReference name)

theorem stores.isFull_eq : other.isFull = store.isFull := by
  unfold Store.isFull Store.depth
  rw [related.frames, related.depthLimit]

end Stores

/-! ## Steps of the machine -/

section Steps

variable {known now : likeness.Knowledge}

theorem goes_push {value other : Value} (values : likeness.value known value other) :
    likeness.Goes likeness.machines likeness.Equal known (Machine.push value)
      (Machine.push other) := by
  intro now later machine otherMachine start
  exact ⟨now, likeness.later_refl now, rfl,
    .cons (likeness.kept later values) start.stack, start.store, start.world⟩

theorem goes_pushResult {value other : Option Value}
    (produced : likeness.Produced known value other) :
    likeness.Goes likeness.machines likeness.Equal known (Machine.pushResult value)
      (Machine.pushResult other) := by
  cases value with
  | none =>
      cases other with
      | none => exact goes_pure fun _ _ => rfl
      | some other => exact produced.elim
  | some value =>
      cases other with
      | none => exact produced.elim
      | some other => exact goes_push produced

theorem goes_lookup (name : String) (line : Nat) :
    likeness.Goes likeness.machines likeness.value known (Machine.lookup name line)
      (Machine.lookup name (likeness.place line)) := by
  intro now later machine other start
  have found := start.store.slot? name
  simp only [Machine.lookup]
  generalize machine.store.slot? name = slot at found ⊢
  generalize other.store.slot? name = otherSlot at found ⊢
  cases slot with
  | none =>
      cases otherSlot with
      | none => exact Or.inr ⟨rfl, now, likeness.later_refl now, start⟩
      | some otherSlot => exact found.elim
  | some slot =>
      cases otherSlot with
      | none => exact found.elim
      | some otherSlot => exact ⟨now, likeness.later_refl now, found.2, start⟩

theorem goes_assign (name : String) {value other : Value}
    (values : likeness.value known value other) :
    likeness.Goes likeness.machines likeness.Equal known (Machine.assign name value)
      (Machine.assign name other) := by
  intro now later machine otherMachine start
  exact ⟨now, likeness.later_refl now, rfl, start.stack,
    start.store.allocate name (likeness.kept later values), start.world⟩

theorem goes_enter :
    likeness.Goes likeness.machines likeness.Equal known Machine.enter Machine.enter := by
  intro now later machine other start
  simp only [Machine.enter, start.store.isFull_eq, start.store.depthLimit]
  split
  · exact Or.inr ⟨rfl, now, likeness.later_refl now, start⟩
  · exact ⟨now, likeness.later_refl now, rfl, start.stack, start.store.withFrame, start.world⟩

theorem goes_exit :
    likeness.Goes likeness.machines likeness.Equal known Machine.exit Machine.exit := by
  intro now later machine other start
  exact ⟨now, likeness.later_refl now, rfl, start.stack, start.store.exit, start.world⟩

theorem goes_onWorld {results : likeness.Knowledge → α → α → Prop}
    {action other : World.Action α}
    (goes : likeness.Goes likeness.worlds results known action other) :
    likeness.Goes likeness.machines results known (Machine.onWorld action)
      (Machine.onWorld other) := by
  rintro now later ⟨stack, store, world⟩ ⟨otherStack, otherStore, otherWorld⟩ start
  simp only [Machine.onWorld]
  rcases (goes now later world otherWorld start.world).returns_or_fails id with
    ⟨_, _, _, _, ran, otherRan, last, sooner, holds, reached⟩ |
    ⟨_, _, _, _, ran, otherRan, faults, last, sooner, reached⟩
  · rw [ran, otherRan]
    exact ⟨last, sooner, holds, start.stack.later sooner, start.store.later sooner, reached⟩
  · rw [ran, otherRan]
    exact Or.inr ⟨faults, last, sooner, start.stack.later sooner, start.store.later sooner,
      reached⟩

theorem goes_onMachineHeap {results : likeness.Knowledge → α → α → Prop}
    {action other : Heap.Action α} (goes : likeness.Goes likeness.heap results known action other) :
    likeness.Goes likeness.machines results known (Machine.onHeap action) (Machine.onHeap other) :=
  goes_onWorld (goes_onHeap goes)

/-! ## Values on the stack -/

section Stacks

variable {machine other : Machine}

theorem height_eq (related : likeness.machines known machine other) :
    other.stack.height = machine.stack.height := by
  rw [other.stack.height_eq, machine.stack.height_eq, related.stack.length_eq]

theorem values_above (related : likeness.machines known machine other) (height : Nat) :
    likeness.Values known (machine.stack.above height) (other.stack.above height) := by
  unfold Stack.above
  rw [height_eq related]
  exact List.rel_reverse (List.forall₂_take _ related.stack)

theorem values_cut (related : likeness.machines known machine other) (height : Nat) :
    likeness.Values known (machine.stack.cut height).values (other.stack.cut height).values := by
  have heights := height_eq related
  simp only [Stack.cut]
  rw [heights]
  exact List.forall₂_drop _ related.stack

end Stacks

variable {expression otherExpression : Machine.Run Signal}

theorem goes_taking
    (goes : likeness.Goes likeness.machines likeness.Equal known expression otherExpression)
    (line : Nat) :
    likeness.Goes likeness.machines likeness.value known (Machine.taking line expression)
      (Machine.taking (likeness.place line) otherExpression) := by
  intro now later machine other start
  simp only [Machine.taking, height_eq start]
  rcases (goes now later machine other start).returns_or_fails id with
    ⟨_, _, after, otherAfter, ran, otherRan, last, sooner, _, reached⟩ |
    ⟨_, _, _, _, ran, otherRan, faults⟩
  · rw [ran, otherRan]
    have missing : likeness.rule likeness.machines now |>.alike (.missingValue line)
        (.missingValue (likeness.place line)) after otherAfter :=
      ⟨rfl, last, sooner, reached⟩
    rcases after with ⟨⟨values, height, heightEq⟩, store, world⟩
    rcases otherAfter with ⟨⟨others, otherHeight, otherHeightEq⟩, otherStore, otherWorld⟩
    have heights : otherHeight = height := height_eq reached
    subst heights
    simp only
    split
    · exact Or.inr missing
    · have related : List.Forall₂ (likeness.value last) values others := reached.stack
      cases related with
      | nil => exact Or.inr missing
      | cons head tail => exact ⟨last, sooner, head, tail, reached.store, reached.world⟩
  · rw [ran, otherRan]
    exact Or.inr faults

theorem goes_discarding
    (goes : likeness.Goes likeness.machines likeness.Equal known expression otherExpression) :
    likeness.Goes likeness.machines likeness.Equal known (Machine.discarding expression)
      (Machine.discarding otherExpression) := by
  intro now later machine other start
  simp only [Machine.discarding, height_eq start]
  rcases (goes now later machine other start).returns_or_fails id with
    ⟨_, _, _, _, ran, otherRan, last, sooner, _, reached⟩ | ⟨_, _, _, _, ran, otherRan, faults⟩
  · rw [ran, otherRan]
    exact ⟨last, sooner, rfl, values_cut reached _, reached.store, reached.world⟩
  · rw [ran, otherRan]
    exact Or.inr faults

theorem goes_gathering {elements others : Machine.Run Unit}
    (goes : likeness.Goes likeness.machines likeness.Equal known elements others) :
    likeness.Goes likeness.machines likeness.Equal known (Machine.gathering elements)
      (Machine.gathering others) := by
  intro now later machine other start
  simp only [Machine.gathering, height_eq start]
  rcases (goes now later machine other start).returns_or_fails id with
    ⟨_, _, _, _, ran, otherRan, last, sooner, _, reached⟩ | ⟨_, _, _, _, ran, otherRan, faults⟩
  · rw [ran, otherRan]
    have gathered := values_above reached machine.stack.height
    rcases likeness.keeps reached.world.1 gathered with ⟨final, more, values, heaps⟩
    have below := (values_cut reached machine.stack.height).later more
    exact ⟨final, likeness.later_trans sooner more, rfl, .cons values below,
      reached.store.later more, heaps, reached.world.2⟩
  · rw [ran, otherRan]
    exact Or.inr faults

theorem goes_iterate {bind otherBind : Value → Machine.Run Unit}
    {body otherBody : Machine.Run Signal} {items others : List Value}
    (binds : ∀ now item other, likeness.later known now → likeness.value now item other →
      likeness.Goes likeness.machines likeness.Equal now (bind item) (otherBind other))
    (bodies : likeness.Goes likeness.machines likeness.Equal known body otherBody)
    (related : likeness.Values known items others) :
    likeness.Goes likeness.machines likeness.Equal known (Machine.iterate bind body items)
      (Machine.iterate otherBind otherBody others) := by
  induction items generalizing known others with
  | nil =>
      cases related
      exact goes_pure fun _ _ => rfl
  | cons item rest inductionHypothesis =>
      cases related with
      | @cons _ other _ otherRest head tail =>
      apply Goes.bind (binds known item other (likeness.later_refl known) head)
      intro now _ _ later _
      apply Goes.bind (bodies.later later)
      rintro after signal _ sooner rfl
      have soonest := likeness.later_trans later sooner
      cases signal with
      | proceed =>
          exact inductionHypothesis
            (fun last item other more => binds last item other (likeness.later_trans soonest more))
            (bodies.later soonest) (Values.later tail soonest)
      | «break» => exact goes_pure fun _ _ => rfl
      | halt => exact goes_pure fun _ _ => rfl

theorem goes_asTruth {value other : Value} (values : likeness.value known value other)
    (line : Nat) :
    likeness.Goes likeness.heap likeness.Equal known (Heap.Action.read (Heap.asTruth value line))
      (Heap.Action.read (Heap.asTruth other (likeness.place line))) :=
  goes_read fun _ _ _ later heaps => found_asTruth (likeness.kept later values) heaps line

theorem goes_asList {value other : Value} (values : likeness.value known value other) (line : Nat) :
    likeness.Goes likeness.heap likeness.Addresses known
      (Heap.Action.read (Heap.asList value line))
      (Heap.Action.read (Heap.asList other (likeness.place line))) :=
  goes_read fun _ _ _ later heaps => found_asList (likeness.kept later values) heaps line

/-- The items of a loop are looked up before the loop begins. -/
theorem goes_items {next otherNext : List Value → Machine.Run Signal} {address other : Nat}
    (addresses : likeness.Addresses known address other)
    (goes : ∀ now items others, likeness.later known now → likeness.Values now items others →
      likeness.Goes likeness.machines likeness.Equal now (next items) (otherNext others)) :
    likeness.Goes likeness.machines likeness.Equal known
      (get >>= fun machine => next (machine.world.heap.elements address))
      (get >>= fun machine => otherNext (machine.world.heap.elements other)) := by
  intro now later machine otherMachine start
  have related := likeness.elements start.world.1 (likeness.kept later addresses)
  exact goes now _ _ later related now (likeness.later_refl now) machine otherMachine start

theorem goes_leave {library other : Library} {config : Config} (framed : Bool) (ending : Ending) :
    likeness.Goes likeness.machines likeness.Equal known
      (Machine.leave ⟨library, config⟩ framed ending)
      (Machine.leave ⟨other, config⟩ framed ending) := by
  unfold Machine.leave
  split
  · exact Goes.bind goes_exit fun _ _ _ _ _ => goes_pure fun _ _ => rfl
  · exact goes_pure fun _ _ => rfl

theorem goes_asStatement {node other : Node} (forms : other.isExpression = node.isExpression)
    {run otherRun : Machine.Run Signal}
    (goes : likeness.Goes likeness.machines likeness.Equal known run otherRun) :
    likeness.Goes likeness.machines likeness.Equal known (Machine.asStatement node run)
      (Machine.asStatement other otherRun) := by
  unfold Machine.asStatement
  rw [forms]
  split
  · exact goes_discarding goes
  · exact goes

end Steps

/-! ## Trees -/

/-- Both libraries have a callable of some name, and the two answer alike, or none has. -/
def Answers {Callable : Type} (alike : Callable → Callable → Prop) :
    Option Callable → Option Callable → Prop
  | some callable, some other => alike callable other
  | none, none => True
  | _, _ => False

theorem Answers.imp {Callable : Type} {alike weaker : Callable → Callable → Prop}
    {found other : Option Callable} (answers : Answers alike found other)
    (implies : ∀ callable otherCallable, alike callable otherCallable →
      weaker callable otherCallable) : Answers weaker found other := by
  cases found <;> cases other
  · exact trivial
  · exact answers
  · exact answers
  · exact implies _ _ answers

/-- What two runs have to agree on at one node: how a literal is copied, and what is called. -/
def Fits (likeness : Likeness) (library other : Library) : Node → Prop
  | .literal value _ => ∀ known, likeness.Goes likeness.heap likeness.value known
      (Heap.Action.sure (Heap.copy value)) (Heap.Action.sure (Heap.copy value))
  | .call function _ _ =>
      Answers likeness.Functions (library.function? function) (other.function? function)
  | .methodCall _ method _ _ =>
      Answers likeness.Methods (library.method? method) (other.method? method)
  | _ => True

/-- The standard library answers alike whatever the values and the lines are. -/
theorem answers_standard (name : String) :
    Answers likeness.Functions (Standard.library.function? name)
        (Standard.library.function? name) ∧
      Answers likeness.Methods (Standard.library.method? name) (Standard.library.method? name) := by
  constructor
  · cases found : Standard.library.function? name with
    | none => exact trivial
    | some function =>
        rw [standard_function found]
        exact functions_print
  · cases found : Standard.library.method? name with
    | none => exact trivial
    | some method =>
        rcases standard_method found with ⟨listMethod, listed, rfl⟩
        exact methods_standard listed

section Trees

variable {library otherLibrary : Library} {config : Config}

mutual

theorem goes_perform : ∀ node : Node,
    node.All (likeness.Fits library otherLibrary) → ∀ known,
    likeness.Goes likeness.machines likeness.Equal known
      (Machine.perform ⟨library, config⟩ node)
      (Machine.perform ⟨otherLibrary, config⟩ (node.renumbered likeness.place))
  | .literal value line, fits, known => by
      rw [Node.renumbered, Machine.perform, Machine.perform]
      apply Goes.bind (goes_onMachineHeap (fits.here known))
      intro now copied otherCopied _ values
      exact Goes.bind (goes_push values) fun _ _ _ _ _ => goes_pure fun _ _ => rfl
  | .array elements line, fits, known => by
      rw [Node.renumbered, Machine.perform, Machine.perform]
      apply Goes.bind (goes_gathering (goes_pushEach line elements (fun _ => fits.below) known))
      intro _ _ _ _ _
      exact goes_pure fun _ _ => rfl
  | .variable name line, fits, known => by
      rw [Node.renumbered, Machine.perform, Machine.perform]
      apply Goes.bind (goes_lookup name line)
      intro now value otherValue _ values
      exact Goes.bind (goes_push values) fun _ _ _ _ _ => goes_pure fun _ _ => rfl
  | .binary operator left right line, fits, known => by
      have leftFits : left.All _ := fits.below (.head _)
      have rightFits : right.All _ := fits.below (.tail _ (.head _))
      rw [Node.renumbered, Machine.perform, Machine.perform]
      apply Goes.bind (goes_taking (goes_perform left leftFits known) line)
      intro now x otherX _ lefts
      apply Goes.bind (goes_taking (goes_perform right rightFits now) line)
      intro after y otherY sooner rights
      apply Goes.bind
        (goes_onMachineHeap (goes_binary (likeness.kept sooner lefts) rights operator line))
      intro last value otherValue _ values
      exact Goes.bind (goes_push values) fun _ _ _ _ _ => goes_pure fun _ _ => rfl
  | .unary operator operand line, fits, known => by
      rw [Node.renumbered, Machine.perform, Machine.perform]
      apply Goes.bind (goes_taking (goes_perform operand (fits.below (.head _)) known) line)
      intro now x otherX _ operands
      apply Goes.bind (goes_onMachineHeap (goes_unary operands operator line))
      intro last value otherValue _ values
      exact Goes.bind (goes_push values) fun _ _ _ _ _ => goes_pure fun _ _ => rfl
  | .call function arguments line, fits, known => by
      have answers : Answers likeness.Functions (library.function? function)
        (otherLibrary.function? function) := fits.here
      rw [Node.renumbered, Machine.perform, Machine.perform]
      generalize library.function? function = body at answers ⊢
      generalize otherLibrary.function? function = otherBody at answers ⊢
      cases body with
      | none =>
          cases otherBody with
          | none => exact goes_throw _
          | some otherBody => exact answers.elim
      | some body =>
          cases otherBody with
          | none => exact answers.elim
          | some otherBody =>
              apply Goes.bind (goes_valuesOf line arguments (fun _ => fits.below) known)
              intro now values others _ related
              apply Goes.bind (goes_onWorld (answers line related))
              intro last value otherValue _ produced
              exact Goes.bind (goes_pushResult produced) fun _ _ _ _ _ => goes_pure fun _ _ => rfl
  | .methodCall receiver method arguments line, fits, known => by
      have answers : Answers likeness.Methods (library.method? method)
        (otherLibrary.method? method) := fits.here
      rw [Node.renumbered, Machine.perform, Machine.perform]
      generalize library.method? method = body at answers ⊢
      generalize otherLibrary.method? method = otherBody at answers ⊢
      cases body with
      | none =>
          cases otherBody with
          | none => exact goes_throw _
          | some otherBody => exact answers.elim
      | some body =>
          cases otherBody with
          | none => exact answers.elim
          | some otherBody =>
              apply Goes.bind (goes_lookup receiver line)
              intro now target otherTarget _ targets
              apply Goes.bind (goes_valuesOf line arguments (fun _ => fits.below) now)
              intro after values others sooner related
              apply Goes.bind
                (goes_onWorld (answers line (likeness.kept sooner targets) related))
              intro last value otherValue _ produced
              exact Goes.bind (goes_pushResult produced) fun _ _ _ _ _ => goes_pure fun _ _ => rfl
  | .range first last line, fits, known => by
      have firstFits : first.All _ := fits.below (.head _)
      have lastFits : last.All _ := fits.below (.tail _ (.head _))
      rw [Node.renumbered, Machine.perform, Machine.perform]
      apply Goes.bind (goes_taking (goes_perform first firstFits known) line)
      intro now x otherX _ firsts
      apply Goes.bind (goes_taking (goes_perform last lastFits now) line)
      intro after y otherY sooner lasts
      apply Goes.bind (goes_onMachineHeap (goes_range (likeness.kept sooner firsts) lasts line))
      intro final value otherValue _ values
      exact Goes.bind (goes_push values) fun _ _ _ _ _ => goes_pure fun _ _ => rfl
  | .assignment name value line, fits, known => by
      rw [Node.renumbered, Machine.perform, Machine.perform]
      apply Goes.bind (goes_taking (goes_perform value (fits.below (.head _)) known) line)
      intro now x otherX _ values
      exact Goes.bind (goes_assign name values) fun _ _ _ _ _ => goes_pure fun _ _ => rfl
  | .conditional condition thenBranch elseBranch line, fits, known => by
      have thenFits : ∀ child ∈ thenBranch.statements, child.All _ := fun child member =>
        fits.below (.tail _ (List.mem_append_left _ member))
      have elseFits : ∀ child ∈ (elseBranch.map Block.statements).getD [], child.All _ :=
        fun child member => fits.below (.tail _ (List.mem_append_right _ member))
      rw [Node.renumbered, Machine.perform, Machine.perform]
      apply Goes.bind (goes_taking (goes_perform condition (fits.below (.head _)) known) line)
      intro now x otherX _ values
      apply Goes.bind (goes_onMachineHeap (goes_asTruth values line))
      rintro after holds _ _ rfl
      split
      · exact goes_performBlock thenBranch thenFits after
      · exact goes_performBranch elseBranch elseFits after
  | .compound block, fits, known => by
      rw [Node.renumbered, Machine.perform, Machine.perform]
      exact goes_performBlock block (fun _ => fits.below) known
  | .loop iterator iterable body line, fits, known => by
      have bodyFits : ∀ child ∈ body.statements, child.All _ := fun child member =>
        fits.below (.tail _ member)
      rw [Node.renumbered, Machine.perform, Machine.perform]
      apply Goes.bind (goes_taking (goes_perform iterable (fits.below (.head _)) known) line)
      intro now x otherX _ values
      apply Goes.bind (goes_onMachineHeap (goes_asList values line))
      intro after address otherAddress _ addresses
      apply goes_items addresses
      intro last items others _ related
      exact goes_iterate (fun _ _ _ _ => goes_assign iterator)
        (goes_performBody body bodyFits last) related
  | .flag flag line, fits, known => by
      rw [Node.renumbered, Machine.perform, Machine.perform]
      exact goes_pure fun _ _ => rfl

theorem goes_pushEach (line : Nat) : ∀ nodes : List Node,
    (∀ node ∈ nodes, node.All (likeness.Fits library otherLibrary)) → ∀ known,
    likeness.Goes likeness.machines likeness.Equal known
      (Machine.pushEach ⟨library, config⟩ line nodes)
      (Machine.pushEach ⟨otherLibrary, config⟩ (likeness.place line)
        (Node.eachRenumbered likeness.place nodes))
  | [], _, known => by
      rw [Node.eachRenumbered, Machine.pushEach, Machine.pushEach]
      exact goes_pure fun _ _ => rfl
  | node :: rest, fits, known => by
      rw [Node.eachRenumbered, Machine.pushEach, Machine.pushEach]
      apply Goes.bind (goes_taking (goes_perform node (fits node (.head _)) known) line)
      intro now value otherValue _ values
      apply Goes.bind (goes_push values)
      intro after _ _ _ _
      exact goes_pushEach line rest (fun child member => fits child (.tail _ member)) after

theorem goes_valuesOf (line : Nat) : ∀ nodes : List Node,
    (∀ node ∈ nodes, node.All (likeness.Fits library otherLibrary)) → ∀ known,
    likeness.Goes likeness.machines likeness.Values known
      (Machine.valuesOf ⟨library, config⟩ line nodes)
      (Machine.valuesOf ⟨otherLibrary, config⟩ (likeness.place line)
        (Node.eachRenumbered likeness.place nodes))
  | [], _, known => by
      rw [Node.eachRenumbered, Machine.valuesOf, Machine.valuesOf]
      exact goes_pure fun _ _ => .nil
  | node :: rest, fits, known => by
      rw [Node.eachRenumbered, Machine.valuesOf, Machine.valuesOf]
      apply Goes.bind (goes_taking (goes_perform node (fits node (.head _)) known) line)
      intro now value otherValue _ head
      apply Goes.bind
        (goes_valuesOf line rest (fun child member => fits child (.tail _ member)) now)
      intro after values others sooner tail
      exact goes_pure fun _ more =>
        .cons (likeness.kept (likeness.later_trans sooner more) head) (tail.later more)

theorem goes_performEach : ∀ nodes : List Node,
    (∀ node ∈ nodes, node.All (likeness.Fits library otherLibrary)) → ∀ known,
    likeness.Goes likeness.machines likeness.Equal known
      (Machine.performEach ⟨library, config⟩ nodes)
      (Machine.performEach ⟨otherLibrary, config⟩ (Node.eachRenumbered likeness.place nodes))
  | [], _, known => by
      rw [Node.eachRenumbered, Machine.performEach, Machine.performEach]
      exact goes_pure fun _ _ => rfl
  | node :: rest, fits, known => by
      have lefts : (Node.eachRenumbered likeness.place rest).isEmpty = rest.isEmpty := by
        rw [Node.eachRenumbered_eq_map, List.isEmpty_map]
      rw [Node.eachRenumbered, Machine.performEach, Machine.performEach, lefts]
      apply Goes.bind (goes_asStatement (node.isExpression_renumbered likeness.place)
        (goes_perform node (fits node (.head _)) known))
      rintro now signal _ _ rfl
      cases signal with
      | proceed =>
          exact goes_performEach rest (fun child member => fits child (.tail _ member)) now
      | «break» => exact goes_pure fun _ _ => rfl
      | halt => exact goes_pure fun _ _ => rfl

theorem goes_performBlock : ∀ block : Block,
    (∀ node ∈ block.statements, node.All (likeness.Fits library otherLibrary)) →
    ∀ known,
    likeness.Goes likeness.machines likeness.Equal known
      (Machine.performBlock ⟨library, config⟩ block)
      (Machine.performBlock ⟨otherLibrary, config⟩ (block.renumbered likeness.place))
  | .mk framed statements line, fits, known => by
      rw [Block.renumbered, Machine.performBlock, Machine.performBlock]
      have performed : ∀ now, likeness.Goes likeness.machines likeness.Equal now
          (Machine.performEach ⟨library, config⟩ statements >>=
            Machine.leave ⟨library, config⟩ framed)
          (Machine.performEach ⟨otherLibrary, config⟩
            (Node.eachRenumbered likeness.place statements) >>=
            Machine.leave ⟨otherLibrary, config⟩ framed) := by
        intro now
        apply Goes.bind (goes_performEach statements fits now)
        rintro after ending _ _ rfl
        exact goes_leave framed ending
      cases framed with
      | true => exact Goes.bind goes_enter fun now _ _ _ _ => performed now
      | false => exact performed known

theorem goes_performBranch : ∀ branch : Option Block,
    (∀ node ∈ (branch.map Block.statements).getD [],
      node.All (likeness.Fits library otherLibrary)) → ∀ known,
    likeness.Goes likeness.machines likeness.Equal known
      (Machine.performBranch ⟨library, config⟩ branch)
      (Machine.performBranch ⟨otherLibrary, config⟩ (Block.anyRenumbered likeness.place branch))
  | none, _, known => by
      rw [Block.anyRenumbered, Machine.performBranch, Machine.performBranch]
      exact goes_pure fun _ _ => rfl
  | some block, fits, known => by
      rw [Block.anyRenumbered, Machine.performBranch, Machine.performBranch]
      exact goes_performBlock block fits known

theorem goes_performBody : ∀ block : Block,
    (∀ node ∈ block.statements, node.All (likeness.Fits library otherLibrary)) →
    ∀ known,
    likeness.Goes likeness.machines likeness.Equal known
      (Machine.performBody ⟨library, config⟩ block)
      (Machine.performBody ⟨otherLibrary, config⟩ (block.renumbered likeness.place))
  | .mk framed statements line, fits, known => by
      rw [Block.renumbered, Machine.performBody, Machine.performBody]
      apply Goes.bind (goes_performEach statements fits known)
      rintro now ending _ _ rfl
      exact goes_pure fun _ _ => rfl

end

end Trees

/-! ## The same values -/

/-- Two changes of one list are the same if they do the same to what it holds. -/
theorem update_congr {heap : Heap} {address : Nat} {change other : Array Value → Array Value}
    (same : change (heap.storage address) = other (heap.storage address)) :
    Heap.update address change heap = Heap.update address other heap := by
  have lists : heap.lists.modify address change = heap.lists.modify address other := by
    apply Array.ext_getElem?
    intro index
    rw [Array.getElem?_modify, Array.getElem?_modify]
    split
    · next equal =>
        subst equal
        unfold Heap.storage at same
        cases found : heap.lists[address]? with
        | none => rfl
        | some values =>
            rw [found, Option.getD_some] at same
            rw [Option.map_some, Option.map_some, same]
    · rfl
  simp only [Heap.update, lists]

/-- Values and heaps are the same in both runs, and only lines may differ. -/
def same (place : Nat → Nat) : Likeness where
  Knowledge := Unit
  later _ _ := True
  place := place
  value _ value other := value = other
  heap _ heap other := heap = other
  later_refl _ := trivial
  later_trans _ _ := trivial
  kept _ same := same
  kinds same := same ▸ .refl _
  number _ _ := rfl
  text _ _ := rfl
  truth _ _ := rfl
  elements heaps addresses := by
    cases heaps
    cases addresses
    exact List.forall₂_same.mpr fun _ _ => rfl
  renders heaps values := by rw [heaps, values]
  sames heaps lefts rights := by rw [heaps, lefts, rights]
  keeps {_ _ _ xs ys} heaps related := by
    have storages : xs = ys := Array.toList_inj.mp (List.forall₂_eq_eq_eq ▸ related)
    cases heaps
    cases storages
    exact ⟨(), trivial, rfl, rfl⟩
  updates {_ first _ a _ change otherChange} heaps addresses related := by
    cases heaps
    cases addresses
    exact congrArg Prod.snd
      (update_congr (Array.toList_inj.mp (List.forall₂_eq_eq_eq ▸ related)))

section Same

variable {place : Nat → Nat}

theorem machines_same {machine other : Machine}
    (alike : (same place).machines () machine other) : other = machine := by
  rcases machine with ⟨stack, ⟨slots, frames, depthLimit⟩, heap, sink⟩
  rcases other with ⟨otherStack, ⟨otherSlots, otherFrames, otherLimit⟩, otherHeap, otherSink⟩
  rcases alike with ⟨values, ⟨entries, framesSame, limits⟩, heaps, sinks⟩
  have stackSame : stack = otherStack := Stack.eq_of_values (List.forall₂_eq_eq_eq ▸ values)
  have slotsSame : slots = otherSlots := by
    refine List.forall₂_eq_eq_eq ▸ entries.imp ?_
    rintro ⟨name, value, references⟩ ⟨otherName, otherValue, otherReferences⟩
      ⟨names, counts, values⟩
    cases names
    cases counts
    cases values
    rfl
  cases stackSame
  cases slotsSame
  cases framesSame
  cases limits
  cases heaps
  cases sinks
  rfl

theorem machines_refl (machine : Machine) : (same place).machines () machine machine where
  stack := List.forall₂_same.mpr fun _ _ => rfl
  store := ⟨List.forall₂_same.mpr fun _ _ => ⟨rfl, rfl, rfl⟩, rfl, rfl⟩
  world := ⟨rfl, rfl⟩

/-- The ending with the line of its fault replaced. -/
def renumberedEnding (place : Nat → Nat) :
    EStateM.Result RuntimeFault σ α → EStateM.Result RuntimeFault σ α
  | .ok result state => .ok result state
  | .error fault state => .error (fault.renumbered place) state

theorem renumberedEnding_id (ending : EStateM.Result RuntimeFault σ α) :
    renumberedEnding id ending = ending := by
  cases ending with
  | ok result state => rfl
  | error fault state => exact congrArg (EStateM.Result.error · state) fault.renumbered_id

/-- Two runs that go alike with the same values end alike from every machine. -/
theorem Goes.ending_eq {run other : Machine.Run α}
    (goes : (same place).Goes (same place).machines (same place).Equal () run other)
    (machine : Machine) : other machine = renumberedEnding place (run machine) := by
  rcases (goes () trivial machine machine (machines_refl machine)).returns_or_fails id with
    ⟨_, _, _, _, ran, otherRan, _, _, results, reached⟩ |
    ⟨_, _, _, _, ran, otherRan, faults, _, _, reached⟩
  · cases results
    cases machines_same reached
    rw [ran, otherRan]
    rfl
  · cases faults
    cases machines_same reached
    rw [ran, otherRan]
    rfl

theorem goes_copy (value : Value) (known : Unit) :
    (same place).Goes (same place).heap (same place).value known
      (Heap.Action.sure (Heap.copy value)) (Heap.Action.sure (Heap.copy value)) := by
  apply goes_sure
  rintro _ heap _ _ rfl
  exact ⟨(), trivial, rfl, rfl⟩

theorem produced_refl (value : Option Value) : (same place).Produced () value value := by
  cases value with
  | none => exact trivial
  | some value => exact rfl

/-- On its own line, whatever a host does it does again. -/
theorem goes_again (action : World.Action (Option Value)) (known : Unit) :
    (same id).Goes (same id).worlds (same id).Produced known action action := by
  rintro _ _ ⟨heap, sink⟩ ⟨otherHeap, otherSink⟩ ⟨heaps, sinks⟩
  cases heaps
  cases sinks
  cases action ⟨heap, sink⟩ with
  | ok result after => exact ⟨(), trivial, produced_refl result, rfl, rfl⟩
  | error fault after =>
      exact Or.inr ⟨(RuntimeFault.renumbered_id fault).symm, (), trivial, rfl, rfl⟩

theorem functions_again (function : HostFunction) : (same id).Functions function function := by
  intro known arguments others line related
  have equal : arguments = others := List.forall₂_eq_eq_eq ▸ related
  subst equal
  exact goes_again (function arguments line) known

theorem methods_again (method : HostMethod) : (same id).Methods method method := by
  rintro known receiver _ arguments others line rfl related
  have equal : arguments = others := List.forall₂_eq_eq_eq ▸ related
  subst equal
  exact goes_again (method receiver arguments line) known

end Same

end Likeness
end Scriptlet
