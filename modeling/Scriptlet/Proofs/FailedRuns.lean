import Scriptlet.Proofs.ScopeFrames

namespace Scriptlet

/-!
# What a failed run leaves behind

A fault ends a run where it arises.  Nothing on the way out takes the elements of an
unfinished list literal from the stack, and nothing closes the frames of the blocks that were
running, also under the policy that closes frames of blocks left early.  How much can be left
is known from the program alone: the list literals and the framed blocks around the place of
the fault are nested in its tree.
-/

/-- How many values and how many frames are left behind. -/
structure Remainder where
  values : Nat := 0
  frames : Nat := 0
  deriving DecidableEq

namespace Remainder

/-- One value more, below what is left. -/
def withValue (remainder : Remainder) : Remainder :=
  { remainder with values := remainder.values + 1 }

/-- One frame more, around what is left. -/
def withFrame (remainder : Remainder) : Remainder :=
  { remainder with frames := remainder.frames + 1 }

/-- Room for what either of two parts may leave, of which only one fails. -/
def either (first second : Remainder) : Remainder :=
  ⟨max first.values second.values, max first.frames second.frames⟩

def Within (remainder bound : Remainder) : Prop :=
  remainder.values ≤ bound.values ∧ remainder.frames ≤ bound.frames

theorem within_either_left (first second : Remainder) : first.Within (first.either second) :=
  ⟨Nat.le_max_left _ _, Nat.le_max_left _ _⟩

theorem within_either_right (first second : Remainder) : second.Within (first.either second) :=
  ⟨Nat.le_max_right _ _, Nat.le_max_right _ _⟩

/-- What two runs may leave, one after the other. -/
def plus (first second : Remainder) : Remainder :=
  ⟨first.values + second.values, first.frames + second.frames⟩

end Remainder

mutual

/-- The most that a node can leave behind when it fails. -/
def Node.remainder : Node → Remainder
  | .literal .. | .variable .. | .flag .. => {}
  | .array elements _ => Node.remainderOfElements elements
  | .binary _ left right _ => left.remainder.either right.remainder
  | .unary _ operand _ => operand.remainder
  | .assignment _ value _ => value.remainder
  | .call _ arguments _ => Node.remainderOfEach arguments
  | .methodCall _ _ arguments _ => Node.remainderOfEach arguments
  | .conditional condition thenBranch elseBranch _ =>
      condition.remainder.either
        (thenBranch.remainder.either (Block.remainderOfBranch elseBranch))
  | .compound block => block.remainder
  | .loop _ iterable body _ => iterable.remainder.either body.remainderOfBody
  | .range first last _ => first.remainder.either last.remainder

/-- The elements of a list literal wait on the stack for the last of them. -/
def Node.remainderOfElements : List Node → Remainder
  | [] => {}
  | [node] => node.remainder
  | node :: next :: rest =>
      node.remainder.either (Node.remainderOfElements (next :: rest)).withValue

def Node.remainderOfEach : List Node → Remainder
  | [] => {}
  | node :: rest => node.remainder.either (Node.remainderOfEach rest)

/-- A framed block leaves its frame open when a statement in it fails. -/
def Block.remainder : Block → Remainder
  | .mk framed statements _ =>
      if framed then (Node.remainderOfEach statements).withFrame
      else Node.remainderOfEach statements

def Block.remainderOfBranch : Option Block → Remainder
  | none => {}
  | some block => block.remainder

/-- A loop body has no frame of its own. -/
def Block.remainderOfBody : Block → Remainder
  | .mk _ statements _ => Node.remainderOfEach statements

end

namespace Machine

/-! ## Computations that leave no more than a bound -/

/-- A computation that returns has as many frames open as before; one that fails has left no
more than the bound. -/
inductive Remains (bound : Remainder) (machine : Machine) {α : Type} :
    EStateM.Result RuntimeFault Machine α → Prop
  | ok {result : α} {after : Machine} : after.store.depth = machine.store.depth →
      Remains bound machine (.ok result after)
  | error {fault : RuntimeFault} {after : Machine} :
      after.stack.height ≤ machine.stack.height + bound.values →
      after.store.depth ≤ machine.store.depth + bound.frames →
      Remains bound machine (.error fault after)

def Spares (bound : Remainder) {α : Type} (run : Run α) : Prop :=
  ∀ machine, Remains bound machine (run machine)

section Steps

variable {α β : Type} {bound : Remainder}

/-- A fault of a single step leaves nothing. -/
theorem Remains.fault (fault : RuntimeFault) (machine : Machine) (world : World) :
    Remains bound machine
      (.error fault { machine with world } : EStateM.Result RuntimeFault Machine α) :=
  .error (Nat.le_add_right _ _) (Nat.le_add_right _ _)

theorem spares_pure (result : α) : Spares bound (pure result : Run α) :=
  fun _ => .ok rfl

theorem spares_throw (fault : RuntimeFault) : Spares bound (throw fault : Run α) :=
  fun machine => .fault fault machine machine.world

theorem Spares.weaken {smaller : Remainder} {run : Run α} (spared : Spares smaller run)
    (within : smaller.Within bound) : Spares bound run := by
  intro machine
  have remains := spared machine
  generalize run machine = result at remains ⊢
  cases remains with
  | ok same => exact .ok same
  | error values frames =>
      exact .error (values.trans (Nat.add_le_add_left within.1 _))
        (frames.trans (Nat.add_le_add_left within.2 _))

theorem Spares.ofFirst {first second : Remainder} {run : Run α} (spared : Spares first run) :
    Spares (first.either second) run :=
  spared.weaken (Remainder.within_either_left first second)

theorem Spares.ofSecond {first second : Remainder} {run : Run α} (spared : Spares second run) :
    Spares (first.either second) run :=
  spared.weaken (Remainder.within_either_right first second)

/-- What comes first leaves the stack as it was, so that nothing adds up. -/
theorem Spares.bind {direct : Direct.Run Store β} {first : Run β} {next : β → Run α}
    (spared : Spares bound first) (kept : Keeps direct first)
    (others : ∀ result, Spares bound (next result)) : Spares bound (first >>= next) := by
  intro machine
  have started := spared machine
  generalize ran : first machine = result at started
  cases started with
  | error values frames =>
      rw [bind_of_error ran]
      exact .error values frames
  | @ok result between depth =>
      rw [bind_of_ok ran]
      rcases kept.of_ok ran with ⟨_, _, _, stack⟩
      have continued := others result between
      generalize next result between = final at continued ⊢
      cases continued with
      | ok same => exact .ok (same.trans depth)
      | error values frames =>
          rw [stack] at values
          rw [depth] at frames
          exact .error values frames

theorem spares_onWorld (action : World.Action α) : Spares bound (onWorld action) := by
  rintro ⟨stack, store, world⟩
  simp only [onWorld]
  cases action world with
  | ok result after => exact .ok rfl
  | error fault after => exact .fault fault ⟨stack, store, world⟩ after

theorem spares_lookup (name : String) (line : Nat) : Spares bound (lookup name line) := by
  intro machine
  unfold lookup
  cases machine.store.slot? name with
  | some slot => exact .ok rfl
  | none => exact .fault (.unknownVariable name line) machine machine.world

theorem spares_assign (name : String) (value : Value) : Spares bound (assign name value) :=
  fun machine => .ok (Store.depth_allocate machine.store name value).1

theorem spares_pushing (value : Value) :
    Spares bound (do push value; pure Signal.proceed) :=
  fun _ => .ok rfl

theorem spares_pushingResult (value? : Option Value) :
    Spares bound (do pushResult value?; pure Signal.proceed) := by
  intro machine
  cases value? with
  | some value => exact .ok rfl
  | none => exact .ok rfl

theorem Spares.taking {run : Run Signal} (spared : Spares bound run) (line : Nat) :
    Spares bound (Machine.taking line run) := by
  intro machine
  have performed := spared machine
  unfold Machine.taking
  generalize run machine = result at performed ⊢
  cases performed with
  | error values frames => exact .error values frames
  | @ok signal after depth =>
      have frames : after.store.depth ≤ machine.store.depth + bound.frames := by
        rw [depth]
        exact Nat.le_add_right _ _
      by_cases same : after.stack.height = machine.stack.height
      · simp only [same, if_true]
        exact .error (same.trans_le (Nat.le_add_right _ _)) frames
      · simp only [same, if_false]
        cases popped : after.stack.pop? with
        | some taken => exact .ok depth
        | none =>
            -- Only an empty stack has nothing to take, so that nothing is left on it.
            have empty : after.stack.height = 0 := by
              rcases after with ⟨⟨values, height, height_eq⟩, _, _⟩
              cases values with
              | nil => exact height_eq
              | cons value rest => cases popped
            exact .error (empty.trans_le (Nat.zero_le _)) frames

theorem Spares.asStatement {run : Run Signal} (spared : Spares bound run) (node : Node) :
    Spares bound (Machine.asStatement node run) := by
  unfold Machine.asStatement
  split
  · intro machine
    have performed := spared machine
    unfold discarding
    generalize run machine = result at performed ⊢
    cases performed with
    | ok depth => exact .ok depth
    | error values frames => exact .error values frames
  · exact spared

theorem Spares.gathering {run : Run Unit} (spared : Spares bound run) :
    Spares bound (do Machine.gathering run; pure Signal.proceed) := by
  intro machine
  have pushed := spared machine
  generalize ran : run machine = result at pushed
  cases pushed with
  | @error fault after values frames =>
      have failed : Machine.gathering run machine = .error fault after := by
        simp only [Machine.gathering, ran]
      rw [bind_of_error failed]
      exact .error values frames
  | @ok result after depth =>
      change Remains bound machine
        (EStateM.bind (Machine.gathering run) (fun _ => pure Signal.proceed) machine)
      simp only [EStateM.bind, Machine.gathering, ran]
      exact .ok depth

/-- A value that waits on the stack is left behind by what fails above it. -/
theorem Spares.above {run : Run Unit} (spared : Spares bound run) (value : Value) :
    Spares bound.withValue (do push value; run) := by
  intro machine
  have above := spared { machine with stack := machine.stack.push value }
  change Remains bound.withValue machine (run { machine with stack := machine.stack.push value })
  generalize run { machine with stack := machine.stack.push value } = result at above ⊢
  cases above with
  | ok depth => exact .ok depth
  | @error fault after values frames =>
      refine .error ?_ frames
      have pushed : (machine.stack.push value).height = machine.stack.height + 1 := rfl
      simp only [pushed] at values
      simp only [Remainder.withValue]
      omega

theorem spares_iterate {directBind : Value → Direct.Run Store Unit} {bind : Value → Run Unit}
    {directBody : Direct.Run Store Signal} {body : Run Signal}
    (binding : ∀ item, Spares bound (bind item))
    (bindingKept : ∀ item, Keeps (directBind item) (bind item)) (spared : Spares bound body)
    (kept : Keeps directBody body) (items : List Value) :
    Spares bound (iterate bind body items) := by
  induction items with
  | nil => exact spares_pure Signal.proceed
  | cons item rest inductionHypothesis =>
      apply Spares.bind (binding item) (bindingKept item)
      intro _
      apply Spares.bind spared kept
      intro signal
      cases signal with
      | proceed => exact inductionHypothesis
      | «break» => exact spares_pure Signal.proceed
      | halt => exact spares_pure Signal.halt

/-- A block whose frame is closed also when the block is left early leaves the frame behind
only where a statement fails in it. -/
theorem Spares.framed {library : Library} {config : Config} {statements : Run Ending}
    (closes : config.closesEarly = true) (spared : Spares bound statements) :
    Spares bound.withFrame
      (do enter; let ending ← statements; leave ⟨library, config⟩ true ending) := by
  rintro ⟨stack, store, world⟩
  by_cases full : store.isFull = true
  · have refused : enter ⟨stack, store, world⟩ =
        .error (.scopeDepthExceeded store.depthLimit) ⟨stack, store, world⟩ := if_pos full
    rw [bind_of_error refused]
    exact .fault _ ⟨stack, store, world⟩ world
  · have opened : enter ⟨stack, store, world⟩ = .ok () ⟨stack, store.withFrame, world⟩ :=
      if_neg full
    rw [bind_of_ok opened]
    have inside := spared ⟨stack, store.withFrame, world⟩
    generalize ran : statements ⟨stack, store.withFrame, world⟩ = result at inside
    have deeper : store.withFrame.depth = store.depth + 1 := store.depth_withFrame
    cases inside with
    | @error fault after values frames =>
        rw [bind_of_error ran]
        refine .error values ?_
        simp only [deeper] at frames
        simp only [Remainder.withFrame]
        omega
    | @ok ending after depth =>
        have left : leave ⟨library, config⟩ true ending after =
            .ok ending.signal { after with store := after.store.exit } := by
          simp only [leave, closes, Bool.or_true, Bool.and_true, if_true]
          rfl
        rw [bind_of_ok ran, left]
        refine .ok ?_
        simp only [(Store.depth_exit after.store).1, depth, deeper]
        rfl

end Steps

/-! ## Whole trees -/

section Trees

variable (library : Library) (config : Config)

mutual

theorem perform_spares (closes : config.closesEarly = true) : ∀ node : Node,
    Spares node.remainder (perform ⟨library, config⟩ node)
  | .literal value _ => by
      rw [perform, Node.remainder]
      apply Spares.bind (spares_onWorld _) (keeps_onHeap _)
      exact spares_pushing
  | .array elements line => by
      rw [perform, Node.remainder]
      exact (pushEach_spares closes line elements).gathering
  | .variable name line => by
      rw [perform, Node.remainder]
      apply Spares.bind (spares_lookup name line) (keeps_lookup config name line)
      exact spares_pushing
  | .binary operator left right line => by
      rw [perform, Node.remainder]
      apply Spares.bind (((perform_spares closes left).taking line).ofFirst)
        (evaluateValue_keeps library config left line)
      intro x
      apply Spares.bind (((perform_spares closes right).taking line).ofSecond)
        (evaluateValue_keeps library config right line)
      intro y
      apply Spares.bind (spares_onWorld _) (keeps_onHeap _)
      exact spares_pushing
  | .unary operator operand line => by
      rw [perform, Node.remainder]
      apply Spares.bind ((perform_spares closes operand).taking line)
        (evaluateValue_keeps library config operand line)
      intro x
      apply Spares.bind (spares_onWorld _) (keeps_onHeap _)
      exact spares_pushing
  | .call function arguments line => by
      rw [perform, Node.remainder]
      cases library.function? function with
      | none => exact spares_throw _
      | some body =>
          apply Spares.bind (valuesOf_spares closes line arguments)
            (valuesOf_keeps library config line arguments)
          intro values
          apply Spares.bind (spares_onWorld _) (keeps_onWorld _)
          exact spares_pushingResult
  | .methodCall receiver method arguments line => by
      rw [perform, Node.remainder]
      cases library.method? method with
      | none => exact spares_throw _
      | some body =>
          apply Spares.bind (spares_lookup receiver line) (keeps_lookup config receiver line)
          intro target
          apply Spares.bind (valuesOf_spares closes line arguments)
            (valuesOf_keeps library config line arguments)
          intro values
          apply Spares.bind (spares_onWorld _) (keeps_onWorld _)
          exact spares_pushingResult
  | .range first last line => by
      rw [perform, Node.remainder]
      apply Spares.bind (((perform_spares closes first).taking line).ofFirst)
        (evaluateValue_keeps library config first line)
      intro x
      apply Spares.bind (((perform_spares closes last).taking line).ofSecond)
        (evaluateValue_keeps library config last line)
      intro y
      apply Spares.bind (spares_onWorld _) (keeps_onHeap _)
      exact spares_pushing
  | .assignment name value line => by
      rw [perform, Node.remainder]
      apply Spares.bind ((perform_spares closes value).taking line)
        (evaluateValue_keeps library config value line)
      intro x
      apply Spares.bind (spares_assign name x) (keeps_assign config name x)
      intro _
      exact spares_pure Signal.proceed
  | .conditional condition thenBranch elseBranch line => by
      rw [perform, Node.remainder]
      apply Spares.bind (((perform_spares closes condition).taking line).ofFirst)
        (evaluateValue_keeps library config condition line)
      intro x
      apply Spares.bind (spares_onWorld _) (keeps_onHeap _)
      intro holds
      apply Spares.ofSecond
      cases holds with
      | true => exact (performBlock_spares closes thenBranch).ofFirst
      | false => exact (performBranch_spares closes elseBranch).ofSecond
  | .compound block => by
      rw [perform, Node.remainder]
      exact performBlock_spares closes block
  | .loop iterator iterable body line => by
      rw [perform, Node.remainder]
      apply Spares.bind (((perform_spares closes iterable).taking line).ofFirst)
        (evaluateValue_keeps library config iterable line)
      intro x
      apply Spares.bind (spares_onWorld _) (keeps_onHeap _)
      intro address machine
      -- The items depend on the machine, so the loop is looked at from one machine at a time.
      exact spares_iterate (spares_assign iterator) (keeps_assign config iterator)
        ((performBody_spares closes body).ofSecond)
        (performBody_keeps library config body) (machine.world.heap.elements address) machine
  | .flag flag _ => by
      rw [perform, Node.remainder]
      exact spares_pure flag.signal

theorem pushEach_spares (closes : config.closesEarly = true) (line : Nat) : ∀ nodes : List Node,
    Spares (Node.remainderOfElements nodes) (pushEach ⟨library, config⟩ line nodes)
  | [] => by
      rw [pushEach]
      exact spares_pure ()
  | [node] => by
      rw [pushEach, Node.remainderOfElements]
      apply Spares.bind ((perform_spares closes node).taking line)
        (evaluateValue_keeps library config node line)
      intro value machine
      -- Nothing can fail above the last element.
      rw [pushEach]
      exact .ok rfl
  | node :: next :: rest => by
      rw [pushEach, Node.remainderOfElements]
      apply Spares.bind (((perform_spares closes node).taking line).ofFirst)
        (evaluateValue_keeps library config node line)
      intro value
      exact ((pushEach_spares closes line (next :: rest)).above value).ofSecond

theorem valuesOf_spares (closes : config.closesEarly = true) (line : Nat) : ∀ nodes : List Node,
    Spares (Node.remainderOfEach nodes) (valuesOf ⟨library, config⟩ line nodes)
  | [] => by
      rw [valuesOf]
      exact spares_pure []
  | node :: rest => by
      rw [valuesOf, Node.remainderOfEach]
      apply Spares.bind (((perform_spares closes node).taking line).ofFirst)
        (evaluateValue_keeps library config node line)
      intro value
      apply Spares.bind ((valuesOf_spares closes line rest).ofSecond)
        (valuesOf_keeps library config line rest)
      intro values
      exact spares_pure (value :: values)

theorem performEach_spares (closes : config.closesEarly = true) : ∀ nodes : List Node,
    Spares (Node.remainderOfEach nodes) (performEach ⟨library, config⟩ nodes)
  | [] => by
      rw [performEach]
      exact spares_pure _
  | node :: rest => by
      rw [performEach, Node.remainderOfEach]
      apply Spares.bind (((perform_spares closes node).asStatement node).ofFirst)
        (execute_keeps library config node)
      intro signal
      cases signal with
      | proceed => exact (performEach_spares closes rest).ofSecond
      | «break» => exact spares_pure _
      | halt => exact spares_pure _

theorem performBlock_spares (closes : config.closesEarly = true) : ∀ block : Block,
    Spares block.remainder (performBlock ⟨library, config⟩ block)
  | .mk framed statements line => by
      rw [performBlock, Block.remainder]
      cases framed with
      | false =>
          apply Spares.bind (performEach_spares closes statements)
            (performEach_keeps library config statements)
          intro ending
          exact spares_pure ending.signal
      | true => exact (performEach_spares closes statements).framed closes

theorem performBranch_spares (closes : config.closesEarly = true) : ∀ branch : Option Block,
    Spares (Block.remainderOfBranch branch) (performBranch ⟨library, config⟩ branch)
  | none => by
      rw [performBranch]
      exact spares_pure _
  | some block => by
      rw [performBranch, Block.remainderOfBranch]
      exact performBlock_spares closes block

theorem performBody_spares (closes : config.closesEarly = true) : ∀ block : Block,
    Spares block.remainderOfBody (performBody ⟨library, config⟩ block)
  | .mk framed statements line => by
      rw [performBody, Block.remainderOfBody]
      apply Spares.bind (performEach_spares closes statements)
        (performEach_keeps library config statements)
      intro ending
      exact spares_pure ending.signal

end

end Trees

end Machine

/-! ## Blocks that a fault leaves running -/

/-- The number of framed blocks that were entered and not left. -/
def Trace.running : List Trace.Event → Nat
  | [] => 0
  | .assigned .. :: earlier => running earlier
  | .entered :: earlier => running earlier + 1
  | .left _ :: earlier => running earlier - 1

theorem Trace.Extends.running_eq {config : Config} {start : Store} {trace : List Trace.Event}
    {running : Nat} (extended : Trace.Extends config start [] running trace) :
    Trace.running trace = running := by
  induction extended with
  | refl => rfl
  | assigned name value _ inductionHypothesis => exact inductionHypothesis
  | entered room _ inductionHypothesis => simp only [Trace.running, inductionHypothesis]
  | left early _ inductionHypothesis =>
      simp only [Trace.running, inductionHypothesis]
      rfl

namespace Machine

/-- Where frames are closed whenever a block is left, only blocks that run have one. -/
theorem depth_running {config : Config} (closes : config.closesEarly = true) (library : Library)
    (request : Request) (machine : Machine) :
    (stateAfter (answer ⟨library, config⟩ request machine)).store.depth =
      machine.store.depth + Trace.running (trace ⟨library, config⟩ request machine) := by
  rcases trace_extends library config request machine with ⟨running, extended⟩
  rw [store_trace, extended.depth_eq, extended.running_eq, Trace.leaked, closes]
  rfl

/-! ## Whole runs -/

/-- A machine with all that another one had on its stack and no fewer frames, and with no more
than a bound on top of it. -/
structure Leftover (bound : Remainder) (machine after : Machine) : Prop where
  below : machine.stack.Below after.stack
  values : after.stack.height ≤ machine.stack.height + bound.values
  kept : machine.store.depth ≤ after.store.depth
  frames : after.store.depth ≤ machine.store.depth + bound.frames

namespace Leftover

variable {bound : Remainder} {machine after : Machine}

theorem refl (machine : Machine) : Leftover {} machine machine :=
  ⟨.refl _, Nat.le_refl _, Nat.le_refl _, Nat.le_refl _⟩

theorem trans {more : Remainder} {last : Machine} (first : Leftover bound machine after)
    (second : Leftover more after last) : Leftover (bound.plus more) machine last where
  below := first.below.trans second.below
  values := by
    have lower := first.values
    have upper := second.values
    simp only [Remainder.plus]
    omega
  kept := first.kept.trans second.kept
  frames := by
    have lower := first.frames
    have upper := second.frames
    simp only [Remainder.plus]
    omega

/-- Where there is room for nothing, nothing is left. -/
theorem same (leftover : Leftover {} machine after) :
    after.stack = machine.stack ∧ after.store.depth = machine.store.depth := by
  constructor
  · have long := leftover.values
    rw [after.stack.height_eq, machine.stack.height_eq] at long
    exact Stack.eq_of_values (leftover.below.eq_of_length_le long).symm
  · exact Nat.le_antisymm leftover.frames leftover.kept

end Leftover

section Runs

variable {library : Library} {config : Config}

/-- A program that returns leaves the stack and the number of frames as they were. -/
theorem run_of_ok (closes : config.closesEarly = true) {program : Program}
    {machine after : Machine} (ran : run ⟨library, config⟩ program machine = .ok () after) :
    after.stack = machine.stack ∧ after.store.depth = machine.store.depth := by
  rcases bind_eq_ok ran with ⟨signal, between, performed, ended⟩
  cases ended
  rcases (performBlock_keeps library config program.root).of_ok performed with ⟨_, _, _, stack⟩
  have remains := performBlock_spares library config closes program.root machine
  rw [performed] at remains
  cases remains with
  | ok depth => exact ⟨stack, depth⟩

/-- A program that fails leaves no more than its tree allows, and one frame for each block
that it was in. -/
theorem run_of_error (closes : config.closesEarly = true) {program : Program}
    {machine after : Machine} {fault : RuntimeFault}
    (ran : run ⟨library, config⟩ program machine = .error fault after) :
    Leftover program.root.remainder machine after ∧
      after.store.depth = machine.store.depth +
        Trace.running (trace ⟨library, config⟩ (.run program) machine) := by
  have performed : performBlock ⟨library, config⟩ program.root machine = .error fault after := by
    generalize result : performBlock ⟨library, config⟩ program.root machine = outcome
    cases outcome with
    | ok signal between => cases (bind_of_ok result).symm.trans ran
    | error other between =>
        cases (bind_of_error result).symm.trans ran
        rfl
  have depth := depth_running closes library (.run program) machine
  have answered : answer ⟨library, config⟩ (.run program) machine = .error fault after :=
    bind_of_error ran
  rw [answered] at depth
  have remains := performBlock_spares library config closes program.root machine
  rw [performed] at remains
  cases remains with
  | error values frames =>
      refine ⟨⟨answer_below library config answered, values, ?_, frames⟩, depth⟩
      exact (Nat.le_add_right _ _).trans_eq depth.symm

end Runs

/-- The machine after some programs, each run on what the one before left, whether that
failed or not. -/
def afterRuns (environment : Environment) : List Program → Machine → Machine
  | [], machine => machine
  | program :: rest, machine =>
      afterRuns environment rest (stateAfter (run environment program machine))

/-- Runs that fail one after another leave no more than their programs allow together. -/
theorem afterRuns_leftover {config : Config} (closes : config.closesEarly = true)
    (library : Library) (programs : List Program) (machine : Machine) :
    Leftover (programs.foldr (fun program => program.root.remainder.plus) {}) machine
      (afterRuns ⟨library, config⟩ programs machine) := by
  induction programs generalizing machine with
  | nil => exact .refl machine
  | cons program rest inductionHypothesis =>
      refine Leftover.trans ?_ (inductionHypothesis _)
      cases ran : run ⟨library, config⟩ program machine with
      | ok result after =>
          rcases run_of_ok closes ran with ⟨stack, depth⟩
          refine ⟨?_, ?_, depth.ge, ?_⟩
          · exact stack ▸ .refl _
          · exact stack ▸ Nat.le_add_right _ _
          · exact depth.trans_le (Nat.le_add_right _ _)
      | error fault after => exact (run_of_error closes ran).1

/-- A failed run is not undone: the first element of the unfinished list and the frame of the
block around it stay. -/
theorem failed_run_not_undone :
    ∃ after, run ⟨{}, ⟨8, true⟩⟩
        ⟨.mk false [.conditional (.literal (.truth true) 1)
          (.mk true [.assignment "x" (.array [.literal (.truth true) 2, .variable "ghost" 2] 2) 2]
            1) none 1] 1⟩ (start ⟨8, true⟩) = .error (.unknownVariable "ghost" 2) after ∧
      ¬ after.stack = (start ⟨8, true⟩).stack ∧
      ¬ after.store.depth = (start ⟨8, true⟩).store.depth := by
  refine ⟨_, rfl, ?_, Nat.one_ne_zero⟩
  intro same
  exact Nat.one_ne_zero (congrArg Stack.height same)

/-- Under the policy that closes the frame of every block that is left, a run that returns has
the stack and the number of frames it started with.  One that fails has added one frame for
each block that it was in, and leaves no more values and frames than the list literals and
framed blocks nested in its program can hold; a program without them leaves nothing.  Failing
runs add up to no more than their programs allow together. -/
theorem failed_runs_bounded (library : Library) (config : Config)
    (closes : config.closesEarly = true) :
    (∀ program machine after, run ⟨library, config⟩ program machine = .ok () after →
      after.stack = machine.stack ∧ after.store.depth = machine.store.depth) ∧
    (∀ program machine fault after, run ⟨library, config⟩ program machine = .error fault after →
      Leftover program.root.remainder machine after ∧
      after.store.depth = machine.store.depth +
        Trace.running (trace ⟨library, config⟩ (.run program) machine) ∧
      (program.root.remainder = {} →
        after.stack = machine.stack ∧ after.store.depth = machine.store.depth)) ∧
    (∀ programs machine,
      Leftover (programs.foldr (fun program => program.root.remainder.plus) {}) machine
        (afterRuns ⟨library, config⟩ programs machine)) := by
  refine ⟨fun _ _ _ ran => run_of_ok closes ran, ?_, afterRuns_leftover closes library⟩
  intro program machine fault after ran
  rcases run_of_error closes ran with ⟨leftover, depth⟩
  refine ⟨leftover, depth, ?_⟩
  intro nothing
  rw [nothing] at leftover
  exact leftover.same

/-- A list literal fails at its second element, inside one framed block. -/
theorem failed_runs_bounded_nested :
    ∃ after, run ⟨{}, ⟨8, true⟩⟩
        ⟨.mk false [.conditional (.literal (.truth true) 1)
          (.mk true [.assignment "x" (.array [.literal (.truth true) 2, .variable "ghost" 2] 2) 2]
            1) none 1] 1⟩ (start ⟨8, true⟩) = .error (.unknownVariable "ghost" 2) after ∧
      Leftover ⟨1, 1⟩ (start ⟨8, true⟩) after ∧ after.store.depth = 0 + 1 := by
  rcases failed_runs_bounded {} ⟨8, true⟩ rfl with ⟨_, failed, _⟩
  have ended := failed ⟨.mk false [.conditional (.literal (.truth true) 1)
    (.mk true [.assignment "x" (.array [.literal (.truth true) 2, .variable "ghost" 2] 2) 2] 1)
    none 1] 1⟩ (start ⟨8, true⟩) _ _ rfl
  exact ⟨_, rfl, ended.1, ended.2.1⟩

end Machine
end Scriptlet
