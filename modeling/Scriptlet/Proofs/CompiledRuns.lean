import Mathlib
import Scriptlet.Proofs.Shape
import Scriptlet.Proofs.StackDiscipline

namespace Scriptlet

/-!
# What a compiled program can fail with

Operators and the readers of values fail only with faults about values.  What else can end a
run is told by the places that raise it: a look-up, an open frame, a missing value, or a host.
A tree that was read calls only functions that its library has, so that no run of it asks for
an unknown one.
-/

/-- The faults that operands and arguments give rise to. -/
def RuntimeFault.aboutValues : RuntimeFault → Bool
  | .invalidOperands .. | .invalidOperand .. | .expectedTruth .. | .expectedList ..
  | .expectedNumber .. | .invalidArgument .. => true
  | _ => false

/-- Some callable of the library fails with the fault. -/
inductive Library.Raises (library : Library) (fault : RuntimeFault) : Prop
  | function {name : String} {body : HostFunction} {values : List Value} {line : Nat}
      {before after : World} : library.function? name = some body →
      body values line before = .error fault after → Raises library fault
  | method {name : String} {body : HostMethod} {target : Value} {values : List Value} {line : Nat}
      {before after : World} : library.method? name = some body →
      body target values line before = .error fault after → Raises library fault

namespace Heap

/-! ## Operations on values -/

/-- The action fails only over the values it is given. -/
abbrev FailsOnValues {α : Type} (action : Action α) : Prop :=
  Ensures (fun _ => True) action (fun _ => True) (fun fault => fault.aboutValues = true)

theorem failsOnValues_sure {α : Type} (step : StateM Heap α) : FailsOnValues (Action.sure step) :=
  fun _ _ => ⟨trivial, trivial⟩

theorem failsOnValues_read {α : Type} {reader : Heap → Except RuntimeFault α}
    (faults : ∀ heap fault, reader heap = .error fault → fault.aboutValues = true) :
    FailsOnValues (Action.read reader) := by
  intro heap _
  unfold Action.read
  cases looked : reader heap with
  | ok result => exact ⟨trivial, trivial⟩
  | error fault => exact faults heap fault looked

theorem failsOnValues_invalidOperands {α : Type} (operator : BinaryOperator) (left right : Value)
    (line : Nat) : FailsOnValues (invalidOperands operator left right line : Action α) := by
  apply failsOnValues_read
  intro heap fault failed
  cases failed
  rfl

/-- Looking at the heap first does not fail. -/
theorem failsOnValues_get {α : Type} {next : Heap → Action α}
    (after : ∀ heap, FailsOnValues (next heap)) : FailsOnValues (get >>= next) :=
  fun heap start => after heap heap start

theorem failsOnValues_sum (left right : Value) (line : Nat) :
    FailsOnValues (sum left right line) := by
  apply failsOnValues_get
  intro heap
  split
  · exact .pure trivial
  · exact failsOnValues_sure _
  · exact failsOnValues_sure _
  · exact .ite (fun _ => .pure trivial) (fun _ => failsOnValues_invalidOperands _ _ _ _)

theorem failsOnValues_difference (left right : Value) (line : Nat) :
    FailsOnValues (difference left right line) := by
  apply failsOnValues_get
  intro heap
  split
  · exact .pure trivial
  · exact failsOnValues_sure _
  · exact failsOnValues_sure _
  · exact .ite (fun _ => .pure trivial) (fun _ => failsOnValues_invalidOperands _ _ _ _)

theorem failsOnValues_comparison (operator : BinaryOperator) (left right : Value) (line : Nat) :
    FailsOnValues (comparison operator left right line) := by
  apply failsOnValues_get
  intro heap
  split
  · exact .pure trivial
  · exact .pure trivial
  · exact .ite (fun _ => .pure trivial) (fun _ => failsOnValues_invalidOperands _ _ _ _)
  · exact failsOnValues_invalidOperands _ _ _ _

theorem failsOnValues_product (operator : BinaryOperator) (left right : Value) (line : Nat) :
    FailsOnValues (product operator left right line) := by
  unfold product
  split
  · exact .pure trivial
  · exact failsOnValues_invalidOperands _ _ _ _

theorem failsOnValues_connective (operator : BinaryOperator) (left right : Value) (line : Nat) :
    FailsOnValues (connective operator left right line) := by
  unfold connective
  split
  · exact .pure trivial
  · exact failsOnValues_invalidOperands _ _ _ _

theorem failsOnValues_binary (operator : BinaryOperator) (left right : Value) (line : Nat) :
    FailsOnValues (binary operator left right line) := by
  cases operator with
  | add => exact failsOnValues_sum left right line
  | subtract => exact failsOnValues_difference left right line
  | multiply | divide | modulo => exact failsOnValues_product _ left right line
  | greater => exact failsOnValues_comparison .greater left right line
  | less => exact failsOnValues_comparison .less left right line
  | equal => exact failsOnValues_comparison .equal left right line
  | and | or => exact failsOnValues_connective _ left right line

theorem failsOnValues_unary (operator : UnaryOperator) (operand : Value) (line : Nat) :
    FailsOnValues (unary operator operand line) := by
  unfold unary
  split
  · exact .pure trivial
  · exact .pure trivial
  · apply failsOnValues_read
    intro heap fault failed
    cases failed
    rfl

theorem failsOnValues_asTruth (value : Value) (line : Nat) :
    FailsOnValues (Action.read (asTruth value line)) := by
  apply failsOnValues_read
  intro heap fault failed
  unfold asTruth at failed
  split at failed
  · cases failed
  · cases failed
    rfl

theorem failsOnValues_asList (value : Value) (line : Nat) :
    FailsOnValues (Action.read (asList value line)) := by
  apply failsOnValues_read
  intro heap fault failed
  unfold asList at failed
  split at failed
  · cases failed
  · cases failed
    rfl

theorem toNumber_fault {value : Value} {line : Nat} {heap : Heap} {fault : RuntimeFault}
    (failed : toNumber value line heap = .error fault) : fault.aboutValues = true := by
  unfold toNumber at failed
  split at failed
  · cases failed
  · split at failed
    · cases failed
    · cases failed
      rfl
  · cases failed
    rfl

theorem integerOn_fault {line : Nat} {x : Float} {fault : RuntimeFault}
    (failed : Number.integerOn line x = .error fault) : fault.aboutValues = true := by
  unfold Number.integerOn at failed
  split at failed
  · cases failed
  · cases failed
    rfl
  · cases failed
    rfl

theorem rangeBound_fault {value : Value} {line : Nat} {heap : Heap} {fault : RuntimeFault}
    (failed : rangeBound value line heap = .error fault) : fault.aboutValues = true := by
  unfold rangeBound at failed
  cases number : toNumber value line heap with
  | error other =>
      rw [number] at failed
      cases failed
      exact toNumber_fault number
  | ok x =>
      rw [number] at failed
      exact integerOn_fault failed

theorem mapM_ofIntOn_fault {line : Nat} {integers : List Int} {fault : RuntimeFault}
    (failed : (integers.mapM fun i => do
      let x ← Number.ofIntOn line i
      pure (Value.number x)) = .error fault) : fault.aboutValues = true := by
  induction integers with
  | nil => cases failed
  | cons i rest inductionHypothesis =>
      rw [List.mapM_cons] at failed
      cases first : Number.ofIntOn line i with
      | error other =>
          rw [first] at failed
          cases failed
          unfold Number.ofIntOn at first
          split at first <;> cases first
          rfl
      | ok x =>
          rw [first] at failed
          cases others : rest.mapM (fun i => do
              let x ← Number.ofIntOn line i
              pure (Value.number x)) with
          | error other =>
              simp only [others] at failed
              cases failed
              exact inductionHypothesis others
          | ok values =>
              simp only [others] at failed
              cases failed

theorem failsOnValues_range (first last : Value) (line : Nat) :
    FailsOnValues (range first last line) := by
  apply Ensures.bind (failsOnValues_read fun _ _ => rangeBound_fault)
  intro m _
  apply Ensures.bind (failsOnValues_read fun _ _ => rangeBound_fault)
  intro n _
  apply Ensures.bind (failsOnValues_read fun _ _ => mapM_ofIntOn_fault)
  intro values _
  exact failsOnValues_sure _

end Heap

namespace Direct

/-! ## Evaluation -/

/-- The faults include all that a tree can fail with whose calls are all of functions that
the library has. -/
structure Covers {σ : Type} (bindings : Variables σ) (library : Library)
    (faults : RuntimeFault → Prop) : Prop where
  values : ∀ fault, fault.aboutValues = true → faults fault
  hosts : ∀ fault, library.Raises fault → faults fault
  lookups : ∀ name line, faults (.unknownVariable name line)
  methods : ∀ name line, faults (.unknownMethod name line)
  missing : ∀ line, faults (.missingValue line)
  frames : ∀ store fault, bindings.enter store = .error fault → faults fault

section Faults

variable {σ α : Type} {bindings : Variables σ} {library : Library} {faults : RuntimeFault → Prop}

/-- The computation fails with none but the given faults. -/
abbrev FailsWith (faults : RuntimeFault → Prop) (run : Run σ α) : Prop :=
  Ensures (fun _ => True) run (fun _ => True) faults

theorem failsWith_onWorld {action : World.Action α}
    (known : ∀ world fault after, action world = .error fault after → faults fault) :
    FailsWith faults (onWorld action : Run σ α) := by
  rintro ⟨store, world⟩ _
  unfold onWorld
  cases acted : action world with
  | ok result after =>
      simp only [acted]
      exact ⟨trivial, trivial⟩
  | error fault after =>
      simp only [acted]
      exact known world fault after acted

variable (covers : Covers bindings library faults)
include covers

theorem failsWith_onHeap {action : Heap.Action α} (onValues : Heap.FailsOnValues action) :
    FailsWith faults (onHeap action : Run σ α) := by
  apply failsWith_onWorld
  rintro ⟨heap, sink⟩ fault after failed
  apply covers.values
  unfold World.onHeap at failed
  cases acted : action heap with
  | ok result heapAfter =>
      simp only [acted] at failed
      cases failed
  | error other heapAfter =>
      simp only [acted] at failed
      cases failed
      exact onValues.of_error trivial acted

theorem failsWith_lookup (name : String) (line : Nat) :
    FailsWith faults (lookup bindings name line) := by
  intro state _
  unfold lookup
  cases bindings.value? state.bindings name with
  | none => exact covers.lookups name line
  | some value => exact ⟨trivial, trivial⟩

theorem failsWith_enterIf (framed : Bool) : FailsWith faults (enterIf bindings framed) := by
  cases framed with
  | false => exact .pure trivial
  | true =>
      rintro ⟨store, world⟩ _
      simp only [enterIf, enter, if_true]
      cases entered : bindings.enter store with
      | ok opened => exact ⟨trivial, trivial⟩
      | error fault => exact covers.frames store fault entered

omit covers in
theorem failsWith_leaveIf (framed early : Bool) :
    FailsWith faults (leaveIf bindings framed early) := by
  cases framed with
  | false => exact .pure trivial
  | true => exact fun _ _ => ⟨trivial, trivial⟩

theorem failsWith_valueOf {expression : Run σ Outcome} (known : FailsWith faults expression)
    (line : Nat) : FailsWith faults (valueOf line expression) := by
  apply Ensures.bind known
  intro outcome _
  unfold required
  cases outcome.value? with
  | none => exact .throw (covers.missing line)
  | some value => exact .pure trivial

theorem failsWith_valuesOf (line : Nat) {nodes : List Node}
    (all : ∀ node ∈ nodes, FailsWith faults (perform bindings library node)) :
    FailsWith faults (valuesOf bindings library line nodes) := by
  induction nodes with
  | nil =>
      rw [valuesOf]
      exact .pure trivial
  | cons node rest inductionHypothesis =>
      have split := List.forall_mem_cons.mp all
      rw [valuesOf]
      apply Ensures.bind (failsWith_valueOf covers split.1 line)
      intro value _
      exact (inductionHypothesis split.2).bind fun _ _ => .pure trivial

omit covers in
theorem failsWith_performEach {nodes : List Node}
    (all : ∀ node ∈ nodes, FailsWith faults (perform bindings library node)) :
    FailsWith faults (performEach bindings library nodes) := by
  induction nodes with
  | nil =>
      rw [performEach]
      exact .pure trivial
  | cons node rest inductionHypothesis =>
      have split := List.forall_mem_cons.mp all
      have signalled : FailsWith faults (signalOf (perform bindings library node)) :=
        split.1.bind fun _ _ => .pure trivial
      rw [performEach]
      apply Ensures.bind signalled
      intro signal _
      cases signal with
      | proceed => exact inductionHypothesis split.2
      | «break» => exact .pure trivial
      | halt => exact .pure trivial

theorem failsWith_performBlock {framed : Bool} {statements : List Node} {line : Nat}
    (all : ∀ node ∈ statements, FailsWith faults (perform bindings library node)) :
    FailsWith faults (performBlock bindings library (.mk framed statements line)) := by
  rw [performBlock]
  apply Ensures.bind (failsWith_enterIf covers framed)
  intro _ _
  apply Ensures.bind (failsWith_performEach all)
  intro ending _
  exact (failsWith_leaveIf framed ending.early).bind fun _ _ => .pure trivial

omit covers in
theorem failsWith_iterate {bind : Value → Run σ Unit} {body : Run σ Signal}
    (binding : ∀ item, FailsWith faults (bind item)) (bodies : FailsWith faults body)
    (items : List Value) : FailsWith faults (iterate bind body items) := by
  induction items with
  | nil => exact .pure trivial
  | cons item rest inductionHypothesis =>
      apply Ensures.bind (binding item)
      intro _ _
      apply Ensures.bind bodies
      intro signal _
      cases signal with
      | proceed => exact inductionHypothesis
      | «break» => exact .pure trivial
      | halt => exact .pure trivial

theorem failsWith_expression {node : Node} (read : node.IsReadExpression library.hasFunction) :
    FailsWith faults (perform bindings library node) := by
  induction read with
  | literal _ =>
      rw [perform]
      exact (failsWith_onHeap covers (Heap.failsOnValues_sure _)).bind fun _ _ => .pure trivial
  | array _ elements =>
      rw [perform]
      apply Ensures.bind (failsWith_valuesOf covers _ elements)
      intro values _
      exact (failsWith_onHeap covers (Heap.failsOnValues_sure _)).bind fun _ _ => .pure trivial
  | «variable» _ _ =>
      rw [perform]
      exact (failsWith_lookup covers _ _).bind fun _ _ => .pure trivial
  | binary _ _ left right =>
      rw [perform]
      apply Ensures.bind (failsWith_valueOf covers left _)
      intro x _
      apply Ensures.bind (failsWith_valueOf covers right _)
      intro y _
      exact (failsWith_onHeap covers (Heap.failsOnValues_binary _ x y _)).bind
        fun _ _ => .pure trivial
  | unary _ operand =>
      rw [perform]
      apply Ensures.bind (failsWith_valueOf covers operand _)
      intro x _
      exact (failsWith_onHeap covers (Heap.failsOnValues_unary _ x _)).bind
        fun _ _ => .pure trivial
  | @call function arguments line registered _ _ arguments =>
      rw [perform]
      cases found : library.function? function with
      | none =>
          unfold Library.hasFunction at registered
          rw [found] at registered
          cases registered
      | some body =>
          apply Ensures.bind (failsWith_valuesOf covers _ arguments)
          intro values _
          apply Ensures.bind (failsWith_onWorld fun world fault after failed =>
            covers.hosts fault (.function found failed))
          intro _ _
          exact .pure trivial
  | @methodCall receiver method arguments line _ _ _ _ arguments =>
      rw [perform]
      cases found : library.method? method with
      | none => exact .throw (covers.methods _ _)
      | some body =>
          apply Ensures.bind (failsWith_lookup covers _ _)
          intro target _
          apply Ensures.bind (failsWith_valuesOf covers _ arguments)
          intro values _
          apply Ensures.bind (failsWith_onWorld fun world fault after failed =>
            covers.hosts fault (.method found failed))
          intro _ _
          exact .pure trivial
  | @range start stop line startRead _ last =>
      have first : FailsWith faults (perform bindings library start) := by
        cases startRead with
        | «variable» _ _ =>
            rw [perform]
            exact (failsWith_lookup covers _ _).bind fun _ _ => .pure trivial
        | number _ =>
            rw [perform]
            exact (failsWith_onHeap covers (Heap.failsOnValues_sure _)).bind
              fun _ _ => .pure trivial
      rw [perform]
      apply Ensures.bind (failsWith_valueOf covers first _)
      intro x _
      apply Ensures.bind (failsWith_valueOf covers last _)
      intro y _
      exact (failsWith_onHeap covers (Heap.failsOnValues_range x y _)).bind
        fun _ _ => .pure trivial

theorem failsWith_assignment {name : String} {value : Node} {line : Nat}
    (known : FailsWith faults (perform bindings library value)) :
    FailsWith faults (perform bindings library (.assignment name value line)) := by
  rw [perform]
  apply Ensures.bind (failsWith_valueOf covers known line)
  intro x _
  have assigned : FailsWith faults (assign bindings name x) := fun _ _ => ⟨trivial, trivial⟩
  exact assigned.bind fun _ _ => .pure trivial

theorem failsWith_declaration {node : Node} (declared : node.IsDeclaration) :
    FailsWith faults (perform bindings library node) := by
  cases declared with
  | mk _ =>
      apply failsWith_assignment covers
      rw [perform]
      exact (failsWith_onHeap covers (Heap.failsOnValues_sure _)).bind fun _ _ => .pure trivial

theorem failsWith_conditional {condition : Node} {thenBranch : Block} {elseBranch : Option Block}
    {line : Nat} (conditions : FailsWith faults (perform bindings library condition))
    (thens : FailsWith faults (performBlock bindings library thenBranch))
    (elses : FailsWith faults (performBranch bindings library elseBranch)) :
    FailsWith faults
      (perform bindings library (.conditional condition thenBranch elseBranch line)) := by
  rw [perform]
  apply Ensures.bind (failsWith_valueOf covers conditions line)
  intro x _
  apply Ensures.bind (failsWith_onHeap covers (Heap.failsOnValues_asTruth x line))
  intro holds _
  have branches : FailsWith faults
      (if holds then performBlock bindings library thenBranch
        else performBranch bindings library elseBranch) :=
    .ite (fun _ => thens) (fun _ => elses)
  exact branches.bind fun _ _ => .pure trivial

theorem failsWith_loop {iterator : String} {iterable : Node} {body : Block} {line : Nat}
    (iterables : FailsWith faults (perform bindings library iterable))
    (bodies : FailsWith faults (performBody bindings library body)) :
    FailsWith faults (perform bindings library (.loop iterator iterable body line)) := by
  rw [perform]
  apply Ensures.bind (failsWith_valueOf covers iterables line)
  intro x _
  apply Ensures.bind (failsWith_onHeap covers (Heap.failsOnValues_asList x line))
  intro address _
  have looked : FailsWith faults (get : Run σ (State σ)) := fun _ _ => ⟨trivial, trivial⟩
  apply Ensures.bind looked
  intro state _
  have binding : ∀ item, FailsWith faults (assign bindings iterator item) :=
    fun _ _ _ => ⟨trivial, trivial⟩
  exact (failsWith_iterate binding bodies _).bind fun _ _ => .pure trivial

mutual

theorem failsWith_statement : ∀ {node : Node}, node.IsReadStatement library.hasFunction →
    FailsWith faults (perform bindings library node)
  | _, .assignment _ _ value => failsWith_assignment covers (failsWith_expression covers value)
  | _, .call called => failsWith_expression covers called
  | _, .methodCall called => failsWith_expression covers called
  | _, .conditional condition thenBranch elseBranch =>
      failsWith_conditional covers (failsWith_expression covers condition)
        (failsWith_block thenBranch).1 (failsWith_else elseBranch)
  | _, .declarations _ all => by
      rw [perform]
      apply Ensures.bind (failsWith_performBlock covers
        fun node among => failsWith_declaration covers (all node among))
      intro _ _
      exact .pure trivial
  | _, .loop _ iterable body =>
      failsWith_loop covers (failsWith_expression covers iterable) (failsWith_block body).2
  | _, .flag => by
      rw [perform]
      exact .pure trivial

theorem failsWith_block : ∀ {block : Block}, Node.IsReadBlock library.hasFunction block →
    FailsWith faults (performBlock bindings library block) ∧
      FailsWith faults (performBody bindings library block)
  | _, .mk all => by
      have each := fun node among => failsWith_statement (all node among)
      refine ⟨failsWith_performBlock covers each, ?_⟩
      rw [performBody]
      exact (failsWith_performEach each).bind fun _ _ => .pure trivial

theorem failsWith_else : ∀ {branch : Option Block}, Node.IsReadElse library.hasFunction branch →
    FailsWith faults (performBranch bindings library branch)
  | _, .none => by
      rw [performBranch]
      exact .pure trivial
  | _, .block braced => by
      rw [performBranch]
      exact (failsWith_block braced).1
  | _, .chained nested => by
      rw [performBranch]
      apply failsWith_performBlock covers
      intro node among
      rw [List.mem_singleton.mp among]
      exact failsWith_statement nested

end

theorem failsWith_program {program : Program} (read : program.IsRead library.hasFunction) :
    FailsWith faults (performBlock bindings library program.root) := by
  cases read with
  | mk all =>
      exact failsWith_performBlock covers fun node among =>
        failsWith_statement covers (all node among)

end Faults

end Direct

/-! ## Compiled programs -/

/-- The faults that a name nobody knows gives rise to: a function that is not registered, or a
slot that does not exist. -/
def RuntimeFault.isUnresolved : RuntimeFault → Bool
  | .unknownFunction .. | .unboundSlot .. => true
  | _ => false

theorem RuntimeFault.isUnresolved_of_aboutValues {fault : RuntimeFault}
    (about : fault.aboutValues = true) : fault.isUnresolved = false := by
  cases fault <;> first | rfl | cases about

/-- A name is left unresolved only where a host says so. -/
theorem Direct.covers_unresolved (library : Library) (config : Config) :
    Direct.Covers (.ofStore config) library
      (fun fault => fault.isUnresolved = true → library.Raises fault) where
  values fault about unresolved := by
    rw [RuntimeFault.isUnresolved_of_aboutValues about] at unresolved
    cases unresolved
  hosts fault raised _ := raised
  lookups name line unresolved := by cases unresolved
  methods name line unresolved := by cases unresolved
  missing line unresolved := by cases unresolved
  frames store fault failed unresolved := by
    simp only [Variables.ofStore, Store.enter] at failed
    split at failed
    · cases failed
      cases unresolved
    · cases failed

theorem Machine.run_unresolved {library : Library} {config : Config} {program : Program}
    (read : program.IsRead library.hasFunction) {machine after : Machine} {fault : RuntimeFault}
    (ran : Machine.run ⟨library, config⟩ program machine = .error fault after)
    (unresolved : fault.isUnresolved = true) : library.Raises fault := by
  have mirrored := (performBlock_keeps library config program.root).map fun _ => ()
  have known := Direct.failsWith_program (Direct.covers_unresolved library config) read
  exact known.of_error trivial (mirrored.of_error ran).1 unresolved

/-- What compiling gives has the shape of a tree that is read: values and statements stand
where they belong, blocks are framed by their place, and calls are told from variables by the
library.  So no run of it, from whatever state, misses a function or a slot, unless a callable
of the host fails with just that fault. -/
theorem compile_resolves {library : Library} {source : String} {arguments rest : Arguments}
    {program : Program} (compiled : compile library source arguments = .ok program rest) :
    Program.IsRead library.hasFunction program ∧
      ∀ (config : Config) (machine after : Machine) (fault : RuntimeFault),
        Machine.run ⟨library, config⟩ program machine = .error fault after →
        fault.isUnresolved = true → library.Raises fault := by
  have read := compile_isRead compiled
  refine ⟨read, ?_⟩
  intro config machine after fault ran unresolved
  exact Machine.run_unresolved read ran unresolved

/-- A library whose only function denies that it is there. -/
def Library.denying : Library where
  functions := [("ask", fun _ line => throw (.unknownFunction "ask" line))]

/-- A declaration, and a conditional with a loop over a range in its first branch and another
conditional behind its `else`. -/
def Program.asking : Program where
  root := .mk false
    [.compound (.mk false [.assignment "busy" (.literal (.truth false) 1) 1] 1),
      .conditional (.variable "busy" 2)
        (.mk true
          [.loop "i" (.range (.variable "low" 3) (.variable "high" 3) 3)
            (.mk true [.call "ask" [.variable "i" 3] 3] 3) 3]
          2)
        (some (.mk false
          [.conditional (.unary .not (.variable "busy" 4) 4)
            (.mk true
              [.assignment "x" (.array [.variable "busy" 5] 5) 5,
                .call "ask" [.variable "x" 6] 6]
              4)
            (some (.mk true [.flag .break 7] 7)) 4]
          4))
        2] 1

def Program.askingSource : String :=
  "with busy: bool\nif busy \x7b\nfor i in low..high \x7b ask i \x7d\n" ++
    "\x7d else if not busy \x7b\nx = [busy]\nask x\n\x7d else \x7b break \x7d"

theorem compile_resolves_denying :
    compile .denying Program.askingSource ⟨[.truth false], {}⟩ = .ok .asking ⟨[], {}⟩ ∧
      Program.IsRead Library.denying.hasFunction .asking ∧
      Library.denying.Raises (.unknownFunction "ask" 6) := by
  have compiled : compile .denying Program.askingSource ⟨[.truth false], {}⟩ =
      .ok .asking ⟨[], {}⟩ := by cbv
  have resolves := compile_resolves compiled
  have ran : ∃ after, Machine.run ⟨.denying, {}⟩ .asking (.start {}) =
      .error (.unknownFunction "ask" 6) after := ⟨_, by cbv⟩
  obtain ⟨after, ran⟩ := ran
  exact ⟨compiled, resolves.1, resolves.2 {} _ after _ ran rfl⟩

end Scriptlet
