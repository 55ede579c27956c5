import Scriptlet.Proofs.RunningAlike

namespace Scriptlet
namespace Machine

/-!
# Moments of a run

Evaluation is told as a whole, from the machine at the beginning to the machine at the end.  What
is true all along is said of the moments in between: where each part of a tree is begun, and
where it ends or fails.

A part is a node or what is left of a sequence: of elements or arguments still to be computed, of
statements still to be run, of rounds still to be gone.  One part leads to another when the
second is begun next inside of the first, and the machine there is what came out of the parts
before it.
-/

/-- A part of a run, with what is still to be done in it. -/
inductive Piece where
  | tree (node : Node)
  | elements (line : Nat) (nodes : List Node)
  | arguments (line : Nat) (nodes : List Node)
  | statements (nodes : List Node)
  | block (block : Block)
  | rounds (iterator : String) (body : Block) (items : List Value)

namespace Piece

/-- What holds of every node of the trees that are still to be run. -/
def All (property : Node → Prop) : Piece → Prop
  | .tree root => root.All property
  | .elements _ rest => ∀ root ∈ rest, root.All property
  | .arguments _ rest => ∀ root ∈ rest, root.All property
  | .statements rest => ∀ root ∈ rest, root.All property
  | .block whole => ∀ root ∈ whole.statements, root.All property
  | .rounds _ body _ => ∀ root ∈ body.statements, root.All property

/-- The items of the rounds that are still to be gone. -/
def items : Piece → List Value
  | .rounds _ _ rest => rest
  | _ => []

/-- The machine at the end of a part, whether it fails or not. -/
def final (environment : Environment) : Piece → Machine → Machine
  | .tree root, machine => stateAfter (perform environment root machine)
  | .elements line rest, machine => stateAfter (pushEach environment line rest machine)
  | .arguments line rest, machine => stateAfter (valuesOf environment line rest machine)
  | .statements rest, machine => stateAfter (performEach environment rest machine)
  | .block whole, machine => stateAfter (performBlock environment whole machine)
  | .rounds iterator body rest, machine =>
      stateAfter (iterate (assign iterator) (performBody environment body) rest machine)

end Piece

variable {environment : Environment}

/-- Running the first part from the first machine leads to running the second part from the
second machine. -/
inductive Leads (environment : Environment) : Piece → Machine → Piece → Machine → Prop
  | elements {machine : Machine} (nodes : List Node) (line : Nat) :
      Leads environment (.tree (.array nodes line)) machine (.elements line nodes) machine
  | element {machine : Machine} (line : Nat) (node : Node) (rest : List Node) :
      Leads environment (.elements line (node :: rest)) machine (.tree node) machine
  | laterElements {machine between after : Machine} {line : Nat} {node : Node}
      {value : Value} (rest : List Node)
      (taken : taking line (perform environment node) machine = .ok value between)
      (pushed : push value between = .ok () after) :
      Leads environment (.elements line (node :: rest)) machine (.elements line rest) after
  | left {machine : Machine} (operator : BinaryOperator) (left right : Node) (line : Nat) :
      Leads environment (.tree (.binary operator left right line)) machine (.tree left) machine
  | right {machine between : Machine} {left : Node} {line : Nat} {value : Value}
      (operator : BinaryOperator) (right : Node)
      (taken : taking line (perform environment left) machine = .ok value between) :
      Leads environment (.tree (.binary operator left right line)) machine (.tree right) between
  | operand {machine : Machine} (operator : UnaryOperator) (operand : Node) (line : Nat) :
      Leads environment (.tree (.unary operator operand line)) machine (.tree operand) machine
  | callArguments {machine : Machine} {function : String} {body : HostFunction}
      (nodes : List Node) (line : Nat)
      (found : environment.library.function? function = some body) :
      Leads environment (.tree (.call function nodes line)) machine (.arguments line nodes)
        machine
  | methodArguments {machine between : Machine} {receiver method : String} {body : HostMethod}
      {line : Nat} {target : Value} (nodes : List Node)
      (found : environment.library.method? method = some body)
      (bound : lookup receiver line machine = .ok target between) :
      Leads environment (.tree (.methodCall receiver method nodes line)) machine
        (.arguments line nodes) between
  | argument {machine : Machine} (line : Nat) (node : Node) (rest : List Node) :
      Leads environment (.arguments line (node :: rest)) machine (.tree node) machine
  | laterArguments {machine between : Machine} {line : Nat} {node : Node} {value : Value}
      (rest : List Node)
      (taken : taking line (perform environment node) machine = .ok value between) :
      Leads environment (.arguments line (node :: rest)) machine (.arguments line rest) between
  | first {machine : Machine} (first last : Node) (line : Nat) :
      Leads environment (.tree (.range first last line)) machine (.tree first) machine
  | last {machine between : Machine} {first : Node} {line : Nat} {value : Value} (last : Node)
      (taken : taking line (perform environment first) machine = .ok value between) :
      Leads environment (.tree (.range first last line)) machine (.tree last) between
  | assigned {machine : Machine} (name : String) (value : Node) (line : Nat) :
      Leads environment (.tree (.assignment name value line)) machine (.tree value) machine
  | condition {machine : Machine} (condition : Node) (thenBranch : Block)
      (elseBranch : Option Block) (line : Nat) :
      Leads environment (.tree (.conditional condition thenBranch elseBranch line)) machine
        (.tree condition) machine
  | thenBranch {machine between after : Machine} {condition : Node} {line : Nat} {value : Value}
      (thenBranch : Block) (elseBranch : Option Block)
      (taken : taking line (perform environment condition) machine = .ok value between)
      (holds : onHeap (Heap.Action.read (Heap.asTruth value line)) between = .ok true after) :
      Leads environment (.tree (.conditional condition thenBranch elseBranch line)) machine
        (.block thenBranch) after
  | elseBranch {machine between after : Machine} {condition : Node} {line : Nat} {value : Value}
      (thenBranch elseBranch : Block)
      (taken : taking line (perform environment condition) machine = .ok value between)
      (fails : onHeap (Heap.Action.read (Heap.asTruth value line)) between = .ok false after) :
      Leads environment (.tree (.conditional condition thenBranch (some elseBranch) line)) machine
        (.block elseBranch) after
  | compound {machine : Machine} (block : Block) :
      Leads environment (.tree (.compound block)) machine (.block block) machine
  | unframed {machine : Machine} (statements : List Node) (line : Nat) :
      Leads environment (.block (.mk false statements line)) machine (.statements statements)
        machine
  | framed {machine entered : Machine} (statements : List Node) (line : Nat)
      (opened : enter machine = .ok () entered) :
      Leads environment (.block (.mk true statements line)) machine (.statements statements)
        entered
  | statement {machine : Machine} (node : Node) (rest : List Node) :
      Leads environment (.statements (node :: rest)) machine (.tree node) machine
  | laterStatements {machine after : Machine} {node : Node} (rest : List Node)
      (proceeded : asStatement node (perform environment node) machine = .ok .proceed after) :
      Leads environment (.statements (node :: rest)) machine (.statements rest) after
  | iterable {machine : Machine} (iterator : String) (iterable : Node) (body : Block)
      (line : Nat) :
      Leads environment (.tree (.loop iterator iterable body line)) machine (.tree iterable)
        machine
  | rounds {machine between after : Machine} {iterable : Node} {line : Nat} {value : Value}
      {address : Nat} (iterator : String) (body : Block)
      (taken : taking line (perform environment iterable) machine = .ok value between)
      (listed : onHeap (Heap.Action.read (Heap.asList value line)) between = .ok address after) :
      Leads environment (.tree (.loop iterator iterable body line)) machine
        (.rounds iterator body (after.world.heap.elements address)) after
  | round {machine bound : Machine} {iterator : String} {item : Value} (body : Block)
      (rest : List Value) (assigned : assign iterator item machine = .ok () bound) :
      Leads environment (.rounds iterator body (item :: rest)) machine
        (.statements body.statements) bound
  | laterRounds {machine bound after : Machine} {iterator : String} {item : Value} {body : Block}
      (rest : List Value) (assigned : assign iterator item machine = .ok () bound)
      (proceeded : performBody environment body bound = .ok .proceed after) :
      Leads environment (.rounds iterator body (item :: rest)) machine
        (.rounds iterator body rest) after

/-- The machine is passed while the part is run: at its beginning, at its end, or while some part
that it leads to is run. -/
inductive Passes (environment : Environment) : Piece → Machine → Machine → Prop
  | start (piece : Piece) (machine : Machine) : Passes environment piece machine machine
  | final (piece : Piece) (machine : Machine) :
      Passes environment piece machine (piece.final environment machine)
  | inside {piece part : Piece} {machine between passed : Machine} :
      Leads environment piece machine part between → Passes environment part between passed →
      Passes environment piece machine passed

theorem Leads.all {property : Node → Prop} {piece part : Piece} {machine next : Machine}
    (leads : Leads environment piece machine part next) (all : piece.All property) :
    part.All property := by
  cases leads with
  | elements | callArguments | methodArguments | compound => exact fun _ => Node.All.below all
  | element | argument | statement => exact all _ (.head _)
  | laterElements | laterArguments | laterStatements =>
      exact fun root member => all root (.tail _ member)
  | left | operand | first | assigned | condition | iterable => exact Node.All.below all (.head _)
  | right | last => exact Node.All.below all (.tail _ (.head _))
  | thenBranch =>
      exact fun _ member => Node.All.below all (.tail _ (List.mem_append_left _ member))
  | elseBranch =>
      exact fun _ member => Node.All.below all (.tail _ (List.mem_append_right _ member))
  | unframed | framed | round | laterRounds => exact all
  | rounds => exact fun _ member => Node.All.below all (.tail _ member)

end Machine

/-! ## Machines that are alike with themselves

A likeness that puts nothing on other lines compares a run with itself.  Then it says what is
true of one machine, and stays true. -/

namespace Likeness

open Machine

variable {likeness : Likeness} {library : Library} {config : Config} {α : Type}
  {known : likeness.Knowledge} {machine after : Machine}

section Ending

variable {results : likeness.Knowledge → α → α → Prop} {run : Machine.Run α}
  (goes : likeness.Goes likeness.machines results known run run)
  (alike : likeness.machines known machine machine)
include goes alike

theorem Goes.reached {result : α} (ran : run machine = .ok result after) :
    ∃ now, likeness.later known now ∧ results now result result ∧
      likeness.machines now after after := by
  have ends := goes known (likeness.later_refl known) machine machine alike
  rwa [ran] at ends

/-- The machine at the end is alike with itself, whether the run fails or not. -/
theorem Goes.ends_alike :
    ∃ now, likeness.later known now ∧
      likeness.machines now (stateAfter (run machine)) (stateAfter (run machine)) := by
  have ends := goes known (likeness.later_refl known) machine machine alike
  cases ran : run machine with
  | ok result after =>
      rw [ran] at ends
      rcases ends with ⟨now, later, _, reached⟩
      exact ⟨now, later, reached⟩
  | error fault after =>
      rw [ran] at ends
      rcases ends with excused | ⟨_, now, later, reached⟩
      · exact excused.elim
      · exact ⟨now, later, reached⟩

end Ending

/-- The machine is alike with itself, and so are the items of the rounds ahead. -/
structure Ready (likeness : Likeness) (known : likeness.Knowledge) (piece : Piece)
    (machine : Machine) : Prop where
  machine : likeness.machines known machine machine
  items : likeness.Values known piece.items piece.items

section Trees

variable (unmoved : likeness.place = id)
include unmoved

theorem goes_performAlone {node : Node} (fits : node.All (likeness.Fits library library)) :
    likeness.Goes likeness.machines likeness.Equal known (perform ⟨library, config⟩ node)
      (perform ⟨library, config⟩ node) := by
  have goes := @goes_perform likeness library library config node fits known
  rwa [unmoved, node.renumbered_id] at goes

theorem goes_bodyAlone {body : Block}
    (fits : ∀ node ∈ body.statements, node.All (likeness.Fits library library)) :
    likeness.Goes likeness.machines likeness.Equal known (performBody ⟨library, config⟩ body)
      (performBody ⟨library, config⟩ body) := by
  have goes := @goes_performBody likeness library library config body fits known
  rwa [unmoved, body.renumbered_id] at goes

theorem alike_taken (alike : likeness.machines known machine machine) {node : Node}
    (fits : node.All (likeness.Fits library library)) {line : Nat} {value : Value}
    (taken : taking line (perform ⟨library, config⟩ node) machine = .ok value after) :
    ∃ now, likeness.later known now ∧ likeness.value now value value ∧
      likeness.machines now after after := by
  have goes : likeness.Goes likeness.machines likeness.value known
      (taking line (perform ⟨library, config⟩ node))
      (taking (likeness.place line) (perform ⟨library, config⟩ node)) :=
    goes_taking (goes_performAlone unmoved fits) line
  rw [unmoved] at goes
  exact goes.reached alike taken

/-- Looking at a value leaves the machine alike with itself. -/
theorem alike_tested (alike : likeness.machines known machine machine) {value : Value}
    (values : likeness.value known value value) {line : Nat} {holds : Bool}
    (tested : onHeap (Heap.Action.read (Heap.asTruth value line)) machine = .ok holds after) :
    ∃ now, likeness.later known now ∧ likeness.machines now after after := by
  have goes := goes_onMachineHeap (goes_asTruth values line)
  rw [unmoved] at goes
  rcases goes.reached alike tested with ⟨now, later, _, reached⟩
  exact ⟨now, later, reached⟩

theorem alike_listed (alike : likeness.machines known machine machine) {value : Value}
    (values : likeness.value known value value) {line address : Nat}
    (listed : onHeap (Heap.Action.read (Heap.asList value line)) machine = .ok address after) :
    ∃ now, likeness.later known now ∧ likeness.Addresses now address address ∧
      likeness.machines now after after := by
  have goes := goes_onMachineHeap (goes_asList values line)
  rw [unmoved] at goes
  exact goes.reached alike listed

theorem alike_found (alike : likeness.machines known machine machine) {name : String}
    {line : Nat} {value : Value} (found : lookup name line machine = .ok value after) :
    ∃ now, likeness.later known now ∧ likeness.machines now after after := by
  have goes := @goes_lookup likeness known name line
  rw [unmoved] at goes
  rcases goes.reached alike found with ⟨now, later, _, reached⟩
  exact ⟨now, later, reached⟩

variable {piece part : Piece} {next passed : Machine}

/-- One step of a run stays with machines that are alike with themselves. -/
theorem Ready.leads (ready : likeness.Ready known piece machine)
    (fits : piece.All (likeness.Fits library library))
    (leads : Leads ⟨library, config⟩ piece machine part next) :
    ∃ now, likeness.later known now ∧ likeness.Ready now part next := by
  have alike := ready.machine
  cases leads with
  | elements | element | left | operand | callArguments | argument | first | assigned | condition
  | compound | unframed | statement | iterable =>
      exact ⟨known, likeness.later_refl known, alike, .nil⟩
  | right _ _ taken | last _ taken =>
      rcases alike_taken unmoved alike (Node.All.below fits (.head _)) taken with
        ⟨now, later, _, reached⟩
      exact ⟨now, later, reached, .nil⟩
  | laterArguments _ taken =>
      rcases alike_taken unmoved alike (fits _ (.head _)) taken with ⟨now, later, _, reached⟩
      exact ⟨now, later, reached, .nil⟩
  | laterElements _ taken pushed =>
      rcases alike_taken unmoved alike (fits _ (.head _)) taken with ⟨now, later, values, reached⟩
      rcases (goes_push values).reached reached pushed with ⟨last, more, _, grown⟩
      exact ⟨last, likeness.later_trans later more, grown, .nil⟩
  | methodArguments _ _ bound =>
      rcases alike_found unmoved alike bound with ⟨now, later, reached⟩
      exact ⟨now, later, reached, .nil⟩
  | thenBranch _ _ taken tested | elseBranch _ _ taken tested =>
      rcases alike_taken unmoved alike (Node.All.below fits (.head _)) taken with
        ⟨now, later, values, reached⟩
      rcases alike_tested unmoved reached values tested with ⟨last, more, decided⟩
      exact ⟨last, likeness.later_trans later more, decided, .nil⟩
  | framed _ _ opened =>
      rcases goes_enter.reached alike opened with ⟨now, later, _, reached⟩
      exact ⟨now, later, reached, .nil⟩
  | laterStatements _ proceeded =>
      have fitting := fits _ (.head _)
      rcases Goes.reached (goes_asStatement rfl (goes_performAlone unmoved fitting)) alike
        proceeded with ⟨now, later, _, reached⟩
      exact ⟨now, later, reached, .nil⟩
  | rounds _ _ taken listed =>
      rcases alike_taken unmoved alike (Node.All.below fits (.head _)) taken with
        ⟨now, later, values, reached⟩
      rcases alike_listed unmoved reached values listed with ⟨last, more, addresses, found⟩
      exact ⟨last, likeness.later_trans later more, found,
        likeness.elements found.world.1 addresses⟩
  | round _ _ assigned =>
      rcases ready.items with _ | ⟨head, tail⟩
      rcases (goes_assign _ head).reached alike assigned with ⟨now, later, _, reached⟩
      exact ⟨now, later, reached, .nil⟩
  | laterRounds _ assigned proceeded =>
      rcases ready.items with _ | ⟨head, tail⟩
      rcases (goes_assign _ head).reached alike assigned with ⟨now, later, _, bound⟩
      rcases (goes_bodyAlone unmoved fits).reached bound proceeded with ⟨last, more, _, reached⟩
      have longer := likeness.later_trans later more
      exact ⟨last, longer, reached, Values.later tail longer⟩

theorem Ready.final (ready : likeness.Ready known piece machine)
    (fits : piece.All (likeness.Fits library library)) :
    ∃ now, likeness.later known now ∧
      likeness.machines now (piece.final ⟨library, config⟩ machine)
        (piece.final ⟨library, config⟩ machine) := by
  have alike := ready.machine
  cases piece with
  | tree root =>
      exact (goes_performAlone unmoved fits).ends_alike alike
  | elements line rest =>
      have goes := @goes_pushEach likeness library library config line rest fits known
      rw [unmoved, Node.eachRenumbered_id] at goes
      exact goes.ends_alike alike
  | arguments line rest =>
      have goes := @goes_valuesOf likeness library library config line rest fits known
      rw [unmoved, Node.eachRenumbered_id] at goes
      exact goes.ends_alike alike
  | statements rest =>
      have goes := @goes_performEach likeness library library config rest fits known
      rw [unmoved, Node.eachRenumbered_id] at goes
      exact goes.ends_alike alike
  | block whole =>
      have goes := @goes_performBlock likeness library library config whole fits known
      rw [unmoved, Block.renumbered_id] at goes
      exact goes.ends_alike alike
  | rounds iterator body rest =>
      exact Goes.ends_alike (goes_iterate (fun _ _ _ _ => goes_assign iterator)
        (goes_bodyAlone unmoved fits) ready.items) alike

/-- Every machine that is passed is alike with itself. -/
theorem Ready.passes (ready : likeness.Ready known piece machine)
    (fits : piece.All (likeness.Fits library library))
    (passes : Passes ⟨library, config⟩ piece machine passed) :
    ∃ now, likeness.later known now ∧ likeness.machines now passed passed := by
  induction passes generalizing known with
  | start piece machine => exact ⟨known, likeness.later_refl known, ready.machine⟩
  | final piece machine => exact ready.final unmoved fits
  | inside leads _ inductionHypothesis =>
      rcases ready.leads unmoved fits leads with ⟨now, later, further⟩
      rcases inductionHypothesis further (leads.all fits) with ⟨last, more, reached⟩
      exact ⟨last, likeness.later_trans later more, reached⟩

end Trees
end Likeness
end Scriptlet
