import Scriptlet.Machine.Basic
import Scriptlet.Tree.Basic
import Scriptlet.Value.Operation

namespace Scriptlet

/-!
Evaluation of trees.  An expression pushes its value; a statement ends with a signal and
leaves the stack as it was.  One function covers both kinds of nodes, and the positions of a
tree decide what is made of its outcome: a value is taken from the stack, or the stack is
cut back.
-/

/-- What a run is given besides the machine. -/
structure Environment where
  library : Library
  config : Config := {}

/-- How a sequence of statements ended, and whether statements were left out. -/
structure Ending where
  signal : Signal
  early : Bool
  deriving DecidableEq

namespace Machine

/-- A node in statement position.  The value of an expression is dropped there. -/
def asStatement (node : Node) (run : Run Signal) : Run Signal :=
  if node.isExpression then discarding run else run

/-- Leaves a block: its frame is closed unless the block was left early and the policy keeps
such frames. -/
def leave (environment : Environment) (framed : Bool) (ending : Ending) : Run Signal := do
  if framed && (!ending.early || environment.config.closesEarly) then exit
  pure ending.signal

mutual

/-- Runs a node.  The signal of an expression is always to proceed. -/
def perform (environment : Environment) : Node → Run Signal
  | .literal value _ => do
      push (← onHeap (Heap.Action.sure (Heap.copy value)))
      pure .proceed
  | .array elements line => do
      gathering (pushEach environment line elements)
      pure .proceed
  | .variable name line => do
      push (← lookup name line)
      pure .proceed
  | .binary operator left right line => do
      let x ← taking line (perform environment left)
      let y ← taking line (perform environment right)
      push (← onHeap (Heap.binary operator x y line))
      pure .proceed
  | .unary operator operand line => do
      let x ← taking line (perform environment operand)
      push (← onHeap (Heap.unary operator x line))
      pure .proceed
  | .call function arguments line =>
      match environment.library.function? function with
      | none => throw (.unknownFunction function line)
      | some body => do
          let values ← valuesOf environment line arguments
          pushResult (← onWorld (body values line))
          pure .proceed
  | .methodCall receiver method arguments line =>
      match environment.library.method? method with
      | none => throw (.unknownMethod method line)
      | some body => do
          let target ← lookup receiver line
          let values ← valuesOf environment line arguments
          pushResult (← onWorld (body target values line))
          pure .proceed
  | .range first last line => do
      let x ← taking line (perform environment first)
      let y ← taking line (perform environment last)
      push (← onHeap (Heap.range x y line))
      pure .proceed
  | .assignment name value line => do
      assign name (← taking line (perform environment value))
      pure .proceed
  | .conditional condition thenBranch elseBranch line => do
      let x ← taking line (perform environment condition)
      if ← onHeap (Heap.Action.read (Heap.asTruth x line)) then
        performBlock environment thenBranch
      else performBranch environment elseBranch
  | .compound block => performBlock environment block
  | .loop iterator iterable body line => do
      let x ← taking line (perform environment iterable)
      let address ← onHeap (Heap.Action.read (Heap.asList x line))
      let items := (← get).world.heap.elements address
      iterate (assign iterator) (performBody environment body) items
  | .flag flag _ => pure flag.signal

/-- Pushes the value of each node in order. -/
def pushEach (environment : Environment) (line : Nat) : List Node → Run Unit
  | [] => pure ()
  | node :: rest => do
      push (← taking line (perform environment node))
      pushEach environment line rest

/-- The values of some nodes, computed in order. -/
def valuesOf (environment : Environment) (line : Nat) : List Node → Run (List Value)
  | [] => pure []
  | node :: rest => do
      let value ← taking line (perform environment node)
      let values ← valuesOf environment line rest
      pure (value :: values)

/-- Runs statements until one of them does not proceed. -/
def performEach (environment : Environment) : List Node → Run Ending
  | [] => pure ⟨.proceed, false⟩
  | node :: rest => do
      match ← asStatement node (perform environment node) with
      | .proceed => performEach environment rest
      | signal => pure ⟨signal, !rest.isEmpty⟩

/-- Runs a block in a frame of its own if it is framed.  After a fault the frame stays
open. -/
def performBlock (environment : Environment) : Block → Run Signal
  | .mk framed statements _ => do
      if framed then enter
      let ending ← performEach environment statements
      leave environment framed ending

/-- Runs the branch of a conditional that may be missing. -/
def performBranch (environment : Environment) : Option Block → Run Signal
  | none => pure .proceed
  | some block => performBlock environment block

/-- Runs the statements of a loop body, which has no frame of its own. -/
def performBody (environment : Environment) : Block → Run Signal
  | .mk _ statements _ => do
      let ending ← performEach environment statements
      pure ending.signal

end

/-- Executes a node as a statement. -/
def execute (environment : Environment) (node : Node) : Run Signal :=
  asStatement node (perform environment node)

/-- Evaluates a node, which leaves its value on the stack if it has one. -/
def evaluate (environment : Environment) (node : Node) : Run Unit := do
  let _ ← perform environment node
  pure ()

/-- Evaluates a node and takes its value from the stack. -/
def evaluateValue (environment : Environment) (node : Node) (line : Nat) : Run Value :=
  taking line (perform environment node)

/-- Runs a whole program.  A break or a halt that reaches the top ends it without a
fault. -/
def run (environment : Environment) (program : Program) : Run Unit := do
  let _ ← performBlock environment program.root
  pure ()

end Machine
end Scriptlet
