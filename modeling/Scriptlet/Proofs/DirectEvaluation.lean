import Scriptlet.Machine.Evaluation
import Scriptlet.Proofs.Ensures

namespace Scriptlet

/-!
# Evaluation without a stack

A second evaluator for the same trees.  It returns the value of an expression where the
machine pushes it, and it leaves the storage of variables open: whatever can look a name up,
bind it, and open and leave a block will do.  The machine's own store is one such storage.

Two facts are wanted of it.  The machine does what this evaluator does with the machine's
store, whatever stands on its stack; and storages that answer alike give runs that answer
alike.  Neither mentions the other, so that what is proved about stacks and what is proved
about variables stay apart.
-/

/-- What evaluation asks of the storage of variables.  A block is left either early, with
statements left out, or at its end. -/
structure Variables (σ : Type) where
  value? : σ → String → Option Value
  assign : σ → String → Value → σ
  enter : σ → Except RuntimeFault σ
  leave : Bool → σ → σ

/-- The value of a variable, whatever its slot and the frames have on record. -/
def Store.value? (store : Store) (name : String) : Option Value :=
  (store.slot? name).map Slot.value

/-- The machine's store.  A block that is left early closes its frame only if the policy
says so. -/
def Variables.ofStore (config : Config) : Variables Store where
  value? store name := store.value? name
  assign store name value := store.allocate name value
  enter store := store.enter
  leave early store := if early && !config.closesEarly then store else store.exit

namespace Direct

/-- The variables and the world outside. -/
structure State (σ : Type) where
  bindings : σ
  world : World

/-- A computation without a stack.  Its state survives a fault. -/
abbrev Run (σ α : Type) : Type :=
  EStateM RuntimeFault (State σ) α

/-- How a node ends: its signal, and the value it stands for if it has one. -/
structure Outcome where
  signal : Signal
  value? : Option Value

/-- The outcome of an expression. -/
def Outcome.ofValue? (value? : Option Value) : Outcome :=
  ⟨.proceed, value?⟩

/-- The outcome of a statement. -/
def Outcome.ofSignal (signal : Signal) : Outcome :=
  ⟨signal, none⟩

section Steps

variable {σ : Type} (bindings : Variables σ)

def onWorld {α : Type} (action : World.Action α) : Run σ α := fun ⟨store, world⟩ =>
  match action world with
  | .ok result after => .ok result ⟨store, after⟩
  | .error fault after => .error fault ⟨store, after⟩

def onHeap {α : Type} (action : Heap.Action α) : Run σ α :=
  onWorld (World.onHeap action)

def lookup (name : String) (line : Nat) : Run σ Value := fun state =>
  match bindings.value? state.bindings name with
  | some value => .ok value state
  | none => .error (.unknownVariable name line) state

def assign (name : String) (value : Value) : Run σ Unit := fun ⟨store, world⟩ =>
  .ok () ⟨bindings.assign store name value, world⟩

def enter : Run σ Unit := fun ⟨store, world⟩ =>
  match bindings.enter store with
  | .ok opened => .ok () ⟨opened, world⟩
  | .error fault => .error fault ⟨store, world⟩

def leave (early : Bool) : Run σ Unit := fun ⟨store, world⟩ =>
  .ok () ⟨bindings.leave early store, world⟩

/-- The value of an outcome that must have one. -/
def required (line : Nat) (outcome : Outcome) : Run σ Value :=
  match outcome.value? with
  | some value => pure value
  | none => throw (.missingValue line)

/-- Runs a node as a statement. -/
def signalOf (statement : Run σ Outcome) : Run σ Signal := do
  let outcome ← statement
  pure outcome.signal

/-- Runs an expression for its value. -/
def valueOf (line : Nat) (expression : Run σ Outcome) : Run σ Value :=
  expression >>= required line

/-- Opens a frame for a framed block. -/
def enterIf (framed : Bool) : Run σ Unit :=
  if framed then enter bindings else pure ()

/-- Leaves a block that is framed or not. -/
def leaveIf (framed early : Bool) : Run σ Unit :=
  if framed then leave bindings early else pure ()

/-- Runs a body once for each item, until it breaks or halts. -/
def iterate (bind : Value → Run σ Unit) (body : Run σ Signal) : List Value → Run σ Signal
  | [] => pure .proceed
  | item :: rest => do
      bind item
      match ← body with
      | .proceed => iterate bind body rest
      | .break => pure .proceed
      | .halt => pure .halt

end Steps

section Evaluation

variable {σ : Type} (bindings : Variables σ) (library : Library)

mutual

/-- Runs a node. -/
def perform : Node → Run σ Outcome
  | .literal value _ => do
      let copied ← onHeap (Heap.Action.sure (Heap.copy value))
      pure (.ofValue? (some copied))
  | .array elements line => do
      let values ← valuesOf line elements
      let list ← onHeap (Heap.Action.sure (Heap.allocate values))
      pure (.ofValue? (some list))
  | .variable name line => do
      let value ← lookup bindings name line
      pure (.ofValue? (some value))
  | .binary operator left right line => do
      let x ← valueOf line (perform left)
      let y ← valueOf line (perform right)
      let result ← onHeap (Heap.binary operator x y line)
      pure (.ofValue? (some result))
  | .unary operator operand line => do
      let x ← valueOf line (perform operand)
      let result ← onHeap (Heap.unary operator x line)
      pure (.ofValue? (some result))
  | .call function arguments line =>
      match library.function? function with
      | none => throw (.unknownFunction function line)
      | some body => do
          let values ← valuesOf line arguments
          let result? ← onWorld (body values line)
          pure (.ofValue? result?)
  | .methodCall receiver method arguments line =>
      match library.method? method with
      | none => throw (.unknownMethod method line)
      | some body => do
          let target ← lookup bindings receiver line
          let values ← valuesOf line arguments
          let result? ← onWorld (body target values line)
          pure (.ofValue? result?)
  | .range first last line => do
      let x ← valueOf line (perform first)
      let y ← valueOf line (perform last)
      let result ← onHeap (Heap.range x y line)
      pure (.ofValue? (some result))
  | .assignment name value line => do
      let x ← valueOf line (perform value)
      assign bindings name x
      pure (.ofSignal .proceed)
  | .conditional condition thenBranch elseBranch line => do
      let x ← valueOf line (perform condition)
      let holds ← onHeap (Heap.Action.read (Heap.asTruth x line))
      let signal ←
        (if holds then performBlock thenBranch else performBranch elseBranch : Run σ Signal)
      pure (.ofSignal signal)
  | .compound block => do
      let signal ← performBlock block
      pure (.ofSignal signal)
  | .loop iterator iterable body line => do
      let x ← valueOf line (perform iterable)
      let address ← onHeap (Heap.Action.read (Heap.asList x line))
      let state ← get
      let signal ← iterate (assign bindings iterator) (performBody body)
        (state.world.heap.elements address)
      pure (.ofSignal signal)
  | .flag flag _ => pure (.ofSignal flag.signal)

/-- The values of some nodes, computed in order. -/
def valuesOf (line : Nat) : List Node → Run σ (List Value)
  | [] => pure []
  | node :: rest => do
      let value ← valueOf line (perform node)
      let values ← valuesOf line rest
      pure (value :: values)

/-- Runs statements until one of them does not proceed. -/
def performEach : List Node → Run σ Ending
  | [] => pure ⟨.proceed, false⟩
  | node :: rest => do
      match ← signalOf (perform node) with
      | .proceed => performEach rest
      | signal => pure ⟨signal, !rest.isEmpty⟩

def performBlock : Block → Run σ Signal
  | .mk framed statements _ => do
      enterIf bindings framed
      let ending ← performEach statements
      leaveIf bindings framed ending.early
      pure ending.signal

def performBranch : Option Block → Run σ Signal
  | none => pure .proceed
  | some block => performBlock block

/-- Runs the statements of a loop body, which has no frame of its own. -/
def performBody : Block → Run σ Signal
  | .mk _ statements _ => do
      let ending ← performEach statements
      pure ending.signal

end

end Evaluation

/-! ## Outcomes by the form of a node -/

/-- The nodes that stand for a value whenever they are evaluated without a fault.  For a call
that depends on its host. -/
def yieldsValue : Node → Bool
  | .literal .. | .array .. | .variable .. | .binary .. | .unary .. | .range .. => true
  | _ => false

/-- Expressions proceed, statements have no value, and some expressions always have one. -/
structure Outcome.Fits (node : Node) (outcome : Outcome) : Prop where
  proceeds : node.isExpression = true → outcome.signal = .proceed
  valueless : node.isExpression = false → outcome.value? = none
  valued : yieldsValue node = true → outcome.value?.isSome = true

section Outcomes

variable {σ : Type} {node : Node}

theorem fits_ofValue (expression : node.isExpression = true) (value : Value) :
    (Outcome.ofValue? (some value)).Fits node where
  proceeds _ := rfl
  valueless statement := Bool.noConfusion (expression.symm.trans statement)
  valued _ := rfl

theorem fits_ofSignal (statement : node.isExpression = false) (signal : Signal) :
    (Outcome.ofSignal signal).Fits node where
  proceeds expression := Bool.noConfusion (expression.symm.trans statement)
  valueless _ := rfl
  valued yields := by cases node <;> cases yields <;> cases statement

theorem fits_ofResult (expression : node.isExpression = true) (hosted : yieldsValue node = false)
    (value? : Option Value) : (Outcome.ofValue? value?).Fits node where
  proceeds _ := rfl
  valueless statement := Bool.noConfusion (expression.symm.trans statement)
  valued yields := Bool.noConfusion (yields.symm.trans hosted)

/-- What comes last decides the outcome. -/
theorem ensures_last {α β : Type} {first : Run σ β} {next : β → Run σ α} {post : α → Prop}
    (last : ∀ result, Ensures (fun _ => True) (next result) post (fun _ => True)) :
    Ensures (fun _ => True) (first >>= next) post (fun _ => True) :=
  Ensures.bind (Ensures.anything first) fun result _ => last result

theorem perform_fits (bindings : Variables σ) (library : Library) (node : Node) :
    Ensures (fun _ => True) (perform bindings library node) (Outcome.Fits node)
      (fun _ => True) := by
  cases node with
  | literal value line =>
      rw [perform]
      exact ensures_last fun copied => .pure (fits_ofValue rfl copied)
  | array elements line =>
      rw [perform]
      exact ensures_last fun _ => ensures_last fun list => .pure (fits_ofValue rfl list)
  | «variable» name line =>
      rw [perform]
      exact ensures_last fun value => .pure (fits_ofValue rfl value)
  | binary operator left right line =>
      rw [perform]
      exact ensures_last fun _ => ensures_last fun _ => ensures_last fun result =>
        .pure (fits_ofValue rfl result)
  | unary operator operand line =>
      rw [perform]
      exact ensures_last fun _ => ensures_last fun result => .pure (fits_ofValue rfl result)
  | call function arguments line =>
      rw [perform]
      cases library.function? function with
      | none => exact .throw trivial
      | some body =>
          exact ensures_last fun _ => ensures_last fun result? =>
            .pure (fits_ofResult rfl rfl result?)
  | methodCall receiver method arguments line =>
      rw [perform]
      cases library.method? method with
      | none => exact .throw trivial
      | some body =>
          exact ensures_last fun _ => ensures_last fun _ => ensures_last fun result? =>
            .pure (fits_ofResult rfl rfl result?)
  | range first last line =>
      rw [perform]
      exact ensures_last fun _ => ensures_last fun _ => ensures_last fun result =>
        .pure (fits_ofValue rfl result)
  | assignment name value line =>
      rw [perform]
      exact ensures_last fun _ => ensures_last fun _ => .pure (fits_ofSignal rfl _)
  | conditional condition thenBranch elseBranch line =>
      rw [perform]
      exact ensures_last fun _ => ensures_last fun _ => ensures_last fun signal =>
        .pure (fits_ofSignal rfl signal)
  | compound block =>
      rw [perform]
      exact ensures_last fun signal => .pure (fits_ofSignal rfl signal)
  | loop iterator iterable body line =>
      rw [perform]
      exact ensures_last fun _ => ensures_last fun _ => ensures_last fun _ =>
        ensures_last fun signal => .pure (fits_ofSignal rfl signal)
  | flag flag line =>
      rw [perform]
      exact .pure (fits_ofSignal rfl flag.signal)

end Outcomes

end Direct

/-! ## Requests

What a host may ask of one interpreter, and how a sequence of such requests is answered.  The
interpreter keeps its state from one request to the next, also after a fault. -/

inductive Machine.Request where
  | run (program : Program)
  | execute (node : Node)
  | executeBlock (block : Block)
  | evaluate (node : Node)
  | evaluateValue (node : Node) (line : Nat)

inductive Machine.Answer where
  | done
  | signal (signal : Signal)
  | value (value : Value)

/-- The state that a computation ends in, whether it fails or not. -/
def stateAfter {ε σ α : Type} : EStateM.Result ε σ α → σ
  | .ok _ state => state
  | .error _ state => state

/-- The results of a list of requests, each made in the state that the one before left. -/
def session {ρ ε σ α : Type} (answer : ρ → EStateM ε σ α) :
    List ρ → σ → List (EStateM.Result ε σ α)
  | [], _ => []
  | request :: rest, state =>
      let result := answer request state
      result :: session answer rest (stateAfter result)

def Machine.answer (environment : Environment) : Request → Machine.Run Answer
  | .run program => do
      run environment program
      pure .done
  | .execute node => do
      let signal ← execute environment node
      pure (.signal signal)
  | .executeBlock block => do
      let signal ← performBlock environment block
      pure (.signal signal)
  | .evaluate node => do
      evaluate environment node
      pure .done
  | .evaluateValue node line => do
      let value ← evaluateValue environment node line
      pure (.value value)

def Direct.answer {σ : Type} (bindings : Variables σ) (library : Library) :
    Machine.Request → Direct.Run σ Machine.Answer
  | .run program => do
      let _ ← performBlock bindings library program.root
      pure .done
  | .execute node => do
      let signal ← signalOf (perform bindings library node)
      pure (.signal signal)
  | .executeBlock block => do
      let signal ← performBlock bindings library block
      pure (.signal signal)
  | .evaluate node => do
      let _ ← perform bindings library node
      pure .done
  | .evaluateValue node line => do
      let value ← valueOf line (perform bindings library node)
      pure (.value value)

end Scriptlet
