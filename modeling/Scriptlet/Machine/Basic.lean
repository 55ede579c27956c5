import Scriptlet.Host.Library
import Scriptlet.Machine.Stack
import Scriptlet.Store
import Scriptlet.Tree.Basic

namespace Scriptlet

/-!
The state of a running program and the steps that evaluation is made of.
-/

/-- What a host decides about a run: how many scope frames may be open, and whether a block
that is left early closes its frame. -/
structure Config where
  depthLimit : Nat := Store.defaultDepthLimit
  closesEarly : Bool := false
  deriving DecidableEq

/-- The value stack, the variables, and the world outside. -/
structure Machine where
  stack : Stack := {}
  store : Store
  world : World := {}

/-- How a statement ends: the next one follows, or the enclosing loop or the whole program
is left. -/
inductive Signal where
  | proceed
  | break
  | halt
  deriving DecidableEq

def Flag.signal : Flag → Signal
  | .break => .break
  | .halt => .halt

namespace Machine

/-- A machine without variables. -/
def start (config : Config) (world : World := {}) : Machine :=
  { store := .ofLimit config.depthLimit, world }

/-- A computation on the machine.  Its state survives a fault. -/
abbrev Run (α : Type) : Type :=
  EStateM RuntimeFault Machine α

def onWorld {α : Type} (action : World.Action α) : Run α := fun ⟨stack, store, world⟩ =>
  match action world with
  | .ok result after => .ok result ⟨stack, store, after⟩
  | .error fault after => .error fault ⟨stack, store, after⟩

def onHeap {α : Type} (action : Heap.Action α) : Run α :=
  onWorld (World.onHeap action)

def push (value : Value) : Run Unit := fun machine =>
  .ok () { machine with stack := machine.stack.push value }

/-- Pushes what a call produced, if it produced anything. -/
def pushResult : Option Value → Run Unit
  | some value => push value
  | none => pure ()

/-- The value of a variable. -/
def lookup (name : String) (line : Nat) : Run Value := fun machine =>
  match machine.store.slot? name with
  | some slot => .ok slot.value machine
  | none => .error (.unknownVariable name line) machine

def assign (name : String) (value : Value) : Run Unit := fun machine =>
  .ok () { machine with store := machine.store.allocate name value }

def enter : Run Unit := fun machine =>
  if machine.store.isFull then
    .error (.scopeDepthExceeded machine.store.depthLimit) machine
  else .ok () { machine with store := machine.store.withFrame }

def exit : Run Unit := fun machine =>
  .ok () { machine with store := machine.store.exit }

/-- Runs an expression and takes the value that it pushed. -/
def taking (line : Nat) (expression : Run Signal) : Run Value := fun machine =>
  let height := machine.stack.height
  match expression machine with
  | .ok _ after =>
      if after.stack.height = height then .error (.missingValue line) after
      else
        match after.stack.pop? with
        | some (value, rest) => .ok value { after with stack := rest }
        | none => .error (.missingValue line) after
  | .error fault after => .error fault after

/-- Runs an expression for its effects: the stack goes back to the height it had. -/
def discarding (expression : Run Signal) : Run Signal := fun machine =>
  let height := machine.stack.height
  match expression machine with
  | .ok _ after => .ok .proceed { after with stack := after.stack.cut height }
  | .error fault after => .error fault after

/-- Runs the elements of a list, which push themselves one by one, and puts one list with
all of them in their place. -/
def gathering (elements : Run Unit) : Run Unit := fun machine =>
  let height := machine.stack.height
  match elements machine with
  | .ok _ ⟨stack, store, world⟩ =>
      match Heap.allocate (stack.above height) world.heap with
      | (list, heap) => .ok () ⟨(stack.cut height).push list, store, { world with heap }⟩
  | .error fault after => .error fault after

/-- Runs a body once for each item.  A break ends the loop and is used up by it; a halt ends
it and goes on. -/
def iterate (bind : Value → Run Unit) (body : Run Signal) : List Value → Run Signal
  | [] => pure .proceed
  | item :: rest => do
      bind item
      match ← body with
      | .proceed => iterate bind body rest
      | .break => pure .proceed
      | .halt => pure .halt

end Machine
end Scriptlet
