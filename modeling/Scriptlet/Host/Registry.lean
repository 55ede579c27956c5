import Scriptlet.Host.Standard
import Scriptlet.Value.Coercion

namespace Scriptlet

/-!
What a host hands over with a script: its callables, and values for the parameters that the
script declares.  Declarations take the values in the order they were queued.
-/

/-- Values waiting to be bound, with the heap that their lists live in. -/
structure Arguments where
  queue : List Value
  heap : Heap

namespace Arguments

/-- Takes the next value and converts it to the declared kind.  A value that cannot be
converted is gone from the queue all the same. -/
def bind (name : String) (kind : Value.Kind) (line : Nat) :
    EStateM SetupFault Arguments Value := fun arguments =>
  match arguments.queue with
  | [] => .error (.argumentsExhausted name line) arguments
  | value :: rest =>
      match Heap.coerce value kind arguments.heap with
      | (some result, heap) => .ok result ⟨rest, heap⟩
      | (none, heap) => .error (.coercion name (heap.render value) kind line) ⟨rest, heap⟩

end Arguments

structure Registry where
  library : Library := Standard.library
  queue : List Value := []

namespace Registry

def addFunction (registry : Registry) (name : String) (function : HostFunction) :
    Except SetupFault Registry := do
  let library ← registry.library.addFunction name function
  pure { registry with library }

def addMethod (registry : Registry) (name : String) (method : HostMethod) :
    Except SetupFault Registry := do
  let library ← registry.library.addMethod name method
  pure { registry with library }

def enqueue (registry : Registry) (value : Value) : Registry :=
  { registry with queue := registry.queue ++ [value] }

/-- The names of the callables and the values in the queue. -/
def describe (heap : Heap) (registry : Registry) : String :=
  "HostRegistry \x7b library: " ++ registry.library.describe ++
    ", arguments: ArgumentQueue \x7b values: [" ++
    ", ".intercalate (registry.queue.map heap.render) ++ "] \x7d \x7d"

end Registry
end Scriptlet
