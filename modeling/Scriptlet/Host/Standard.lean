import Scriptlet.Host.Library
import Scriptlet.Host.ListMethod

namespace Scriptlet

/-!
The library that every host starts from: one function that prints, and the list methods.
-/

namespace Standard

/-- The line that prints some values: their texts with a space between any two. -/
def printed (heap : Heap) (values : List Value) : String :=
  " ".intercalate (values.map heap.render) ++ "\n"

/-- Prints its arguments on a line of their own and produces no value. -/
def print : HostFunction := fun arguments line world =>
  match world.sink.accept (printed world.heap arguments) with
  | .ok sink => .ok none { world with sink }
  | .error reason => .error (.hostFailure "print" reason line) world

/-- A list method as a method of the host. -/
def method (listMethod : ListMethod) : HostMethod := fun receiver arguments line =>
  World.onHeap (listMethod.checked receiver arguments line)

def functionNames : List String :=
  ["print"]

def methodNames : List String :=
  ListMethod.all.map ListMethod.name

def library : Library where
  functions := [("print", print)]
  methods := ListMethod.all.map fun listMethod => (listMethod.name, method listMethod)

end Standard
end Scriptlet
