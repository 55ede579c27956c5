import Scriptlet.Value.Access

namespace Scriptlet

/-!
The methods of lists.  A method checks its receiver and its arguments before it changes
anything, and changes nothing but the list it is called on.
-/

namespace ListMethod

/-- A method as a function of the receiver, the arguments and the line of the call. -/
abbrev Body : Type :=
  Value → List Value → Nat → Heap.Action (Option Value)

/-- The position that an argument names. -/
def position (argument : Value) (line : Nat) (heap : Heap) : Except RuntimeFault Nat := do
  let x ← heap.asNumber argument line
  Number.indexOn line x

/-- The element at a position. -/
def element : Body := fun receiver arguments line =>
  match arguments with
  | [argument] => Heap.Action.read fun heap => do
      let address ← heap.asList receiver line
      let index ← position argument line heap
      match (heap.storage address)[index]? with
      | some value => .ok (some value)
      | none => .error (.indexOutOfBounds index (heap.count address) line)
  | _ => throw (.argumentCount "at" (.exactly 1) arguments.length line)

/-- The number of elements. -/
def count : Body := fun receiver _ line =>
  Heap.Action.read fun heap => do
    let address ← heap.asList receiver line
    let total ← Number.ofIntOn line (heap.count address)
    .ok (some (.number total))

/-- A change of one list: where it takes place, and what becomes of the elements. -/
structure Edit where
  address : Nat
  change : Array Value → Array Value

/-- Makes the change that a plan says, unless the plan finds a fault. -/
def edit (plan : Heap → Except RuntimeFault Edit) : Heap.Action (Option Value) := do
  let planned ← Heap.Action.read plan
  Heap.Action.sure (Heap.update planned.address planned.change)
  pure none

/-- Appends all arguments in order. -/
def add : Body := fun receiver arguments line =>
  edit fun heap => do
    let address ← heap.asList receiver line
    .ok ⟨address, fun values => values ++ arguments⟩

/-- Removes the first element that is the same as a value. -/
def removeFirst (address : Nat) (value : Value) : StateM Heap Unit := do
  let kept := (← get).eraseFirst value ((← get).storage address)
  Heap.update address fun _ => kept

/-- Removes, for each argument in turn, the first element that is the same. -/
def remove : Body := fun receiver arguments line => do
  let address ← Heap.Action.read (Heap.asList receiver line)
  Heap.Action.sure (arguments.forM (removeFirst address))
  pure none

/-- Puts a value in front of the element at a position, or at the end. -/
def insert : Body := fun receiver arguments line =>
  match arguments with
  | [argument, value] => edit fun heap => do
      let address ← heap.asList receiver line
      let index ← position argument line heap
      if index ≤ heap.count address then
        .ok ⟨address, fun values => values.insertIdxIfInBounds index value⟩
      else .error (.indexOutOfBounds index (heap.count address) line)
  | _ => throw (.argumentCount "insert" (.exactly 2) arguments.length line)

/-- Removes the element at a position. -/
def removeAt : Body := fun receiver arguments line =>
  match arguments with
  | [argument] => edit fun heap => do
      let address ← heap.asList receiver line
      let index ← position argument line heap
      if index < heap.count address then
        .ok ⟨address, fun values => values.eraseIdxIfInBounds index⟩
      else .error (.indexOutOfBounds index (heap.count address) line)
  | _ => throw (.argumentCount "remove_at" (.exactly 1) arguments.length line)

/-- Removes all elements. -/
def clear : Body := fun receiver _ line =>
  edit fun heap => do
    let address ← heap.asList receiver line
    .ok ⟨address, fun _ => #[]⟩

/-- Whether some argument is the same as an element. -/
def contains : Body := fun receiver arguments line =>
  Heap.Action.read fun heap => do
    let address ← heap.asList receiver line
    .ok (some (.truth (arguments.any (heap.holds address))))

/-- Whether every argument is the same as an element. -/
def containsAll : Body := fun receiver arguments line =>
  Heap.Action.read fun heap => do
    let address ← heap.asList receiver line
    .ok (some (.truth (arguments.all (heap.holds address))))

end ListMethod

/-- A list method under its name, with the number of arguments that scripts must give. -/
structure ListMethod where
  name : String
  arity : Arity
  body : ListMethod.Body

namespace ListMethod

def all : List ListMethod :=
  [⟨"at", .exactly 1, element⟩,
   ⟨"count", .exactly 0, count⟩,
   ⟨"add", .atLeast 1, add⟩,
   ⟨"remove", .atLeast 1, remove⟩,
   ⟨"insert", .exactly 2, insert⟩,
   ⟨"remove_at", .exactly 1, removeAt⟩,
   ⟨"clear", .exactly 0, clear⟩,
   ⟨"contains", .atLeast 1, contains⟩,
   ⟨"contains_all", .atLeast 1, containsAll⟩]

/-- The method of a name. -/
def named? (name : String) : Option ListMethod :=
  all.find? fun method => method.name = name

/-- The method as scripts call it: the number of arguments is checked before anything
else. -/
def checked (method : ListMethod) : Body := fun receiver arguments line =>
  if method.arity.admits arguments.length then method.body receiver arguments line
  else throw (.argumentCount method.name method.arity arguments.length line)

end ListMethod
end Scriptlet
