import Scriptlet.Value.Basic

namespace Scriptlet

/-!
The storage of lists.  A list value is an address; what stands there can be replaced, and
every value with that address changes with it.  Storage is never given back.

Rendering, comparison and copying follow addresses.  They know the lists that they are inside
of and do not follow one of them again, so that a list that contains itself is cut short.  No
path that meets no list twice is longer than the number of lists, which bounds the descent.
-/

/-- The elements of every list made so far, and the number of objects made so far. -/
structure Heap where
  lists : Array (Array Value) := #[]
  objects : Nat := 0

namespace Heap

def empty : Heap :=
  {}

/-- The storage at an address.  Nothing stands at an address that was never given out. -/
def storage (heap : Heap) (address : Nat) : Array Value :=
  (heap.lists[address]?).getD #[]

/-- The elements at an address. -/
def elements (heap : Heap) (address : Nat) : List Value :=
  (heap.storage address).toList

/-- The number of elements at an address. -/
def count (heap : Heap) (address : Nat) : Nat :=
  (heap.storage address).size

/-- Gives storage an address of its own. -/
def keep (values : Array Value) : StateM Heap Value := fun ⟨lists, objects⟩ =>
  (.list lists.size, ⟨lists.push values, objects⟩)

/-- Stores elements at an address of their own. -/
def allocate (values : List Value) : StateM Heap Value :=
  keep values.toArray

/-- Changes the storage at an address.  The storage is handed over to the change, which can
work in place. -/
def update (address : Nat) (change : Array Value → Array Value) : StateM Heap Unit :=
  fun ⟨lists, objects⟩ => ((), ⟨lists.modify address change, objects⟩)

/-- Makes an object that is the same as no other. -/
def newObject (label : String) : StateM Heap Value := fun ⟨lists, objects⟩ =>
  (.object ⟨objects, label⟩, ⟨lists, objects + 1⟩)

/-- The depth to which values are followed. -/
def depthBound (heap : Heap) : Nat :=
  heap.lists.size + 1

/-- The depth to which two values are followed side by side. -/
def pairBound (heap : Heap) : Nat :=
  heap.lists.size * heap.lists.size + 1

/-! ## Rendering -/

/-- The text of a value inside of some lists, following lists to the given depth. -/
def renderWithin (heap : Heap) : Nat → List Nat → Value → String
  | _, _, .number value => Number.text value
  | _, _, .text value => value
  | _, _, .truth value => Value.truthText value
  | _, _, .object _ => "<object>"
  | 0, _, .list _ => "[...]"
  | depth + 1, outer, .list address =>
      if address ∈ outer then "[...]"
      else
        let texts := (heap.elements address).map (heap.renderWithin depth (address :: outer))
        "[" ++ ", ".intercalate texts ++ "]"

/-- The text of a value. -/
def render (heap : Heap) (value : Value) : String :=
  heap.renderWithin heap.depthBound [] value

/-! ## Sameness -/

/-- Numbers closer than this are the same. -/
def tolerance : Float :=
  1e-10

def sameNumber (x y : Float) : Bool :=
  (x - y).abs < tolerance

/-- Sameness of values inside of some pairs of lists, following lists to the given depth.
Lists with one address are the same whatever they hold, and lists that are being compared
already do not tell their elements apart. -/
def sameWithin (heap : Heap) : Nat → List (Nat × Nat) → Value → Value → Bool
  | _, _, .number x, .number y => sameNumber x y
  | _, _, .text x, .text y => x = y
  | _, _, .truth x, .truth y => x = y
  | _, _, .object x, .object y => x.identity = y.identity
  | 0, _, .list x, .list y => x = y
  | depth + 1, outer, .list x, .list y =>
      x = y || (x, y) ∈ outer ||
        (heap.count x = heap.count y &&
          ((heap.elements x).zip (heap.elements y)).all fun pair =>
            heap.sameWithin depth ((x, y) :: outer) pair.1 pair.2)
  | _, _, _, _ => false

/-- Whether a script takes two values for the same. -/
def same (heap : Heap) (x y : Value) : Bool :=
  heap.sameWithin heap.pairBound [] x y

/-- Drops the first element that is the same as the value. -/
def eraseFirst (heap : Heap) (value : Value) (values : Array Value) : Array Value :=
  values.eraseP fun element => heap.same element value

/-- Whether some element at an address is the same as the value. -/
def holds (heap : Heap) (address : Nat) (value : Value) : Bool :=
  (heap.storage address).any fun element => heap.same element value

/-! ## Copies -/

/-- Copies a value inside of some lists, following lists to the given depth.  Every list met
on the way gets storage of its own. -/
def copyWithin : Nat → List Nat → Value → StateM Heap Value
  | depth + 1, outer, .list address =>
      if address ∈ outer then allocate []
      else do
        let heap ← get
        let copies ← (heap.elements address).mapM (copyWithin depth (address :: outer))
        allocate copies
  | 0, _, .list _ => allocate []
  | _, _, value => pure value

/-- A value that shares no list with the one it is made from. -/
def copy (value : Value) : StateM Heap Value := fun heap =>
  copyWithin heap.depthBound [] value heap

end Heap
end Scriptlet
