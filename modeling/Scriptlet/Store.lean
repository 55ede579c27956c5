import Scriptlet.Fault

namespace Scriptlet

/-!
The variables of a running program.  Every variable lives in one table of slots.  Scope
frames remember names so that leaving a scope can lower their reference counts; they do not
hide or remove variables.
-/

structure Slot where
  value : Value
  references : Int

/-- The slots by name, the names recorded by each open frame with the innermost frame last,
and the number of frames that may be open. -/
structure Store where
  slots : List (String × Slot) := []
  frames : Array (List String) := #[]
  depthLimit : Nat

namespace Store

/-- The number of frames that may be open unless the host says otherwise. -/
def defaultDepthLimit : Nat :=
  100000

def ofLimit (depthLimit : Nat) : Store :=
  { depthLimit }

def slot? (store : Store) (name : String) : Option Slot :=
  store.slots.lookup name

def contains (store : Store) (name : String) : Bool :=
  (store.slot? name).isSome

def references? (store : Store) (name : String) : Option Int :=
  (store.slot? name).map Slot.references

/-- The number of open frames. -/
def depth (store : Store) : Nat :=
  store.frames.size

def get (store : Store) (name : String) : Except RuntimeFault Value :=
  match store.slot? name with
  | some slot => .ok slot.value
  | none => .error (.unboundSlot name)

/-- The table with one slot replaced or added. -/
def withSlot (store : Store) (name : String) (slot : Slot) : Store :=
  { store with slots := (name, slot) :: store.slots.filter fun entry => entry.1 ≠ name }

/-- The table without a slot. -/
def withoutSlot (store : Store) (name : String) : Store :=
  { store with slots := store.slots.filter fun entry => entry.1 ≠ name }

/-- Changes the names recorded by the innermost frame, if a frame is open. -/
def inInnermost (store : Store) (change : List String → List String) : Store :=
  { store with frames := store.frames.modify (store.frames.size - 1) change }

/-- Removes a slot and one record of its name in the innermost frame. -/
def release (store : Store) (name : String) : Store :=
  (store.inInnermost fun names => names.erase name).withoutSlot name

/-- Lowers the count of a slot and removes the slot when nothing refers to it any more. -/
def lower (store : Store) (name : String) (slot : Slot) : Store :=
  if slot.references - 1 ≤ 0 then store.release name
  else store.withSlot name { slot with references := slot.references - 1 }

/-- Gives a variable a value.  The innermost frame records the name, a slot that was there
loses a reference, and the new slot starts without any. -/
def allocate (store : Store) (name : String) (value : Value) : Store :=
  let recorded := store.inInnermost fun names => name :: names
  let lowered :=
    match recorded.slot? name with
    | some slot => recorded.lower name slot
    | none => recorded
  lowered.withSlot name ⟨value, 0⟩

def addReference (store : Store) (name : String) : Except RuntimeFault Store :=
  match store.slot? name with
  | some slot => .ok (store.withSlot name { slot with references := slot.references + 1 })
  | none => .error (.unboundSlot name)

def releaseReference (store : Store) (name : String) : Except RuntimeFault Store :=
  match store.slot? name with
  | some slot => .ok (store.lower name slot)
  | none => .error (.unboundSlot name)

/-- Whether as many frames are open as may be. -/
def isFull (store : Store) : Bool :=
  store.depthLimit ≤ store.depth

/-- One more frame, with no names in it. -/
def withFrame (store : Store) : Store :=
  { store with frames := store.frames.push [] }

/-- Opens a frame, unless as many are open as may be. -/
def enter (store : Store) : Except RuntimeFault Store :=
  if store.isFull then .error (.scopeDepthExceeded store.depthLimit)
  else .ok store.withFrame

/-- One reference less for a name that still has a slot.  The slot stays whatever its
count. -/
def dropReference (store : Store) (name : String) : Store :=
  match store.slot? name with
  | some slot => store.withSlot name { slot with references := slot.references - 1 }
  | none => store

/-- Closes the innermost frame, if one is open.  Each of its records costs a reference. -/
def exit (store : Store) : Store :=
  match store.frames.back? with
  | none => store
  | some names => names.foldl dropReference { store with frames := store.frames.pop }

end Store
end Scriptlet
