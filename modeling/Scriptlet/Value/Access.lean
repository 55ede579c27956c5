import Scriptlet.Fault
import Scriptlet.Number.Whole
import Scriptlet.Text.Character
import Scriptlet.Value.Heap

namespace Scriptlet

/-!
Actions on the heap that may fail, and the readers that ask a value for what it holds.
Readers only look at the heap: what they find wrong is reported by its rendering.
-/

/-- A computation on the heap.  The heap survives a fault. -/
abbrev Heap.Action (α : Type) : Type :=
  EStateM RuntimeFault Heap α

namespace Heap

/-- An action that only looks. -/
def Action.read {α : Type} (reader : Heap → Except RuntimeFault α) : Action α := fun heap =>
  match reader heap with
  | .ok result => .ok result heap
  | .error fault => .error fault heap

/-- An action that cannot fail. -/
def Action.sure {α : Type} (step : StateM Heap α) : Action α := fun heap =>
  match step heap with
  | (result, after) => .ok result after

def asNumber (value : Value) (line : Nat) (heap : Heap) : Except RuntimeFault Float :=
  match value with
  | .number x => .ok x
  | _ => .error (.expectedNumber (heap.render value) line)

/-- A number, or a text that reads as one once the blanks around it are gone. -/
def toNumber (value : Value) (line : Nat) (heap : Heap) : Except RuntimeFault Float :=
  match value with
  | .number x => .ok x
  | .text s =>
      match Number.read? (Text.trim s.toList) with
      | some x => .ok x
      | none => .error (.expectedNumber s line)
  | _ => .error (.expectedNumber (heap.render value) line)

def asTruth (value : Value) (line : Nat) (heap : Heap) : Except RuntimeFault Bool :=
  match value with
  | .truth b => .ok b
  | _ => .error (.expectedTruth (heap.render value) line)

/-- The address of a list. -/
def asList (value : Value) (line : Nat) (heap : Heap) : Except RuntimeFault Nat :=
  match value with
  | .list address => .ok address
  | _ => .error (.expectedList (heap.render value) line)

end Heap

namespace Number

/-- The integer of a double, with the fault reported on a line. -/
def integerOn (line : Nat) (x : Float) : Except RuntimeFault Int :=
  match truncate x with
  | .ok n => .ok n
  | .error .notFinite => .error (.invalidArgument (.notFinite x) line)
  | .error .tooLarge => .error (.invalidArgument (.tooLargeInteger x) line)

/-- The list position of a double, with the fault reported on a line. -/
def indexOn (line : Nat) (x : Float) : Except RuntimeFault Nat :=
  match index x with
  | .ok n => .ok n
  | .error .notNatural => .error (.invalidArgument (.notAnIndex x) line)
  | .error .tooLarge => .error (.invalidArgument (.tooLargeIndex x) line)

/-- The double of an integer, with the fault reported on a line. -/
def ofIntOn (line : Nat) (n : Int) : Except RuntimeFault Float :=
  match ofInt? n with
  | some x => .ok x
  | none => .error (.invalidArgument (.unrepresentable n) line)

end Number
end Scriptlet
