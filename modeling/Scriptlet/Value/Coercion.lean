import Scriptlet.Text.Character
import Scriptlet.Text.Piece
import Scriptlet.Value.Heap

namespace Scriptlet

/-!
Conversion of the values a host supplies to the kinds a script declares.
-/

namespace Coercion

/-- The inside of a text in square brackets.  A bracket at one end only belongs to the
text. -/
def unbracketed (cs : List Char) : List Char :=
  match cs with
  | '[' :: rest => if rest.getLast? = some ']' then rest.dropLast else cs
  | _ => cs

/-- An element of a written list: a number if it reads as one, otherwise a text. -/
def element (cs : List Char) : Value :=
  match Number.read? cs with
  | some x => .number x
  | none => .text (String.ofList cs)

/-- The elements of a written list: pieces between commas, each without the blanks around
it. -/
def elements (cs : List Char) : List Value :=
  let inner := Text.trim (unbracketed (Text.trim cs))
  if inner.isEmpty then []
  else (Text.pieces ',' inner).map fun piece => element (Text.trim piece)

/-- The truth value that a text names, in any mixture of cases. -/
def truth? (cs : List Char) : Option Bool :=
  let word := (Text.trim cs).map Char.toLower
  if word = ['t', 'r', 'u', 'e'] then some true
  else if word = ['f', 'a', 'l', 's', 'e'] then some false
  else none

/-- What a value becomes when a kind is asked for: the value itself, the elements of a list
that has yet to be stored, or nothing. -/
inductive Outcome where
  | value (result : Value)
  | list (elements : List Value)
  | none

/-- A value of the kind itself is kept, and anything will do for an object. -/
def outcome (value : Value) (kind : Value.Kind) : Outcome :=
  if value.kind = kind then .value value
  else
    match kind, value with
    | .object, _ => .value value
    | .number, .text s =>
        match Number.read? (Text.trim s.toList) with
        | some x => .value (.number x)
        | .none => .none
    | .text, .number x => .value (.text (Number.text x))
    | .text, .truth b => .value (.text (Value.truthText b))
    | .truth, .text s =>
        match truth? s.toList with
        | some b => .value (.truth b)
        | .none => .none
    | .list, .text s => .list (elements s.toList)
    | _, _ => .none

end Coercion

/-- Converts a value to a kind, if that can be done.  A list that is kept keeps its
address. -/
def Heap.coerce (value : Value) (kind : Value.Kind) : StateM Heap (Option Value) :=
  match Coercion.outcome value kind with
  | .value result => pure (some result)
  | .list elements => do
      let result ← Heap.allocate elements
      pure (some result)
  | .none => pure none

end Scriptlet
