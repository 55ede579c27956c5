import Scriptlet.Number.Decimal

namespace Scriptlet

/-!
The values that scripts compute with.
-/

/-- The kinds of values. -/
inductive Value.Kind where
  | number
  | text
  | truth
  | list
  | object
  deriving DecidableEq

namespace Value.Kind

/-- The name by which declarations and messages refer to a kind. -/
def name : Kind → String
  | .number => "number"
  | .text => "string"
  | .truth => "bool"
  | .list => "array"
  | .object => "object"

def all : List Kind :=
  [.number, .text, .truth, .list, .object]

def ofName? (word : String) : Option Kind :=
  all.find? fun kind => kind.name = word

end Value.Kind

/-- Something of the host's that scripts can only pass around.  Two objects are the same
when they have the same identity; the label is the host's business. -/
structure Object where
  identity : Nat
  label : String
  deriving DecidableEq

/-- A list is referred to by the address of its storage, so that every holder of the address
sees the same elements. -/
inductive Value where
  | number (value : Float)
  | text (value : String)
  | truth (value : Bool)
  | list (address : Nat)
  | object (value : Object)

namespace Value

def kind : Value → Kind
  | .number _ => .number
  | .text _ => .text
  | .truth _ => .truth
  | .list _ => .list
  | .object _ => .object

def isText (value : Value) : Bool :=
  value.kind = .text

def isList (value : Value) : Bool :=
  value.kind = .list

/-- The text of a truth value. -/
def truthText (b : Bool) : String :=
  if b then "true" else "false"

end Value
end Scriptlet
