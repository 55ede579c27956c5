import Scriptlet.Text.Piece
import Scriptlet.Value.Access

namespace Scriptlet
namespace Heap

/-!
What the operators do to values.  Operands are never changed: an operator that yields a list
puts it at an address of its own.
-/

def invalidOperands {α : Type} (operator : BinaryOperator) (left right : Value) (line : Nat) :
    Action α :=
  Action.read fun heap =>
    .error (.invalidOperands operator (heap.render left) (heap.render right) line)

/-- Numbers under the arithmetic operators. -/
def arithmetic (operator : BinaryOperator) (x y : Float) : Float :=
  match operator with
  | .add => x + y
  | .subtract => x - y
  | .multiply => x * y
  | .divide => x / y
  | _ => Number.remainder x y

/-- The first list, less the first occurrence of each element of the second. -/
def without (heap : Heap) (values removed : Array Value) : Array Value :=
  removed.foldl (fun rest value => heap.eraseFirst value rest) values

/-- The text of the left operand without the occurrences of the text of the right one. -/
def erased (left right : String) : String :=
  String.ofList (Text.eraseAll right.toList left.toList)

/-- Numbers add up, lists are joined or get one element more, and a text takes in whatever
stands on its other side. -/
def sum (left right : Value) (line : Nat) : Action Value := do
  let heap ← get
  match left, right with
  | .number x, .number y => pure (.number (x + y))
  | .list x, .list y => Action.sure (keep (heap.storage x ++ heap.storage y))
  | .list x, value => Action.sure (keep ((heap.storage x).push value))
  | _, _ =>
      if left.isText || right.isText then pure (.text (heap.render left ++ heap.render right))
      else invalidOperands .add left right line

/-- Numbers are subtracted, lists lose elements, and a text loses the occurrences of
another. -/
def difference (left right : Value) (line : Nat) : Action Value := do
  let heap ← get
  match left, right with
  | .number x, .number y => pure (.number (x - y))
  | .list x, .list y => Action.sure (keep (heap.without (heap.storage x) (heap.storage y)))
  | .list x, value => Action.sure (keep (heap.eraseFirst value (heap.storage x)))
  | _, _ =>
      if left.isText || right.isText then
        pure (.text (erased (heap.render left) (heap.render right)))
      else invalidOperands .subtract left right line

/-- Operators for numbers only. -/
def product (operator : BinaryOperator) (left right : Value) (line : Nat) : Action Value :=
  match left, right with
  | .number x, .number y => pure (.number (arithmetic operator x y))
  | _, _ => invalidOperands operator left right line

/-- Values of one kind are the same or not; numbers are also in order. -/
def comparison (operator : BinaryOperator) (left right : Value) (line : Nat) : Action Value := do
  let heap ← get
  match operator, left, right with
  | .greater, .number x, .number y => pure (.truth (x > y))
  | .less, .number x, .number y => pure (.truth (x < y))
  | .equal, _, _ =>
      if left.kind = right.kind then pure (.truth (heap.same left right))
      else invalidOperands operator left right line
  | _, _, _ => invalidOperands operator left right line

/-- Truth values under the connectives.  Both operands are there already. -/
def connective (operator : BinaryOperator) (left right : Value) (line : Nat) : Action Value :=
  match left, right with
  | .truth x, .truth y => pure (.truth (if operator = .and then x && y else x || y))
  | _, _ => invalidOperands operator left right line

/-- A binary operator applied to its operands. -/
def binary (operator : BinaryOperator) (left right : Value) (line : Nat) : Action Value :=
  match operator with
  | .add => sum left right line
  | .subtract => difference left right line
  | .multiply | .divide | .modulo => product operator left right line
  | .greater | .less | .equal => comparison operator left right line
  | .and | .or => connective operator left right line

/-- A unary operator applied to its operand. -/
def unary (operator : UnaryOperator) (operand : Value) (line : Nat) : Action Value :=
  match operator, operand with
  | .negate, .number x => pure (.number (-x))
  | .not, .truth b => pure (.truth !b)
  | _, _ => Action.read fun heap =>
      .error (.invalidOperand operator (heap.render operand) line)

/-! ## Ranges -/

/-- The integers from the first bound to the last, both included, up or down. -/
def integersBetween (first last : Int) : List Int :=
  let count := (last - first).natAbs + 1
  if first ≤ last then (List.range count).map fun (i : Nat) => first + i
  else (List.range count).map fun (i : Nat) => first - i

/-- A bound of a range: a number or a numeric text, cut to an integer. -/
def rangeBound (value : Value) (line : Nat) (heap : Heap) : Except RuntimeFault Int := do
  let x ← heap.toNumber value line
  Number.integerOn line x

/-- The list of integers between two bounds.  The first bound is settled before the second
is looked at. -/
def range (first last : Value) (line : Nat) : Action Value := do
  let m ← Action.read (rangeBound first line)
  let n ← Action.read (rangeBound last line)
  let values ← Action.read fun _ => (integersBetween m n).mapM fun i => do
    let x ← Number.ofIntOn line i
    pure (Value.number x)
  Action.sure (allocate values)

end Heap
end Scriptlet
