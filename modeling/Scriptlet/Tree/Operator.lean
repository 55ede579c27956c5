namespace Scriptlet

/-!
The operators of expressions.
-/

inductive BinaryOperator where
  | add
  | subtract
  | multiply
  | divide
  | modulo
  | greater
  | less
  | equal
  | and
  | or
  deriving DecidableEq

namespace BinaryOperator

def symbol : BinaryOperator → String
  | .add => "+"
  | .subtract => "-"
  | .multiply => "*"
  | .divide => "/"
  | .modulo => "%"
  | .greater => ">"
  | .less => "<"
  | .equal => "="
  | .and => "and"
  | .or => "or"

/-- All operators, in the order of their declaration. -/
def all : List BinaryOperator :=
  [.add, .subtract, .multiply, .divide, .modulo, .greater, .less, .equal, .and, .or]

def ofSymbol? (text : String) : Option BinaryOperator :=
  all.find? fun operator => operator.symbol = text

/-- How loosely an operator binds its operands. -/
def rank : BinaryOperator → Nat
  | .multiply | .divide | .modulo => 2
  | .add | .subtract => 3
  | .greater | .less => 4
  | .equal => 5
  | .and => 6
  | .or => 7

end BinaryOperator

inductive UnaryOperator where
  | negate
  | not
  deriving DecidableEq

def UnaryOperator.symbol : UnaryOperator → String
  | .negate => "-"
  | .not => "not"

end Scriptlet
