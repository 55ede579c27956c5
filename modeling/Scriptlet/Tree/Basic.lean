import Scriptlet.Tree.Operator
import Scriptlet.Value.Basic

namespace Scriptlet

/-!
Programs as trees.  Expressions and statements share one type of nodes, since a host may
build trees that mix them; every node knows the line it begins on.
-/

/-- The statements that end a block early. -/
inductive Flag where
  | break
  | halt
  deriving DecidableEq

/-- The word that writes a flag. -/
def Flag.word : Flag → String
  | .break => "break"
  | .halt => "return"

mutual

inductive Node where
  | literal (value : Value) (line : Nat)
  | array (elements : List Node) (line : Nat)
  | variable (name : String) (line : Nat)
  | binary (operator : BinaryOperator) (left right : Node) (line : Nat)
  | unary (operator : UnaryOperator) (operand : Node) (line : Nat)
  | assignment (name : String) (value : Node) (line : Nat)
  | call (function : String) (arguments : List Node) (line : Nat)
  | methodCall (receiver method : String) (arguments : List Node) (line : Nat)
  | conditional (condition : Node) (thenBranch : Block) (elseBranch : Option Block) (line : Nat)
  | compound (block : Block)
  | loop (iterator : String) (iterable : Node) (body : Block) (line : Nat)
  | range (first last : Node) (line : Nat)
  | flag (flag : Flag) (line : Nat)

/-- Statements in order.  A framed block opens a scope frame while it runs. -/
inductive Block where
  | mk (framed : Bool) (statements : List Node) (line : Nat)

end

namespace Block

def framed : Block → Bool
  | .mk framed _ _ => framed

def statements : Block → List Node
  | .mk _ statements _ => statements

def line : Block → Nat
  | .mk _ _ line => line

end Block

namespace Node

def line : Node → Nat
  | .literal _ line => line
  | .array _ line => line
  | .variable _ line => line
  | .binary _ _ _ line => line
  | .unary _ _ line => line
  | .assignment _ _ line => line
  | .call _ _ line => line
  | .methodCall _ _ _ line => line
  | .conditional _ _ _ line => line
  | .compound block => block.line
  | .loop _ _ _ line => line
  | .range _ _ line => line
  | .flag _ line => line

/-- The nodes that are there for their value. -/
def isExpression : Node → Bool
  | .literal .. | .array .. | .variable .. | .binary .. | .unary .. => true
  | .call .. | .methodCall .. | .range .. => true
  | .assignment .. | .conditional .. | .compound .. | .loop .. | .flag .. => false

end Node

/-- A program is a block without a frame of its own. -/
structure Program where
  root : Block

end Scriptlet
