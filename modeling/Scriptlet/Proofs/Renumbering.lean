import Scriptlet.Fault
import Scriptlet.Tree.Basic

namespace Scriptlet

/-!
# Parts of trees, and trees on other lines

Text that is moved to other lines is read as the same tree with other lines in it, and such a
tree runs like the tree it comes from, but for the lines of its faults.  Lines are changed here
wherever they occur, by a function that says where each line goes.

What is said of a tree is often said of each of its nodes.  The parts of a node are the nodes
that can be reached through its children.
-/

namespace Node

/-- The nodes right below a node, those in its blocks included. -/
def children : Node → List Node
  | .literal .. | .variable .. | .flag .. => []
  | .array elements _ => elements
  | .binary _ left right _ => [left, right]
  | .unary _ operand _ => [operand]
  | .assignment _ value _ => [value]
  | .call _ arguments _ => arguments
  | .methodCall _ _ arguments _ => arguments
  | .conditional condition thenBranch elseBranch _ =>
      condition :: (thenBranch.statements ++ (elseBranch.map Block.statements).getD [])
  | .compound block => block.statements
  | .loop _ iterable body _ => iterable :: body.statements
  | .range first last _ => [first, last]

/-- The first node is the second one or stands somewhere below it. -/
inductive Within (part : Node) : Node → Prop
  | self : Within part part
  | child {child node : Node} : child ∈ node.children → Within part child → Within part node

/-- The property holds of every part. -/
def All (property : Node → Prop) (node : Node) : Prop :=
  ∀ part, Within part node → property part

theorem all_iff {property : Node → Prop} {node : Node} :
    node.All property ↔ property node ∧ ∀ child ∈ node.children, child.All property := by
  constructor
  · intro all
    exact ⟨all node .self, fun child member part inside => all part (.child member inside)⟩
  · rintro ⟨here, below⟩ part inside
    cases inside with
    | self => exact here
    | child member deeper => exact below _ member part deeper

theorem All.here {property : Node → Prop} {node : Node} (all : node.All property) :
    property node :=
  all node .self

theorem All.below {property : Node → Prop} {node child : Node} (all : node.All property)
    (member : child ∈ node.children) : child.All property :=
  (all_iff.mp all).2 child member

theorem All.imp {property weaker : Node → Prop} {node : Node} (all : node.All property)
    (implies : ∀ part, property part → weaker part) : node.All weaker :=
  fun part inside => implies part (all part inside)

end Node

/-! ## Lines -/

mutual

/-- The tree with every line replaced. -/
def Node.renumbered (place : Nat → Nat) : Node → Node
  | .literal value line => .literal value (place line)
  | .array elements line => .array (Node.eachRenumbered place elements) (place line)
  | .variable name line => .variable name (place line)
  | .binary operator left right line =>
      .binary operator (left.renumbered place) (right.renumbered place) (place line)
  | .unary operator operand line => .unary operator (operand.renumbered place) (place line)
  | .assignment name value line => .assignment name (value.renumbered place) (place line)
  | .call function arguments line =>
      .call function (Node.eachRenumbered place arguments) (place line)
  | .methodCall receiver method arguments line =>
      .methodCall receiver method (Node.eachRenumbered place arguments) (place line)
  | .conditional condition thenBranch elseBranch line =>
      .conditional (condition.renumbered place) (thenBranch.renumbered place)
        (Block.anyRenumbered place elseBranch) (place line)
  | .compound block => .compound (block.renumbered place)
  | .loop iterator iterable body line =>
      .loop iterator (iterable.renumbered place) (body.renumbered place) (place line)
  | .range first last line =>
      .range (first.renumbered place) (last.renumbered place) (place line)
  | .flag flag line => .flag flag (place line)

def Node.eachRenumbered (place : Nat → Nat) : List Node → List Node
  | [] => []
  | node :: rest => node.renumbered place :: Node.eachRenumbered place rest

def Block.renumbered (place : Nat → Nat) : Block → Block
  | .mk framed statements line =>
      .mk framed (Node.eachRenumbered place statements) (place line)

def Block.anyRenumbered (place : Nat → Nat) : Option Block → Option Block
  | none => none
  | some block => some (block.renumbered place)

end

theorem Node.eachRenumbered_eq_map (place : Nat → Nat) (nodes : List Node) :
    Node.eachRenumbered place nodes = nodes.map (Node.renumbered place) := by
  induction nodes with
  | nil => rw [Node.eachRenumbered, List.map_nil]
  | cons node rest inductionHypothesis =>
      rw [Node.eachRenumbered, List.map_cons, inductionHypothesis]

theorem Node.line_renumbered (place : Nat → Nat) (node : Node) :
    (node.renumbered place).line = place node.line := by
  cases node with
  | compound block =>
      cases block with
      | mk framed statements line => rw [Node.renumbered, Block.renumbered]; rfl
  | _ => rw [Node.renumbered]; rfl

theorem Node.isExpression_renumbered (place : Nat → Nat) (node : Node) :
    (node.renumbered place).isExpression = node.isExpression := by
  cases node <;> rw [Node.renumbered] <;> rfl

mutual

theorem Node.renumbered_id : ∀ node : Node, node.renumbered id = node
  | .literal _ _ => by rw [Node.renumbered, id_eq]
  | .array elements _ => by rw [Node.renumbered, Node.eachRenumbered_id elements, id_eq]
  | .variable _ _ => by rw [Node.renumbered, id_eq]
  | .binary _ left right _ => by
      rw [Node.renumbered, left.renumbered_id, right.renumbered_id, id_eq]
  | .unary _ operand _ => by rw [Node.renumbered, operand.renumbered_id, id_eq]
  | .assignment _ value _ => by rw [Node.renumbered, value.renumbered_id, id_eq]
  | .call _ arguments _ => by rw [Node.renumbered, Node.eachRenumbered_id arguments, id_eq]
  | .methodCall _ _ arguments _ => by
      rw [Node.renumbered, Node.eachRenumbered_id arguments, id_eq]
  | .conditional condition thenBranch elseBranch _ => by
      rw [Node.renumbered, condition.renumbered_id, thenBranch.renumbered_id,
        Block.anyRenumbered_id elseBranch, id_eq]
  | .compound block => by rw [Node.renumbered, block.renumbered_id]
  | .loop _ iterable body _ => by
      rw [Node.renumbered, iterable.renumbered_id, body.renumbered_id, id_eq]
  | .range first last _ => by
      rw [Node.renumbered, first.renumbered_id, last.renumbered_id, id_eq]
  | .flag _ _ => by rw [Node.renumbered, id_eq]

theorem Node.eachRenumbered_id : ∀ nodes : List Node, Node.eachRenumbered id nodes = nodes
  | [] => by rw [Node.eachRenumbered]
  | node :: rest => by
      rw [Node.eachRenumbered, node.renumbered_id, Node.eachRenumbered_id rest]

theorem Block.renumbered_id : ∀ block : Block, block.renumbered id = block
  | .mk _ statements _ => by rw [Block.renumbered, Node.eachRenumbered_id statements, id_eq]

theorem Block.anyRenumbered_id : ∀ block : Option Block, Block.anyRenumbered id block = block
  | none => by rw [Block.anyRenumbered]
  | some block => by rw [Block.anyRenumbered, block.renumbered_id]

end

def Token.renumbered (place : Nat → Nat) (token : Token) : Token :=
  { token with line := place token.line }

@[simp] theorem Token.renumbered_kind (place : Nat → Nat) (token : Token) :
    (token.renumbered place).kind = token.kind :=
  rfl

@[simp] theorem Token.renumbered_text (place : Nat → Nat) (token : Token) :
    (token.renumbered place).text = token.text :=
  rfl

@[simp] theorem Token.renumbered_line (place : Nat → Nat) (token : Token) :
    (token.renumbered place).line = place token.line :=
  rfl

theorem Token.renumbered_id (token : Token) : token.renumbered id = token :=
  rfl

/-! ## Faults -/

def RuntimeFault.renumbered (place : Nat → Nat) : RuntimeFault → RuntimeFault
  | .unknownVariable name line => .unknownVariable name (place line)
  | .unknownFunction name line => .unknownFunction name (place line)
  | .unknownMethod name line => .unknownMethod name (place line)
  | .invalidOperands operator left right line => .invalidOperands operator left right (place line)
  | .invalidOperand operator operand line => .invalidOperand operator operand (place line)
  | .expectedTruth found line => .expectedTruth found (place line)
  | .expectedList found line => .expectedList found (place line)
  | .expectedNumber found line => .expectedNumber found (place line)
  | .indexOutOfBounds index length line => .indexOutOfBounds index length (place line)
  | .argumentCount name expected found line => .argumentCount name expected found (place line)
  | .invalidArgument fault line => .invalidArgument fault (place line)
  | .missingValue line => .missingValue (place line)
  | .scopeDepthExceeded limit => .scopeDepthExceeded limit
  | .unboundSlot name => .unboundSlot name
  | .hostFailure name details line => .hostFailure name details (place line)

theorem RuntimeFault.renumbered_id (fault : RuntimeFault) : fault.renumbered id = fault := by
  cases fault <;> rfl

def DeclarationFault.renumbered (place : Nat → Nat) : DeclarationFault → DeclarationFault
  | .noName found => .noName (found.renumbered place)
  | .noColon name found => .noColon name (found.renumbered place)
  | .noType name found => .noType name (found.renumbered place)

def SyntaxFault.renumbered (place : Nat → Nat) : SyntaxFault → SyntaxFault
  | .unknownSymbol symbol line => .unknownSymbol symbol (place line)
  | .unexpectedToken found expected => .unexpectedToken (found.renumbered place) expected
  | .unexpectedStatement found => .unexpectedStatement (found.renumbered place)
  | .unterminatedString literal line => .unterminatedString literal (place line)
  | .unterminatedArray line => .unterminatedArray (place line)
  | .invalidNumber literal line => .invalidNumber literal (place line)
  | .invalidRange literal line => .invalidRange literal (place line)
  | .malformedDeclaration fault => .malformedDeclaration (fault.renumbered place)

def SetupFault.renumbered (place : Nat → Nat) : SetupFault → SetupFault
  | .duplicateFunction name => .duplicateFunction name
  | .duplicateMethod name => .duplicateMethod name
  | .argumentsExhausted name line => .argumentsExhausted name (place line)
  | .coercion name raw expected line => .coercion name raw expected (place line)

def Fault.renumbered (place : Nat → Nat) : Fault → Fault
  | .source fault => .source (fault.renumbered place)
  | .runtime fault => .runtime (fault.renumbered place)
  | .setup fault => .setup (fault.renumbered place)
  | .exhausted => .exhausted

theorem SyntaxFault.renumbered_id (fault : SyntaxFault) : fault.renumbered id = fault := by
  cases fault with
  | malformedDeclaration fault => cases fault <;> rfl
  | _ => rfl

theorem Fault.renumbered_id (fault : Fault) : fault.renumbered id = fault := by
  cases fault with
  | source fault => exact congrArg Fault.source fault.renumbered_id
  | runtime fault => exact congrArg Fault.runtime fault.renumbered_id
  | setup fault => cases fault <;> rfl
  | exhausted => rfl

end Scriptlet
