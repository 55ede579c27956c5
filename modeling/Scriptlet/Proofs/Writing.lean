import Scriptlet.Number.Decimal
import Scriptlet.Tree.Basic

namespace Scriptlet

/-!
# Trees written as source text

Every tree that is read, but for declarations and infinite literals, has a text of its own.
Compound expressions stand in parentheses, so that no text relies on the ranks of operators,
and every statement stands on a line of its own.  The lines of nodes are not written; what a
text says of a tree is the tree without them.
-/

/-- Texts with a comma and a blank between each two. -/
def Text.listed : List (List Char) → List Char
  | [] => []
  | [text] => text
  | text :: next :: rest => text ++ ',' :: ' ' :: listed (next :: rest)

theorem Text.length_le_listed {texts : List (List Char)} {text : List Char}
    (member : text ∈ texts) : text.length ≤ (Text.listed texts).length := by
  induction texts with
  | nil => cases member
  | cons first others inductionHypothesis =>
      cases others with
      | nil =>
          rw [List.mem_singleton.mp member]
          exact Nat.le_refl _
      | cons next others =>
          simp only [Text.listed, List.length_append, List.length_cons]
          rcases List.mem_cons.mp member with rfl | later
          · omega
          · have bound := inductionHypothesis later
            omega

theorem Text.count_le_listed (texts : List (List Char)) :
    texts.length ≤ (Text.listed texts).length + 1 := by
  induction texts with
  | nil => exact Nat.zero_le _
  | cons first others inductionHypothesis =>
      cases others with
      | nil => exact Nat.le_add_left 1 _
      | cons next others =>
          simp only [Text.listed, List.length_append, List.length_cons] at inductionHypothesis ⊢
          omega

/-! ## Expressions -/

/-- Literals as they are written.  Lists have no literal. -/
def Value.sourceText : Value → List Char
  | .text s => '"' :: (s.toList ++ ['"'])
  | .number x => Number.spelling x
  | .truth b => (if b then "true" else "false").toList
  | _ => []

mutual

/-- The text of a node where a value is wanted. -/
def Node.expressionText : Node → List Char
  | .literal value _ => value.sourceText
  | .array elements _ => '[' :: (Text.listed (Node.expressionTexts elements) ++ [']'])
  | .variable name _ => name.toList
  | .binary operator left right _ =>
      '(' :: (left.expressionText ++
        ' ' :: (operator.symbol.toList ++ ' ' :: (right.expressionText ++ [')'])))
  | .unary operator operand _ =>
      '(' :: (operator.symbol.toList ++ ' ' :: (operand.expressionText ++ [')']))
  | .call function arguments _ =>
      function.toList ++ '(' :: (Text.listed (Node.expressionTexts arguments) ++ [')'])
  | .methodCall receiver method arguments _ =>
      receiver.toList ++ '.' :: (method.toList ++
        '(' :: (Text.listed (Node.expressionTexts arguments) ++ [')']))
  | .range first last _ =>
      '(' :: (first.expressionText ++ '.' :: '.' :: ' ' :: (last.expressionText ++ [')']))
  | _ => []

def Node.expressionTexts : List Node → List (List Char)
  | [] => []
  | node :: rest => node.expressionText :: Node.expressionTexts rest

end

theorem Node.expressionTexts_length (nodes : List Node) :
    (Node.expressionTexts nodes).length = nodes.length := by
  induction nodes with
  | nil => rfl
  | cons node rest inductionHypothesis =>
      rw [Node.expressionTexts, List.length_cons, List.length_cons, inductionHypothesis]

theorem Node.mem_expressionTexts {node : Node} {nodes : List Node} (member : node ∈ nodes) :
    node.expressionText ∈ Node.expressionTexts nodes := by
  induction nodes with
  | nil => cases member
  | cons first rest inductionHypothesis =>
      rw [Node.expressionTexts]
      rcases List.mem_cons.mp member with rfl | later
      · exact List.mem_cons_self
      · exact List.mem_cons_of_mem _ (inductionHypothesis later)

theorem Node.methodCallText_append (receiver method : String) (arguments : List Node) (line : Nat)
    (rest : List Char) :
    (Node.methodCall receiver method arguments line).expressionText ++ rest =
      receiver.toList ++ '.' :: (method.toList ++
        '(' :: (Text.listed (Node.expressionTexts arguments) ++ ')' :: rest)) := by
  simp only [Node.expressionText, List.append_assoc, List.cons_append, List.nil_append]

/-! ## Statements -/

/-- Arguments without parentheses, behind the name that they are given to. -/
def Text.argumentTail (arguments : List (List Char)) : List Char :=
  if arguments.isEmpty then [] else ' ' :: Text.listed arguments

/-- The tail is as long as its list, and as the number of its arguments. -/
theorem Text.le_argumentTail (texts : List (List Char)) :
    (Text.listed texts).length ≤ (Text.argumentTail texts).length ∧
      texts.length ≤ (Text.argumentTail texts).length := by
  cases texts with
  | nil => exact ⟨Nat.le_refl _, Nat.le_refl _⟩
  | cons text others =>
      have count := Text.count_le_listed (text :: others)
      have form : Text.argumentTail (text :: others) = ' ' :: Text.listed (text :: others) := rfl
      rw [form, List.length_cons]
      exact ⟨Nat.le_succ _, count⟩

/-- A text behind a word, with a blank between them. -/
def Text.afterWord (word : String) (rest : List Char) : List Char :=
  word.toList ++ ' ' :: rest

theorem Text.afterWord_append (word : String) (rest more : List Char) :
    Text.afterWord word rest ++ more = Text.afterWord word (rest ++ more) := by
  simp only [Text.afterWord, List.append_assoc, List.cons_append]

theorem Text.length_afterWord (word : String) (rest : List Char) :
    (Text.afterWord word rest).length = word.toList.length + (rest.length + 1) := by
  rw [Text.afterWord, List.length_append, List.length_cons]

mutual

/-- The text of a node where a statement is wanted. -/
def Node.statementText : Node → List Char
  | .assignment name value _ => Text.afterWord name ('=' :: ' ' :: value.expressionText)
  | .call function arguments _ =>
      function.toList ++ Text.argumentTail (Node.expressionTexts arguments)
  | .conditional condition thenBranch elseBranch _ =>
      Text.afterWord "if" (condition.expressionText ++
        ' ' :: (thenBranch.text ++ Block.elseText elseBranch))
  | .loop iterator iterable body _ =>
      Text.afterWord "for" (Text.afterWord iterator
        (Text.afterWord "in" (iterable.expressionText ++ ' ' :: body.text)))
  | .flag flag _ => flag.word.toList
  | .methodCall receiver method arguments line =>
      Node.expressionText (.methodCall receiver method arguments line)
  | _ => []

/-- One statement on every line. -/
def Node.lineTexts : List Node → List Char
  | [] => []
  | statement :: rest => statement.statementText ++ '\n' :: Node.lineTexts rest

/-- A block in braces. -/
def Block.text : Block → List Char
  | .mk _ statements _ => '\x7b' :: '\n' :: (Node.lineTexts statements ++ ['\x7d'])

/-- The other branch of a conditional.  One without a frame holds a conditional, which goes
on in the same line. -/
def Block.elseText : Option Block → List Char
  | none => []
  | some (.mk true statements _) =>
      ' ' :: Text.afterWord "else" ('\x7b' :: '\n' :: (Node.lineTexts statements ++ ['\x7d']))
  | some (.mk false [] _) => []
  | some (.mk false (nested :: _) _) => ' ' :: Text.afterWord "else" nested.statementText

end

theorem Block.elseText_framed (statements : List Node) (line : Nat) :
    Block.elseText (some (.mk true statements line)) =
      ' ' :: Text.afterWord "else" (Block.mk true statements line).text := by
  rw [Block.elseText, Block.text]

theorem Block.elseText_chained (condition : Node) (thenBranch : Block) (elseBranch : Option Block)
    (line blockLine : Nat) :
    Block.elseText
        (some (.mk false [.conditional condition thenBranch elseBranch line] blockLine)) =
      ' ' :: Text.afterWord "else" (Text.afterWord "if" (condition.expressionText ++
        ' ' :: (thenBranch.text ++ Block.elseText elseBranch))) := by
  rw [Block.elseText, Node.statementText]

theorem Node.count_le_lineTexts (statements : List Node) :
    statements.length ≤ (Node.lineTexts statements).length := by
  induction statements with
  | nil => exact Nat.zero_le _
  | cons statement rest inductionHypothesis =>
      simp only [Node.lineTexts, List.length_append, List.length_cons]
      omega

theorem Node.length_le_lineTexts {statement : Node} {statements : List Node}
    (member : statement ∈ statements) :
    statement.statementText.length ≤ (Node.lineTexts statements).length := by
  induction statements with
  | nil => cases member
  | cons first rest inductionHypothesis =>
      simp only [Node.lineTexts, List.length_append, List.length_cons]
      rcases List.mem_cons.mp member with rfl | later
      · omega
      · have bound := inductionHypothesis later
        omega

/-- The text of a program. -/
def Program.text (program : Program) : List Char :=
  Node.lineTexts program.root.statements

/-! ## Trees without lines -/

mutual

def Node.withoutLines : Node → Node
  | .literal value _ => .literal value 0
  | .array elements _ => .array (Node.eachWithoutLines elements) 0
  | .variable name _ => .variable name 0
  | .binary operator left right _ => .binary operator left.withoutLines right.withoutLines 0
  | .unary operator operand _ => .unary operator operand.withoutLines 0
  | .assignment name value _ => .assignment name value.withoutLines 0
  | .call function arguments _ => .call function (Node.eachWithoutLines arguments) 0
  | .methodCall receiver method arguments _ =>
      .methodCall receiver method (Node.eachWithoutLines arguments) 0
  | .conditional condition thenBranch elseBranch _ =>
      .conditional condition.withoutLines thenBranch.withoutLines
        (Block.anyWithoutLines elseBranch) 0
  | .compound block => .compound block.withoutLines
  | .loop iterator iterable body _ =>
      .loop iterator iterable.withoutLines body.withoutLines 0
  | .range first last _ => .range first.withoutLines last.withoutLines 0
  | .flag flag _ => .flag flag 0

def Node.eachWithoutLines : List Node → List Node
  | [] => []
  | node :: rest => node.withoutLines :: Node.eachWithoutLines rest

def Block.withoutLines : Block → Block
  | .mk framed statements _ => .mk framed (Node.eachWithoutLines statements) 0

def Block.anyWithoutLines : Option Block → Option Block
  | none => none
  | some block => some block.withoutLines

end

def Program.withoutLines (program : Program) : Program :=
  ⟨program.root.withoutLines⟩

/-! ## Trees that have a text -/

/-- Whether the node by itself can be written: it declares nothing, and it is no infinite
number. -/
def Node.isWritable : Node → Bool
  | .compound _ => false
  | .literal (.number x) _ =>
      match Number.parts x with
      | .infinite _ => false
      | _ => true
  | _ => true

mutual

/-- Whether a test holds of every node of a tree. -/
def Node.every (test : Node → Bool) : Node → Bool
  | .literal value line => test (.literal value line)
  | .array elements line => test (.array elements line) && Node.everyOf test elements
  | .variable name line => test (.variable name line)
  | .binary operator left right line =>
      test (.binary operator left right line) && left.every test && right.every test
  | .unary operator operand line => test (.unary operator operand line) && operand.every test
  | .assignment name value line => test (.assignment name value line) && value.every test
  | .call function arguments line =>
      test (.call function arguments line) && Node.everyOf test arguments
  | .methodCall receiver method arguments line =>
      test (.methodCall receiver method arguments line) && Node.everyOf test arguments
  | .conditional condition thenBranch elseBranch line =>
      test (.conditional condition thenBranch elseBranch line) && condition.every test &&
        thenBranch.every test && Block.everyOf test elseBranch
  | .compound block => test (.compound block) && block.every test
  | .loop iterator iterable body line =>
      test (.loop iterator iterable body line) && iterable.every test && body.every test
  | .range first last line =>
      test (.range first last line) && first.every test && last.every test
  | .flag flag line => test (.flag flag line)

def Node.everyOf (test : Node → Bool) : List Node → Bool
  | [] => true
  | node :: rest => node.every test && Node.everyOf test rest

def Block.every (test : Node → Bool) : Block → Bool
  | .mk _ statements _ => Node.everyOf test statements

def Block.everyOf (test : Node → Bool) : Option Block → Bool
  | none => true
  | some block => block.every test

end

theorem Node.everyOf_iff {test : Node → Bool} {nodes : List Node} :
    Node.everyOf test nodes = true ↔ ∀ node ∈ nodes, node.every test = true := by
  induction nodes with
  | nil => simp [Node.everyOf]
  | cons node rest inductionHypothesis => simp [Node.everyOf, inductionHypothesis]

end Scriptlet
