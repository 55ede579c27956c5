import Scriptlet.Tree.Basic
import Scriptlet.Value.Heap

namespace Scriptlet

/-!
Programs printed as outlines: one entry for every node and every labelled block, indented
under the entry it belongs to and joined to it by lines.
-/

/-- An entry with the entries below it. -/
inductive Outline where
  | entry (label : String) (children : List Outline)

namespace Outline

/-- The label of a block says whether it opens a frame. -/
def blockLabel (name : String) (framed : Bool) : String :=
  if framed then name ++ " (scoped)" else name

/-- Texts are shown in quotes, so that a numeric text differs from a number. -/
def literalLabel (heap : Heap) (value : Value) : String :=
  match value with
  | .text s => "Literal \"" ++ s ++ "\""
  | other => "Literal " ++ heap.render other

mutual

def ofNode (heap : Heap) : Node → Outline
  | .literal value _ => .entry (literalLabel heap value) []
  | .array elements _ => .entry "Array" (ofNodes heap elements)
  | .variable name _ => .entry ("Variable " ++ name) []
  | .binary operator left right _ =>
      .entry ("Binary " ++ operator.symbol) [ofNode heap left, ofNode heap right]
  | .unary operator operand _ => .entry ("Unary " ++ operator.symbol) [ofNode heap operand]
  | .assignment name value _ => .entry ("Assignment " ++ name) [ofNode heap value]
  | .call function arguments _ => .entry ("Call " ++ function) (ofNodes heap arguments)
  | .methodCall receiver method arguments _ =>
      .entry ("MethodCall " ++ receiver ++ "." ++ method) (ofNodes heap arguments)
  | .conditional condition thenBranch none _ =>
      .entry "If" [ofNode heap condition, ofBlock heap "then" thenBranch]
  | .conditional condition thenBranch (some elseBranch) _ =>
      .entry "If"
        [ofNode heap condition, ofBlock heap "then" thenBranch, ofBlock heap "else" elseBranch]
  | .compound block => ofBlock heap "Block" block
  | .loop iterator iterable body _ =>
      .entry ("For " ++ iterator) [ofNode heap iterable, ofBlock heap "body" body]
  | .range first last _ => .entry "Range" [ofNode heap first, ofNode heap last]
  | .flag flag _ => .entry flag.word []

def ofNodes (heap : Heap) : List Node → List Outline
  | [] => []
  | node :: rest => ofNode heap node :: ofNodes heap rest

def ofBlock (heap : Heap) (name : String) : Block → Outline
  | .mk framed statements _ => .entry (blockLabel name framed) (ofNodes heap statements)

end

mutual

/-- The lines of an entry behind an indentation.  The last child of its parent has nothing
below it to be joined to. -/
def lines (indentation : String) (last : Bool) : Outline → List String
  | .entry label children =>
      (indentation ++ (if last then "└─ " else "├─ ") ++ label) ::
        linesOfAll (indentation ++ if last then "   " else "│  ") children

def linesOfAll (indentation : String) : List Outline → List String
  | [] => []
  | child :: rest => lines indentation rest.isEmpty child ++ linesOfAll indentation rest

end

end Outline

/-- The outline of a program, every line ended by a line break. -/
def Program.outline (heap : Heap) (program : Program) : String :=
  let entries := Outline.ofNodes heap program.root.statements
  String.join (("Program" :: Outline.linesOfAll "" entries).map fun line => line ++ "\n")

end Scriptlet
