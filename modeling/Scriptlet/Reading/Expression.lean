import Scriptlet.Number.Whole
import Scriptlet.Reading.Basic
import Scriptlet.Text.Piece

namespace Scriptlet
namespace Reader

/-!
Reading expressions.  An operator takes the tightest operand it can on its left and
everything that binds no looser than itself on its right, so chains of one rank group to the
right.
-/

/-- The rank of a whole expression; every operator ranks below it. -/
def expressionRank : Nat :=
  9

/-- The binary operator that a token writes. -/
def operator? (token : Token) : Option BinaryOperator :=
  match token.kind with
  | .binaryOperator | .minus | .equals => BinaryOperator.ofSymbol? token.text
  | _ => none

/-- Extends an operand by the operators of each rank in turn.  At each rank the right operand
takes in all operators below that rank, so the rank is done after one of them. -/
def extend (operand : Nat → Read Node) (left : Node) : List Nat → Read Node
  | [] => pure left
  | rank :: higher => do
      let token ← peek
      match operator? token with
      | none => pure left
      | some operator =>
          if operator.rank < rank then do
            skip
            let right ← operand rank
            extend operand (.binary operator left right left.line) higher
          else extend operand left higher

/-- The ranks from the tightest to the given one. -/
def ranksTo (rank : Nat) : List Nat :=
  (List.range rank).map (· + 1)

/-! ## Range literals -/

/-- A bound of a range literal. -/
def rangeBound (line : Nat) (digits : List Char) : Except SyntaxFault Node :=
  match Number.ofInt? (Number.decimalValue digits) with
  | some x => .ok (.literal (.number x) line)
  | none => .error (.invalidNumber (String.ofList digits) line)

/-- The bounds written in a range token: its runs of digits. -/
def rangeBounds (token : Token) : Except SyntaxFault (List Node) :=
  ((Text.pieces '.' token.text.toList).filter fun piece => !piece.isEmpty).mapM
    (rangeBound token.line)

/-- A range literal.  With one bound the next expression is the other. -/
def rangeLiteral (expression : Read Node) (token : Token) : Read Node :=
  match rangeBounds token with
  | .error fault => fail fault
  | .ok [first, last] => pure (.range first last token.line)
  | .ok [first] =>
      if token.text.toList.getLast? = some '.' then do
        let last ← expression
        pure (.range first last token.line)
      else fail (.invalidRange token.text token.line)
  | .ok _ => fail (.invalidRange token.text token.line)

/-! ## Names -/

/-- What follows a name in an expression.  The name of a function starts a call.  Any other
is a variable, by itself, as the first bound of a range or as the receiver of a method. -/
def named (names : Names) (expression : Read Node) (steps : Nat) (name : Token) : Read Node :=
  if names name.text then do
    let kind ← peekKind
    let arguments ←
      if kind = .openParen then callArguments expression steps
      else bareArguments expression steps
    pure (.call name.text arguments name.line)
  else do
    let token ← peek
    match token.kind with
    | .range =>
        if token.text.toList.all (· = '.') then do
          skip
          let last ← expression
          pure (.range (.variable name.text name.line) last name.line)
        else pure (.variable name.text name.line)
    | .dot => do
        skip
        let method ← consumeIdentifier
        let arguments ← callArguments expression steps
        pure (.methodCall name.text method arguments name.line)
    | _ => pure (.variable name.text name.line)

/-- A numeral as a literal. -/
def numberLiteral (token : Token) : Read Node :=
  match Number.read? token.text.toList with
  | some x => pure (.literal (.number x) token.line)
  | none => fail (.invalidNumber token.text token.line)

/-- A keyword in an expression must be a truth value. -/
def truthLiteral (token : Token) : Read Node :=
  if token.text = "true" then pure (.literal (.truth true) token.line)
  else if token.text = "false" then pure (.literal (.truth false) token.line)
  else unexpected token .expression

mutual

/-- An expression whose operators all rank below the given rank. -/
def ranked (names : Names) : Nat → Nat → Read Node
  | 0, _ => exhausted
  | steps + 1, rank => do
      let left ← factor names steps
      extend (ranked names steps) left (ranksTo rank)

/-- An operand: a literal, a name with what follows it, an expression in parentheses, or a
unary operator with the operand after it. -/
def factor (names : Names) : Nat → Read Node
  | 0 => exhausted
  | steps + 1 => do
      let token ← next
      match token.kind with
      | .number => numberLiteral token
      | .string => pure (.literal (.text token.text) token.line)
      | .keyword => truthLiteral token
      | .identifier => named names (ranked names steps expressionRank) steps token
      | .openParen => do
          let inner ← ranked names steps expressionRank
          let _ ← consume .closeParen
          pure inner
      | .openBracket => array (ranked names steps expressionRank) token.line steps
      | .range => rangeLiteral (ranked names steps expressionRank) token
      | .minus => do
          let operand ← factor names steps
          pure (.unary .negate operand token.line)
      | .unaryOperator => do
          let operand ← factor names steps
          pure (.unary .not operand token.line)
      | _ => unexpected token .expression

end

/-- Reads an expression. -/
def expression (names : Names) : Read Node := fun reader =>
  ranked names reader.allowance expressionRank reader

end Reader
end Scriptlet
