import Scriptlet.Host.Registry
import Scriptlet.Token.Lexer
import Scriptlet.Tree.Basic

namespace Scriptlet

/-!
Reading trees from tokens: the reader's state and the small steps that all constructs are
read by.

The functions that recurse do so along a number of steps.  Every step but a few takes a
token, so a multiple of what is left to read is always enough of them.
-/

/-- What is read from: tokens, and the host's values for declared parameters. -/
structure Reader where
  lexer : Lexer
  arguments : Arguments

namespace Reader

/-- A reading step.  After a fault the reader stands where the fault was met. -/
abbrev Read (α : Type) : Type :=
  EStateM Fault Reader α

/-- Tells functions from variables by their names. -/
abbrev Names : Type :=
  String → Bool

/-- Enough steps to read whatever is left. -/
def allowance (reader : Reader) : Nat :=
  8 * (reader.lexer.remaining + 1)

def exhausted {α : Type} : Read α :=
  throw .exhausted

def onLexer {α : Type} (step : EStateM SyntaxFault Lexer α) : Read α := fun reader =>
  match step reader.lexer with
  | .ok result lexer => .ok result { reader with lexer }
  | .error fault lexer => .error (.source fault) { reader with lexer }

def onArguments {α : Type} (step : EStateM SetupFault Arguments α) : Read α := fun reader =>
  match step reader.arguments with
  | .ok result arguments => .ok result { reader with arguments }
  | .error fault arguments => .error (.setup fault) { reader with arguments }

def next : Read Token :=
  onLexer Lexer.next

def peek : Read Token :=
  onLexer Lexer.peek

def peekKind : Read Token.Kind := do
  let token ← peek
  pure token.kind

/-- Takes a token that has been looked at already. -/
def skip : Read Unit := do
  let _ ← next
  pure ()

def fail {α : Type} (fault : SyntaxFault) : Read α :=
  throw (.source fault)

def unexpected {α : Type} (found : Token) (expected : Expected) : Read α :=
  fail (.unexpectedToken found expected)

/-- Takes a token of the given kind. -/
def consume (kind : Token.Kind) : Read Token := do
  let token ← next
  if token.kind = kind then pure token else unexpected token (.kind kind)

def consumeKeyword (word : String) : Read Token := do
  let token ← next
  if token.isKeyword word then pure token else unexpected token (.keyword word)

/-- Takes an identifier for its name. -/
def consumeIdentifier : Read String := do
  let token ← consume .identifier
  pure token.text

/-- The tokens that may follow a statement.  They are left where they are. -/
def endsStatement (kind : Token.Kind) : Bool :=
  kind = .newLine || kind = .endOfFile || kind = .closeBrace

def expectStatementEnd : Read Unit := do
  let kind ← peekKind
  if endsStatement kind then pure ()
  else do
    let found ← next
    unexpected found (.kind .newLine)

/-! ## Lists of expressions -/

/-- Arguments after an opening parenthesis, up to the closing one. -/
def parenthesized (item : Read Node) : Nat → Read (List Node)
  | 0 => exhausted
  | steps + 1 => do
      let argument ← item
      let token ← next
      match token.kind with
      | .comma => do
          let others ← parenthesized item steps
          pure (argument :: others)
      | .closeParen => pure [argument]
      | _ => unexpected token (.either .comma .closeParen)

/-- Arguments in parentheses, none included. -/
def callArguments (item : Read Node) (steps : Nat) : Read (List Node) := do
  let _ ← consume .openParen
  let kind ← peekKind
  if kind = .closeParen then do
    skip
    pure []
  else parenthesized item steps

/-- Arguments with commas between them, up to one that no comma follows. -/
def separated (item : Read Node) : Nat → Read (List Node)
  | 0 => exhausted
  | steps + 1 => do
      let argument ← item
      let kind ← peekKind
      if kind = .comma then do
        skip
        let others ← separated item steps
        pure (argument :: others)
      else pure [argument]

/-- The tokens at which a bare argument list is empty. -/
def endsArguments (kind : Token.Kind) : Bool :=
  kind = .newLine || kind = .endOfFile || kind = .openBrace || kind = .closeBrace ||
    kind = .closeParen || kind = .closeBracket

/-- Arguments without parentheses. -/
def bareArguments (item : Read Node) (steps : Nat) : Read (List Node) := do
  let kind ← peekKind
  if endsArguments kind then pure [] else separated item steps

/-- The elements of an array literal that begins on the given line.  The literal must be
closed before its line ends. -/
def arrayElements (item : Read Node) (line : Nat) : Nat → Read (List Node)
  | 0 => exhausted
  | steps + 1 => do
      let kind ← peekKind
      if kind = .newLine || kind = .endOfFile then fail (.unterminatedArray line)
      else do
        let element ← item
        let token ← next
        match token.kind with
        | .comma => do
            let others ← arrayElements item line steps
            pure (element :: others)
        | .closeBracket => pure [element]
        | .newLine | .endOfFile => fail (.unterminatedArray line)
        | _ => unexpected token (.either .comma .closeBracket)

/-- An array literal after its opening bracket. -/
def array (item : Read Node) (line steps : Nat) : Read Node := do
  let kind ← peekKind
  if kind = .closeBracket then do
    skip
    pure (.array [] line)
  else do
    let elements ← arrayElements item line steps
    pure (.array elements line)

end Reader
end Scriptlet
