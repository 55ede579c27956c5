import Scriptlet.Reading.Expression

namespace Scriptlet
namespace Reader

/-!
Reading statements and blocks.
-/

/-- Statements up to a token of the closing kind, which is taken.  Blank lines are passed
over. -/
def statementsUntil (item : Read Node) (closing : Token.Kind) : Nat → Read (List Node)
  | 0 => exhausted
  | steps + 1 => do
      let kind ← peekKind
      if kind = closing then do
        skip
        pure []
      else
        match kind with
        | .newLine => do
            skip
            statementsUntil item closing steps
        | .endOfFile => do
            let found ← next
            unexpected found (.kind closing)
        | _ => do
            let first ← item
            let others ← statementsUntil item closing steps
            pure (first :: others)

/-- A block in braces, with the line of the opening one. -/
def bracedBlock (item : Read Node) (steps : Nat) : Read Block := do
  let opening ← consume .openBrace
  let statements ← statementsUntil item .closeBrace steps
  pure (.mk true statements opening.line)

/-- Passes over line breaks. -/
def skipNewLines : Nat → Read Unit
  | 0 => exhausted
  | steps + 1 => do
      let kind ← peekKind
      if kind = .newLine then do
        skip
        skipNewLines steps
      else pure ()

/-- One `name: type` declaration, as an assignment of the host's value. -/
def declaration : Read Node := do
  let name ← next
  if name.kind = .identifier then do
    let colon ← next
    if colon.kind = .colon then do
      let tag ← next
      let kind? := if tag.kind = .typeTag then Value.Kind.ofName? tag.text else none
      match kind? with
      | some kind => do
          let value ← onArguments (Arguments.bind name.text kind name.line)
          pure (.assignment name.text (.literal value name.line) name.line)
      | none => fail (.malformedDeclaration (.noType name.text tag))
    else fail (.malformedDeclaration (.noColon name.text colon))
  else fail (.malformedDeclaration (.noName name))

/-- A statement that starts with a name: a call, an assignment or a method call. -/
def namedStatement (names : Names) (steps : Nat) (name : Token) : Read Node :=
  if names name.text then do
    let arguments ← bareArguments (ranked names steps expressionRank) steps
    pure (.call name.text arguments name.line)
  else do
    let token ← next
    match token.kind with
    | .equals => do
        let value ← ranked names steps expressionRank
        pure (.assignment name.text value name.line)
    | .dot => do
        let method ← consumeIdentifier
        let arguments ← callArguments (ranked names steps expressionRank) steps
        pure (.methodCall name.text method arguments name.line)
    | _ => unexpected token (.either .equals .dot)

/-- A loop after its keyword. -/
def loop (names : Names) (item : Read Node) (steps line : Nat) : Read Node := do
  let iterator ← consumeIdentifier
  let _ ← consumeKeyword "in"
  let iterable ← ranked names steps expressionRank
  let body ← bracedBlock item steps
  pure (.loop iterator iterable body line)

/-- Declarations after their keyword, as one block without a frame, so that what follows
sees the names. -/
def declarations (steps line : Nat) : Read Node := do
  let assignments ← separated declaration steps
  pure (.compound (.mk false assignments line))

/-- A statement with the end that must follow it. -/
def ended (statement : Read Node) : Read Node := do
  let node ← statement
  expectStatementEnd
  pure node

mutual

/-- A statement.  It starts with a name or with a keyword. -/
def statementWithin (names : Names) : Nat → Read Node
  | 0 => exhausted
  | steps + 1 => do
      let token ← next
      match token.kind with
      | .identifier => ended (namedStatement names steps token)
      | .keyword =>
          if token.text = "if" then conditionalWithin names steps token.line
          else if token.text = "for" then
            ended (loop names (statementWithin names steps) steps token.line)
          else if token.text = "with" then ended (declarations steps token.line)
          else if token.text = "break" then ended (pure (.flag .break token.line))
          else if token.text = "return" then ended (pure (.flag .halt token.line))
          else fail (.unexpectedStatement token)
      | _ => fail (.unexpectedStatement token)

/-- A conditional after its keyword.  Line breaks may stand in front of the other branch; a
chained conditional is a block by itself. -/
def conditionalWithin (names : Names) : Nat → Nat → Read Node
  | 0, _ => exhausted
  | steps + 1, line => do
      let condition ← ranked names steps expressionRank
      let thenBranch ← bracedBlock (statementWithin names steps) steps
      skipNewLines steps
      let follower ← peek
      if follower.isKeyword "else" then do
        skip
        let chained ← peek
        if chained.isKeyword "if" then do
          skip
          let nested ← conditionalWithin names steps chained.line
          pure (.conditional condition thenBranch (some (.mk false [nested] chained.line)) line)
        else do
          let elseBranch ← bracedBlock (statementWithin names steps) steps
          pure (.conditional condition thenBranch (some elseBranch) line)
      else pure (.conditional condition thenBranch none line)

end

/-- Reads a statement. -/
def statement (names : Names) : Read Node := fun reader =>
  statementWithin names reader.allowance reader

/-- Reads statements up to a token of the closing kind, as a block. -/
def block (names : Names) (closing : Token.Kind) (framed : Bool) (line : Nat) : Read Block := do
  let steps := (← get).allowance
  let statements ← statementsUntil (statementWithin names steps) closing steps
  pure (.mk framed statements line)

/-- Reads a whole program. -/
def program (names : Names) : Read Program := do
  let root ← block names .endOfFile false 1
  pure ⟨root⟩

end Reader
end Scriptlet
