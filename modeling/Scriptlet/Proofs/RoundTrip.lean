import Scriptlet.Proofs.WrittenExpressions
import Scriptlet.Script

namespace Scriptlet

/-!
# Programs read back from their texts

Statements, blocks and whole programs are read back like the expressions in them.  A
conditional without another branch takes the line break behind it, since another branch might
have followed; every other statement leaves it.
-/

namespace Reader

/-! ## What follows a statement -/

/-- What may follow the line of a statement: a token that starts no branch and no blank
line. -/
def Resumes (rest : List Char) : Prop :=
  ∃ kind word more, Scanner.Scans rest kind word more ∧ kind ≠ .newLine ∧
    ∀ line, Token.isKeyword ⟨kind, word, line⟩ "else" = false

theorem resumes_brace (rest : List Char) : Resumes ('\x7d' :: rest) :=
  ⟨.closeBrace, _, _, Scanner.scans_mark _ _ (by decide) rest, by decide, fun _ => rfl⟩

theorem resumes_end : Resumes [] :=
  ⟨.endOfFile, _, _, Scanner.scans_end, by decide, fun _ => rfl⟩

theorem newLine_scans (rest : List Char) :
    Scanner.Scans ('\n' :: rest) .newLine (String.ofList ['\n']) rest :=
  Scanner.scans_mark _ _ (by decide) rest

theorem scans_afterName {name : String} (isName : Token.IsName name) (rest : List Char) :
    Scanner.Scans (Text.afterWord name rest) .identifier name (' ' :: rest) :=
  Scanner.scans_name isName (Lexeme.ends_cons rfl rest)

theorem scans_afterWord {word : String} (spelled : Lexeme.isWord word.toList = true)
    (rest : List Char) :
    Scanner.Scans (Text.afterWord word rest) (Token.kindOfWord word) word (' ' :: rest) :=
  Scanner.scans_reserved spelled (Lexeme.ends_cons rfl rest)

/-- A statement that was read with its line, or without the break at the end of it. -/
abbrev ReadsLine (text : List Char) (step : Read Node) (node : Node) (rest : List Char) : Prop :=
  Reads text step (fun read left =>
    read.withoutLines = node.withoutLines ∧ (left = '\n' :: rest ∨ left = rest))

theorem ReadsAs.ended {text rest : List Char} {statement : Read Node} {node : Node}
    (reads : ReadsAs text statement node ('\n' :: rest)) :
    ReadsLine text (Reader.ended statement) node rest := by
  apply Reads.bind reads
  rintro read _ ⟨same, rfl⟩
  have ended : Reads ('\n' :: rest) expectStatementEnd (fun _ left => left = '\n' :: rest) := by
    apply Reads.peekKind (newLine_scans rest)
    exact .pure rfl
  apply Reads.bind ended
  rintro _ _ rfl
  exact .pure ⟨same, Or.inl rfl⟩

/-! ## Blocks -/

/-- What reading the lines of a block asks of a statement. -/
structure IsLine (item : Read Node) (node : Node) : Prop where
  reads : ∀ rest, Resumes rest → ReadsLine (node.statementText ++ '\n' :: rest) item node rest
  front : ∀ rest, ∃ kind word more,
    Scanner.Scans (node.statementText ++ '\n' :: rest) kind word more ∧
    (kind = .identifier ∨ kind = .keyword) ∧
    ∀ line, Token.isKeyword ⟨kind, word, line⟩ "else" = false

section Lines

variable {item : Read Node} {closing : Token.Kind}

theorem resumes_lines {statements : List Node} (lines : ∀ node ∈ statements, IsLine item node)
    {last : List Char} (resumes : Resumes last) : Resumes (Node.lineTexts statements ++ last) := by
  cases statements with
  | nil => exact resumes
  | cons statement others =>
      rw [Node.lineTexts, List.append_assoc, List.cons_append]
      rcases (lines statement List.mem_cons_self).front (Node.lineTexts others ++ last) with
        ⟨kind, word, more, scans, starts, other⟩
      refine ⟨kind, word, more, scans, ?_, other⟩
      rcases starts with rfl | rfl <;> decide

/-- Line breaks in front of a statement are passed over. -/
theorem reads_newLine {text : List Char} {steps : Nat} {post : List Node → List Char → Prop}
    (other : closing ≠ .newLine) (reads : Reads text (statementsUntil item closing steps) post) :
    Reads ('\n' :: text) (statementsUntil item closing (steps + 1)) post := by
  rw [statementsUntil]
  apply Reads.peekKind (newLine_scans text)
  rw [if_neg other.symm]
  apply Reads.skip (newLine_scans text)
  exact reads

theorem reads_lines {statements : List Node} (lines : ∀ node ∈ statements, IsLine item node)
    {last rest : List Char} {word : String} (closes : closing = .closeBrace ∨ closing = .endOfFile)
    (scans : Scanner.Scans last closing word rest) (resumes : Resumes last) {steps : Nat}
    (enough : 2 * statements.length < steps) :
    ReadsList (Node.lineTexts statements ++ last) (statementsUntil item closing steps) statements
      rest := by
  have other : closing ≠ .newLine := by
    rcases closes with rfl | rfl <;> decide
  induction statements generalizing steps with
  | nil =>
      cases steps with
      | zero => cases enough
      | succ steps =>
          rw [statementsUntil]
          apply Reads.peekKind scans
          rw [if_pos rfl]
          apply Reads.skip scans
          exact .pure ⟨rfl, rfl⟩
  | cons statement others inductionHypothesis =>
      have split := List.forall_mem_cons.mp lines
      rw [List.length_cons] at enough
      have room : ∃ inner, steps = inner + 2 := ⟨steps - 2, by omega⟩
      rcases room with ⟨inner, rfl⟩
      have resumed := resumes_lines split.2 resumes
      rcases split.1.front (Node.lineTexts others ++ last) with
        ⟨kind, first, more, front, starts, _⟩
      have notClosing : ¬ kind = closing := by
        rcases closes with rfl | rfl <;> rcases starts with rfl | rfl <;> decide
      rw [Node.lineTexts, List.append_assoc, List.cons_append, statementsUntil]
      apply Reads.peekKind front
      rw [if_neg notClosing]
      have after : ∀ read left, read.withoutLines = statement.withoutLines ∧
          (left = '\n' :: (Node.lineTexts others ++ last) ∨ left = Node.lineTexts others ++ last) →
          ReadsList left
            (do
              let reads ← statementsUntil item closing (inner + 1)
              pure (read :: reads))
            (statement :: others) rest := by
        rintro read left ⟨same, ended⟩
        have tail : ReadsList left (statementsUntil item closing (inner + 1)) others rest := by
          rcases ended with rfl | rfl
          · exact reads_newLine other (inductionHypothesis split.2 (by omega))
          · exact inductionHypothesis split.2 (by omega)
        apply Reads.bind tail
        rintro reads _ ⟨sames, rfl⟩
        exact .pure ⟨by rw [Node.eachWithoutLines, Node.eachWithoutLines, same, sames], rfl⟩
      have item := (split.1.reads _ resumed).bind after
      rcases starts with rfl | rfl <;> exact item

end Lines

/-- The step reads the block, but for lines, and leaves the rest. -/
abbrev ReadsBlock (text : List Char) (step : Read Block) (block : Block) (rest : List Char) :
    Prop :=
  Reads text step (fun read left => read.withoutLines = block.withoutLines ∧ left = rest)

theorem readsBlock_braced {item : Read Node} {statements : List Node} {line steps : Nat}
    (lines : ∀ node ∈ statements, IsLine item node) (enough : 2 * statements.length + 1 < steps)
    (rest : List Char) :
    ReadsBlock ('\x7b' :: '\n' :: (Node.lineTexts statements ++ '\x7d' :: rest))
      (bracedBlock item steps) (.mk true statements line) rest := by
  apply Reads.consume (Scanner.scans_mark '\x7b' .openBrace (by decide) _)
  intro _
  cases steps with
  | zero => cases enough
  | succ steps =>
      have closing := Scanner.scans_mark '\x7d' .closeBrace (by decide) rest
      have read := reads_lines lines (Or.inl rfl) closing (resumes_brace rest)
        (Nat.lt_of_succ_lt_succ enough)
      apply Reads.bind (reads_newLine (by decide) read)
      rintro reads _ ⟨sames, rfl⟩
      exact .pure ⟨by simp only [Block.withoutLines, sames], rfl⟩

/-! ## Conditionals -/

section Conditionals

variable {names : Names}

/-- What a conditional goes on with behind its first branch. -/
def otherBranch (names : Names) (steps : Nat) (condition : Node) (thenBranch : Block)
    (line : Nat) : Read Node := do
  skipNewLines steps
  let follower ← peek
  if follower.isKeyword "else" then do
    skip
    let chained ← peek
    if chained.isKeyword "if" then do
      skip
      let nested ← conditionalWithin names steps chained.line
      pure (.conditional condition thenBranch (some (.mk false [nested] chained.line)) line)
    else do
      let elseBranch ← bracedBlock (statementWithin names steps) steps
      pure (.conditional condition thenBranch (some elseBranch) line)
  else pure (.conditional condition thenBranch none line)

theorem conditionalWithin_eq (steps line : Nat) :
    conditionalWithin names (steps + 1) line = (do
      let condition ← ranked names steps expressionRank
      let thenBranch ← bracedBlock (statementWithin names steps) steps
      otherBranch names steps condition thenBranch line) := by
  rw [conditionalWithin]
  rfl

theorem reads_skipNewLines {text more : List Char} {kind : Token.Kind} {word : String}
    (scans : Scanner.Scans text kind word more) (other : kind ≠ .newLine) {steps : Nat}
    (enough : 0 < steps) : Reads text (skipNewLines steps) (fun _ left => left = text) := by
  cases steps with
  | zero => cases enough
  | succ steps =>
      rw [skipNewLines]
      apply Reads.peekKind scans
      rw [if_neg other]
      exact .pure rfl

theorem reads_skipNewLine {rest : List Char} (resumes : Resumes rest) {steps : Nat}
    (enough : 1 < steps) :
    Reads ('\n' :: rest) (skipNewLines steps) (fun _ left => left = rest) := by
  rcases resumes with ⟨kind, word, more, scans, other, _⟩
  cases steps with
  | zero => cases enough
  | succ steps =>
      rw [skipNewLines]
      apply Reads.peekKind (newLine_scans rest)
      rw [if_pos rfl]
      apply Reads.skip (newLine_scans rest)
      exact reads_skipNewLines scans other (Nat.lt_of_succ_lt_succ enough)

/-- The other branch is read back, whatever the conditional was up to it. -/
def ElseBack (names : Names) (branch : Option Block) : Prop :=
  ∀ steps rest condition thenBranch line, 2 * (Block.elseText branch).length + 1 < steps →
    Resumes rest →
    Reads (Block.elseText branch ++ '\n' :: rest)
      (otherBranch names steps condition thenBranch line)
      (fun read left => (∃ other, read = .conditional condition thenBranch other line ∧
          Block.anyWithoutLines other = Block.anyWithoutLines branch) ∧
        (left = '\n' :: rest ∨ left = rest))

/-- The block is read back. -/
def BlockBack (names : Names) (block : Block) : Prop :=
  ∀ steps rest, 2 * block.text.length ≤ steps →
    ReadsBlock (block.text ++ rest) (bracedBlock (statementWithin names steps) steps) block rest

/-- The conditional is read back behind its keyword. -/
def ConditionalBack (names : Names) (condition : Node) (thenBranch : Block)
    (elseBranch : Option Block) : Prop :=
  ∀ steps rest line,
    2 * (condition.expressionText.length + thenBranch.text.length +
      (Block.elseText elseBranch).length) + 2 < steps → Resumes rest →
    ReadsLine
      (condition.expressionText ++
        ' ' :: (thenBranch.text ++ (Block.elseText elseBranch ++ '\n' :: rest)))
      (conditionalWithin names steps line) (.conditional condition thenBranch elseBranch line) rest

theorem elseBack_none : ElseBack names none := by
  intro steps rest condition thenBranch line enough resumes
  apply Reads.bind (reads_skipNewLine resumes (Nat.lt_of_le_of_lt (Nat.le_add_left 1 _) enough))
  rintro _ _ rfl
  rcases resumes with ⟨kind, word, more, scans, _, noElse⟩
  apply Reads.peek scans
  intro position
  rw [noElse position]
  exact .pure ⟨⟨none, rfl, rfl⟩, Or.inr rfl⟩

theorem scans_else (rest : List Char) :
    Scanner.Scans (' ' :: Text.afterWord "else" rest) .keyword "else" (' ' :: rest) :=
  (scans_afterWord rfl rest).blank

theorem scans_if (rest : List Char) :
    Scanner.Scans (Text.afterWord "if" rest) .keyword "if" (' ' :: rest) :=
  scans_afterWord rfl rest

/-- Behind the keyword of the other branch the reader is where it started. -/
theorem reads_else {rest : List Char} {steps : Nat} {condition : Node} {thenBranch : Block}
    {line : Nat} {post : Node → List Char → Prop} (enough : 0 < steps)
    (after : Reads (' ' :: rest)
      (do
        let chained ← peek
        if chained.isKeyword "if" then do
          skip
          let nested ← conditionalWithin names steps chained.line
          pure (.conditional condition thenBranch (some (.mk false [nested] chained.line)) line)
        else do
          let elseBranch ← bracedBlock (statementWithin names steps) steps
          pure (.conditional condition thenBranch (some elseBranch) line)) post) :
    Reads (' ' :: Text.afterWord "else" rest)
      (otherBranch names steps condition thenBranch line) post := by
  apply Reads.bind (reads_skipNewLines (scans_else rest) (by decide) enough)
  rintro _ _ rfl
  apply Reads.peek (scans_else rest)
  intro position
  have isElse : Token.isKeyword ⟨.keyword, "else", position⟩ "else" = true := rfl
  rw [isElse]
  apply Reads.skip (scans_else rest)
  exact after

theorem elseBack_block {statements : List Node} {line : Nat}
    (back : BlockBack names (.mk true statements line)) :
    ElseBack names (some (.mk true statements line)) := by
  intro steps rest condition thenBranch position enough _
  rw [Block.elseText_framed] at enough ⊢
  simp only [List.length_cons, Text.length_afterWord] at enough
  rw [List.cons_append, Text.afterWord_append]
  have read := back steps ('\n' :: rest) (by omega)
  apply reads_else (by omega)
  apply Reads.peek (Scanner.Scans.blank (Scanner.scans_mark '\x7b' .openBrace (by decide) _))
  intro _
  apply Reads.bind read.blank
  rintro block _ ⟨same, rfl⟩
  exact .pure ⟨⟨some block, rfl, by rw [Block.anyWithoutLines, Block.anyWithoutLines, same]⟩,
    Or.inl rfl⟩

theorem elseBack_chained {condition : Node} {thenBranch : Block} {elseBranch : Option Block}
    {line blockLine : Nat} (back : ConditionalBack names condition thenBranch elseBranch) :
    ElseBack names
      (some (.mk false [.conditional condition thenBranch elseBranch line] blockLine)) := by
  intro steps rest outer outerBranch position enough resumes
  rw [Block.elseText_chained] at enough ⊢
  simp only [List.length_cons, List.length_append, Text.length_afterWord] at enough
  simp only [List.cons_append, List.append_assoc, Text.afterWord_append]
  apply reads_else (by omega)
  apply Reads.peek (scans_if _).blank
  intro chainedLine
  have isIf : Token.isKeyword ⟨.keyword, "if", chainedLine⟩ "if" = true := rfl
  simp only [isIf, if_true]
  apply Reads.skip (scans_if _).blank
  apply Reads.bind (back steps rest chainedLine (by omega) resumes).blank
  rintro nested left ⟨same, ended⟩
  refine .pure ⟨⟨_, rfl, ?_⟩, ended⟩
  simp only [Block.anyWithoutLines, Block.withoutLines, Node.eachWithoutLines, same,
    Node.withoutLines]

theorem stops_block (block : Block) (rest : List Char) : Stops (' ' :: (block.text ++ rest)) := by
  cases block with
  | mk framed statements line => exact .brace

theorem conditionalBack_of {condition : Node} {thenBranch : Block} {elseBranch : Option Block}
    (conditionBack : WritesBack names condition) (thenBack : BlockBack names thenBranch)
    (elseBack : ElseBack names elseBranch) :
    ConditionalBack names condition thenBranch elseBranch := by
  intro steps rest line enough resumes
  cases steps with
  | zero => cases enough
  | succ steps =>
      have small : 2 * condition.expressionText.length < steps := by omega
      rw [conditionalWithin_eq]
      apply Reads.bind (conditionBack.ranked small expressionRank (stops_block thenBranch _))
      rintro read _ ⟨same, rfl⟩
      apply Reads.bind (thenBack steps _ (by omega)).blank
      rintro block _ ⟨sameBlock, rfl⟩
      apply (elseBack steps rest read block line (by omega) resumes).weaken
      rintro _ left ⟨⟨other, rfl, sameOther⟩, ended⟩
      exact ⟨by simp only [Node.withoutLines, same, sameBlock, sameOther], ended⟩

end Conditionals

/-! ## Statements -/

section Statements

variable {names : Names}

/-- The statement is read back with its line. -/
def StatementBack (names : Names) (node : Node) : Prop :=
  ∀ steps rest, 2 * node.statementText.length ≤ steps → Resumes rest →
    ReadsLine (node.statementText ++ '\n' :: rest) (statementWithin names steps) node rest

theorem isName_pos {name : String} (isName : Token.IsName name) : 0 < name.toList.length := by
  rcases isName.word with ⟨c, cs, characters, _, _⟩
  rw [characters]
  exact Nat.succ_pos _

theorem statementBack_assignment {name : String} {value : Node} {line : Nat}
    (isVariable : names name = false) (isName : Token.IsName name)
    (back : WritesBack names value) : StatementBack names (.assignment name value line) := by
  intro steps rest enough _
  simp only [Node.statementText, Text.length_afterWord, List.length_cons] at enough
  cases steps with
  | zero => omega
  | succ steps =>
      have small : 2 * value.expressionText.length < steps := by omega
      rw [statementWithin]
      simp only [Node.statementText, Text.afterWord_append, List.cons_append]
      apply Reads.next (scans_afterName isName _)
      intro position
      apply ReadsAs.ended
      simp only [namedStatement, isVariable, Bool.false_eq_true, if_false]
      apply Reads.next (Scanner.Scans.blank (Scanner.scans_mark '=' .equals (by decide) _))
      intro _
      apply Reads.bind (back.ranked small expressionRank .line).blank
      rintro read _ ⟨same, rfl⟩
      exact .pure ⟨by simp only [Node.withoutLines, same], rfl⟩

theorem argumentTail_ends (texts : List (List Char)) (rest : List Char) :
    Lexeme.Ends Lexeme.continuesWord (Text.argumentTail texts ++ '\n' :: rest) := by
  cases texts with
  | nil => exact Lexeme.ends_cons rfl _
  | cons text others => exact Lexeme.ends_cons rfl _

section Calls

variable {arguments : List Node}
  (reads : ∀ argument ∈ arguments, argument.IsReadExpression names)
  (writable : Node.everyOf Node.isWritable arguments = true)
include reads writable

theorem writesBack_each : ∀ argument ∈ arguments, WritesBack names argument :=
  fun argument member => writesBack_expression (reads argument member)
    (Node.everyOf_iff.mp writable argument member)

theorem statementBack_call {function : String} {line : Nat} (isFunction : names function = true)
    (isName : Token.IsName function) : StatementBack names (.call function arguments line) := by
  intro steps rest enough _
  have length := isName_pos isName
  rcases Text.le_argumentTail (Node.expressionTexts arguments) with ⟨tail, count⟩
  rw [Node.expressionTexts_length] at count
  simp only [Node.statementText, List.length_append] at enough
  cases steps with
  | zero => omega
  | succ steps =>
      have room : 2 * (Text.listed (Node.expressionTexts arguments)).length < steps := by omega
      have items := WritesBack.items reads writable (writesBack_each reads writable) room
      rw [statementWithin]
      simp only [Node.statementText, List.append_assoc]
      apply Reads.next (Scanner.scans_name isName (argumentTail_ends _ rest))
      intro position
      apply ReadsAs.ended
      simp only [namedStatement, isFunction, if_true]
      apply Reads.bind (readsList_bareArguments items (by omega) rest)
      rintro read _ ⟨same, rfl⟩
      exact .pure ⟨by simp only [Node.withoutLines, same], rfl⟩

theorem statementBack_methodCall {receiver method : String} {line : Nat}
    (isVariable : names receiver = false) (isReceiver : Token.IsName receiver)
    (isMethod : Token.IsName method) :
    StatementBack names (.methodCall receiver method arguments line) := by
  intro steps rest enough _
  have receiverPos := isName_pos isReceiver
  simp only [Node.statementText, Node.expressionText, List.length_append, List.length_cons,
    List.length_nil] at enough
  cases steps with
  | zero => omega
  | succ steps =>
      have room : 2 * (Text.listed (Node.expressionTexts arguments)).length < steps := by omega
      have called := readsList_call reads writable (writesBack_each reads writable) room
        ('\n' :: rest)
      rw [statementWithin, Node.statementText, Node.methodCallText_append]
      apply Reads.next (Scanner.scans_name isReceiver (Lexeme.ends_cons rfl _))
      intro position
      apply ReadsAs.ended
      simp only [namedStatement, isVariable, Bool.false_eq_true, if_false]
      apply Reads.next (Scanner.scans_dot (isName_ends isMethod _))
      intro _
      apply Reads.consumeIdentifier (Scanner.scans_name isMethod (Lexeme.ends_cons rfl _))
      apply Reads.bind called
      rintro read _ ⟨same, rfl⟩
      exact .pure ⟨by simp only [Node.withoutLines, same], rfl⟩

end Calls

theorem statementBack_conditional {condition : Node} {thenBranch : Block}
    {elseBranch : Option Block} {line : Nat}
    (back : ConditionalBack names condition thenBranch elseBranch) :
    StatementBack names (.conditional condition thenBranch elseBranch line) := by
  intro steps rest enough resumes
  simp only [Node.statementText, Text.length_afterWord, List.length_append, List.length_cons]
    at enough
  have keyword : "if".toList.length = 2 := rfl
  cases steps with
  | zero => omega
  | succ steps =>
      rw [statementWithin]
      simp only [Node.statementText, Text.afterWord_append, List.append_assoc, List.cons_append]
      apply Reads.next (scans_if _)
      intro position
      have read := back steps rest position (by omega) resumes
      exact read.blank

theorem scans_for (rest : List Char) :
    Scanner.Scans (Text.afterWord "for" rest) .keyword "for" (' ' :: rest) :=
  scans_afterWord rfl rest

theorem statementBack_loop {iterator : String} {iterable : Node} {body : Block} {line : Nat}
    (isName : Token.IsName iterator) (iterableBack : WritesBack names iterable)
    (bodyBack : BlockBack names body) :
    StatementBack names (.loop iterator iterable body line) := by
  intro steps rest enough _
  simp only [Node.statementText, Text.length_afterWord, List.length_append, List.length_cons]
    at enough
  cases steps with
  | zero => omega
  | succ steps =>
      have small : 2 * iterable.expressionText.length < steps := by omega
      rw [statementWithin]
      simp only [Node.statementText, Text.afterWord_append, List.append_assoc, List.cons_append]
      apply Reads.next (scans_for _)
      intro position
      apply ReadsAs.ended
      apply Reads.consumeIdentifier (scans_afterName isName _).blank
      apply Reads.consumeKeyword (Scanner.Scans.blank (scans_afterWord (by rfl) _))
      intro _
      apply Reads.bind (iterableBack.ranked small expressionRank (stops_block body _)).blank
      rintro read _ ⟨same, rfl⟩
      apply Reads.bind (bodyBack steps _ (by omega)).blank
      rintro block _ ⟨sameBlock, rfl⟩
      exact .pure ⟨by simp only [Node.withoutLines, same, sameBlock], rfl⟩

theorem scans_flag (flag : Flag) (rest : List Char) :
    Scanner.Scans (flag.word.toList ++ '\n' :: rest) .keyword flag.word ('\n' :: rest) := by
  cases flag with
  | «break» => exact Scanner.scans_reserved (by rfl) (Lexeme.ends_cons rfl rest)
  | halt => exact Scanner.scans_reserved (by rfl) (Lexeme.ends_cons rfl rest)

theorem statementBack_flag {flag : Flag} {line : Nat} : StatementBack names (.flag flag line) := by
  intro steps rest enough _
  have length : 0 < flag.word.toList.length := by cases flag <;> decide
  rw [Node.statementText] at enough ⊢
  cases steps with
  | zero => omega
  | succ steps =>
      rw [statementWithin]
      apply Reads.next (scans_flag flag rest)
      intro position
      have pure : ReadsAs ('\n' :: rest) (Pure.pure (.flag flag position)) (.flag flag line)
          ('\n' :: rest) := .pure ⟨rfl, rfl⟩
      cases flag <;> exact pure.ended

/-- The token that a written statement starts with. -/
theorem statement_front {node : Node} (read : node.IsReadStatement names)
    (writable : node.every Node.isWritable = true) (rest : List Char) :
    ∃ kind word more, Scanner.Scans (node.statementText ++ '\n' :: rest) kind word more ∧
      (kind = .identifier ∨ kind = .keyword) ∧
      ∀ line, Token.isKeyword ⟨kind, word, line⟩ "else" = false := by
  cases read with
  | assignment _ isName _ =>
      rw [Node.statementText, Text.afterWord_append]
      exact ⟨_, _, _, scans_afterName isName _, Or.inl rfl, fun _ => rfl⟩
  | call called =>
      cases called with
      | call _ isName _ =>
          rw [Node.statementText, List.append_assoc]
          exact ⟨_, _, _, Scanner.scans_name isName (argumentTail_ends _ rest), Or.inl rfl,
            fun _ => rfl⟩
  | methodCall called =>
      cases called with
      | methodCall _ isName _ _ =>
          rw [Node.statementText, Node.methodCallText_append]
          exact ⟨_, _, _, Scanner.scans_name isName (Lexeme.ends_cons rfl _), Or.inl rfl,
            fun _ => rfl⟩
  | conditional _ _ _ =>
      rw [Node.statementText, Text.afterWord_append]
      exact ⟨_, _, _, scans_if _, Or.inr rfl, fun _ => rfl⟩
  | declarations _ _ => simp [Node.every, Node.isWritable] at writable
  | loop _ _ _ =>
      rw [Node.statementText, Text.afterWord_append]
      exact ⟨_, _, _, scans_for _, Or.inr rfl, fun _ => rfl⟩
  | @flag flag line =>
      exact ⟨_, _, _, scans_flag flag rest, Or.inr rfl, by cases flag <;> exact fun _ => rfl⟩

/-- The statements of a list are lines of it, if each of them is read back. -/
theorem isLine_of_back {statements : List Node}
    (reads : ∀ statement ∈ statements, statement.IsReadStatement names)
    (writable : Node.everyOf Node.isWritable statements = true)
    (backs : ∀ statement ∈ statements, StatementBack names statement) {steps : Nat}
    (enough : 2 * (Node.lineTexts statements).length ≤ steps) :
    ∀ statement ∈ statements, IsLine (statementWithin names steps) statement := by
  intro statement member
  have length := Node.length_le_lineTexts member
  refine ⟨fun rest resumes => ?_, fun rest => ?_⟩
  · exact backs statement member steps rest (by omega) resumes
  · exact statement_front (reads statement member) (Node.everyOf_iff.mp writable statement member)
      rest

theorem blockBack_of {statements : List Node} {line : Nat}
    (reads : ∀ statement ∈ statements, statement.IsReadStatement names)
    (writable : Node.everyOf Node.isWritable statements = true)
    (backs : ∀ statement ∈ statements, StatementBack names statement) :
    BlockBack names (.mk true statements line) := by
  intro steps rest enough
  have count := Node.count_le_lineTexts statements
  simp only [Block.text, List.length_cons, List.length_append, List.length_nil] at enough
  have room : 2 * (Node.lineTexts statements).length ≤ steps := by omega
  have lines := isLine_of_back reads writable backs room
  simp only [Block.text, List.cons_append, List.append_assoc, List.nil_append]
  exact readsBlock_braced lines (by omega) rest

mutual

theorem statement_back : ∀ {node : Node}, node.IsReadStatement names →
    node.every Node.isWritable = true → StatementBack names node
  | _, .assignment isVariable isName value, writable => by
      simp only [Node.every, Bool.and_eq_true] at writable
      exact statementBack_assignment isVariable isName (writesBack_expression value writable.2)
  | _, .call (.call isFunction isName reads), writable => by
      simp only [Node.every, Bool.and_eq_true] at writable
      exact statementBack_call reads writable.2 isFunction isName
  | _, .methodCall (.methodCall isVariable isReceiver isMethod reads), writable => by
      simp only [Node.every, Bool.and_eq_true] at writable
      exact statementBack_methodCall reads writable.2 isVariable isReceiver isMethod
  | _, .conditional condition thenBranch elseBranch, writable => by
      simp only [Node.every, Bool.and_eq_true] at writable
      exact statementBack_conditional (conditionalBack_of
        (writesBack_expression condition writable.1.1.2) (block_back thenBranch writable.1.2)
        (else_back elseBranch writable.2))
  | _, .declarations _ _, writable => by simp [Node.every, Node.isWritable] at writable
  | _, .loop isName iterable body, writable => by
      simp only [Node.every, Bool.and_eq_true] at writable
      exact statementBack_loop isName (writesBack_expression iterable writable.1.2)
        (block_back body writable.2)
  | _, .flag, _ => statementBack_flag

theorem block_back : ∀ {block : Block}, Node.IsReadBlock names block →
    block.every Node.isWritable = true → BlockBack names block
  | _, .mk all, writable => by
      rw [Block.every] at writable
      have each := Node.everyOf_iff.mp writable
      exact blockBack_of all writable fun statement member =>
        statement_back (all statement member) (each statement member)

theorem else_back : ∀ {branch : Option Block}, Node.IsReadElse names branch →
    Block.everyOf Node.isWritable branch = true → ElseBack names branch
  | _, .none, _ => elseBack_none
  | _, .block braced, writable => by
      rw [Block.everyOf] at writable
      have back := block_back braced writable
      cases braced with
      | mk all => exact elseBack_block back
  | _, .chained (.conditional condition thenBranch elseBranch), writable => by
      simp only [Block.everyOf, Block.every, Node.everyOf, Node.every, Bool.and_eq_true] at writable
      exact elseBack_chained (conditionalBack_of
        (writesBack_expression condition writable.1.1.1.2) (block_back thenBranch writable.1.1.2)
        (else_back elseBranch writable.1.2))

end

end Statements

end Reader

/-! ## Programs -/

/-- Whether a test holds of every node of a program. -/
def Program.every (test : Node → Bool) (program : Program) : Bool :=
  program.root.every test

namespace Reader

theorem program_back {names : Names} {program : Program} (read : program.IsRead names)
    (writable : program.every Node.isWritable = true) (arguments : Arguments) :
    ∃ again after, Reader.program names ⟨.ofSource (String.ofList program.text), arguments⟩ =
        .ok again after ∧ after.arguments = arguments ∧
      again.withoutLines = program.withoutLines := by
  cases read with
  | @mk statements line all =>
      have each := Node.everyOf_iff.mp writable
      have count := Node.count_le_lineTexts statements
      have form : Program.text ⟨.mk false statements line⟩ = Node.lineTexts statements := rfl
      rw [form]
      generalize start :
        (⟨.ofSource (String.ofList (Node.lineTexts statements)), arguments⟩ : Reader) = reader
      have length : reader.allowance = 8 * ((Node.lineTexts statements).length + 1) := by
        rw [← start]
        simp [allowance, Lexer.ofSource, Lexer.remaining]
      have stands : At reader (Node.lineTexts statements ++ []) := by
        rw [← start, List.append_nil]
        exact ⟨1, by rw [Lexer.ofSource, String.toList_ofList]⟩
      have room : 2 * (Node.lineTexts statements).length ≤ reader.allowance := by omega
      have lines := isLine_of_back all writable
        (fun statement member => statement_back (all statement member) (each statement member)) room
      have enough : 2 * statements.length < reader.allowance := by omega
      rcases reads_lines lines (Or.inr rfl) Scanner.scans_end resumes_end enough reader stands with
        ⟨reads, after, _, ran, same, _, sames, _⟩
      refine ⟨⟨.mk false reads 1⟩, after, ?_, ?_, ?_⟩
      · have read : Reader.block names .endOfFile false 1 reader = .ok (.mk false reads 1) after :=
          bind_of_ok ran
        exact bind_of_ok read
      · rw [same, ← start]
      · simp only [Program.withoutLines, Block.withoutLines, sames]

end Reader

theorem compile_of_read {library : Library} {source : String} {arguments : Arguments}
    {program : Program} {reader : Reader}
    (read : Reader.program library.hasFunction ⟨.ofSource source, arguments⟩ =
      .ok program reader) : compile library source arguments = .ok program reader.arguments :=
  compile_iff_program.mpr ⟨reader, read, rfl⟩

/-- What was compiled, and declares nothing and has no infinite literal, is written as a text
that compiles to the same program, up to lines.  No argument is taken. -/
theorem compile_text {library : Library} {source : String} {arguments rest : Arguments}
    {program : Program} (compiled : compile library source arguments = .ok program rest)
    (writable : program.every Node.isWritable = true) (others : Arguments) :
    ∃ again, compile library (String.ofList program.text) others = .ok again others ∧
      again.withoutLines = program.withoutLines := by
  rcases Reader.program_back (compile_isRead compiled) writable others with
    ⟨again, after, read, same, lines⟩
  have compiledAgain := compile_of_read read
  rw [same] at compiledAgain
  exact ⟨again, compiledAgain, lines⟩

/-- A conditional on one line, written over several. -/
def Program.guarded (line : Nat) : Program :=
  ⟨.mk false
    [.conditional (.unary .not (.variable "busy" line) line)
      (.mk true
        [.assignment "busy" (.array [.literal (.truth true) line, .variable "x" line] line) line]
        line)
      none line] line⟩

theorem compile_text_guarded :
    ∃ again, compile {} "if (not busy) \x7b\nbusy = [true, x]\n\x7d\n" ⟨[], {}⟩ =
        .ok again ⟨[], {}⟩ ∧ again.withoutLines = .guarded 0 := by
  have read : Reader.program (Library.hasFunction {})
      ⟨.ofSource "if not busy \x7b busy=[true,x] \x7d", ⟨[], {}⟩⟩ =
        .ok (.guarded 1) ⟨.ofSource "", ⟨[], {}⟩⟩ := by cbv
  have written : String.ofList (Program.guarded 1).text =
      "if (not busy) \x7b\nbusy = [true, x]\n\x7d\n" := rfl
  have again := compile_text (compile_of_read read) rfl ⟨[], {}⟩
  rw [written] at again
  exact again

end Scriptlet
