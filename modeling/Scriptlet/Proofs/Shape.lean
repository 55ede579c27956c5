import Scriptlet.Proofs.Ensures
import Scriptlet.Proofs.Numerals
import Scriptlet.Reading.Statement
import Scriptlet.Script

namespace Scriptlet

/-!
# The shape of trees that are read

A host may build any tree, but reading gives only some of them.  Expressions stand where
values are wanted and statements where statements are wanted; blocks are framed according to
where they stand; and a name that is called names a function, while a name that is used as a
variable does not.  The predicates below say this once, constructor by constructor, together
with what tokens say about the texts in a tree.
-/

/-- The literals that can be written: texts without a quote, truth values, and numbers that
are not negative. -/
inductive Value.Writable : Value → Prop
  | text {s : String} : '"' ∉ s.toList → Writable (.text s)
  | truth {b : Bool} : Writable (.truth b)
  | number {magnitude : Nat} : magnitude ≤ Number.infiniteMagnitude →
      Writable (.number (Number.ofMagnitude false magnitude))

namespace Node

/-- The start of a range: a variable, or an integer literal. -/
inductive IsRangeStart (names : Reader.Names) : Node → Prop
  | variable {name : String} {line : Nat} : names name = false → Token.IsName name →
      IsRangeStart names (.variable name line)
  | number {n line : Nat} : n ≤ Number.largestWhole →
      IsRangeStart names (.literal (.number (Number.ofInt n)) line)

/-- What stands where a value is wanted. -/
inductive IsReadExpression (names : Reader.Names) : Node → Prop
  | literal {value : Value} {line : Nat} : value.Writable →
      IsReadExpression names (.literal value line)
  | array {elements : List Node} {line : Nat} :
      (∀ element ∈ elements, IsReadExpression names element) →
      IsReadExpression names (.array elements line)
  | variable {name : String} {line : Nat} : names name = false → Token.IsName name →
      IsReadExpression names (.variable name line)
  | binary {operator : BinaryOperator} {left right : Node} {line : Nat} :
      IsReadExpression names left → IsReadExpression names right →
      IsReadExpression names (.binary operator left right line)
  | unary {operator : UnaryOperator} {operand : Node} {line : Nat} :
      IsReadExpression names operand → IsReadExpression names (.unary operator operand line)
  | call {function : String} {arguments : List Node} {line : Nat} :
      names function = true → Token.IsName function →
      (∀ argument ∈ arguments, IsReadExpression names argument) →
      IsReadExpression names (.call function arguments line)
  | methodCall {receiver method : String} {arguments : List Node} {line : Nat} :
      names receiver = false → Token.IsName receiver → Token.IsName method →
      (∀ argument ∈ arguments, IsReadExpression names argument) →
      IsReadExpression names (.methodCall receiver method arguments line)
  | range {first last : Node} {line : Nat} : IsRangeStart names first →
      IsReadExpression names last → IsReadExpression names (.range first last line)

/-- A declared parameter: a host's value assigned to a name, which may be any name. -/
inductive IsDeclaration : Node → Prop
  | mk {name : String} {value : Value} {line : Nat} : Token.IsName name →
      IsDeclaration (.assignment name (.literal value line) line)

mutual

/-- What stands where a statement is wanted.  A block by itself is a `with`. -/
inductive IsReadStatement (names : Reader.Names) : Node → Prop
  | assignment {name : String} {value : Node} {line : Nat} : names name = false →
      Token.IsName name → IsReadExpression names value →
      IsReadStatement names (.assignment name value line)
  | call {function : String} {arguments : List Node} {line : Nat} :
      IsReadExpression names (.call function arguments line) →
      IsReadStatement names (.call function arguments line)
  | methodCall {receiver method : String} {arguments : List Node} {line : Nat} :
      IsReadExpression names (.methodCall receiver method arguments line) →
      IsReadStatement names (.methodCall receiver method arguments line)
  | conditional {condition : Node} {thenBranch : Block} {elseBranch : Option Block} {line : Nat} :
      IsReadExpression names condition → IsReadBlock names thenBranch →
      IsReadElse names elseBranch →
      IsReadStatement names (.conditional condition thenBranch elseBranch line)
  | declarations {assignments : List Node} {line : Nat} : assignments ≠ [] →
      (∀ assignment ∈ assignments, IsDeclaration assignment) →
      IsReadStatement names (.compound (.mk false assignments line))
  | loop {iterator : String} {iterable : Node} {body : Block} {line : Nat} :
      Token.IsName iterator → IsReadExpression names iterable → IsReadBlock names body →
      IsReadStatement names (.loop iterator iterable body line)
  | flag {flag : Flag} {line : Nat} : IsReadStatement names (.flag flag line)

/-- A block in braces has a frame. -/
inductive IsReadBlock (names : Reader.Names) : Block → Prop
  | mk {statements : List Node} {line : Nat} :
      (∀ statement ∈ statements, IsReadStatement names statement) →
      IsReadBlock names (.mk true statements line)

/-- The other branch of a conditional: none, a block in braces, or one more conditional in a
block without a frame. -/
inductive IsReadElse (names : Reader.Names) : Option Block → Prop
  | none : IsReadElse names none
  | block {block : Block} : IsReadBlock names block → IsReadElse names (some block)
  | chained {condition : Node} {thenBranch : Block} {elseBranch : Option Block}
      {line blockLine : Nat} :
      IsReadStatement names (.conditional condition thenBranch elseBranch line) →
      IsReadElse names
        (some (.mk false [.conditional condition thenBranch elseBranch line] blockLine))

end

end Node

/-- The root of a program is a block without a frame. -/
inductive Program.IsRead (names : Reader.Names) : Program → Prop
  | mk {statements : List Node} {line : Nat} :
      (∀ statement ∈ statements, Node.IsReadStatement names statement) →
      IsRead names ⟨.mk false statements line⟩

namespace Reader

/-! ## Steps -/

/-- A token that has been read ahead came from the lexer. -/
def Lawful (reader : Reader) : Prop :=
  ∀ token, reader.lexer.ahead = some token → token.Lawful

/-- What a step that succeeds has read. -/
abbrev Yields {α : Type} (step : Read α) (post : α → Prop) : Prop :=
  Ensures Lawful step post (fun _ => True)

theorem yields_fail {α : Type} {post : α → Prop} (fault : SyntaxFault) :
    Yields (fail fault : Read α) post :=
  .throw trivial

theorem yields_unexpected {α : Type} {post : α → Prop} (found : Token) (expected : Expected) :
    Yields (unexpected found expected : Read α) post :=
  .throw trivial

theorem yields_exhausted {α : Type} {post : α → Prop} : Yields (exhausted : Read α) post :=
  .throw trivial

theorem yields_next : Yields next Token.Lawful := by
  rintro ⟨⟨scanner, ahead⟩, arguments⟩ lawful
  cases ahead with
  | some token =>
      refine ⟨lawful token rfl, ?_⟩
      intro other none
      cases none
  | none =>
      simp only [next, onLexer, Lexer.next]
      rcases scanned : scanner.scan with ⟨outcome, after⟩
      cases outcome with
      | error fault => exact trivial
      | ok token =>
          refine ⟨Scanner.scan_lawful scanned, ?_⟩
          intro other none
          cases none

theorem yields_peek : Yields peek Token.Lawful := by
  rintro ⟨⟨scanner, ahead⟩, arguments⟩ lawful
  cases ahead with
  | some token => exact ⟨lawful token rfl, lawful⟩
  | none =>
      simp only [peek, onLexer, Lexer.peek]
      rcases scanned : scanner.scan with ⟨outcome, after⟩
      cases outcome with
      | error fault => exact trivial
      | ok token =>
          refine ⟨Scanner.scan_lawful scanned, ?_⟩
          intro other same
          cases same
          exact Scanner.scan_lawful scanned

theorem yields_peekKind : Yields peekKind (fun _ => True) :=
  yields_peek.bind fun _ _ => .pure trivial

theorem yields_skip : Yields skip (fun _ => True) :=
  yields_next.bind fun _ _ => .pure trivial

theorem yields_consume (kind : Token.Kind) :
    Yields (consume kind) (fun token => token.Lawful ∧ token.kind = kind) := by
  apply Ensures.bind yields_next
  intro token lawful
  exact .ite (fun same => .pure ⟨lawful, same⟩) (fun _ => yields_unexpected token _)

theorem yields_consumeKeyword (word : String) : Yields (consumeKeyword word) (fun _ => True) := by
  apply Ensures.bind yields_next
  intro token _
  exact .ite (fun _ => .pure trivial) (fun _ => yields_unexpected token _)

theorem isName_of_lawful {token : Token} (lawful : token.Lawful)
    (identifier : token.kind = .identifier) : Token.IsName token.text := by
  unfold Token.Lawful at lawful
  rw [identifier] at lawful
  exact lawful

theorem yields_consumeIdentifier : Yields consumeIdentifier Token.IsName := by
  apply Ensures.bind (yields_consume .identifier)
  intro token taken
  exact .pure (isName_of_lawful taken.1 taken.2)

theorem yields_expectStatementEnd : Yields expectStatementEnd (fun _ => True) := by
  apply Ensures.bind yields_peekKind
  intro kind _
  refine .ite (fun _ => .pure trivial) (fun _ => ?_)
  exact yields_next.bind fun found _ => yields_unexpected found _

/-! ## Lists of expressions -/

section Lists

variable {item : Read Node} {post : Node → Prop} (items : Yields item post)
include items

theorem yields_parenthesized (steps : Nat) :
    Yields (parenthesized item steps) (fun nodes => ∀ node ∈ nodes, post node) := by
  induction steps with
  | zero => exact yields_exhausted
  | succ steps inductionHypothesis =>
      apply Ensures.bind items
      intro argument holds
      apply Ensures.bind yields_next
      intro token _
      split
      · apply Ensures.bind inductionHypothesis
        intro others all
        exact .pure (List.forall_mem_cons.mpr ⟨holds, all⟩)
      · exact .pure (List.forall_mem_singleton.mpr holds)
      · exact yields_unexpected token _

theorem yields_callArguments (steps : Nat) :
    Yields (callArguments item steps) (fun nodes => ∀ node ∈ nodes, post node) := by
  apply Ensures.bind (yields_consume .openParen)
  intro _ _
  apply Ensures.bind yields_peekKind
  intro kind _
  refine .ite (fun _ => ?_) (fun _ => yields_parenthesized items steps)
  exact yields_skip.bind fun _ _ => .pure (List.forall_mem_nil _)

theorem yields_separated (steps : Nat) :
    Yields (separated item steps) (fun nodes => nodes ≠ [] ∧ ∀ node ∈ nodes, post node) := by
  induction steps with
  | zero => exact yields_exhausted
  | succ steps inductionHypothesis =>
      apply Ensures.bind items
      intro argument holds
      apply Ensures.bind yields_peekKind
      intro kind _
      refine .ite (fun _ => ?_)
        (fun _ => .pure ⟨List.cons_ne_nil _ _, List.forall_mem_singleton.mpr holds⟩)
      apply Ensures.bind yields_skip
      intro _ _
      apply Ensures.bind inductionHypothesis
      intro others all
      exact .pure ⟨List.cons_ne_nil _ _, List.forall_mem_cons.mpr ⟨holds, all.2⟩⟩

theorem yields_bareArguments (steps : Nat) :
    Yields (bareArguments item steps) (fun nodes => ∀ node ∈ nodes, post node) := by
  apply Ensures.bind yields_peekKind
  intro kind _
  refine .ite (fun _ => .pure (List.forall_mem_nil _)) (fun _ => ?_)
  exact (yields_separated items steps).weaken (fun _ all => all.2) (fun _ known => known)

theorem yields_arrayElements (line steps : Nat) :
    Yields (arrayElements item line steps) (fun nodes => ∀ node ∈ nodes, post node) := by
  induction steps with
  | zero => exact yields_exhausted
  | succ steps inductionHypothesis =>
      apply Ensures.bind yields_peekKind
      intro kind _
      refine .ite (fun _ => yields_fail _) (fun _ => ?_)
      apply Ensures.bind items
      intro element holds
      apply Ensures.bind yields_next
      intro token _
      split
      · apply Ensures.bind inductionHypothesis
        intro others all
        exact .pure (List.forall_mem_cons.mpr ⟨holds, all⟩)
      · exact .pure (List.forall_mem_singleton.mpr holds)
      · exact yields_fail _
      · exact yields_fail _
      · exact yields_unexpected token _

end Lists

/-! ## Expressions -/

section Expressions

variable {names : Names}

theorem yields_array {item : Read Node} (items : Yields item (Node.IsReadExpression names))
    (line steps : Nat) : Yields (array item line steps) (Node.IsReadExpression names) := by
  apply Ensures.bind yields_peekKind
  intro kind _
  refine .ite (fun _ => ?_) (fun _ => ?_)
  · exact yields_skip.bind fun _ _ => .pure (.array (List.forall_mem_nil _))
  · exact (yields_arrayElements items line steps).bind fun _ all => .pure (.array all)

theorem yields_extend {operand : Nat → Read Node}
    (operands : ∀ rank, Yields (operand rank) (Node.IsReadExpression names)) (ranks : List Nat)
    {left : Node} (start : Node.IsReadExpression names left) :
    Yields (extend operand left ranks) (Node.IsReadExpression names) := by
  induction ranks generalizing left with
  | nil => exact .pure start
  | cons rank higher inductionHypothesis =>
      apply Ensures.bind yields_peek
      intro token _
      cases operator? token with
      | none => exact .pure start
      | some operator =>
          refine .ite (fun _ => ?_) (fun _ => inductionHypothesis start)
          apply Ensures.bind yields_skip
          intro _ _
          apply Ensures.bind (operands rank)
          intro right holds
          exact inductionHypothesis (.binary start holds)

/-- A bound of a range literal is an integer that doubles hold exactly. -/
theorem rangeBound_eq_ok {line : Nat} {digits : List Char} {node : Node}
    (bound : rangeBound line digits = .ok node) :
    ∃ n, n ≤ Number.largestWhole ∧ node = .literal (.number (Number.ofInt n)) line := by
  unfold rangeBound Number.ofInt? at bound
  by_cases small : (Number.decimalValue digits : Int).natAbs ≤ Number.largestWhole
  · simp only [small, if_true, Except.ok.injEq] at bound
    exact ⟨Number.decimalValue digits, by simpa using small, bound.symm⟩
  · simp only [small, if_false, reduceCtorEq] at bound

theorem mapM_rangeBound_eq_ok {line : Nat} {pieces : List (List Char)} {nodes : List Node}
    (bounds : pieces.mapM (rangeBound line) = .ok nodes) :
    ∀ node ∈ nodes, ∃ n, n ≤ Number.largestWhole ∧
      node = .literal (.number (Number.ofInt n)) line := by
  induction pieces generalizing nodes with
  | nil =>
      cases bounds
      exact List.forall_mem_nil _
  | cons piece rest inductionHypothesis =>
      rw [List.mapM_cons] at bounds
      cases first : rangeBound line piece with
      | error fault =>
          rw [first] at bounds
          cases bounds
      | ok node =>
          rw [first] at bounds
          cases others : rest.mapM (rangeBound line) with
          | error fault =>
              rw [others] at bounds
              cases bounds
          | ok tail =>
              rw [others] at bounds
              cases bounds
              exact List.forall_mem_cons.mpr ⟨rangeBound_eq_ok first, inductionHypothesis others⟩

theorem writable_ofInt {n : Nat} : (Value.number (Number.ofInt n)).Writable := by
  have positive : decide ((n : Int) < 0) = false := by simp
  unfold Number.ofInt Number.nearest
  rw [positive]
  exact .number (Number.nearestMagnitude_le _ _)

theorem yields_rangeLiteral {expression : Read Node}
    (expressions : Yields expression (Node.IsReadExpression names)) (token : Token) :
    Yields (rangeLiteral expression token) (Node.IsReadExpression names) := by
  unfold rangeLiteral
  cases bounds : rangeBounds token with
  | error fault => exact yields_fail fault
  | ok nodes =>
      have whole := mapM_rangeBound_eq_ok bounds
      match nodes, whole with
      | [], _ => exact yields_fail _
      | [first], whole =>
          refine .ite (fun _ => ?_) (fun _ => yields_fail _)
          rcases whole first (by simp) with ⟨n, small, rfl⟩
          exact expressions.bind fun _ last => .pure (.range (.number small) last)
      | [first, last], whole =>
          rcases whole first (by simp) with ⟨n, small, rfl⟩
          rcases whole last (by simp) with ⟨m, _, rfl⟩
          exact .pure (.range (.number small) (.literal writable_ofInt))
      | _ :: _ :: _ :: _, _ => exact yields_fail _

theorem yields_named {expression : Read Node}
    (expressions : Yields expression (Node.IsReadExpression names)) (steps : Nat) {name : Token}
    (isName : Token.IsName name.text) :
    Yields (named names expression steps name) (Node.IsReadExpression names) := by
  unfold named
  refine .ite (fun called => ?_) (fun notCalled => ?_)
  · apply Ensures.bind yields_peekKind
    intro kind _
    refine .ite (fun _ => ?_) (fun _ => ?_)
    · exact (yields_callArguments expressions steps).bind fun _ all =>
        .pure (.call called isName all)
    · exact (yields_bareArguments expressions steps).bind fun _ all =>
        .pure (.call called isName all)
  · have isVariable : names name.text = false := by simpa using notCalled
    apply Ensures.bind yields_peek
    intro token _
    split
    · refine .ite (fun _ => ?_) (fun _ => .pure (.variable isVariable isName))
      apply Ensures.bind yields_skip
      intro _ _
      exact expressions.bind fun _ last => .pure (.range (.variable isVariable isName) last)
    · apply Ensures.bind yields_skip
      intro _ _
      apply Ensures.bind yields_consumeIdentifier
      intro method isMethod
      exact (yields_callArguments expressions steps).bind fun _ all =>
        .pure (.methodCall isVariable isName isMethod all)
    · exact .pure (.variable isVariable isName)

theorem yields_numberLiteral {token : Token} (numeral : Token.IsNumeral token.text.toList) :
    Yields (numberLiteral token) (Node.IsReadExpression names) := by
  rcases Number.read?_isNumeral numeral with ⟨magnitude, bounded, reads⟩
  unfold numberLiteral
  rw [reads]
  exact .pure (.literal (.number bounded))

theorem yields_truthLiteral (token : Token) :
    Yields (truthLiteral token) (Node.IsReadExpression names) := by
  unfold truthLiteral
  refine .ite (fun _ => .pure (.literal .truth)) (fun _ => ?_)
  exact .ite (fun _ => .pure (.literal .truth)) (fun _ => yields_unexpected token _)

/-- Both functions hand on their steps less one, so both are proved for one number of steps
from both for the number below it. -/
theorem yields_expressions (names : Names) (steps : Nat) :
    (∀ rank, Yields (ranked names steps rank) (Node.IsReadExpression names)) ∧
      Yields (factor names steps) (Node.IsReadExpression names) := by
  induction steps with
  | zero =>
      refine ⟨fun rank => ?_, ?_⟩
      · rw [ranked]
        exact yields_exhausted
      · rw [factor]
        exact yields_exhausted
  | succ steps inductionHypothesis =>
      rcases inductionHypothesis with ⟨rankeds, factors⟩
      refine ⟨fun rank => ?_, ?_⟩
      · rw [ranked]
        exact factors.bind fun _ left => yields_extend rankeds (ranksTo rank) left
      · rw [factor]
        apply Ensures.bind yields_next
        intro token lawful
        split
        · rename_i kind
          unfold Token.Lawful at lawful
          rw [kind] at lawful
          exact yields_numberLiteral lawful
        · rename_i kind
          unfold Token.Lawful at lawful
          rw [kind] at lawful
          exact .pure (.literal (.text lawful))
        · exact yields_truthLiteral token
        · exact yields_named (rankeds expressionRank) steps (isName_of_lawful lawful ‹_›)
        · apply Ensures.bind (rankeds expressionRank)
          intro inner holds
          exact (yields_consume .closeParen).bind fun _ _ => .pure holds
        · exact yields_array (rankeds expressionRank) token.line steps
        · exact yields_rangeLiteral (rankeds expressionRank) token
        · exact factors.bind fun _ holds => .pure (.unary holds)
        · exact factors.bind fun _ holds => .pure (.unary holds)
        · exact yields_unexpected token _

theorem yields_ranked (names : Names) (steps rank : Nat) :
    Yields (ranked names steps rank) (Node.IsReadExpression names) :=
  (yields_expressions names steps).1 rank

end Expressions

/-! ## Statements -/

section Statements

variable {names : Names}

theorem yields_statementsUntil {item : Read Node} {post : Node → Prop} (items : Yields item post)
    (closing : Token.Kind) (steps : Nat) :
    Yields (statementsUntil item closing steps) (fun nodes => ∀ node ∈ nodes, post node) := by
  induction steps with
  | zero => exact yields_exhausted
  | succ steps inductionHypothesis =>
      apply Ensures.bind yields_peekKind
      intro kind _
      refine .ite (fun _ => ?_) (fun _ => ?_)
      · exact yields_skip.bind fun _ _ => .pure (List.forall_mem_nil _)
      · split
        · exact yields_skip.bind fun _ _ => inductionHypothesis
        · exact yields_next.bind fun found _ => yields_unexpected found _
        · apply Ensures.bind items
          intro first holds
          exact inductionHypothesis.bind fun _ all =>
            .pure (List.forall_mem_cons.mpr ⟨holds, all⟩)

theorem yields_bracedBlock {item : Read Node} (items : Yields item (Node.IsReadStatement names))
    (steps : Nat) : Yields (bracedBlock item steps) (Node.IsReadBlock names) := by
  apply Ensures.bind (yields_consume .openBrace)
  intro opening _
  exact (yields_statementsUntil items .closeBrace steps).bind fun _ all => .pure (.mk all)

theorem yields_skipNewLines (steps : Nat) : Yields (skipNewLines steps) (fun _ => True) := by
  induction steps with
  | zero => exact yields_exhausted
  | succ steps inductionHypothesis =>
      apply Ensures.bind yields_peekKind
      intro kind _
      refine .ite (fun _ => ?_) (fun _ => .pure trivial)
      exact yields_skip.bind fun _ _ => inductionHypothesis

theorem yields_onArguments {α : Type} (step : EStateM SetupFault Arguments α) :
    Yields (onArguments step) (fun _ => True) := by
  intro reader lawful
  unfold onArguments
  cases step reader.arguments with
  | ok result arguments => exact ⟨trivial, lawful⟩
  | error fault arguments => exact trivial

theorem yields_declaration : Yields declaration Node.IsDeclaration := by
  apply Ensures.bind yields_next
  intro name lawful
  refine .ite (fun identifier => ?_) (fun _ => yields_fail _)
  apply Ensures.bind yields_next
  intro colon _
  refine .ite (fun _ => ?_) (fun _ => yields_fail _)
  apply Ensures.bind yields_next
  intro tag _
  generalize (if tag.kind = .typeTag then Value.Kind.ofName? tag.text else none) = kind?
  cases kind? with
  | none => exact yields_fail _
  | some kind =>
      apply Ensures.bind (yields_onArguments _)
      intro value _
      exact .pure (.mk (isName_of_lawful lawful identifier))

theorem yields_namedStatement (steps : Nat) {name : Token} (isName : Token.IsName name.text) :
    Yields (namedStatement names steps name) (Node.IsReadStatement names) := by
  have expressions := yields_ranked names steps expressionRank
  unfold namedStatement
  refine .ite (fun called => ?_) (fun notCalled => ?_)
  · exact (yields_bareArguments expressions steps).bind fun _ all =>
      .pure (.call (.call called isName all))
  · have isVariable : names name.text = false := by simpa using notCalled
    apply Ensures.bind yields_next
    intro token _
    split
    · exact expressions.bind fun _ value => .pure (.assignment isVariable isName value)
    · apply Ensures.bind yields_consumeIdentifier
      intro method isMethod
      exact (yields_callArguments expressions steps).bind fun _ all =>
        .pure (.methodCall (.methodCall isVariable isName isMethod all))
    · exact yields_unexpected token _

theorem yields_loop {item : Read Node} (items : Yields item (Node.IsReadStatement names))
    (steps line : Nat) : Yields (loop names item steps line) (Node.IsReadStatement names) := by
  apply Ensures.bind yields_consumeIdentifier
  intro iterator isName
  apply Ensures.bind (yields_consumeKeyword "in")
  intro _ _
  apply Ensures.bind (yields_ranked names steps expressionRank)
  intro iterable holds
  exact (yields_bracedBlock items steps).bind fun _ body => .pure (.loop isName holds body)

theorem yields_declarations (steps line : Nat) :
    Yields (declarations steps line) (Node.IsReadStatement names) :=
  (yields_separated yields_declaration steps).bind fun _ all =>
    .pure (.declarations all.1 all.2)

theorem yields_ended {statement : Read Node} {post : Node → Prop} (holds : Yields statement post) :
    Yields (ended statement) post := by
  apply Ensures.bind holds
  intro node isPost
  exact yields_expectStatementEnd.bind fun _ _ => .pure isPost

/-- A conditional that is read is a conditional, which chaining relies on. -/
inductive IsReadConditional (names : Names) : Node → Prop
  | mk {condition : Node} {thenBranch : Block} {elseBranch : Option Block} {line : Nat} :
      Node.IsReadStatement names (.conditional condition thenBranch elseBranch line) →
      IsReadConditional names (.conditional condition thenBranch elseBranch line)

theorem yields_statements (names : Names) (steps : Nat) :
    Yields (statementWithin names steps) (Node.IsReadStatement names) ∧
      ∀ line, Yields (conditionalWithin names steps line) (IsReadConditional names) := by
  induction steps with
  | zero =>
      refine ⟨?_, fun line => ?_⟩
      · rw [statementWithin]
        exact yields_exhausted
      · rw [conditionalWithin]
        exact yields_exhausted
  | succ steps inductionHypothesis =>
      rcases inductionHypothesis with ⟨statements, conditionals⟩
      refine ⟨?_, fun line => ?_⟩
      · rw [statementWithin]
        apply Ensures.bind yields_next
        intro token lawful
        split
        · exact yields_ended (yields_namedStatement steps (isName_of_lawful lawful ‹_›))
        · refine .ite (fun _ => ?_) (fun _ => ?_)
          · refine (conditionals token.line).weaken ?_ (fun _ known => known)
            rintro _ ⟨holds⟩
            exact holds
          refine .ite (fun _ => yields_ended (yields_loop statements steps token.line))
            (fun _ => ?_)
          refine .ite (fun _ => yields_ended (yields_declarations steps token.line)) (fun _ => ?_)
          refine .ite (fun _ => yields_ended (.pure .flag)) (fun _ => ?_)
          exact .ite (fun _ => yields_ended (.pure .flag)) (fun _ => yields_fail _)
        · exact yields_fail _
      · rw [conditionalWithin]
        apply Ensures.bind (yields_ranked names steps expressionRank)
        intro condition isCondition
        apply Ensures.bind (yields_bracedBlock statements steps)
        intro thenBranch isThen
        apply Ensures.bind (yields_skipNewLines steps)
        intro _ _
        apply Ensures.bind yields_peek
        intro follower _
        refine .ite (fun _ => ?_) (fun _ => .pure (.mk (.conditional isCondition isThen .none)))
        apply Ensures.bind yields_skip
        intro _ _
        apply Ensures.bind yields_peek
        intro chained _
        refine .ite (fun _ => ?_) (fun _ => ?_)
        · apply Ensures.bind yields_skip
          intro _ _
          apply Ensures.bind (conditionals chained.line)
          rintro _ ⟨nested⟩
          exact .pure (.mk (.conditional isCondition isThen (.chained nested)))
        · exact (yields_bracedBlock statements steps).bind fun _ isElse =>
            .pure (.mk (.conditional isCondition isThen (.block isElse)))

theorem yields_block (names : Names) (closing : Token.Kind) (framed : Bool) (line : Nat) :
    Yields (block names closing framed line) (fun block => ∃ statements,
      block = .mk framed statements line ∧
        ∀ statement ∈ statements, Node.IsReadStatement names statement) := by
  intro reader lawful
  have items := (yields_statements names reader.allowance).1
  have read : Yields
      (do
        let statements ← statementsUntil (statementWithin names reader.allowance) closing
          reader.allowance
        pure (Block.mk framed statements line))
      (fun block => ∃ statements, block = .mk framed statements line ∧
        ∀ statement ∈ statements, Node.IsReadStatement names statement) :=
    (yields_statementsUntil items closing reader.allowance).bind
      fun statements all => .pure ⟨statements, rfl, all⟩
  exact read reader lawful

theorem yields_program (names : Names) : Yields (program names) (Program.IsRead names) := by
  apply Ensures.bind (yields_block names .endOfFile false 1)
  rintro _ ⟨statements, rfl, all⟩
  exact .pure (.mk all)

end Statements

end Reader

section Compiled

variable {library : Library} {source : String} {arguments rest : Arguments} {program : Program}

/-- To compile is to read a program from the start of its source. -/
theorem compile_iff_program :
    compile library source arguments = .ok program rest ↔
      ∃ reader, Reader.program library.hasFunction ⟨.ofSource source, arguments⟩ =
        .ok program reader ∧ rest = reader.arguments := by
  unfold compile
  cases Reader.program library.hasFunction ⟨.ofSource source, arguments⟩ with
  | ok read reader =>
      constructor
      · rintro ⟨⟩
        exact ⟨reader, rfl, rfl⟩
      · rintro ⟨_, ⟨⟩, rfl⟩
        rfl
  | error fault reader =>
      constructor
      · intro compiled
        cases compiled
      · rintro ⟨_, read, _⟩
        cases read

/-- A program that was compiled has the shape of trees that are read. -/
theorem compile_isRead (compiled : compile library source arguments = .ok program rest) :
    Program.IsRead library.hasFunction program := by
  obtain ⟨reader, ran, _⟩ := compile_iff_program.mp compiled
  have lawful : Reader.Lawful ⟨.ofSource source, arguments⟩ := fun token none => by cases none
  exact ((Reader.yields_program library.hasFunction).of_ok lawful ran).1

end Compiled

end Scriptlet
