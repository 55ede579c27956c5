import Scriptlet.Proofs.ReadingText
import Scriptlet.Proofs.Shape
import Scriptlet.Proofs.Spelling
import Scriptlet.Proofs.Writing

namespace Scriptlet

/-!
# Expressions read back from their texts

The text of an expression that was read is read as that expression, but for the lines of its
nodes.  The texts of operands end where a blank, a comma or a closing mark follows, and an
operator is taken only where one stands; so what is read stops where the writing did.
-/

namespace Reader

/-! ## What follows an expression -/

/-- What may follow a whole expression: a mark that closes or separates, a line break, or a
brace behind a blank. -/
inductive Stops : List Char → Prop
  | paren {rest : List Char} : Stops (')' :: rest)
  | bracket {rest : List Char} : Stops (']' :: rest)
  | comma {rest : List Char} : Stops (',' :: rest)
  | line {rest : List Char} : Stops ('\n' :: rest)
  | brace {rest : List Char} : Stops (' ' :: '\x7b' :: rest)

/-- What may follow an operand: the same, or an operator between blanks. -/
inductive Separates : List Char → Prop
  | stop {rest : List Char} : Stops rest → Separates rest
  | operator (operator : BinaryOperator) {rest : List Char} :
      Separates (' ' :: (operator.symbol.toList ++ ' ' :: rest))

/-- The token at which an expression stops is no operator, and nothing goes on behind a name
with it. -/
theorem Stops.scans {rest : List Char} (stops : Stops rest) :
    ∃ kind word more, Scanner.Scans rest kind word more ∧ kind ≠ .range ∧ kind ≠ .dot ∧
      ∀ line, operator? ⟨kind, word, line⟩ = none := by
  cases stops with
  | paren =>
      exact ⟨.closeParen, _, _, Scanner.scans_mark _ _ (by decide) _, by decide, by decide,
        fun _ => rfl⟩
  | bracket =>
      exact ⟨.closeBracket, _, _, Scanner.scans_mark _ _ (by decide) _, by decide, by decide,
        fun _ => rfl⟩
  | comma =>
      exact ⟨.comma, _, _, Scanner.scans_mark _ _ (by decide) _, by decide, by decide, fun _ => rfl⟩
  | line =>
      exact ⟨.newLine, _, _, Scanner.scans_mark _ _ (by decide) _, by decide, by decide, fun _ => rfl⟩
  | brace =>
      exact ⟨.openBrace, _, _, (Scanner.scans_mark _ _ (by decide) _).blank, by decide, by decide,
        fun _ => rfl⟩

theorem scans_operator (operator : BinaryOperator) (rest : List Char) :
    ∃ kind,
      Scanner.Scans (operator.symbol.toList ++ ' ' :: rest) kind operator.symbol (' ' :: rest) ∧
      kind ≠ .range ∧ kind ≠ .dot ∧
      ∀ line, operator? ⟨kind, operator.symbol, line⟩ = some operator := by
  cases operator with
  | add | multiply | modulo | greater | less =>
      exact ⟨.binaryOperator, Scanner.scans_mark _ _ (by decide) _, by decide, by decide, fun _ => rfl⟩
  | divide =>
      exact ⟨.binaryOperator, Scanner.scans_slash rest, by decide, by decide, fun _ => rfl⟩
  | subtract =>
      exact ⟨.minus, Scanner.scans_mark _ _ (by decide) _, by decide, by decide, fun _ => rfl⟩
  | equal =>
      exact ⟨.equals, Scanner.scans_mark _ _ (by decide) _, by decide, by decide, fun _ => rfl⟩
  | and =>
      exact ⟨.binaryOperator, Scanner.scans_reserved (by rfl)
        (Lexeme.ends_cons rfl rest), by decide, by decide, fun _ => rfl⟩
  | or =>
      exact ⟨.binaryOperator, Scanner.scans_reserved (by rfl)
        (Lexeme.ends_cons rfl rest), by decide, by decide, fun _ => rfl⟩

/-- Behind an operand stands a token that does not go on with a name. -/
theorem Separates.scans {rest : List Char} (separates : Separates rest) :
    ∃ kind word more, Scanner.Scans rest kind word more ∧ kind ≠ .range ∧ kind ≠ .dot := by
  cases separates with
  | stop stops =>
      rcases stops.scans with ⟨kind, word, more, scans, range, dot, _⟩
      exact ⟨kind, word, more, scans, range, dot⟩
  | operator operator =>
      rcases scans_operator operator _ with ⟨kind, scans, range, dot, _⟩
      exact ⟨kind, _, _, scans.blank, range, dot⟩

/-- Words and numbers end in front of what separates. -/
theorem Separates.ends {rest : List Char} (separates : Separates rest) :
    Lexeme.Ends Lexeme.continuesWord rest ∧ Lexeme.Ends Lexeme.isNumeral rest := by
  cases separates with
  | stop stops => cases stops <;> exact ⟨Lexeme.ends_cons rfl _, Lexeme.ends_cons rfl _⟩
  | operator operator => exact ⟨Lexeme.ends_cons rfl _, Lexeme.ends_cons rfl _⟩

/-- The step reads the text as the tree, but for its lines, and leaves the rest. -/
abbrev ReadsAs (text : List Char) (step : Read Node) (node : Node) (rest : List Char) : Prop :=
  Reads text step (fun read left => read.withoutLines = node.withoutLines ∧ left = rest)

/-! ## Lists of expressions -/

section Lists

/-- The step reads the list, but for lines, and leaves the rest. -/
abbrev ReadsList (text : List Char) (step : Read (List Node)) (nodes : List Node)
    (rest : List Char) : Prop :=
  Reads text step
    (fun read left => Node.eachWithoutLines read = Node.eachWithoutLines nodes ∧ left = rest)

/-- The classes of tokens that written expressions start with. -/
def startsOperand (kind : Token.Kind) : Bool :=
  kind = .number || kind = .string || kind = .keyword || kind = .identifier ||
    kind = .openParen || kind = .openBracket

/-- Such a token ends no list and no line. -/
structure Plain (kind : Token.Kind) : Prop where
  line : ¬ (kind = .newLine || kind = .endOfFile) = true
  paren : ¬ kind = .closeParen
  bracket : ¬ kind = .closeBracket
  arguments : ¬ endsArguments kind = true

theorem startsOperand_plain {kind : Token.Kind} (starts : startsOperand kind = true) :
    Plain kind := by
  cases kind <;> first | exact ⟨by decide, by decide, by decide, by decide⟩ | cases starts

/-- What reading a list asks of its items: each is read up to where it stops, and it starts
with a token that tells it from the end of a list. -/
structure IsItem (item : Read Node) (node : Node) : Prop where
  reads : ∀ rest, Stops rest → ReadsAs (node.expressionText ++ rest) item node rest
  front : ∀ rest, Stops rest → ∃ kind word more,
    Scanner.Scans (node.expressionText ++ rest) kind word more ∧ startsOperand kind = true

variable {item : Read Node} {nodes : List Node} (items : ∀ node ∈ nodes, IsItem item node)
include items

/-- A list is read item by item: the last item is followed by what closes the list, and each
other one by a comma and a shorter list. -/
theorem readsList_walk {walk : Nat → Read (List Node)} {closing left : List Char}
    (last : ∀ steps node, IsItem item node →
      ReadsList (node.expressionText ++ closing) (walk (steps + 1)) [node] left)
    (further : ∀ steps text node others, IsItem item node →
      ReadsList text (walk steps) others left →
      ReadsList (node.expressionText ++ ',' :: ' ' :: text) (walk (steps + 1)) (node :: others) left)
    (nonempty : nodes ≠ []) {steps : Nat} (enough : nodes.length ≤ steps) :
    ReadsList (Text.listed (Node.expressionTexts nodes) ++ closing) (walk steps) nodes left := by
  induction nodes generalizing steps with
  | nil => exact absurd rfl nonempty
  | cons node others inductionHypothesis =>
      have split := List.forall_mem_cons.mp items
      cases steps with
      | zero => cases enough
      | succ steps =>
          cases others with
          | nil => exact last steps node split.1
          | cons next others =>
              have tail := inductionHypothesis split.2 (List.cons_ne_nil _ _)
                (Nat.le_of_succ_le_succ enough)
              simp only [Node.expressionTexts, Text.listed, List.append_assoc, List.cons_append]
              exact further steps _ node _ split.1 tail

theorem readsList_parenthesized (nonempty : nodes ≠ []) {steps : Nat}
    (enough : nodes.length ≤ steps) (rest : List Char) :
    ReadsList (Text.listed (Node.expressionTexts nodes) ++ ')' :: rest) (parenthesized item steps)
      nodes rest := by
  refine readsList_walk items ?_ ?_ nonempty enough
  · intro steps node isItem
    rw [parenthesized]
    apply Reads.bind (isItem.reads (')' :: rest) .paren)
    rintro read _ ⟨same, rfl⟩
    apply Reads.next (Scanner.scans_mark ')' .closeParen (by decide) rest)
    intro line
    exact .pure ⟨by simp only [Node.eachWithoutLines, same], rfl⟩
  · intro steps text node others isItem tail
    rw [parenthesized]
    apply Reads.bind (isItem.reads _ .comma)
    rintro read _ ⟨same, rfl⟩
    apply Reads.next (Scanner.scans_mark ',' .comma (by decide) _)
    intro line
    apply Reads.bind tail.blank
    rintro reads _ ⟨sames, rfl⟩
    exact .pure ⟨by rw [Node.eachWithoutLines, Node.eachWithoutLines, same, sames], rfl⟩

theorem readsList_separated (nonempty : nodes ≠ []) {steps : Nat}
    (enough : nodes.length ≤ steps) (rest : List Char) :
    ReadsList (Text.listed (Node.expressionTexts nodes) ++ '\n' :: rest) (separated item steps)
      nodes ('\n' :: rest) := by
  refine readsList_walk items ?_ ?_ nonempty enough
  · intro steps node isItem
    rw [separated]
    apply Reads.bind (isItem.reads ('\n' :: rest) .line)
    rintro read _ ⟨same, rfl⟩
    apply Reads.peekKind (Scanner.scans_mark '\n' .newLine (by decide) rest)
    exact .pure ⟨by simp only [Node.eachWithoutLines, same], rfl⟩
  · intro steps text node others isItem tail
    have comma := Scanner.scans_mark ',' .comma (by decide) (' ' :: text)
    rw [separated]
    apply Reads.bind (isItem.reads _ .comma)
    rintro read _ ⟨same, rfl⟩
    apply Reads.peekKind comma
    apply Reads.skip comma
    apply Reads.bind tail.blank
    rintro reads _ ⟨sames, rfl⟩
    exact .pure ⟨by rw [Node.eachWithoutLines, Node.eachWithoutLines, same, sames], rfl⟩

theorem readsList_arrayElements (nonempty : nodes ≠ []) {steps : Nat}
    (enough : nodes.length ≤ steps) (line : Nat) (rest : List Char) :
    ReadsList (Text.listed (Node.expressionTexts nodes) ++ ']' :: rest)
      (arrayElements item line steps) nodes rest := by
  refine readsList_walk items ?_ ?_ nonempty enough
  · intro steps node isItem
    rcases isItem.front (']' :: rest) .bracket with ⟨kind, word, more, scans, starts⟩
    rw [arrayElements]
    apply Reads.peekKind scans
    rw [if_neg (startsOperand_plain starts).line]
    apply Reads.bind (isItem.reads (']' :: rest) .bracket)
    rintro read _ ⟨same, rfl⟩
    apply Reads.next (Scanner.scans_mark ']' .closeBracket (by decide) rest)
    intro _
    exact .pure ⟨by simp only [Node.eachWithoutLines, same], rfl⟩
  · intro steps text node others isItem tail
    rcases isItem.front _ .comma with ⟨kind, word, more, scans, starts⟩
    rw [arrayElements]
    apply Reads.peekKind scans
    rw [if_neg (startsOperand_plain starts).line]
    apply Reads.bind (isItem.reads _ .comma)
    rintro read _ ⟨same, rfl⟩
    apply Reads.next (Scanner.scans_mark ',' .comma (by decide) _)
    intro _
    apply Reads.bind tail.blank
    rintro reads _ ⟨sames, rfl⟩
    exact .pure ⟨by rw [Node.eachWithoutLines, Node.eachWithoutLines, same, sames], rfl⟩

/-- A list that is not empty starts as its first item does. -/
theorem listed_front (nonempty : nodes ≠ []) {closing : Char} {rest : List Char}
    (stops : Stops (closing :: rest)) :
    ∃ kind word more,
      Scanner.Scans (Text.listed (Node.expressionTexts nodes) ++ closing :: rest) kind word more ∧
        startsOperand kind = true := by
  cases nodes with
  | nil => exact absurd rfl nonempty
  | cons node others =>
      have first := items node List.mem_cons_self
      cases others with
      | nil => exact first.front _ stops
      | cons next others =>
          simp only [Node.expressionTexts, Text.listed, List.append_assoc, List.cons_append]
          exact first.front _ .comma

theorem readsList_callArguments {steps : Nat} (enough : nodes.length ≤ steps) (rest : List Char) :
    ReadsList ('(' :: (Text.listed (Node.expressionTexts nodes) ++ ')' :: rest))
      (callArguments item steps) nodes rest := by
  apply Reads.consume (Scanner.scans_mark '(' .openParen (by decide) _)
  intro line
  by_cases empty : nodes = []
  · subst empty
    have closing := Scanner.scans_mark ')' .closeParen (by decide) rest
    apply Reads.peekKind closing
    rw [if_pos rfl]
    apply Reads.skip closing
    exact .pure ⟨rfl, rfl⟩
  · rcases listed_front items empty (@Stops.paren rest) with ⟨kind, word, more, scans, starts⟩
    apply Reads.peekKind scans
    rw [if_neg (startsOperand_plain starts).paren]
    exact readsList_parenthesized items empty enough rest

theorem readsList_bareArguments {steps : Nat} (enough : nodes.length ≤ steps) (rest : List Char) :
    ReadsList (Text.argumentTail (Node.expressionTexts nodes) ++ '\n' :: rest)
      (bareArguments item steps) nodes ('\n' :: rest) := by
  by_cases empty : nodes = []
  · subst empty
    apply Reads.peekKind (Scanner.scans_mark '\n' .newLine (by decide) rest)
    exact .pure ⟨rfl, rfl⟩
  · have tail : Text.argumentTail (Node.expressionTexts nodes) =
        ' ' :: Text.listed (Node.expressionTexts nodes) := by
      cases nodes with
      | nil => exact absurd rfl empty
      | cons node others => rfl
    rw [tail]
    apply Reads.blank
    rcases listed_front items empty (@Stops.line rest) with ⟨kind, word, more, scans, starts⟩
    apply Reads.peekKind scans
    rw [if_neg (startsOperand_plain starts).arguments]
    exact readsList_separated items empty enough rest

theorem readsAs_array {steps : Nat} (enough : nodes.length ≤ steps) (line : Nat)
    (rest : List Char) :
    ReadsAs (Text.listed (Node.expressionTexts nodes) ++ ']' :: rest) (array item line steps)
      (.array nodes line) rest := by
  by_cases empty : nodes = []
  · subst empty
    have closing := Scanner.scans_mark ']' .closeBracket (by decide) rest
    apply Reads.peekKind closing
    rw [if_pos rfl]
    apply Reads.skip closing
    exact .pure ⟨rfl, rfl⟩
  · rcases listed_front items empty (@Stops.bracket rest) with ⟨kind, word, more, scans, starts⟩
    apply Reads.peekKind scans
    rw [if_neg (startsOperand_plain starts).bracket]
    apply Reads.bind (readsList_arrayElements items empty enough line rest)
    rintro reads _ ⟨sames, rfl⟩
    exact .pure ⟨by rw [Node.withoutLines, Node.withoutLines, sames], rfl⟩

end Lists

/-! ## Operators -/

section Operators

variable {names : Names} {steps : Nat}

/-- Where an expression stops there is no operator to extend it by. -/
theorem reads_extend {operand : Nat → Read Node} {left : Node} {rest : List Char}
    (stops : Stops rest) (ranks : List Nat) :
    Reads rest (extend operand left ranks) (fun read more => read = left ∧ more = rest) := by
  cases ranks with
  | nil => exact .pure ⟨rfl, rfl⟩
  | cons rank higher =>
      rcases stops.scans with ⟨kind, word, more, scans, _, _, noOperator⟩
      apply Reads.peek scans
      intro line
      rw [noOperator line]
      exact .pure ⟨rfl, rfl⟩

theorem ReadsAs.ranked {text rest : List Char} {node : Node} (rank : Nat)
    (reads : ReadsAs text (factor names steps) node rest) (stops : Stops rest) :
    ReadsAs text (Reader.ranked names (steps + 1) rank) node rest := by
  rw [Reader.ranked]
  apply Reads.bind reads
  rintro left _ ⟨same, rfl⟩
  apply (reads_extend stops (ranksTo rank)).weaken
  rintro read _ ⟨rfl, rfl⟩
  exact ⟨same, rfl⟩

/-- The ranks are gone through up to the one that the operator ranks below. -/
theorem reads_extend_operator {operand : Nat → Read Node} {left right : Node}
    {operator : BinaryOperator} {text rest : List Char} (stops : Stops rest)
    (operands : ∀ rank, ReadsAs text (operand rank) right rest) {ranks : List Nat}
    (below : ∃ rank ∈ ranks, operator.rank < rank) :
    ReadsAs (' ' :: (operator.symbol.toList ++ ' ' :: text)) (extend operand left ranks)
      (.binary operator left right left.line) rest := by
  rcases scans_operator operator text with ⟨kind, scans, _, _, isOperator⟩
  induction ranks with
  | nil =>
      rcases below with ⟨rank, member, _⟩
      cases member
  | cons rank higher inductionHypothesis =>
      rw [extend]
      apply Reads.peek scans.blank
      intro line
      simp only [isOperator line]
      by_cases less : operator.rank < rank
      · rw [if_pos less]
        apply Reads.skip scans.blank
        apply Reads.bind (operands rank).blank
        rintro read _ ⟨same, rfl⟩
        apply (reads_extend stops higher).weaken
        rintro _ _ ⟨rfl, rfl⟩
        exact ⟨by simp only [Node.withoutLines, same], rfl⟩
      · rw [if_neg less]
        apply inductionHypothesis
        rcases below with ⟨found, member, lower⟩
        rcases List.mem_cons.mp member with rfl | later
        · exact absurd lower less
        · exact ⟨found, later, lower⟩

theorem ReadsAs.parens {text rest : List Char} {node : Node}
    (inner : ReadsAs text (Reader.ranked names steps expressionRank) node (')' :: rest)) :
    ReadsAs ('(' :: text) (factor names (steps + 1)) node rest := by
  rw [factor]
  apply Reads.next (Scanner.scans_mark '(' .openParen (by decide) text)
  intro line
  apply Reads.bind inner
  rintro read _ ⟨same, rfl⟩
  apply Reads.consume (Scanner.scans_mark ')' .closeParen (by decide) rest)
  intro _
  exact .pure ⟨same, rfl⟩

end Operators

/-- A name does not start with a point. -/
theorem isName_ends {name : String} (isName : Token.IsName name) (rest : List Char) :
    Lexeme.Ends (· = '.') (name.toList ++ rest) := by
  rcases isName.word with ⟨c, cs, characters, starts, _⟩
  rw [characters]
  exact Lexeme.ends_cons (decide_eq_false (Lexeme.ne_of_startsWord starts rfl)) _

/-! ## Literals -/

theorem finite_of_isWritable {magnitude line : Nat} (bound : magnitude ≤ Number.infiniteMagnitude)
    (writable :
      Node.isWritable (.literal (.number (Number.ofMagnitude false magnitude)) line) = true) :
    magnitude < Number.infiniteMagnitude := by
  rcases lt_or_eq_of_le bound with finite | rfl
  · exact finite
  · simp only [Node.isWritable, Number.parts_infinity, Bool.false_eq_true] at writable

theorem scans_spelling {magnitude : Nat} (finite : magnitude < Number.infiniteMagnitude)
    {rest : List Char} (separates : Separates rest) :
    Scanner.Scans (Number.spelling (Number.ofMagnitude false magnitude) ++ rest) .number
      (Number.text (Number.ofMagnitude false magnitude)) rest :=
  Scanner.scans_number (Number.spelling_reads finite).1 separates.ends.2

theorem scans_truth (b : Bool) {rest : List Char} (separates : Separates rest) :
    Scanner.Scans ((Value.truth b).sourceText ++ rest) .keyword (if b then "true" else "false")
      rest := by
  cases b with
  | true => exact Scanner.scans_reserved (by rfl) separates.ends.1
  | false => exact Scanner.scans_reserved (by rfl) separates.ends.1

theorem scans_text {s : String} (plain : '"' ∉ s.toList) (rest : List Char) :
    Scanner.Scans ((Value.text s).sourceText ++ rest) .string s rest := by
  have form : (Value.text s).sourceText ++ rest = '"' :: (s.toList ++ '"' :: rest) := by
    simp only [Value.sourceText, List.cons_append, List.append_assoc, List.nil_append]
  rw [form]
  exact Scanner.scans_quoted plain rest

theorem sourceText_pos {value : Value} {line : Nat} (isLiteral : value.Writable)
    (writable : Node.isWritable (.literal value line) = true) : 0 < value.sourceText.length := by
  cases isLiteral with
  | text _ => exact Nat.succ_pos _
  | @truth b => cases b <;> decide
  | number bound =>
      have numeral := (Number.spelling_reads (finite_of_isWritable bound writable)).1
      apply List.length_pos_of_ne_nil
      intro empty
      change Number.spelling _ = [] at empty
      rw [empty] at numeral
      generalize none : ([] : List Char) = text at numeral
      cases numeral with
      | whole nonempty _ => exact nonempty none.symm
      | pointed nonempty _ _ =>
          exact absurd none.symm (List.append_ne_nil_of_left_ne_nil nonempty _)

theorem readsAs_literal {names : Names} {value : Value} {line steps : Nat} {rest : List Char}
    (isLiteral : value.Writable) (writable : Node.isWritable (.literal value line) = true)
    (separates : Separates rest) :
    ReadsAs (value.sourceText ++ rest) (factor names (steps + 1)) (.literal value line) rest := by
  rw [factor]
  cases isLiteral with
  | text plain =>
      apply Reads.next (scans_text plain rest)
      intro _
      exact .pure ⟨rfl, rfl⟩
  | @truth b =>
      apply Reads.next (scans_truth b separates)
      intro _
      cases b <;> exact .pure ⟨rfl, rfl⟩
  | number bound =>
      have finite := finite_of_isWritable bound writable
      apply Reads.next (scans_spelling finite separates)
      intro _
      have reads := (Number.spelling_reads finite).2
      change Reads _ (numberLiteral _) _
      unfold numberLiteral
      simp only [Number.text, String.toList_ofList, reads]
      exact .pure ⟨rfl, rfl⟩

/-! ## Expressions -/

section Expressions

variable {names : Names}

/-- The token that a written expression starts with. -/
theorem expression_front {node : Node} (read : node.IsReadExpression names)
    (writable : node.every Node.isWritable = true) {rest : List Char} (separates : Separates rest) :
    ∃ kind word more, Scanner.Scans (node.expressionText ++ rest) kind word more ∧
      startsOperand kind = true := by
  cases read with
  | literal isLiteral =>
      cases isLiteral with
      | text plain => exact ⟨_, _, _, scans_text plain rest, rfl⟩
      | @truth b => exact ⟨_, _, _, scans_truth b separates, rfl⟩
      | number bound =>
          exact ⟨_, _, _, scans_spelling (finite_of_isWritable bound writable) separates, rfl⟩
  | array _ => exact ⟨.openBracket, _, _, Scanner.scans_mark _ _ (by decide) _, rfl⟩
  | binary _ _ => exact ⟨.openParen, _, _, Scanner.scans_mark _ _ (by decide) _, rfl⟩
  | unary _ => exact ⟨.openParen, _, _, Scanner.scans_mark _ _ (by decide) _, rfl⟩
  | range _ _ => exact ⟨.openParen, _, _, Scanner.scans_mark _ _ (by decide) _, rfl⟩
  | «variable» _ isName => exact ⟨_, _, _, Scanner.scans_name isName separates.ends.1, rfl⟩
  | call _ isName _ =>
      rw [Node.expressionText, List.append_assoc]
      exact ⟨_, _, _, Scanner.scans_name isName (Lexeme.ends_cons rfl _), rfl⟩
  | methodCall _ isName _ _ =>
      rw [Node.expressionText, List.append_assoc]
      exact ⟨_, _, _, Scanner.scans_name isName (Lexeme.ends_cons rfl _), rfl⟩

/-- A tree is written back: from in front of its text an operand is read as it. -/
def WritesBack (names : Names) (node : Node) : Prop :=
  ∀ steps rest, 2 * node.expressionText.length ≤ steps → Separates rest →
    ReadsAs (node.expressionText ++ rest) (factor names steps) node rest

theorem WritesBack.ranked {node : Node} (back : WritesBack names node) {steps : Nat}
    (enough : 2 * node.expressionText.length < steps) (rank : Nat) {rest : List Char}
    (stops : Stops rest) :
    ReadsAs (node.expressionText ++ rest) (Reader.ranked names steps rank) node rest := by
  cases steps with
  | zero => cases enough
  | succ steps => exact (back steps rest (Nat.le_of_lt_succ enough) (.stop stops)).ranked rank stops

theorem WritesBack.items {nodes : List Node} (reads : ∀ node ∈ nodes, node.IsReadExpression names)
    (writable : Node.everyOf Node.isWritable nodes = true)
    (backs : ∀ node ∈ nodes, WritesBack names node) {steps : Nat}
    (enough : 2 * (Text.listed (Node.expressionTexts nodes)).length < steps) :
    ∀ node ∈ nodes, IsItem (Reader.ranked names steps expressionRank) node := by
  intro node member
  have length : node.expressionText.length ≤ (Text.listed (Node.expressionTexts nodes)).length :=
    Text.length_le_listed (Node.mem_expressionTexts member)
  refine ⟨fun rest stops => ?_, fun rest stops => ?_⟩
  · exact (backs node member).ranked (by omega) expressionRank stops
  · exact expression_front (reads node member) (Node.everyOf_iff.mp writable node member)
      (.stop stops)

theorem writesBack_array {elements : List Node} {line : Nat}
    (reads : ∀ element ∈ elements, element.IsReadExpression names)
    (writable : Node.everyOf Node.isWritable elements = true)
    (backs : ∀ element ∈ elements, WritesBack names element) :
    WritesBack names (.array elements line) := by
  intro steps rest enough separates
  have count := Text.count_le_listed (Node.expressionTexts elements)
  rw [Node.expressionTexts_length] at count
  simp only [Node.expressionText, List.length_cons, List.length_append, List.length_nil] at enough
  cases steps with
  | zero => omega
  | succ steps =>
      have room : 2 * (Text.listed (Node.expressionTexts elements)).length < steps := by omega
      have items := WritesBack.items reads writable backs room
      rw [factor, Node.expressionText, List.cons_append, List.append_assoc]
      apply Reads.next (Scanner.scans_mark '[' .openBracket (by decide) _)
      intro _
      exact readsAs_array items (by omega) _ rest

theorem writesBack_variable {name : String} {line : Nat} (isVariable : names name = false)
    (isName : Token.IsName name) : WritesBack names (.variable name line) := by
  intro steps rest enough separates
  rcases isName.word with ⟨c, cs, characters, _, _⟩
  simp only [Node.expressionText, characters, List.length_cons] at enough
  cases steps with
  | zero => omega
  | succ steps =>
      rw [factor, Node.expressionText]
      apply Reads.next (Scanner.scans_name isName separates.ends.1)
      intro _
      change Reads rest (named names _ steps _) _
      rcases separates.scans with ⟨kind, word, more, scans, notRange, notDot⟩
      simp only [named, isVariable, Bool.false_eq_true, if_false]
      apply Reads.peek scans
      intro _
      split
      · exact absurd ‹_› notRange
      · exact absurd ‹_› notDot
      · exact .pure ⟨rfl, rfl⟩

theorem writesBack_binary {operator : BinaryOperator} {left right : Node} {line : Nat}
    (leftBack : WritesBack names left) (rightBack : WritesBack names right) :
    WritesBack names (.binary operator left right line) := by
  intro steps rest enough _
  simp only [Node.expressionText, List.length_cons, List.length_append, List.length_nil] at enough
  have room : ∃ inner, steps = inner + 2 := ⟨steps - 2, by omega⟩
  rcases room with ⟨inner, rfl⟩
  simp only [Node.expressionText, List.cons_append, List.append_assoc, List.nil_append]
  apply ReadsAs.parens
  rw [ranked]
  apply Reads.bind (leftBack inner _ (by omega) (.operator operator))
  rintro read _ ⟨same, rfl⟩
  have below : ∃ rank ∈ ranksTo expressionRank, operator.rank < rank := by
    cases operator <;> decide
  apply (reads_extend_operator .paren (fun rank => rightBack.ranked (by omega) rank .paren)
    below).weaken
  rintro whole _ ⟨sames, rfl⟩
  exact ⟨by simp only [sames, Node.withoutLines, same], rfl⟩

theorem writesBack_unary {operator : UnaryOperator} {operand : Node} {line : Nat}
    (operandBack : WritesBack names operand) :
    WritesBack names (.unary operator operand line) := by
  intro steps rest enough _
  simp only [Node.expressionText, List.length_cons, List.length_append, List.length_nil] at enough
  have room : ∃ inner, steps = inner + 3 := ⟨steps - 3, by omega⟩
  rcases room with ⟨inner, rfl⟩
  simp only [Node.expressionText, List.cons_append, List.append_assoc, List.nil_append]
  have reads := operandBack inner _ (by omega) (.stop (@Stops.paren rest))
  apply ReadsAs.parens
  apply ReadsAs.ranked expressionRank _ .paren
  rw [factor]
  cases operator with
  | negate =>
      apply Reads.next (Scanner.scans_mark '-' .minus (by decide) _)
      intro _
      apply Reads.bind reads.blank
      rintro read _ ⟨same, rfl⟩
      exact .pure ⟨by simp only [Node.withoutLines, same], rfl⟩
  | not =>
      apply Reads.next (Scanner.scans_reserved (by rfl)
        (Lexeme.ends_cons rfl _))
      intro _
      apply Reads.bind reads.blank
      rintro read _ ⟨same, rfl⟩
      exact .pure ⟨by simp only [Node.withoutLines, same], rfl⟩

section Calls

variable {arguments : List Node}
  (reads : ∀ argument ∈ arguments, argument.IsReadExpression names)
  (writable : Node.everyOf Node.isWritable arguments = true)
  (backs : ∀ argument ∈ arguments, WritesBack names argument)
include reads writable backs

theorem readsList_call {steps : Nat}
    (enough : 2 * (Text.listed (Node.expressionTexts arguments)).length < steps)
    (rest : List Char) :
    ReadsList ('(' :: (Text.listed (Node.expressionTexts arguments) ++ ')' :: rest))
      (callArguments (ranked names steps expressionRank) steps) arguments rest := by
  have count := Text.count_le_listed (Node.expressionTexts arguments)
  rw [Node.expressionTexts_length] at count
  exact readsList_callArguments (WritesBack.items reads writable backs enough) (by omega) rest

theorem writesBack_call {function : String} {line : Nat} (isFunction : names function = true)
    (isName : Token.IsName function) : WritesBack names (.call function arguments line) := by
  intro steps rest enough _
  simp only [Node.expressionText, List.length_cons, List.length_append, List.length_nil] at enough
  cases steps with
  | zero => omega
  | succ steps =>
      have room : 2 * (Text.listed (Node.expressionTexts arguments)).length < steps := by omega
      have called := readsList_call reads writable backs room rest
      simp only [Node.expressionText, List.cons_append, List.append_assoc, List.nil_append]
      rw [factor]
      apply Reads.next (Scanner.scans_name isName (Lexeme.ends_cons rfl _))
      intro _
      change Reads _ (named names _ steps _) _
      simp only [named, isFunction, if_true]
      apply Reads.peekKind (Scanner.scans_mark '(' .openParen (by decide) _)
      simp only [if_true]
      apply Reads.bind called
      rintro read _ ⟨same, rfl⟩
      exact .pure ⟨by simp only [Node.withoutLines, same], rfl⟩

theorem writesBack_methodCall {receiver method : String} {line : Nat}
    (isVariable : names receiver = false) (isReceiver : Token.IsName receiver)
    (isMethod : Token.IsName method) :
    WritesBack names (.methodCall receiver method arguments line) := by
  intro steps rest enough _
  simp only [Node.expressionText, List.length_cons, List.length_append, List.length_nil] at enough
  cases steps with
  | zero => omega
  | succ steps =>
      have room : 2 * (Text.listed (Node.expressionTexts arguments)).length < steps := by omega
      have called := readsList_call reads writable backs room rest
      rw [factor, Node.methodCallText_append]
      apply Reads.next (Scanner.scans_name isReceiver (Lexeme.ends_cons rfl _))
      intro _
      change Reads _ (named names _ steps _) _
      simp only [named, isVariable, Bool.false_eq_true, if_false]
      apply Reads.peek (Scanner.scans_dot (isName_ends isMethod _))
      intro _
      apply Reads.skip (Scanner.scans_dot (isName_ends isMethod _))
      apply Reads.consumeIdentifier (Scanner.scans_name isMethod (Lexeme.ends_cons rfl _))
      apply Reads.bind called
      rintro read _ ⟨same, rfl⟩
      exact .pure ⟨by simp only [Node.withoutLines, same], rfl⟩

end Calls

/-! ### Ranges -/

theorem pieces_append {separator : Char} {front rest piece : List Char} {others : List (List Char)}
    (free : separator ∉ front) (behind : Text.pieces separator rest = piece :: others) :
    Text.pieces separator (front ++ rest) = (front ++ piece) :: others := by
  induction front with
  | nil => exact behind
  | cons c cs inductionHypothesis =>
      have apart : ¬ c = separator := by
        rintro rfl
        exact free List.mem_cons_self
      have tail := inductionHypothesis fun member => free (List.mem_cons_of_mem _ member)
      rw [List.cons_append, Text.pieces, tail]
      exact if_neg apart

/-- A whole number with two points behind it is the only bound in its token. -/
theorem rangeBounds_whole {n : Nat} (bound : n ≤ Number.largestWhole) (line : Nat) :
    rangeBounds ⟨.range, String.ofList (Number.spelling (Number.ofInt n) ++ ['.', '.']), line⟩ =
      .ok [.literal (.number (Number.ofInt n)) line] := by
  rcases Number.spelling_whole bound with ⟨nonempty, digits, value⟩
  have free : '.' ∉ Number.spelling (Number.ofInt n) := by
    intro member
    exact Scanner.isDigit_ne (digits '.' member) rfl rfl
  have behind : Text.pieces '.' ['.', '.'] = [] :: [[], []] := by decide
  have pieces := pieces_append free behind
  rw [List.append_nil] at pieces
  have only : (Number.spelling (Number.ofInt n) :: [[], []]).filter (fun piece => !piece.isEmpty) =
      [Number.spelling (Number.ofInt n)] := by
    simp [nonempty]
  have converted : rangeBound line (Number.spelling (Number.ofInt n)) =
      .ok (.literal (.number (Number.ofInt n)) line) := by
    have whole : Number.ofInt? n = some (Number.ofInt n) := by
      unfold Number.ofInt?
      rw [if_pos (by simpa using bound)]
    unfold rangeBound
    rw [value, whole]
  simp only [rangeBounds, String.toList_ofList, pieces, only, List.mapM_cons, List.mapM_nil,
    converted]
  rfl

theorem writesBack_range {first last : Node} {line : Nat} (start : first.IsRangeStart names)
    (lastBack : WritesBack names last) : WritesBack names (.range first last line) := by
  intro steps rest enough _
  simp only [Node.expressionText, List.length_cons, List.length_append, List.length_nil] at enough
  have room : ∃ inner, steps = inner + 3 := ⟨steps - 3, by omega⟩
  rcases room with ⟨inner, rfl⟩
  have small : 2 * last.expressionText.length < inner := by omega
  have reads := lastBack.ranked small expressionRank (@Stops.paren rest)
  simp only [Node.expressionText, List.cons_append, List.append_assoc, List.nil_append]
  apply ReadsAs.parens
  apply ReadsAs.ranked expressionRank _ .paren
  rw [factor]
  have ends : Lexeme.Ends (· = '.') (' ' :: (last.expressionText ++ ')' :: rest)) :=
    Lexeme.ends_cons rfl _
  cases start with
  | @«variable» name line isVariable isName =>
      apply Reads.next (Scanner.scans_name isName (Lexeme.ends_cons rfl _))
      intro _
      change Reads _ (named names _ inner _) _
      simp only [named, isVariable, Bool.false_eq_true, if_false]
      apply Reads.peek (Scanner.scans_points ends)
      intro _
      have points : "..".toList.all (· = '.') = true := by decide
      simp only [points, if_true]
      apply Reads.skip (Scanner.scans_points ends)
      apply Reads.bind reads.blank
      rintro read _ ⟨same, rfl⟩
      exact .pure ⟨by simp only [Node.withoutLines, same], rfl⟩
  | @number n line bound =>
      rcases Number.spelling_whole bound with ⟨nonempty, digits, _⟩
      apply Reads.next (Scanner.scans_bound nonempty digits (Lexeme.ends_cons rfl _))
      intro line
      change Reads _ (rangeLiteral _ _) _
      have pointed : (Number.spelling (Number.ofInt n) ++ ['.', '.']).getLast? = some '.' := by
        simp
      simp only [rangeLiteral, rangeBounds_whole bound, String.toList_ofList, pointed, if_true]
      apply Reads.bind reads.blank
      rintro read _ ⟨same, rfl⟩
      exact .pure ⟨by simp only [Node.withoutLines, same], rfl⟩

/-- Every expression that was read is written back. -/
theorem writesBack_expression {node : Node} (read : node.IsReadExpression names)
    (writable : node.every Node.isWritable = true) : WritesBack names node := by
  induction read with
  | literal isLiteral =>
      intro steps rest enough separates
      have length := sourceText_pos isLiteral writable
      rw [Node.expressionText] at enough ⊢
      cases steps with
      | zero => omega
      | succ steps => exact readsAs_literal isLiteral writable separates
  | array reads backs =>
      simp only [Node.every, Bool.and_eq_true] at writable
      have each := Node.everyOf_iff.mp writable.2
      exact writesBack_array reads writable.2 fun node member =>
        backs node member (each node member)
  | «variable» isVariable isName => exact writesBack_variable isVariable isName
  | binary _ _ left right =>
      simp only [Node.every, Bool.and_eq_true] at writable
      exact writesBack_binary (left writable.1.2) (right writable.2)
  | unary _ operand =>
      simp only [Node.every, Bool.and_eq_true] at writable
      exact writesBack_unary (operand writable.2)
  | call isFunction isName reads backs =>
      simp only [Node.every, Bool.and_eq_true] at writable
      have each := Node.everyOf_iff.mp writable.2
      exact writesBack_call reads writable.2
        (fun node member => backs node member (each node member)) isFunction isName
  | methodCall isVariable isReceiver isMethod reads backs =>
      simp only [Node.every, Bool.and_eq_true] at writable
      have each := Node.everyOf_iff.mp writable.2
      exact writesBack_methodCall reads writable.2
        (fun node member => backs node member (each node member)) isVariable isReceiver isMethod
  | range start _ last =>
      simp only [Node.every, Bool.and_eq_true] at writable
      exact writesBack_range start (last writable.2)

end Expressions

end Reader
end Scriptlet
