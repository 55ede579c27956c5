import Mathlib
import Scriptlet.Proofs.JoinedTexts
import Scriptlet.Proofs.Partition
import Scriptlet.Proofs.Shape

namespace Scriptlet

/-!
# The lines of nodes

A node begins where its first token does, and the nodes of a tree, each before the nodes in it,
begin in the order they are written in.  Nodes take their lines from different tokens: an operator
from its left operand, a chained conditional and its block from a keyword, a block from its brace.
What they have in common is said of the line that the next token begins on.  Reading moves this
line only downwards, and a node begins on the line that the reader was at.

The reader's line moves when tokens are taken, and only strings and line breaks reach over a
line.  So an opening parenthesis is on the line of what it encloses.
-/

/-! ## Lines of trees -/

mutual

/-- The lines of a node and of the nodes and blocks in it, each before what is in it. -/
def Node.lines : Node → List Nat
  | .literal _ line | .variable _ line | .flag _ line => [line]
  | .array elements line => line :: Node.eachLines elements
  | .binary _ left right line => line :: (left.lines ++ right.lines)
  | .unary _ operand line => line :: operand.lines
  | .assignment _ value line => line :: value.lines
  | .call _ arguments line => line :: Node.eachLines arguments
  | .methodCall _ _ arguments line => line :: Node.eachLines arguments
  | .conditional condition thenBranch elseBranch line =>
      line :: (condition.lines ++ (thenBranch.lines ++ Block.anyLines elseBranch))
  | .compound block => block.lines
  | .loop _ iterable body line => line :: (iterable.lines ++ body.lines)
  | .range first last line => line :: (first.lines ++ last.lines)

def Node.eachLines : List Node → List Nat
  | [] => []
  | node :: rest => node.lines ++ Node.eachLines rest

def Block.lines : Block → List Nat
  | .mk _ statements line => line :: Node.eachLines statements

def Block.anyLines : Option Block → List Nat
  | none => []
  | some block => block.lines

end

/-- The lines never go up, from the first line to the last one. -/
def Climbs (low : Nat) : List Nat → Nat → Prop
  | [], high => low ≤ high
  | line :: lines, high => low ≤ line ∧ Climbs line lines high

namespace Climbs

variable {low mid high line : Nat} {lines others : List Nat}

theorem le (climbs : Climbs low lines high) : low ≤ high := by
  induction lines generalizing low with
  | nil => exact climbs
  | cons line lines inductionHypothesis =>
      exact Nat.le_trans climbs.1 (inductionHypothesis climbs.2)

theorem from_below (below : low ≤ mid) (climbs : Climbs mid lines high) :
    Climbs low lines high := by
  cases lines with
  | nil => exact Nat.le_trans below climbs
  | cons line lines => exact ⟨Nat.le_trans below climbs.1, climbs.2⟩

theorem append (first : Climbs low lines mid) (second : Climbs mid others high) :
    Climbs low (lines ++ others) high := by
  induction lines generalizing low with
  | nil => exact second.from_below first
  | cons line lines inductionHypothesis => exact ⟨first.1, inductionHypothesis first.2⟩

theorem up_to (climbs : Climbs low lines mid) (above : mid ≤ high) : Climbs low lines high := by
  have whole : Climbs low (lines ++ []) high := climbs.append above
  rwa [List.append_nil] at whole

theorem single (below : low ≤ line) (above : line ≤ high) : Climbs low [line] high :=
  ⟨below, above⟩

theorem bounds (climbs : Climbs low lines high) : ∀ line ∈ lines, low ≤ line ∧ line ≤ high := by
  induction lines generalizing low with
  | nil => exact List.forall_mem_nil _
  | cons line lines inductionHypothesis =>
      refine List.forall_mem_cons.mpr ⟨⟨climbs.1, climbs.2.le⟩, ?_⟩
      intro other member
      have inside := inductionHypothesis climbs.2 other member
      exact ⟨Nat.le_trans climbs.1 inside.1, inside.2⟩

theorem pairwise (climbs : Climbs low lines high) : lines.Pairwise (· ≤ ·) := by
  induction lines generalizing low with
  | nil => exact List.Pairwise.nil
  | cons line lines inductionHypothesis =>
      exact List.pairwise_cons.mpr
        ⟨fun other member => (climbs.2.bounds other member).1, inductionHypothesis climbs.2⟩

end Climbs

/-- The node begins on the first line, and its lines climb from there to the last one. -/
structure Node.Spans (low : Nat) (node : Node) (high : Nat) : Prop where
  line_eq : node.line = low
  climbs : Climbs low node.lines high

namespace Node

variable {low mid high : Nat}

theorem Spans.up_to {node : Node} (spans : node.Spans low mid) (above : mid ≤ high) :
    node.Spans low high :=
  ⟨spans.line_eq, spans.climbs.up_to above⟩

/-- What is read of one token. -/
theorem spans_leaf {node : Node} {line : Nat} (leaf : node.lines = [line]) (same : node.line = line)
    (above : line ≤ high) : node.Spans line high :=
  ⟨same, by rw [leaf]; exact .single (Nat.le_refl line) above⟩

/-- A node and what climbs in it. -/
theorem spans_of {node : Node} {line : Nat} {below : List Nat} (all : node.lines = line :: below)
    (same : node.line = line) (start : line ≤ mid) (climbs : Climbs mid below high) :
    node.Spans line high :=
  ⟨same, by rw [all]; exact ⟨Nat.le_refl line, climbs.from_below start⟩⟩

theorem climbs_singleton {node : Node} (spans : node.Spans low high) :
    Climbs low (eachLines [node]) high := by
  rw [eachLines, eachLines, List.append_nil]
  exact spans.climbs

theorem climbs_cons {node : Node} {rest : List Node} (spans : node.Spans low mid)
    (climbs : Climbs mid (eachLines rest) high) : Climbs low (eachLines (node :: rest)) high := by
  rw [eachLines]
  exact spans.climbs.append climbs

end Node

/-! ## Lines of tokens -/

namespace Lexeme

/-- Only strings and line breaks reach over the end of a line. -/
theorem not_lineBreak_of_shape {c : Char} {cs : List Char} {kind : Token.Kind}
    (shape : (first c cs).shape = .token kind) (string : kind ≠ .string) (line : kind ≠ .newLine) :
    '\n' ∉ (first c cs).spelling := by
  have unbroken (belongs : Char → Bool) (apart : belongs '\n' = false) (all : List Char) :
      '\n' ∉ all.takeWhile belongs := by
    intro member
    have inside := List.mem_takeWhile_imp member
    rw [apart] at inside
    cases inside
  unfold first at shape ⊢
  split at shape
  · rename_i digit
    rw [if_pos digit]
    exact unbroken isNumeral (by decide) (c :: cs)
  rename_i notDigit
  rw [if_neg notDigit]
  split at shape
  · rename_i starts
    rw [if_pos starts]
    exact unbroken continuesWord (by decide) (c :: cs)
  rename_i notStarts
  rw [if_neg notStarts]
  split at shape
  · unfold quoted at shape
    split at shape
    · cases shape
    · cases shape
      exact absurd rfl string
  rename_i notQuote
  rw [if_neg notQuote]
  split at shape
  · rename_i point
    rw [if_pos point]
    intro member
    rcases List.mem_cons.mp member with same | inside
    · cases same
    · exact unbroken (· = '.') (by decide) cs inside
  rename_i notPoint
  rw [if_neg notPoint]
  cases mark : markKind? c with
  | none =>
      rw [mark] at shape
      cases shape
  | some found =>
      rw [mark] at shape
      cases shape
      intro member
      have same := List.mem_singleton.mp member
      subst same
      cases mark
      exact line rfl

end Lexeme

/-- A token begins on the scanner's line, and the scanner's line moves on only if the token
reaches over the end of a line. -/
theorem Scanner.line_of_scan {scanner after : Scanner} {token : Token}
    (scanned : scanner.scan = (.ok token, after)) :
    token.line = scanner.line ∧ scanner.line ≤ after.line ∧
      (token.kind ≠ .string → token.kind ≠ .newLine → after.line = scanner.line) := by
  cases front : Lexeme.afterIgnored scanner.rest with
  | nil =>
      rw [scan_of_end front] at scanned
      cases scanned
      exact ⟨rfl, Nat.le_refl _, fun _ _ => rfl⟩
  | cons c cs =>
      rw [scan_of_cons front, Prod.mk.injEq] at scanned
      obtain ⟨outcome, rfl⟩ := scanned
      unfold Lexeme.outcome at outcome
      cases shape : (Lexeme.first c cs).shape with
      | token kind =>
          simp only [shape, Except.ok.injEq] at outcome
          subst outcome
          refine ⟨rfl, Nat.le_add_right _ _, fun string line => ?_⟩
          have unbroken := Lexeme.not_lineBreak_of_shape shape string line
          change scanner.line + (Lexeme.first c cs).spelling.count '\n' = scanner.line
          rw [List.count_eq_zero.mpr unbroken]
          rfl
      | openString =>
          simp only [shape] at outcome
          cases outcome
      | unknown =>
          simp only [shape] at outcome
          cases outcome

namespace Lexer

/-- The lexer has got where it is by taking and looking at tokens of the source, whether they
could be scanned or not. -/
inductive OnSource (source : String) : Lexer → Prop
  | start : OnSource source (.ofSource source)
  | goesOn {lexer : Lexer} (call : Call) : OnSource source lexer →
      OnSource source (lexer.call call)

/-- The line that the next token begins on. -/
def front (lexer : Lexer) : Nat :=
  match lexer.ahead with
  | some token => token.line
  | none => lexer.scanner.line

namespace OnSource

variable {source : String} {lexer after : Lexer} {token : Token} {fault : SyntaxFault}

theorem next (on : OnSource source lexer) (ran : Lexer.next lexer = .ok token after) :
    OnSource source after := by
  have moved := on.goesOn .next
  rwa [Lexer.call, ran] at moved

theorem next_fault (on : OnSource source lexer) (ran : Lexer.next lexer = .error fault after) :
    OnSource source after := by
  have moved := on.goesOn .next
  rwa [Lexer.call, ran] at moved

theorem peek (on : OnSource source lexer) (ran : Lexer.peek lexer = .ok token after) :
    OnSource source after := by
  have moved := on.goesOn .peek
  rwa [Lexer.call, ran] at moved

theorem peek_fault (on : OnSource source lexer) (ran : Lexer.peek lexer = .error fault after) :
    OnSource source after := by
  have moved := on.goesOn .peek
  rwa [Lexer.call, ran] at moved

/-- A token that was read ahead is the last one that was scanned. -/
theorem scanned_ahead (on : OnSource source lexer) (ahead : lexer.ahead = some token) :
    ∃ before : Scanner, before.scan = (.ok token, lexer.scanner) := by
  induction on generalizing token with
  | start => cases ahead
  | @goesOn lexer call _ inductionHypothesis =>
      rcases lexer with ⟨scanner, kept⟩
      cases kept with
      | some found =>
          cases call with
          | next => cases ahead
          | peek => exact inductionHypothesis ahead
      | none =>
          rcases scanned : scanner.scan with ⟨outcome, between⟩
          cases call with
          | next =>
              rw [Lexer.call, answered_next] at ahead
              cases ahead
          | peek =>
              cases outcome with
              | ok found =>
                  simp only [Lexer.call, Lexer.peek, scanned, answered] at ahead ⊢
                  cases ahead
                  exact ⟨scanner, scanned⟩
              | error fault =>
                  simp only [Lexer.call, Lexer.peek, scanned, answered] at ahead
                  cases ahead

/-- The source ends on the line that the rest of the text ends on. -/
theorem lastLine (on : OnSource source lexer) :
    lexer.scanner.line + lexer.scanner.rest.count '\n' = 1 + newLines source := by
  induction on with
  | start => rfl
  | @goesOn lexer call _ inductionHypothesis =>
      rcases scanner_call lexer call with same | moved
      · rw [same]
        exact inductionHypothesis
      · rw [moved, Scanner.scan_keeps_lastLine]
        exact inductionHypothesis

/-- Taking a token that does not reach over the end of a line leaves the line. -/
theorem front_next (on : OnSource source lexer) (ran : Lexer.next lexer = .ok token after) :
    token.line = lexer.front ∧ lexer.front ≤ after.front ∧
      (token.kind ≠ .string → token.kind ≠ .newLine → after.front = lexer.front) := by
  unfold front
  rcases next_cases lexer with ⟨found, ahead, step⟩ | ⟨found, scanner, ahead, scanned, step⟩ |
      ⟨fault, scanner, ahead, scanned, step⟩ <;>
    rw [step] at ran <;> cases ran
  · rcases on.scanned_ahead ahead with ⟨before, scanned⟩
    have lines := Scanner.line_of_scan scanned
    rw [ahead]
    refine ⟨rfl, ?_, fun string line => (lines.2.2 string line).trans lines.1.symm⟩
    exact Nat.le_trans (Nat.le_of_eq lines.1) lines.2.1
  · rw [ahead]
    exact Scanner.line_of_scan scanned

theorem front_peek (on : OnSource source lexer) (ran : Lexer.peek lexer = .ok token after) :
    token.line = lexer.front ∧ after.front = lexer.front := by
  rw [peek_eq] at ran
  cases took : Lexer.next lexer with
  | error fault between =>
      rw [took] at ran
      cases ran
  | ok found between =>
      rw [took] at ran
      cases ran
      have same := (on.front_next took).1
      exact ⟨same, same⟩

end OnSource
end Lexer

/-! ## Steps -/

namespace Reader

/-- Whatever comes of the step, it leaves the lexer on the source.  If it was started at the line
`low` and returns, the postcondition holds of the result and of the line it has got to. -/
def Moves {α : Type} (source : String) (low : Nat) (step : Read α) (post : α → Nat → Prop) :
    Prop :=
  ∀ reader : Reader, reader.lexer.OnSource source → reader.lexer.front = low →
    match step reader with
    | .ok result after => after.lexer.OnSource source ∧ post result after.lexer.front
    | .error _ after => after.lexer.OnSource source

namespace Moves

variable {α β : Type} {source : String} {low : Nat} {post : α → Nat → Prop}

theorem pure {result : α} (holds : post result low) :
    Moves source low (Pure.pure result : Read α) post := by
  rintro reader on rfl
  exact ⟨on, holds⟩

theorem throw (fault : Fault) : Moves source low (MonadExcept.throw fault : Read α) post :=
  fun _ on _ => on

theorem bind {middle : β → Nat → Prop} {first : Read β} {next : β → Read α}
    (before : Moves source low first middle)
    (after : ∀ result mid, middle result mid → Moves source mid (next result) post) :
    Moves source low (first >>= next) post := by
  intro reader on here
  have started := before reader on here
  cases ran : first reader with
  | ok result between =>
      rw [ran] at started
      rw [bind_of_ok ran]
      exact after result _ started.2 between started.1 rfl
  | error fault between =>
      rw [ran] at started
      rw [bind_of_error ran]
      exact started

theorem ite {condition : Prop} [Decidable condition] {first second : Read α}
    (holds : condition → Moves source low first post)
    (fails : ¬ condition → Moves source low second post) :
    Moves source low (if condition then first else second) post := by
  by_cases decided : condition
  · rw [if_pos decided]
    exact holds decided
  · rw [if_neg decided]
    exact fails decided

theorem weaken {stronger : α → Nat → Prop} {step : Read α}
    (moves : Moves source low step stronger)
    (implies : ∀ result high, stronger result high → post result high) :
    Moves source low step post := by
  intro reader on here
  have strongly := moves reader on here
  cases ran : step reader with
  | ok result after =>
      rw [ran] at strongly
      exact ⟨strongly.1, implies _ _ strongly.2⟩
  | error fault after =>
      rw [ran] at strongly
      exact strongly

/-- What holds of a step that returned. -/
theorem of_ok {step : Read α} {reader after : Reader} {result : α}
    (moves : Moves source reader.lexer.front step post) (on : reader.lexer.OnSource source)
    (ran : step reader = .ok result after) :
    after.lexer.OnSource source ∧ post result after.lexer.front := by
  have holds := moves reader on rfl
  rwa [ran] at holds

end Moves

section Tokens

variable {source : String} {low : Nat}

theorem moves_next :
    Moves source low next (fun token high => token.line = low ∧ low ≤ high ∧
      (token.kind ≠ .string → token.kind ≠ .newLine → high = low)) := by
  rintro reader on rfl
  cases ran : Lexer.next reader.lexer with
  | ok token after =>
      rw [next_of_ok reader ran]
      exact ⟨on.next ran, on.front_next ran⟩
  | error fault after =>
      rw [next_of_error reader ran]
      exact on.next_fault ran

theorem moves_peek :
    Moves source low peek (fun token high => token.line = low ∧ high = low) := by
  rintro reader on rfl
  unfold peek onLexer
  cases ran : Lexer.peek reader.lexer with
  | ok token after => exact ⟨on.peek ran, on.front_peek ran⟩
  | error fault after => exact on.peek_fault ran

theorem moves_peekKind : Moves source low peekKind (fun _ high => high = low) :=
  moves_peek.bind fun _ _ looked => .pure looked.2

theorem moves_skip : Moves source low skip (fun _ high => low ≤ high) :=
  moves_next.bind fun _ _ taken => .pure taken.2.1

theorem moves_fail {α : Type} {post : α → Nat → Prop} (fault : SyntaxFault) :
    Moves source low (fail fault : Read α) post :=
  .throw _

theorem moves_unexpected {α : Type} {post : α → Nat → Prop} (found : Token)
    (expected : Expected) : Moves source low (unexpected found expected : Read α) post :=
  .throw _

theorem moves_exhausted {α : Type} {post : α → Nat → Prop} :
    Moves source low (exhausted : Read α) post :=
  .throw _

theorem moves_consume (kind : Token.Kind) :
    Moves source low (consume kind) (fun token high => token.line = low ∧ low ≤ high) := by
  apply Moves.bind moves_next
  rintro token mid ⟨line, above, _⟩
  exact .ite (fun _ => .pure ⟨line, above⟩) (fun _ => moves_unexpected token _)

theorem moves_consumeKeyword (word : String) :
    Moves source low (consumeKeyword word) (fun _ high => low ≤ high) := by
  apply Moves.bind moves_next
  rintro token mid ⟨_, above, _⟩
  exact .ite (fun _ => .pure above) (fun _ => moves_unexpected token _)

theorem moves_consumeIdentifier :
    Moves source low consumeIdentifier (fun _ high => low ≤ high) :=
  (moves_consume .identifier).bind fun _ _ taken => .pure taken.2

theorem moves_expectStatementEnd :
    Moves source low expectStatementEnd (fun _ high => high = low) := by
  apply Moves.bind moves_peekKind
  rintro kind _ rfl
  refine .ite (fun _ => .pure rfl) (fun _ => ?_)
  exact moves_next.bind fun found _ _ => moves_unexpected found _

theorem moves_onArguments {α : Type} (step : EStateM SetupFault Arguments α) :
    Moves source low (onArguments step) (fun _ high => high = low) := by
  intro reader on here
  unfold onArguments
  cases step reader.arguments with
  | ok result arguments => exact ⟨on, here⟩
  | error fault arguments => exact on

end Tokens

/-! ## Lists of expressions -/

/-- Nodes in a list climb. -/
def ListSpans (low : Nat) (nodes : List Node) (high : Nat) : Prop :=
  Climbs low (Node.eachLines nodes) high

section Lists

variable {source : String} {item : Read Node}
  (items : ∀ {low}, Moves source low item (Node.Spans low))
include items

theorem moves_parenthesized (steps : Nat) {low : Nat} :
    Moves source low (parenthesized item steps) (ListSpans low) := by
  induction steps generalizing low with
  | zero => exact moves_exhausted
  | succ steps inductionHypothesis =>
      apply Moves.bind items
      intro argument mid spans
      apply Moves.bind moves_next
      rintro token high ⟨_, above, _⟩
      split
      · apply Moves.bind inductionHypothesis
        intro others last climbs
        exact .pure (Node.climbs_cons (spans.up_to above) climbs)
      · exact .pure (Node.climbs_singleton (spans.up_to above))
      · exact moves_unexpected token _

theorem moves_callArguments (steps : Nat) {low : Nat} :
    Moves source low (callArguments item steps) (ListSpans low) := by
  apply Moves.bind (moves_consume .openParen)
  rintro _ mid ⟨_, above⟩
  apply Moves.bind moves_peekKind
  rintro kind _ rfl
  refine .ite (fun _ => ?_) (fun _ => ?_)
  · exact moves_skip.bind fun _ _ further => .pure (Nat.le_trans above further)
  · exact (moves_parenthesized items steps).weaken fun _ _ climbs => climbs.from_below above

theorem moves_separated (steps : Nat) {low : Nat} :
    Moves source low (separated item steps) (ListSpans low) := by
  induction steps generalizing low with
  | zero => exact moves_exhausted
  | succ steps inductionHypothesis =>
      apply Moves.bind items
      intro argument mid spans
      apply Moves.bind moves_peekKind
      rintro kind _ rfl
      refine .ite (fun _ => ?_) (fun _ => .pure (Node.climbs_singleton spans))
      apply Moves.bind moves_skip
      intro _ next above
      apply Moves.bind inductionHypothesis
      intro others last climbs
      exact .pure (Node.climbs_cons (spans.up_to above) climbs)

theorem moves_bareArguments (steps : Nat) {low : Nat} :
    Moves source low (bareArguments item steps) (ListSpans low) := by
  apply Moves.bind moves_peekKind
  rintro kind _ rfl
  exact .ite (fun _ => .pure (Nat.le_refl _)) (fun _ => moves_separated items steps)

theorem moves_arrayElements (line steps : Nat) {low : Nat} :
    Moves source low (arrayElements item line steps) (ListSpans low) := by
  induction steps generalizing low with
  | zero => exact moves_exhausted
  | succ steps inductionHypothesis =>
      apply Moves.bind moves_peekKind
      rintro kind _ rfl
      refine .ite (fun _ => moves_fail _) (fun _ => ?_)
      apply Moves.bind items
      intro element mid spans
      apply Moves.bind moves_next
      rintro token high ⟨_, above, _⟩
      split
      · apply Moves.bind inductionHypothesis
        intro others last climbs
        exact .pure (Node.climbs_cons (spans.up_to above) climbs)
      · exact .pure (Node.climbs_singleton (spans.up_to above))
      · exact moves_fail _
      · exact moves_fail _
      · exact moves_unexpected token _

end Lists

/-! ## Expressions

What is read behind a token has the line of the token, which the reader may have left. -/

section Expressions

variable {source : String} {low : Nat}

theorem moves_array {item : Read Node} (items : ∀ {low}, Moves source low item (Node.Spans low))
    {line : Nat} (above : line ≤ low) (steps : Nat) :
    Moves source low (array item line steps) (Node.Spans line) := by
  apply Moves.bind moves_peekKind
  rintro kind _ rfl
  refine .ite (fun _ => ?_) (fun _ => ?_)
  · apply Moves.bind moves_skip
    intro _ high further
    exact .pure (Node.spans_of rfl rfl (Nat.le_trans above further) (Nat.le_refl high))
  · apply Moves.bind (moves_arrayElements items line steps)
    intro elements high climbs
    exact .pure (Node.spans_of rfl rfl above climbs)

/-- An operator has the line of its left operand, and the operand stands in front of it. -/
theorem moves_extend {operand : Nat → Read Node}
    (operands : ∀ rank {low}, Moves source low (operand rank) (Node.Spans low))
    (ranks : List Nat) {left : Node} {start : Nat} (spans : left.Spans start low) :
    Moves source low (extend operand left ranks) (Node.Spans start) := by
  induction ranks generalizing left low with
  | nil => exact .pure spans
  | cons rank higher inductionHypothesis =>
      apply Moves.bind moves_peek
      rintro token _ ⟨_, rfl⟩
      cases operator? token with
      | none => exact .pure spans
      | some operator =>
          refine .ite (fun _ => ?_) (fun _ => inductionHypothesis spans)
          apply Moves.bind moves_skip
          intro _ mid above
          apply Moves.bind (operands rank)
          intro right high rights
          apply inductionHypothesis
          rw [spans.line_eq]
          exact Node.spans_of rfl rfl (Nat.le_refl start)
            ((spans.climbs.up_to above).append rights.climbs)

theorem rangeBounds_lines {token : Token} {nodes : List Node}
    (bounds : rangeBounds token = .ok nodes) : ∀ node ∈ nodes, node.lines = [token.line] := by
  intro node member
  rcases mapM_rangeBound_eq_ok bounds node member with ⟨n, _, rfl⟩
  rfl

theorem moves_rangeLiteral {expression : Read Node}
    (expressions : ∀ {low}, Moves source low expression (Node.Spans low)) {token : Token}
    (above : token.line ≤ low) :
    Moves source low (rangeLiteral expression token) (Node.Spans token.line) := by
  unfold rangeLiteral
  cases bounds : rangeBounds token with
  | error fault => exact moves_fail fault
  | ok nodes =>
      have lines := rangeBounds_lines bounds
      match nodes, lines with
      | [], _ => exact moves_fail _
      | [first], lines =>
          have firstLine := lines first (by simp)
          refine .ite (fun _ => ?_) (fun _ => moves_fail _)
          apply Moves.bind expressions
          intro last high spans
          refine .pure (Node.spans_of rfl rfl (Nat.le_refl token.line) ?_)
          rw [firstLine]
          exact (Climbs.single (Nat.le_refl _) above).append spans.climbs
      | [first, last], lines =>
          have firstLine := lines first (by simp)
          have lastLine := lines last (by simp)
          refine .pure (Node.spans_of rfl rfl (Nat.le_refl token.line) ?_)
          rw [firstLine, lastLine]
          exact ⟨Nat.le_refl _, Nat.le_refl _, above⟩
      | _ :: _ :: _ :: _, _ => exact moves_fail _

theorem moves_named {names : Names} {expression : Read Node}
    (expressions : ∀ {low}, Moves source low expression (Node.Spans low)) (steps : Nat)
    {name : Token} (above : name.line ≤ low) :
    Moves source low (named names expression steps name) (Node.Spans name.line) := by
  unfold named
  refine .ite (fun _ => ?_) (fun _ => ?_)
  · apply Moves.bind moves_peekKind
    rintro kind _ rfl
    refine .ite (fun _ => ?_) (fun _ => ?_)
    · exact (moves_callArguments expressions steps).bind fun _ _ climbs =>
        .pure (Node.spans_of rfl rfl above climbs)
    · exact (moves_bareArguments expressions steps).bind fun _ _ climbs =>
        .pure (Node.spans_of rfl rfl above climbs)
  · have leaf : (Node.variable name.text name.line).Spans name.line low :=
      Node.spans_leaf rfl rfl above
    apply Moves.bind moves_peek
    rintro token _ ⟨_, rfl⟩
    split
    · refine .ite (fun _ => ?_) (fun _ => .pure leaf)
      apply Moves.bind moves_skip
      intro _ mid further
      apply Moves.bind expressions
      intro last high spans
      exact .pure (Node.spans_of rfl rfl (Nat.le_refl _)
        ((leaf.climbs.up_to further).append spans.climbs))
    · apply Moves.bind moves_skip
      intro _ mid further
      apply Moves.bind moves_consumeIdentifier
      intro method behind beyond
      exact (moves_callArguments expressions steps).bind fun _ _ climbs =>
        .pure (Node.spans_of rfl rfl (Nat.le_trans above (Nat.le_trans further beyond)) climbs)
    · exact .pure leaf

theorem moves_numberLiteral {token : Token} (above : token.line ≤ low) :
    Moves source low (numberLiteral token) (Node.Spans token.line) := by
  unfold numberLiteral
  cases Number.read? token.text.toList with
  | none => exact moves_fail _
  | some x => exact .pure (Node.spans_leaf rfl rfl above)

theorem moves_truthLiteral {token : Token} (above : token.line ≤ low) :
    Moves source low (truthLiteral token) (Node.Spans token.line) := by
  unfold truthLiteral
  refine .ite (fun _ => .pure (Node.spans_leaf rfl rfl above)) (fun _ => ?_)
  exact .ite (fun _ => .pure (Node.spans_leaf rfl rfl above)) (fun _ => moves_unexpected token _)

/-- Both functions hand on their steps less one, so both are proved for one number of steps from
both for the number below it. -/
theorem moves_expressions (source : String) (names : Names) (steps : Nat) :
    (∀ rank {low}, Moves source low (ranked names steps rank) (Node.Spans low)) ∧
      ∀ {low}, Moves source low (factor names steps) (Node.Spans low) := by
  induction steps with
  | zero =>
      refine ⟨fun rank low => ?_, fun {low} => ?_⟩
      · rw [ranked]
        exact moves_exhausted
      · rw [factor]
        exact moves_exhausted
  | succ steps inductionHypothesis =>
      rcases inductionHypothesis with ⟨rankeds, factors⟩
      refine ⟨fun rank low => ?_, fun {low} => ?_⟩
      · rw [ranked]
        exact factors.bind fun _ _ spans => moves_extend rankeds (ranksTo rank) spans
      · rw [factor]
        apply Moves.bind moves_next
        rintro token mid ⟨rfl, above, unbroken⟩
        split
        · exact moves_numberLiteral above
        · exact .pure (Node.spans_leaf rfl rfl above)
        · exact moves_truthLiteral above
        · exact moves_named (rankeds expressionRank) steps above
        · -- What is in parentheses begins on the line that they begin on.
          have same : mid = token.line := by
            have kind : token.kind = .openParen := ‹_›
            exact unbroken (by rw [kind]; decide) (by rw [kind]; decide)
          subst same
          apply Moves.bind (rankeds expressionRank)
          intro inner last spans
          exact (moves_consume .closeParen).bind fun _ _ closed =>
            .pure (spans.up_to closed.2)
        · exact moves_array (rankeds expressionRank) above steps
        · exact moves_rangeLiteral (rankeds expressionRank) above
        · exact factors.bind fun _ _ spans => .pure (Node.spans_of rfl rfl above spans.climbs)
        · exact factors.bind fun _ _ spans => .pure (Node.spans_of rfl rfl above spans.climbs)
        · exact moves_unexpected token _

theorem moves_ranked (names : Names) (steps rank : Nat) :
    Moves source low (ranked names steps rank) (Node.Spans low) :=
  (moves_expressions source names steps).1 rank

end Expressions

/-! ## Statements -/

section Statements

variable {source : String} {names : Names} {low line : Nat}

theorem moves_statementsUntil {item : Read Node}
    (items : ∀ {low}, Moves source low item (Node.Spans low)) (closing : Token.Kind)
    (steps : Nat) : Moves source low (statementsUntil item closing steps) (ListSpans low) := by
  induction steps generalizing low with
  | zero => exact moves_exhausted
  | succ steps inductionHypothesis =>
      apply Moves.bind moves_peekKind
      rintro kind _ rfl
      refine .ite (fun _ => ?_) (fun _ => ?_)
      · exact moves_skip.bind fun _ _ above => .pure above
      · split
        · apply Moves.bind moves_skip
          intro _ mid above
          exact inductionHypothesis.weaken fun _ _ climbs => climbs.from_below above
        · exact moves_next.bind fun found _ _ => moves_unexpected found _
        · apply Moves.bind items
          intro first mid spans
          exact inductionHypothesis.bind fun _ _ climbs => .pure (Node.climbs_cons spans climbs)

theorem moves_bracedBlock {item : Read Node}
    (items : ∀ {low}, Moves source low item (Node.Spans low)) (steps : Nat) :
    Moves source low (bracedBlock item steps) (fun block high => Climbs low block.lines high) := by
  apply Moves.bind (moves_consume .openBrace)
  rintro opening mid ⟨rfl, above⟩
  apply Moves.bind (moves_statementsUntil items .closeBrace steps)
  intro statements high climbs
  exact .pure ⟨Nat.le_refl _, climbs.from_below above⟩

theorem moves_skipNewLines (steps : Nat) :
    Moves source low (skipNewLines steps) (fun _ high => low ≤ high) := by
  induction steps generalizing low with
  | zero => exact moves_exhausted
  | succ steps inductionHypothesis =>
      apply Moves.bind moves_peekKind
      rintro kind _ rfl
      refine .ite (fun _ => ?_) (fun _ => .pure (Nat.le_refl _))
      apply Moves.bind moves_skip
      intro _ mid above
      exact inductionHypothesis.weaken fun _ _ further => Nat.le_trans above further

/-- A declaration has the line of its name, and so has the value in it. -/
theorem moves_declaration : Moves source low declaration (Node.Spans low) := by
  apply Moves.bind moves_next
  rintro name mid ⟨rfl, above, _⟩
  refine .ite (fun _ => ?_) (fun _ => moves_fail _)
  apply Moves.bind moves_next
  rintro colon behind ⟨_, further, _⟩
  refine .ite (fun _ => ?_) (fun _ => moves_fail _)
  apply Moves.bind moves_next
  rintro tag high ⟨_, last, _⟩
  generalize (if tag.kind = .typeTag then Value.Kind.ofName? tag.text else none) = kind?
  cases kind? with
  | none => exact moves_fail _
  | some kind =>
      apply Moves.bind (moves_onArguments _)
      rintro value _ rfl
      have below := Nat.le_trans above (Nat.le_trans further last)
      exact .pure (Node.spans_of rfl rfl (Nat.le_refl _) (Climbs.single (Nat.le_refl _) below))

theorem moves_namedStatement (steps : Nat) {name : Token} (above : name.line ≤ low) :
    Moves source low (namedStatement names steps name) (Node.Spans name.line) := by
  have expressions {low : Nat} : Moves source low (ranked names steps expressionRank)
      (Node.Spans low) := moves_ranked names steps expressionRank
  unfold namedStatement
  refine .ite (fun _ => ?_) (fun _ => ?_)
  · exact (moves_bareArguments expressions steps).bind fun _ _ climbs =>
      .pure (Node.spans_of rfl rfl above climbs)
  · apply Moves.bind moves_next
    rintro token mid ⟨_, further, _⟩
    split
    · exact expressions.bind fun _ _ spans =>
        .pure (Node.spans_of rfl rfl (Nat.le_trans above further) spans.climbs)
    · apply Moves.bind moves_consumeIdentifier
      intro method behind beyond
      exact (moves_callArguments expressions steps).bind fun _ _ climbs =>
        .pure (Node.spans_of rfl rfl (Nat.le_trans above (Nat.le_trans further beyond)) climbs)
    · exact moves_unexpected token _

theorem moves_loop {item : Read Node} (items : ∀ {low}, Moves source low item (Node.Spans low))
    (steps : Nat) (above : line ≤ low) :
    Moves source low (loop names item steps line) (Node.Spans line) := by
  apply Moves.bind moves_consumeIdentifier
  intro iterator mid further
  apply Moves.bind (moves_consumeKeyword "in")
  intro _ behind beyond
  apply Moves.bind (moves_ranked names steps expressionRank)
  intro iterable last spans
  exact (moves_bracedBlock items steps).bind fun _ _ climbs =>
    .pure (Node.spans_of rfl rfl (Nat.le_trans above (Nat.le_trans further beyond))
      (spans.climbs.append climbs))

theorem moves_declarations (steps : Nat) (above : line ≤ low) :
    Moves source low (declarations steps line) (Node.Spans line) :=
  (moves_separated moves_declaration steps).bind fun _ _ climbs =>
    .pure (Node.spans_of rfl rfl above climbs)

theorem moves_ended {statement : Read Node} (moves : Moves source low statement (Node.Spans line)) :
    Moves source low (ended statement) (Node.Spans line) := by
  apply Moves.bind moves
  intro node high spans
  apply Moves.bind moves_expectStatementEnd
  rintro _ _ rfl
  exact .pure spans

/-- A block that stands for a chained conditional has the line of the conditional. -/
theorem moves_statements (source : String) (names : Names) (steps : Nat) :
    (∀ {low}, Moves source low (statementWithin names steps) (Node.Spans low)) ∧
      ∀ {low line}, line ≤ low →
        Moves source low (conditionalWithin names steps line) (Node.Spans line) := by
  induction steps with
  | zero =>
      refine ⟨fun {low} => ?_, fun {low line} _ => ?_⟩
      · rw [statementWithin]
        exact moves_exhausted
      · rw [conditionalWithin]
        exact moves_exhausted
  | succ steps inductionHypothesis =>
      rcases inductionHypothesis with ⟨statements, conditionals⟩
      refine ⟨fun {low} => ?_, fun {low line} above => ?_⟩
      · rw [statementWithin]
        apply Moves.bind moves_next
        rintro token mid ⟨rfl, above, _⟩
        have flags (flag : Flag) :
            Moves source mid (ended (pure (.flag flag token.line))) (Node.Spans token.line) :=
          moves_ended (.pure (Node.spans_leaf rfl rfl above))
        split
        · exact moves_ended (moves_namedStatement steps above)
        · refine .ite (fun _ => conditionals above) (fun _ => ?_)
          refine .ite (fun _ => moves_ended (moves_loop statements steps above)) (fun _ => ?_)
          refine .ite (fun _ => moves_ended (moves_declarations steps above)) (fun _ => ?_)
          exact .ite (fun _ => flags .break)
            (fun _ => .ite (fun _ => flags .halt) (fun _ => moves_fail _))
        · exact moves_fail _
      · rw [conditionalWithin]
        apply Moves.bind (moves_ranked names steps expressionRank)
        intro condition mid spans
        apply Moves.bind (moves_bracedBlock statements steps)
        intro thenBranch behind climbs
        apply Moves.bind (moves_skipNewLines steps)
        intro _ next further
        apply Moves.bind moves_peek
        rintro follower _ ⟨_, rfl⟩
        have passed := spans.climbs.append (climbs.up_to further)
        refine .ite (fun _ => ?_) (fun _ => ?_)
        · apply Moves.bind moves_skip
          intro _ other beyond
          apply Moves.bind moves_peek
          rintro chained _ ⟨rfl, rfl⟩
          refine .ite (fun _ => ?_) (fun _ => ?_)
          · apply Moves.bind moves_skip
            intro _ inside keyword
            apply Moves.bind (conditionals keyword)
            intro nested last nests
            have block : Climbs chained.line (Block.mk false [nested] chained.line).lines last :=
              ⟨Nat.le_refl _, Node.climbs_singleton nests⟩
            refine .pure (Node.spans_of rfl rfl above ?_)
            rw [← List.append_assoc]
            exact (passed.up_to beyond).append block
          · apply Moves.bind (moves_bracedBlock statements steps)
            intro elseBranch last others
            refine .pure (Node.spans_of rfl rfl above ?_)
            rw [← List.append_assoc]
            exact (passed.up_to beyond).append others
        · refine .pure (Node.spans_of rfl rfl above ?_)
          rw [Block.anyLines, List.append_nil]
          exact passed

theorem moves_block (closing : Token.Kind) (framed : Bool) (line : Nat) :
    Moves source low (block names closing framed line)
      (fun block high => block.line = line ∧ ListSpans low block.statements high) := by
  intro reader on here
  have items {low : Nat} : Moves source low (statementWithin names reader.allowance)
      (Node.Spans low) := (moves_statements source names reader.allowance).1
  have read : Moves source low
      (do
        let statements ← statementsUntil (statementWithin names reader.allowance) closing
          reader.allowance
        pure (Block.mk framed statements line))
      (fun block high => block.line = line ∧ ListSpans low block.statements high) :=
    (moves_statementsUntil items closing reader.allowance).bind
      fun _ _ climbs => .pure ⟨rfl, climbs⟩
  exact read reader on here

end Statements

/-! ## Readers of a source -/

theorem moves_expression {source : String} {low : Nat} (names : Names) :
    Moves source low (expression names) (Node.Spans low) :=
  fun reader => moves_ranked names reader.allowance expressionRank reader

theorem moves_statement {source : String} {low : Nat} (names : Names) :
    Moves source low (statement names) (Node.Spans low) :=
  fun reader => (moves_statements source names reader.allowance).1 reader

/-- The reader that a call leaves, whatever came of it. -/
def left {α : Type} : EStateM.Result Fault Reader α → Reader
  | .ok _ after | .error _ after => after

/-- The reader began in front of the source, and since then expressions, statements and blocks
have been asked of it, whether they could be read or not. -/
inductive OfSource (names : Names) (source : String) : Reader → Prop
  | start (arguments : Arguments) : OfSource names source ⟨.ofSource source, arguments⟩
  | expression {reader : Reader} : OfSource names source reader →
      OfSource names source (left (expression names reader))
  | statement {reader : Reader} : OfSource names source reader →
      OfSource names source (left (statement names reader))
  | block {reader : Reader} (closing : Token.Kind) (framed : Bool) (line : Nat) :
      OfSource names source reader →
      OfSource names source (left (block names closing framed line reader))

theorem Moves.left {α : Type} {source : String} {step : Read α} {reader : Reader}
    {post : α → Nat → Prop} (moves : Moves source reader.lexer.front step post)
    (on : reader.lexer.OnSource source) : (left (step reader)).lexer.OnSource source := by
  have holds := moves reader on rfl
  cases ran : step reader with
  | ok result after =>
      rw [ran] at holds
      exact holds.1
  | error fault after =>
      rw [ran] at holds
      exact holds

/-- No call takes a reader away from its source. -/
theorem OfSource.onSource {names : Names} {source : String} {reader : Reader}
    (ofSource : OfSource names source reader) : reader.lexer.OnSource source := by
  induction ofSource with
  | start arguments => exact .start
  | expression _ inductionHypothesis => exact (moves_expression names).left inductionHypothesis
  | statement _ inductionHypothesis => exact (moves_statement names).left inductionHypothesis
  | block closing framed line _ inductionHypothesis =>
      exact (moves_block closing framed line).left inductionHypothesis

end Reader

end Scriptlet
