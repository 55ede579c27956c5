import Mathlib
import Scriptlet.Proofs.Allowance
import Scriptlet.Proofs.Shape
import Scriptlet.Proofs.WrittenTokens

namespace Scriptlet

/-!
# What tokens pay for

How much a reader takes is told by what it makes.  Every token pays for three nodes or blocks, the
end of the text for none.  A range with two bounds is a node with two more in it and a single token,
so fewer would not do.  Steps are followed with the count of what has been paid for so far: an
operand is paid for by the tokens in it, a keyword in front of a block or of a declaration pays for
the block.  Along with that reading only goes forwards: what is left of the results of the lexer are
those behind the ones that were taken, whether the step can be read or not.
-/

/-! ## Sizes of trees -/

mutual

/-- The number of nodes and blocks in a tree.  A node that is there for its block counts besides
the block. -/
def Node.size : Node → Nat
  | .literal _ _ | .variable _ _ | .flag _ _ => 1
  | .array elements _ => 1 + Node.eachSize elements
  | .binary _ left right _ => 1 + left.size + right.size
  | .unary _ operand _ => 1 + operand.size
  | .assignment _ value _ => 1 + value.size
  | .call _ arguments _ => 1 + Node.eachSize arguments
  | .methodCall _ _ arguments _ => 1 + Node.eachSize arguments
  | .conditional condition thenBranch elseBranch _ =>
      1 + condition.size + thenBranch.size + Block.anySize elseBranch
  | .compound block => 1 + block.size
  | .loop _ iterable body _ => 1 + iterable.size + body.size
  | .range first last _ => 1 + first.size + last.size

def Node.eachSize : List Node → Nat
  | [] => 0
  | node :: rest => node.size + Node.eachSize rest

def Block.size : Block → Nat
  | .mk _ statements _ => 1 + Node.eachSize statements

def Block.anySize : Option Block → Nat
  | none => 0
  | some block => block.size

end

theorem Node.size_pos (node : Node) : 0 < node.size := by
  cases node <;> rw [Node.size] <;> omega

/-! ## What tokens pay for -/

namespace Token

/-- The nodes and blocks that a token pays for. -/
def worth (token : Token) : Nat :=
  if token.kind = .endOfFile then 0 else 3

/-- The nodes and blocks that some tokens pay for. -/
def worths (tokens : List Token) : Nat :=
  (tokens.map worth).sum

theorem worths_append (first last : List Token) :
    worths (first ++ last) = worths first + worths last := by
  rw [worths, List.map_append, List.sum_append]
  rfl

theorem worths_cons (token : Token) (rest : List Token) :
    worths (token :: rest) = token.worth + worths rest := by
  rw [worths, List.map_cons, List.sum_cons]
  rfl

theorem worths_of_ended {tokens : List Token} (ended : ∀ token ∈ tokens, token.kind = .endOfFile) :
    worths tokens = 0 := by
  refine List.sum_eq_zero fun worth member => ?_
  obtain ⟨token, inside, rfl⟩ := List.mem_map.mp member
  exact if_pos (ended token inside)

theorem exists_of_worths_pos {tokens : List Token} (pays : 0 < worths tokens) :
    ∃ token ∈ tokens, token.kind ≠ .endOfFile := by
  by_contra none
  have ended : ∀ token ∈ tokens, token.kind = .endOfFile :=
    fun token member => not_not.mp fun other => none ⟨token, member, other⟩
  rw [worths_of_ended ended] at pays
  exact Nat.lt_irrefl 0 pays

end Token

/-! ## Going forwards -/

namespace Lexer

/-- Between the two lexers the results have been taken, in this order, and what the second one
gives is what the first one gives behind them. -/
def Advances (before : Lexer) (taken : List (Except SyntaxFault Token)) (after : Lexer) : Prop :=
  ∀ count, before.results (taken.length + count) = taken ++ after.results count

variable {before between after : Lexer} {taken more : List (Except SyntaxFault Token)}
  {token : Token} {fault : SyntaxFault}

theorem advances_refl (lexer : Lexer) : lexer.Advances [] lexer := by
  intro count
  rw [List.length_nil, Nat.zero_add, List.nil_append]

theorem Advances.trans (first : before.Advances taken between)
    (second : between.Advances more after) : before.Advances (taken ++ more) after := by
  intro count
  rw [List.length_append, Nat.add_assoc, first, second, List.append_assoc]

theorem advances_token (ran : Lexer.next before = .ok token after) :
    before.Advances ([token].map .ok) after := by
  intro count
  rw [List.length_map, List.length_singleton, Nat.add_comm, results, ran]
  rfl

theorem advances_fault (ran : Lexer.next before = .error fault after) :
    before.Advances [.error fault] after := by
  intro count
  rw [List.length_singleton, Nat.add_comm, results, ran]
  rfl

/-- A token that is kept has not been taken. -/
theorem advances_ahead (ran : Lexer.next before = .ok token after) :
    before.Advances [] { after with ahead := some token } := by
  intro count
  have none := ahead_of_next ran
  rw [List.length_nil, Nat.zero_add, List.nil_append]
  cases count with
  | zero => rfl
  | succ count =>
      rw [results, ran]
      rcases after with ⟨scanner, _⟩
      cases none
      rfl

end Lexer

namespace Reader

/-! ## Steps -/

/-- Whatever came out, the lexer has gone forwards.  For a result that was returned, the tokens that
were taken, with what had been paid for before, pay for it. -/
def Spent {α : Type} (lexer : Lexer) (paid : Nat) (size : α → Nat) :
    EStateM.Result Fault Reader α → Prop
  | .ok result after => ∃ tokens : List Token, lexer.Advances (tokens.map .ok) after.lexer ∧
      size result ≤ paid + Token.worths tokens
  | .error _ after => ∃ taken, lexer.Advances taken after.lexer

/-- Wherever a reader is ready for it, the step goes forwards and pays for its result. -/
def Spends {α : Type} (ready : Reader → Prop) (paid : Nat) (step : Read α) (size : α → Nat) :
    Prop :=
  ∀ reader, ready reader → Spent reader.lexer paid size (step reader)

/-- What was taken before pays as well. -/
theorem Spent.behind {α : Type} {before between : Lexer} {paid now : Nat} {size : α → Nat}
    {tokens : List Token} {outcome : EStateM.Result Fault Reader α}
    (advances : before.Advances (tokens.map .ok) between)
    (covers : now ≤ paid + Token.worths tokens) (spent : Spent between now size outcome) :
    Spent before paid size outcome := by
  cases outcome with
  | error fault after =>
      obtain ⟨taken, further⟩ := spent
      exact ⟨_, advances.trans further⟩
  | ok result after =>
      obtain ⟨more, further, pays⟩ := spent
      refine ⟨tokens ++ more, ?_, ?_⟩
      · rw [List.map_append]
        exact advances.trans further
      · rw [Token.worths_append]
        omega

section Steps

variable {α β : Type} {ready : Reader → Prop} {paid : Nat} {size : α → Nat}

theorem spends_pure {result : α} (enough : size result ≤ paid) :
    Spends ready paid (pure result) size :=
  fun _ _ => ⟨[], Lexer.advances_refl _, enough⟩

theorem spends_throw (fault : Fault) : Spends ready paid (throw fault : Read α) size :=
  fun _ _ => ⟨[], Lexer.advances_refl _⟩

theorem spends_exhausted : Spends ready paid (exhausted : Read α) size :=
  spends_throw _

theorem spends_fail (fault : SyntaxFault) : Spends ready paid (fail fault : Read α) size :=
  spends_throw _

theorem spends_unexpected (found : Token) (expected : Expected) :
    Spends ready paid (unexpected found expected : Read α) size :=
  spends_throw _

/-- A step behind another one, whose result has been paid for. -/
theorem Spends.bind {middle : β → Nat} {first : Read β} {next : β → Read α}
    (starts : Spends ready paid first middle)
    (goesOn : ∀ result, Spends Anywhere (middle result) (next result) size) :
    Spends ready paid (first >>= next) size := by
  intro reader start
  have started := starts reader start
  cases ran : first reader with
  | error fault between =>
      rw [ran] at started
      rw [bind_of_error ran]
      exact started
  | ok result between =>
      rw [ran] at started
      obtain ⟨tokens, advances, pays⟩ := started
      rw [bind_of_ok ran]
      exact (goesOn result between trivial).behind advances pays

/-- More may be paid for at the start, and less may be claimed in the end. -/
theorem Spends.weaken {step : Read α} {larger : α → Nat} {less : Nat}
    (spends : Spends ready less step larger) (extra : Nat)
    (covers : ∀ result, size result ≤ larger result + extra) (enough : less + extra ≤ paid) :
    Spends ready paid step size := by
  intro reader start
  have ended := spends reader start
  cases ran : step reader with
  | error fault after =>
      rw [ran] at ended
      exact ended
  | ok result after =>
      rw [ran] at ended
      obtain ⟨tokens, advances, pays⟩ := ended
      have covered := covers result
      exact ⟨tokens, advances, by omega⟩

/-- What had been paid for besides is still paid for. -/
theorem Spends.onTop {step : Read α} {own : Nat} (spends : Spends ready own step size)
    (paid : Nat) : Spends ready (paid + own) step fun result => paid + size result :=
  spends.weaken paid (fun result => Nat.le_of_eq (Nat.add_comm paid (size result)))
    (Nat.le_of_eq (Nat.add_comm own paid))

/-- A step that pays for all that it makes. -/
theorem Spends.besides {step : Read α} (spends : Spends ready 0 step size) (paid : Nat) :
    Spends ready paid step fun result => paid + size result :=
  spends.onTop paid

theorem Spends.facing {step : Read α} (spends : Spends Anywhere paid step size) (token : Token) :
    Spends (Facing token) paid step size :=
  fun reader _ => spends reader trivial

theorem Spends.ite {condition : Prop} [Decidable condition] {first second : Read α}
    (holds : condition → Spends ready paid first size)
    (fails : ¬ condition → Spends ready paid second size) :
    Spends ready paid (if condition then first else second) size := by
  by_cases decided : condition
  · rw [if_pos decided]
    exact holds decided
  · rw [if_neg decided]
    exact fails decided

theorem spends_take {next : Token → Read α}
    (goesOn : ∀ token, Spends Anywhere (paid + token.worth) (next token) size) :
    Spends ready paid (Reader.next >>= next) size := by
  intro reader _
  cases ran : Lexer.next reader.lexer with
  | error fault after =>
      rw [bind_of_error (next_of_error reader ran)]
      exact ⟨_, Lexer.advances_fault ran⟩
  | ok token after =>
      rw [bind_of_ok (next_of_ok reader ran)]
      exact (goesOn token ⟨after, reader.arguments⟩ trivial).behind (Lexer.advances_token ran)
        (Nat.le_refl _)

/-- A token is taken.  At the end of the text nothing can follow but a fault. -/
theorem spends_next {next : Token → Read α}
    (ends : ∀ token, token.kind = .endOfFile → ∃ fault, next token = fail fault)
    (goesOn : ∀ token, token.kind ≠ .endOfFile → Spends Anywhere (paid + 3) (next token) size) :
    Spends ready paid (Reader.next >>= next) size := by
  apply spends_take
  intro token
  by_cases ended : token.kind = .endOfFile
  · obtain ⟨fault, fails⟩ := ends token ended
    rw [fails]
    exact spends_fail fault
  · rw [Token.worth, if_neg ended]
    exact goesOn token ended

theorem spends_peek {next : Token → Read α}
    (goesOn : ∀ token, Spends (Facing token) paid (next token) size) :
    Spends ready paid (peek >>= next) size := by
  intro reader _
  cases ran : Lexer.next reader.lexer with
  | error fault after =>
      rw [bind_of_error (peek_of_error reader ran)]
      exact ⟨_, Lexer.advances_fault ran⟩
  | ok token after =>
      rw [bind_of_ok (peek_of_ok reader ran)]
      have looked : reader.lexer.Advances (([] : List Token).map .ok)
          { after with ahead := some token } := Lexer.advances_ahead ran
      exact (goesOn token ⟨{ after with ahead := some token }, reader.arguments⟩ rfl).behind looked
        (Nat.le_refl _)

theorem spends_look : Spends ready 0 peek fun _ => 0 := by
  rw [← bind_pure peek]
  exact spends_peek fun _ => spends_pure (Nat.le_refl 0)

theorem spends_peekKind {next : Token.Kind → Read α}
    (goesOn : ∀ token, Spends (Facing token) paid (next token.kind) size) :
    Spends ready paid (peekKind >>= next) size := by
  simp only [peekKind, bind_assoc, pure_bind]
  exact spends_peek goesOn

/-- A token that was looked at is taken. -/
theorem spends_skip {next : Unit → Read α} {token : Token}
    (goesOn : Spends Anywhere (paid + token.worth) (next ()) size) :
    Spends (Facing token) paid (skip >>= next) size := by
  rintro ⟨⟨scanner, _⟩, arguments⟩ ⟨⟩
  have took : skip ⟨⟨scanner, some token⟩, arguments⟩ = .ok () ⟨⟨scanner, none⟩, arguments⟩ :=
    skip_of_ahead rfl
  rw [bind_of_ok took]
  exact (goesOn ⟨⟨scanner, none⟩, arguments⟩ trivial).behind (Lexer.advances_token rfl)
    (Nat.le_refl _)

/-- A token that is no end pays for three. -/
theorem spends_skip_inside {next : Unit → Read α} {token : Token}
    (inside : token.kind ≠ .endOfFile) (goesOn : Spends Anywhere (paid + 3) (next ()) size) :
    Spends (Facing token) paid (skip >>= next) size := by
  apply spends_skip
  rw [Token.worth, if_neg inside]
  exact goesOn

/-- A token of any kind, the end of the text included. -/
theorem spends_consumeAny (kind : Token.Kind) : Spends ready 0 (consume kind) fun _ => 0 := by
  apply spends_take
  intro token
  exact .ite (fun _ => spends_pure (Nat.zero_le _)) fun _ => spends_unexpected _ _

theorem spends_consume {kind : Token.Kind} (notEnd : kind ≠ .endOfFile) :
    Spends ready paid (consume kind) fun _ => paid + 3 := by
  apply spends_next
  · intro token ended
    have other : token.kind ≠ kind := by
      rw [ended]
      exact notEnd.symm
    exact ⟨_, if_neg other⟩
  · intro token _
    exact .ite (fun _ => spends_pure (Nat.le_refl _)) fun _ => spends_unexpected _ _

theorem spends_consumeKeyword (word : String) :
    Spends ready paid (consumeKeyword word) fun _ => paid + 3 := by
  apply spends_next
  · intro token ended
    have other : ¬ token.isKeyword word = true := by simp [Token.isKeyword, ended]
    exact ⟨_, if_neg other⟩
  · intro token _
    exact .ite (fun _ => spends_pure (Nat.le_refl _)) fun _ => spends_unexpected _ _

theorem spends_consumeIdentifier :
    Spends ready paid consumeIdentifier fun _ => paid + 3 :=
  (spends_consume (by decide)).bind fun _ => spends_pure (Nat.le_refl _)

theorem spends_expectStatementEnd :
    Spends ready paid expectStatementEnd fun _ => paid := by
  apply spends_peekKind
  intro token
  refine .ite (fun _ => spends_pure (Nat.le_refl _)) fun _ => ?_
  apply spends_next
  · intro found _
    exact ⟨_, rfl⟩
  · intro found _
    exact spends_unexpected _ _

theorem spends_onArguments (step : EStateM SetupFault Arguments α) :
    Spends ready paid (onArguments step) fun _ => paid := by
  intro reader _
  unfold onArguments
  cases step reader.arguments with
  | ok result arguments => exact ⟨[], Lexer.advances_refl _, Nat.le_refl _⟩
  | error fault arguments => exact ⟨[], Lexer.advances_refl _⟩

end Steps

/-! ## Lists of expressions -/

section Lists

variable {item : Read Node} {ready : Reader → Prop} {paid : Nat}
  (items : Spends Anywhere 0 item Node.size)
include items

theorem spends_parenthesized (steps : Nat) :
    Spends Anywhere paid (parenthesized item steps) fun nodes => paid + Node.eachSize nodes := by
  induction steps generalizing paid with
  | zero => exact spends_exhausted
  | succ steps inductionHypothesis =>
      apply (items.besides paid).bind
      intro argument
      apply spends_next
      · intro token ended
        exact ⟨.unexpectedToken token (.either .comma .closeParen), by simp only [ended]; rfl⟩
      · intro token _
        cases token.kind with
        | comma =>
            apply inductionHypothesis.bind
            intro others
            apply spends_pure
            rw [Node.eachSize]
            omega
        | closeParen =>
            apply spends_pure
            rw [Node.eachSize, Node.eachSize]
            omega
        | _ => exact spends_unexpected _ _

theorem spends_callArguments (steps : Nat) :
    Spends ready paid (callArguments item steps) fun nodes => paid + Node.eachSize nodes := by
  apply (spends_consume (by decide)).bind
  intro _
  apply spends_peekKind
  intro token
  refine .ite (fun _ => ?_) fun _ => ?_
  · apply spends_skip
    apply spends_pure
    rw [Node.eachSize]
    omega
  · apply Spends.facing
    exact (spends_parenthesized items steps).weaken 3 (fun _ => Nat.le_add_right _ _)
      (Nat.le_refl _)

theorem spends_separated (steps : Nat) :
    Spends Anywhere paid (separated item steps) fun nodes => paid + Node.eachSize nodes := by
  induction steps generalizing paid with
  | zero => exact spends_exhausted
  | succ steps inductionHypothesis =>
      apply (items.besides paid).bind
      intro argument
      apply spends_peekKind
      intro token
      refine .ite (fun _ => ?_) fun _ => ?_
      · apply spends_skip
        apply inductionHypothesis.bind
        intro others
        apply spends_pure
        rw [Node.eachSize]
        omega
      · apply spends_pure
        rw [Node.eachSize, Node.eachSize]
        omega

theorem spends_bareArguments (steps : Nat) :
    Spends ready paid (bareArguments item steps) fun nodes => paid + Node.eachSize nodes := by
  apply spends_peekKind
  intro token
  refine .ite (fun _ => spends_pure (Nat.le_refl _)) fun _ => ?_
  exact (spends_separated items steps).facing token

theorem spends_arrayElements (line steps : Nat) :
    Spends Anywhere paid (arrayElements item line steps)
      fun nodes => paid + Node.eachSize nodes := by
  induction steps generalizing paid with
  | zero => exact spends_exhausted
  | succ steps inductionHypothesis =>
      apply spends_peekKind
      intro token
      refine .ite (fun _ => spends_fail _) fun _ => Spends.facing ?_ token
      apply (items.besides paid).bind
      intro element
      apply spends_next
      · intro token ended
        exact ⟨.unterminatedArray line, by simp only [ended]⟩
      · intro token _
        cases token.kind with
        | comma =>
            apply inductionHypothesis.bind
            intro others
            apply spends_pure
            rw [Node.eachSize]
            omega
        | closeBracket =>
            apply spends_pure
            rw [Node.eachSize, Node.eachSize]
            omega
        | newLine => exact spends_fail _
        | endOfFile => exact spends_fail _
        | _ => exact spends_unexpected _ _

end Lists

/-! ## Expressions

The token in front of what is read has been paid for when the rest of it is read. -/

section Expressions

variable {ready : Reader → Prop} {paid : Nat}

theorem spends_array {item : Read Node} (items : Spends Anywhere 0 item Node.size)
    (line steps : Nat) : Spends ready 3 (array item line steps) Node.size := by
  apply spends_peekKind
  intro token
  refine .ite (fun _ => ?_) fun _ => Spends.facing ?_ token
  · apply spends_skip
    apply spends_pure
    rw [Node.size, Node.eachSize]
    omega
  · apply (spends_arrayElements items line steps).bind
    intro elements
    apply spends_pure
    rw [Node.size]
    omega

/-- The operator pays for its node. -/
theorem spends_extend {operand : Nat → Read Node}
    (operands : ∀ rank, Spends Anywhere 0 (operand rank) Node.size) (left : Node)
    (ranks : List Nat) : Spends Anywhere left.size (extend operand left ranks) Node.size := by
  induction ranks generalizing left with
  | nil => exact spends_pure (Nat.le_refl _)
  | cons rank higher inductionHypothesis =>
      apply spends_peek
      intro token
      cases writes : operator? token with
      | none => exact spends_pure (Nat.le_refl _)
      | some operator =>
          refine .ite (fun _ => ?_) fun _ => (inductionHypothesis left).facing token
          have inside : token.kind ≠ .endOfFile :=
            fun ended => Pairing.not_stops_operator writes (Or.inl ended)
          apply spends_skip_inside inside
          apply ((operands rank).besides _).bind
          intro right
          apply (inductionHypothesis (.binary operator left right left.line)).weaken 0
            (fun _ => Nat.le_refl _)
          rw [Node.size]
          omega

theorem size_of_rangeBounds {token : Token} {nodes : List Node}
    (bounds : rangeBounds token = .ok nodes) : ∀ node ∈ nodes, node.size = 1 := by
  intro node member
  rcases mapM_rangeBound_eq_ok bounds node member with ⟨n, _, rfl⟩
  rfl

/-- One token pays for a range with both of its bounds. -/
theorem spends_rangeLiteral {expression : Read Node}
    (expressions : Spends Anywhere 0 expression Node.size) (token : Token) :
    Spends Anywhere 3 (rangeLiteral expression token) Node.size := by
  unfold rangeLiteral
  cases bounds : rangeBounds token with
  | error fault => exact spends_fail _
  | ok nodes =>
      have sizes := size_of_rangeBounds bounds
      match nodes, sizes with
      | [], _ => exact spends_fail _
      | [first], sizes =>
          refine .ite (fun _ => ?_) fun _ => spends_fail _
          apply (expressions.besides 3).bind
          intro last
          apply spends_pure
          rw [Node.size, sizes first (by simp)]
          omega
      | [first, last], sizes =>
          apply spends_pure
          rw [Node.size, sizes first (by simp), sizes last (by simp)]
      | _ :: _ :: _ :: _, _ => exact spends_fail _

theorem spends_named (names : Names) {expression : Read Node}
    (expressions : Spends Anywhere 0 expression Node.size) (steps : Nat) (name : Token) :
    Spends ready 3 (named names expression steps name) Node.size := by
  unfold named
  refine .ite (fun _ => ?_) fun _ => ?_
  · have call {other : Reader → Prop} {arguments : Read (List Node)}
        (spends : Spends other 3 arguments fun nodes => 3 + Node.eachSize nodes) :
        Spends other 3 (do
          let nodes ← arguments
          pure (.call name.text nodes name.line)) Node.size := by
      apply spends.bind
      intro nodes
      apply spends_pure
      rw [Node.size]
      omega
    apply spends_peekKind
    intro token
    refine .ite (fun _ => ?_) fun _ => ?_
    · exact call (spends_callArguments expressions steps)
    · exact call (spends_bareArguments expressions steps)
  · have leaf {other : Reader → Prop} :
        Spends other 3 (pure (.variable name.text name.line)) Node.size := by
      apply spends_pure
      rw [Node.size]
      omega
    apply spends_peek
    intro token
    cases kind : token.kind with
    | range =>
        refine .ite (fun _ => ?_) fun _ => leaf
        apply spends_skip
        apply (expressions.besides _).bind
        intro last
        apply spends_pure
        rw [Node.size, Node.size]
        omega
    | dot =>
        apply spends_skip
        apply spends_consumeIdentifier.bind
        intro method
        apply (spends_callArguments expressions steps).bind
        intro arguments
        apply spends_pure
        rw [Node.size]
        omega
    | _ => exact leaf

theorem spends_numberLiteral (token : Token) :
    Spends ready 3 (numberLiteral token) Node.size := by
  unfold numberLiteral
  cases Number.read? token.text.toList with
  | none => exact spends_fail _
  | some x =>
      apply spends_pure
      rw [Node.size]
      omega

theorem spends_truthLiteral (token : Token) :
    Spends ready 3 (truthLiteral token) Node.size := by
  have literal (b : Bool) :
      Spends ready 3 (pure (.literal (.truth b) token.line)) Node.size := by
    apply spends_pure
    rw [Node.size]
    omega
  exact .ite (fun _ => literal true) fun _ =>
    .ite (fun _ => literal false) fun _ => spends_unexpected _ _

/-- Both functions hand on their steps less one, so both are proved for one number of steps from
both for the number below it. -/
theorem spends_expressions (names : Names) (steps : Nat) :
    (∀ rank, Spends Anywhere 0 (ranked names steps rank) Node.size) ∧
      Spends Anywhere 0 (factor names steps) Node.size := by
  induction steps with
  | zero =>
      refine ⟨fun rank => ?_, ?_⟩
      · rw [ranked]
        exact spends_exhausted
      · rw [factor]
        exact spends_exhausted
  | succ steps inductionHypothesis =>
      rcases inductionHypothesis with ⟨rankeds, factors⟩
      constructor
      · intro rank
        rw [ranked]
        exact factors.bind fun left => spends_extend rankeds left (ranksTo rank)
      · have unary (operator : UnaryOperator) (line : Nat) : Spends Anywhere 3 (do
            let operand ← factor names steps
            pure (.unary operator operand line)) Node.size := by
          apply (factors.besides 3).bind
          intro operand
          apply spends_pure
          rw [Node.size]
          omega
        rw [factor]
        apply spends_next
        · intro token ended
          exact ⟨.unexpectedToken token .expression, by simp only [ended]; rfl⟩
        · intro token _
          cases token.kind with
          | number => exact spends_numberLiteral token
          | string =>
              apply spends_pure
              rw [Node.size]
              omega
          | keyword => exact spends_truthLiteral token
          | identifier => exact spends_named names (rankeds expressionRank) steps token
          | openParen =>
              apply ((rankeds expressionRank).besides _).bind
              intro inner
              apply (spends_consume (by decide)).bind
              intro _
              apply spends_pure
              omega
          | openBracket => exact spends_array (rankeds expressionRank) token.line steps
          | range => exact spends_rangeLiteral (rankeds expressionRank) token
          | minus => exact unary .negate token.line
          | unaryOperator => exact unary .not token.line
          | _ => exact spends_unexpected _ _

theorem spends_ranked (names : Names) (steps rank : Nat) :
    Spends Anywhere 0 (ranked names steps rank) Node.size :=
  (spends_expressions names steps).1 rank

end Expressions

/-! ## Statements -/

section Statements

variable {item : Read Node} {ready : Reader → Prop} {paid : Nat}

theorem spends_skipNewLines (steps : Nat) :
    Spends Anywhere paid (skipNewLines steps) fun _ => paid := by
  induction steps with
  | zero => exact spends_exhausted
  | succ steps inductionHypothesis =>
      apply spends_peekKind
      intro token
      refine .ite (fun _ => ?_) fun _ => spends_pure (Nat.le_refl _)
      apply spends_skip
      exact inductionHypothesis.weaken token.worth (fun _ => Nat.le_add_right _ _) (Nat.le_refl _)

/-- Whatever closes the statements, each of them is paid for by its own tokens. -/
theorem spends_statementsUntil (items : Spends Anywhere 0 item Node.size) (closing : Token.Kind)
    (steps : Nat) :
    Spends Anywhere paid (statementsUntil item closing steps)
      fun nodes => paid + Node.eachSize nodes := by
  induction steps generalizing paid with
  | zero => exact spends_exhausted
  | succ steps inductionHypothesis =>
      apply spends_peekKind
      intro token
      refine .ite (fun _ => ?_) fun _ => ?_
      · apply spends_skip
        apply spends_pure
        rw [Node.eachSize]
        omega
      · cases kind : token.kind with
        | newLine =>
            apply spends_skip
            exact inductionHypothesis.weaken token.worth (fun _ => Nat.le_add_right _ _)
              (Nat.le_refl _)
        | endOfFile =>
            apply spends_next
            · intro found _
              exact ⟨_, rfl⟩
            · intro found _
              exact spends_unexpected _ _
        | _ =>
            apply Spends.facing _ token
            apply (items.besides paid).bind
            intro first
            apply inductionHypothesis.bind
            intro others
            apply spends_pure
            rw [Node.eachSize]
            omega

/-- The opening brace pays for the block. -/
theorem spends_bracedBlock (items : Spends Anywhere 0 item Node.size) (steps : Nat) :
    Spends ready 0 (bracedBlock item steps) Block.size := by
  apply (spends_consume (by decide)).bind
  intro opening
  apply (spends_statementsUntil items .closeBrace steps).bind
  intro statements
  apply spends_pure
  rw [Block.size]
  omega

/-- The three tokens of a declaration pay for more than its two nodes. -/
theorem spends_declaration : Spends ready 0 declaration Node.size := by
  have ended : ∀ {token : Token} {kind : Token.Kind}, token.kind = .endOfFile →
      kind ≠ .endOfFile → ¬ token.kind = kind :=
    fun atEnd notEnd same => notEnd (same.symm.trans atEnd)
  apply spends_next
  · intro name atEnd
    exact ⟨_, if_neg (ended atEnd (by decide))⟩
  intro name _
  refine .ite (fun _ => ?_) fun _ => spends_fail _
  apply spends_next
  · intro colon atEnd
    exact ⟨_, if_neg (ended atEnd (by decide))⟩
  intro colon _
  refine .ite (fun _ => ?_) fun _ => spends_fail _
  apply spends_next
  · intro tag atEnd
    have untyped := ended atEnd (show Token.Kind.typeTag ≠ .endOfFile by decide)
    exact ⟨.malformedDeclaration (.noType name.text tag), by simp only [if_neg untyped]⟩
  intro tag _
  generalize (if tag.kind = .typeTag then Value.Kind.ofName? tag.text else none) = kind?
  cases kind? with
  | none => exact spends_fail _
  | some kind =>
      apply (spends_onArguments _).bind
      intro value
      apply spends_pure
      rw [Node.size, Node.size]
      omega

variable (names : Names)

theorem spends_namedStatement (steps : Nat) (name : Token) :
    Spends Anywhere 3 (namedStatement names steps name) Node.size := by
  have expressions := spends_ranked names steps expressionRank
  refine .ite (fun _ => ?_) fun _ => ?_
  · apply (spends_bareArguments expressions steps).bind
    intro arguments
    apply spends_pure
    rw [Node.size]
    omega
  · apply spends_next
    · intro token ended
      exact ⟨.unexpectedToken token (.either .equals .dot), by simp only [ended]; rfl⟩
    · intro token _
      cases token.kind with
      | equals =>
          apply (expressions.besides _).bind
          intro value
          apply spends_pure
          rw [Node.size]
          omega
      | dot =>
          apply spends_consumeIdentifier.bind
          intro method
          apply (spends_callArguments expressions steps).bind
          intro arguments
          apply spends_pure
          rw [Node.size]
          omega
      | _ => exact spends_unexpected _ _

theorem spends_loop (items : Spends Anywhere 0 item Node.size) (steps line : Nat) :
    Spends Anywhere 3 (loop names item steps line) Node.size := by
  apply spends_consumeIdentifier.bind
  intro iterator
  apply (spends_consumeKeyword "in").bind
  intro _
  apply ((spends_ranked names steps expressionRank).besides _).bind
  intro iterable
  apply ((spends_bracedBlock items steps).besides _).bind
  intro body
  apply spends_pure
  rw [Node.size]
  omega

/-- The keyword pays for the block around the declarations. -/
theorem spends_declarations (steps line : Nat) :
    Spends Anywhere 3 (declarations steps line) Node.size := by
  apply (spends_separated spends_declaration steps).bind
  intro assignments
  apply spends_pure
  rw [Node.size, Block.size]
  omega

theorem spends_ended {statement : Read Node} (spends : Spends Anywhere paid statement Node.size) :
    Spends Anywhere paid (ended statement) Node.size := by
  apply spends.bind
  intro node
  exact spends_expectStatementEnd.bind fun _ => spends_pure (Nat.le_refl _)

/-- The branches pay for their own blocks, and the keywords of a chained conditional for the block
that it stands in. -/
theorem spends_statements (steps : Nat) :
    Spends Anywhere 0 (statementWithin names steps) Node.size ∧
      ∀ line, Spends Anywhere 3 (conditionalWithin names steps line) Node.size := by
  induction steps with
  | zero =>
      refine ⟨?_, fun line => ?_⟩
      · rw [statementWithin]
        exact spends_exhausted
      · rw [conditionalWithin]
        exact spends_exhausted
  | succ steps inductionHypothesis =>
      rcases inductionHypothesis with ⟨statements, conditionals⟩
      constructor
      · rw [statementWithin]
        apply spends_next
        · intro token ended
          exact ⟨.unexpectedStatement token, by simp only [ended]⟩
        · intro token _
          have flags (flag : Flag) :
              Spends Anywhere 3 (ended (pure (.flag flag token.line))) Node.size := by
            apply spends_ended
            apply spends_pure
            rw [Node.size]
            omega
          cases token.kind with
          | identifier => exact spends_ended (spends_namedStatement names steps token)
          | keyword =>
              refine .ite (fun _ => conditionals token.line) fun _ => ?_
              refine .ite (fun _ => ?_) fun _ => ?_
              · exact spends_ended (spends_loop names statements steps token.line)
              refine .ite (fun _ => spends_ended (spends_declarations steps token.line)) fun _ => ?_
              exact .ite (fun _ => flags .break) fun _ =>
                .ite (fun _ => flags .halt) fun _ => spends_fail _
          | _ => exact spends_fail _
      · intro line
        rw [conditionalWithin]
        apply ((spends_ranked names steps expressionRank).besides 3).bind
        intro condition
        apply ((spends_bracedBlock statements steps).besides _).bind
        intro thenBranch
        apply (spends_skipNewLines steps).bind
        intro _
        apply spends_peek
        intro follower
        refine .ite (fun isElse => ?_) fun _ => ?_
        · apply spends_skip_inside (by rw [kind_of_isKeyword isElse]; decide)
          apply spends_peek
          intro chained
          refine .ite (fun isIf => ?_) fun _ => Spends.facing ?_ chained
          · apply spends_skip_inside (by rw [kind_of_isKeyword isIf]; decide)
            apply ((conditionals chained.line).onTop _).bind
            intro nested
            apply spends_pure
            rw [Node.size, Block.anySize, Block.size, Node.eachSize, Node.eachSize]
            omega
          · apply ((spends_bracedBlock statements steps).besides _).bind
            intro elseBranch
            apply spends_pure
            rw [Node.size, Block.anySize]
            omega
        · apply spends_pure
          rw [Node.size, Block.anySize]
          omega

theorem spends_statement : Spends Anywhere 0 (statement names) Node.size :=
  fun reader => (spends_statements names reader.allowance).1 reader

theorem spends_expression : Spends Anywhere 0 (expression names) Node.size :=
  fun reader => spends_ranked names reader.allowance expressionRank reader

end Statements
end Reader
end Scriptlet
