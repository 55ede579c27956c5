import Scriptlet.Proofs.ReadingAlike
import Scriptlet.Script

namespace Scriptlet

/-!
# Steps enough

Readers that recurse are given a number of steps, which is a multiple of what is left to read.
That bounds no reading: between any two steps but a few a token is taken, so the steps last
longer than the text.  It is proved as agreement.  A reading with steps enough does not run out
of them, and any further steps change nothing.

How many are enough depends on how deep the readers nest for each token they take.  An operand
needs two steps for each token, an expression one more than its first operand, and a conditional
one more than its condition.
-/

namespace Lexer

/-- What is left to read.  The end of the text does not count. -/
def unread (lexer : Lexer) : Nat :=
  lexer.scanner.rest.length +
    match lexer.ahead with
    | some token => if token.kind = .endOfFile then 0 else 1
    | none => 0

/-- A token that is taken leaves less to read, unless it is the end. -/
theorem unread_next {lexer after : Lexer} {token : Token}
    (ran : Lexer.next lexer = .ok token after) :
    after.unread + (if token.kind = .endOfFile then 0 else 1) ≤ lexer.unread := by
  rcases next_cases lexer with ⟨found, ahead, step⟩ | ⟨found, scanner, ahead, scanned, step⟩ |
      ⟨fault, scanner, ahead, scanned, step⟩ <;>
    rw [step] at ran <;> cases ran
  · simp only [unread, ahead]
    exact Nat.le_refl _
  · simp only [unread, ahead, Nat.add_zero]
    by_cases ended : token.kind = .endOfFile
    · have atEnd := Scanner.ended_of_endOfFile scanned ended
      rw [Scanner.scan_of_end atEnd, Prod.mk.injEq] at scanned
      rw [← scanned.2, if_pos ended]
      exact Nat.zero_le _
    · have shorter := Scanner.scan_shortens scanned (by rintro ⟨⟩; exact ended rfl)
      rw [if_neg ended]
      exact shorter

/-- A token that is only looked at leaves no more to read. -/
theorem unread_ahead {lexer after : Lexer} {token : Token}
    (ran : Lexer.next lexer = .ok token after) :
    ({ after with ahead := some token } : Lexer).unread ≤ lexer.unread := by
  have none := ahead_of_next ran
  have taken := unread_next ran
  simp only [unread, none] at taken ⊢
  exact taken

end Lexer

namespace Reader

/-- Wherever no more than `room` is left to read, the step does not run out of steps, another one
with further steps does the same, and if they succeed they have taken at least `taken` of it. -/
def Ample {α : Type} (ready : Reader → Prop) (room taken : Nat) (step other : Read α) : Prop :=
  ∀ reader, ready reader → reader.lexer.unread ≤ room →
    other reader = step reader ∧
      match step reader with
      | .ok _ after => after.lexer.unread + taken ≤ reader.lexer.unread
      | .error fault _ => fault ≠ .exhausted

/-- The reader may stand anywhere. -/
def Anywhere (_ : Reader) : Prop :=
  True

/-- The reader has looked at its next token. -/
def Facing (token : Token) (reader : Reader) : Prop :=
  reader.lexer.ahead = some token

section Steps

variable {α β : Type} {ready : Reader → Prop} {room taken : Nat}

theorem ample_pure (result : α) : Ample ready room 0 (pure result) (pure result) :=
  fun _ _ _ => ⟨rfl, Nat.le_refl _⟩

theorem ample_fail (fault : SyntaxFault) :
    Ample ready room taken (fail fault : Read α) (fail fault) :=
  fun _ _ _ => ⟨rfl, by rintro ⟨⟩⟩

theorem ample_unexpected (token : Token) (expected : Expected) :
    Ample ready room taken (unexpected token expected : Read α) (unexpected token expected) :=
  ample_fail _

theorem Ample.bind {first other : Read β} {next otherNext : β → Read α} {all : Nat}
    (starts : Ample ready room taken first other)
    (goesOn : taken ≤ room → ∀ result,
      Ample Anywhere (room - taken) (all - taken) (next result) (otherNext result)) :
    Ample ready room all (first >>= next) (other >>= otherNext) := by
  intro reader start inside
  rcases starts reader start inside with ⟨same, started⟩
  cases ran : first reader with
  | error fault between =>
      rw [ran] at same started
      rw [bind_of_error same, bind_of_error ran]
      exact ⟨rfl, started⟩
  | ok result between =>
      rw [ran] at same started
      simp only at started
      have less : between.lexer.unread ≤ room - taken := by omega
      rcases goesOn (by omega) result between trivial less with ⟨sameNext, ended⟩
      rw [bind_of_ok same, bind_of_ok ran]
      refine ⟨sameNext, ?_⟩
      cases last : next result between with
      | error fault after =>
          rw [last] at ended
          exact ended
      | ok final after =>
          rw [last] at ended
          simp only at ended ⊢
          omega

theorem Ample.weaken {stronger : Reader → Prop} {less fewer : Nat} {step other : Read α}
    (ample : Ample ready room taken step other)
    (starts : ∀ reader, stronger reader → ready reader) (smaller : less ≤ room)
    (fewerTaken : fewer ≤ taken) : Ample stronger less fewer step other := by
  intro reader start inside
  rcases ample reader (starts reader start) (Nat.le_trans inside smaller) with ⟨same, ended⟩
  refine ⟨same, ?_⟩
  cases ran : step reader with
  | error fault after =>
      rw [ran] at ended
      exact ended
  | ok result after =>
      rw [ran] at ended
      simp only at ended ⊢
      omega

/-- Wherever the reader stands it may have looked ahead. -/
theorem Ample.facing {step other : Read α} (ample : Ample Anywhere room taken step other)
    (token : Token) : Ample (Facing token) room taken step other :=
  ample.weaken (fun _ _ => trivial) (Nat.le_refl _) (Nat.le_refl _)

theorem Ample.within {step other : Read α} (ample : Ample Anywhere room taken step other)
    {less : Nat} (smaller : less ≤ room) : Ample Anywhere less taken step other :=
  ample.weaken (fun _ start => start) smaller (Nat.le_refl _)

theorem Ample.fewer {step other : Read α} (ample : Ample ready room taken step other)
    {fewer : Nat} (enough : fewer ≤ taken) : Ample ready room fewer step other :=
  ample.weaken (fun _ start => start) (Nat.le_refl _) enough

theorem Ample.ite {condition : Prop} [Decidable condition] {first second other otherSecond : Read α}
    (holds : condition → Ample ready room taken first other)
    (fails : ¬ condition → Ample ready room taken second otherSecond) :
    Ample ready room taken (if condition then first else second)
      (if condition then other else otherSecond) := by
  split
  · exact holds ‹_›
  · exact fails ‹_›

/-- A token is taken.  At the end of the text nothing can follow but a fault. -/
theorem ample_next {next otherNext : Token → Read α}
    (ends : ∀ token, token.kind = .endOfFile →
      ∃ fault, next token = fail fault ∧ otherNext token = fail fault)
    (goesOn : 1 ≤ room → ∀ token, token.kind ≠ .endOfFile →
      Ample Anywhere (room - 1) (taken - 1) (next token) (otherNext token)) :
    Ample ready room taken (Reader.next >>= next) (Reader.next >>= otherNext) := by
  intro reader _ inside
  cases ran : Lexer.next reader.lexer with
  | error fault after =>
      have failed := next_of_error reader ran
      rw [bind_of_error failed, bind_of_error failed]
      exact ⟨rfl, by rintro ⟨⟩⟩
  | ok token after =>
      have took := next_of_ok reader ran
      have shorter := Lexer.unread_next ran
      rw [bind_of_ok took, bind_of_ok took]
      by_cases ended : token.kind = .endOfFile
      · rcases ends token ended with ⟨fault, same, otherSame⟩
        rw [same, otherSame]
        exact ⟨rfl, by rintro ⟨⟩⟩
      · rw [if_neg ended] at shorter
        rcases goesOn (by omega) token ended ⟨after, reader.arguments⟩ trivial
          (show after.unread ≤ room - 1 by omega) with ⟨same, rest⟩
        refine ⟨same, ?_⟩
        cases last : next token ⟨after, reader.arguments⟩ with
        | error fault final =>
            rw [last] at rest
            exact rest
        | ok result final =>
            rw [last] at rest
            simp only at rest ⊢
            omega

theorem ample_peek {next otherNext : Token → Read α}
    (goesOn : ∀ token, Ample (Facing token) room taken (next token) (otherNext token)) :
    Ample ready room taken (peek >>= next) (peek >>= otherNext) := by
  intro reader _ inside
  cases ran : Lexer.next reader.lexer with
  | error fault after =>
      have failed := peek_of_error reader ran
      rw [bind_of_error failed, bind_of_error failed]
      exact ⟨rfl, by rintro ⟨⟩⟩
  | ok token after =>
      have looked := peek_of_ok reader ran
      have shorter := Lexer.unread_ahead ran
      rw [bind_of_ok looked, bind_of_ok looked]
      rcases goesOn token ⟨{ after with ahead := some token }, reader.arguments⟩ rfl
        (Nat.le_trans shorter inside) with ⟨same, rest⟩
      refine ⟨same, ?_⟩
      cases last : next token ⟨{ after with ahead := some token }, reader.arguments⟩ with
      | error fault final =>
          rw [last] at rest
          exact rest
      | ok result final =>
          rw [last] at rest
          exact Nat.le_trans rest shorter

theorem ample_peekKind {next otherNext : Token.Kind → Read α}
    (goesOn : ∀ token, Ample (Facing token) room taken (next token.kind) (otherNext token.kind)) :
    Ample ready room taken (peekKind >>= next) (peekKind >>= otherNext) := by
  simp only [peekKind, bind_assoc, pure_bind]
  exact ample_peek goesOn

/-- A token that was looked at is taken. -/
theorem ample_skip {next otherNext : Unit → Read α} {token : Token}
    (inside : token.kind ≠ .endOfFile)
    (goesOn : 1 ≤ room → Ample Anywhere (room - 1) (taken - 1) (next ()) (otherNext ())) :
    Ample (Facing token) room taken (skip >>= next) (skip >>= otherNext) := by
  rintro ⟨⟨scanner, _⟩, arguments⟩ ⟨⟩ small
  have took : skip ⟨⟨scanner, some token⟩, arguments⟩ = .ok () ⟨⟨scanner, none⟩, arguments⟩ :=
    skip_of_ahead rfl
  have shorter : (⟨scanner, some token⟩ : Lexer).unread = scanner.rest.length + 1 := by
    simp only [Lexer.unread, if_neg inside]
  simp only [shorter] at small ⊢
  rw [bind_of_ok took, bind_of_ok took]
  rcases goesOn (by omega) ⟨⟨scanner, none⟩, arguments⟩ trivial
    (show scanner.rest.length ≤ room - 1 by omega) with ⟨same, rest⟩
  refine ⟨same, ?_⟩
  cases last : next () ⟨⟨scanner, none⟩, arguments⟩ with
  | error fault final =>
      rw [last] at rest
      exact rest
  | ok result final =>
      rw [last] at rest
      have less : final.lexer.unread + (taken - 1) ≤ scanner.rest.length := rest
      simp only
      omega

theorem ample_consume {kind : Token.Kind} (notEnd : kind ≠ .endOfFile) :
    Ample ready room 1 (consume kind) (consume kind) := by
  apply ample_next
  · intro token ended
    have other : token.kind ≠ kind := by
      rw [ended]
      exact notEnd.symm
    exact ⟨_, if_neg other, if_neg other⟩
  · intro _ token _
    exact Ample.ite (fun _ => ample_pure token) fun _ => ample_unexpected _ _

theorem ample_consumeKeyword (word : String) :
    Ample ready room 1 (consumeKeyword word) (consumeKeyword word) := by
  apply ample_next
  · intro token ended
    have other : ¬ token.isKeyword word = true := by simp [Token.isKeyword, ended]
    exact ⟨_, if_neg other, if_neg other⟩
  · intro _ token _
    exact Ample.ite (fun _ => ample_pure token) fun _ => ample_unexpected _ _

theorem ample_consumeIdentifier :
    Ample ready room 1 consumeIdentifier consumeIdentifier :=
  (ample_consume (by decide)).bind fun _ token => ample_pure token.text

theorem ample_expectStatementEnd :
    Ample ready room 0 expectStatementEnd expectStatementEnd := by
  apply ample_peekKind
  intro token
  refine Ample.ite (fun _ => ample_pure ()) fun _ => ?_
  apply ample_next
  · intro found _
    exact ⟨_, rfl, rfl⟩
  · intro _ found _
    exact ample_unexpected _ _

end Steps

/-! ## Expressions -/

section Lists

variable {item otherItem : Read Node} {ready : Reader → Prop} {room steps : Nat} (more : Nat)

/-- Items of some list, each of which takes something. -/
theorem ample_parenthesized (items : Ample Anywhere room 1 item otherItem)
    (enough : room < steps) :
    Ample Anywhere room 1 (parenthesized item steps) (parenthesized otherItem (steps + more)) := by
  induction steps generalizing room with
  | zero => exact absurd enough (Nat.not_lt_zero _)
  | succ steps inductionHypothesis =>
      rw [Nat.add_right_comm]
      apply items.bind
      intro _ argument
      apply ample_next
      · intro token ended
        exact ⟨.unexpectedToken token (.either .comma .closeParen), by simp only [ended]; rfl,
          by simp only [ended]; rfl⟩
      · intro _ token _
        cases token.kind with
        | comma =>
            exact (inductionHypothesis (items.within (by omega)) (by omega)).bind
              fun _ others => ample_pure _
        | closeParen => exact ample_pure _
        | _ => exact ample_unexpected _ _

theorem ample_callArguments (items : Ample Anywhere room 1 item otherItem)
    (enough : room < steps) :
    Ample ready room 1 (callArguments item steps) (callArguments otherItem (steps + more)) := by
  apply (ample_consume (by decide)).bind
  intro _ _
  apply ample_peekKind
  intro token
  refine Ample.ite (fun closes => ?_) fun _ => ?_
  · exact ample_skip (by rw [closes]; decide) fun _ => ample_pure _
  · have inside := ample_parenthesized more (items.within (Nat.sub_le room 1))
      (Nat.lt_of_le_of_lt (Nat.sub_le room 1) enough)
    exact (inside.fewer (Nat.zero_le 1)).facing token

theorem ample_separated (items : Ample Anywhere room 1 item otherItem)
    (enough : room < steps) :
    Ample Anywhere room 1 (separated item steps) (separated otherItem (steps + more)) := by
  induction steps generalizing room with
  | zero => exact absurd enough (Nat.not_lt_zero _)
  | succ steps inductionHypothesis =>
      rw [Nat.add_right_comm]
      apply items.bind
      intro _ argument
      apply ample_peekKind
      intro token
      refine Ample.ite (fun comma => ?_) fun _ => ample_pure _
      apply ample_skip (by rw [comma]; decide)
      intro _
      exact (inductionHypothesis (items.within (by omega)) (by omega)).bind
        fun _ others => ample_pure _

theorem ample_bareArguments (items : Ample Anywhere room 1 item otherItem)
    (enough : room < steps) :
    Ample ready room 0 (bareArguments item steps) (bareArguments otherItem (steps + more)) := by
  apply ample_peekKind
  intro token
  refine Ample.ite (fun _ => ample_pure _) fun _ => ?_
  exact ((ample_separated more items enough).fewer (Nat.zero_le 1)).facing token

theorem ample_arrayElements (items : Ample Anywhere room 1 item otherItem) (line : Nat)
    (enough : room < steps) :
    Ample Anywhere room 0 (arrayElements item line steps)
      (arrayElements otherItem line (steps + more)) := by
  induction steps generalizing room with
  | zero => exact absurd enough (Nat.not_lt_zero _)
  | succ steps inductionHypothesis =>
      rw [Nat.add_right_comm]
      apply ample_peekKind
      intro token
      refine Ample.ite (fun _ => ample_fail _) fun _ => Ample.facing ?_ token
      apply items.bind
      intro _ element
      apply ample_next
      · intro token ended
        exact ⟨.unterminatedArray line, by simp only [ended], by simp only [ended]⟩
      · intro _ token _
        cases token.kind with
        | comma =>
            exact (inductionHypothesis (items.within (by omega)) (by omega)).bind
              fun _ others => ample_pure _
        | closeBracket => exact ample_pure _
        | newLine => exact ample_fail _
        | endOfFile => exact ample_fail _
        | _ => exact ample_unexpected _ _

theorem ample_array (items : Ample Anywhere room 1 item otherItem) (line : Nat)
    (enough : room < steps) :
    Ample ready room 0 (array item line steps) (array otherItem line (steps + more)) := by
  apply ample_peekKind
  intro token
  refine Ample.ite (fun closes => ?_) fun _ => Ample.facing ?_ token
  · exact ample_skip (by rw [closes]; decide) fun _ => ample_pure _
  · exact (ample_arrayElements more items line enough).bind fun _ elements => ample_pure _

end Lists

section Expressions

variable {room : Nat}

theorem ample_extend {operand otherOperand : Nat → Read Node}
    (operands : ∀ rank, Ample Anywhere (room - 1) 0 (operand rank) (otherOperand rank))
    (left : Node) (ranks : List Nat) :
    Ample Anywhere room 0 (extend operand left ranks) (extend otherOperand left ranks) := by
  induction ranks generalizing left room with
  | nil => exact ample_pure _
  | cons rank higher inductionHypothesis =>
      apply ample_peek
      intro token
      cases writes : operator? token with
      | none => exact ample_pure _
      | some operator =>
          refine Ample.ite (fun _ => ?_) fun _ => (inductionHypothesis operands left).facing token
          have inside : token.kind ≠ .endOfFile :=
            fun ended => Pairing.not_stops_operator writes (Or.inl ended)
          apply ample_skip inside
          intro _
          apply (operands rank).bind
          intro _ right
          exact inductionHypothesis (fun rank => (operands rank).within (by omega)) _

theorem ample_rangeLiteral {expression other : Read Node}
    (expressions : Ample Anywhere room 0 expression other) (token : Token) :
    Ample Anywhere room 0 (rangeLiteral expression token) (rangeLiteral other token) := by
  unfold rangeLiteral
  cases rangeBounds token with
  | error fault => exact ample_fail _
  | ok bounds =>
      match bounds with
      | [] => exact ample_fail _
      | [first] =>
          refine Ample.ite (fun _ => ?_) fun _ => ample_fail _
          exact expressions.bind fun _ last => ample_pure _
      | [first, last] => exact ample_pure _
      | _ :: _ :: _ :: _ => exact ample_fail _

variable (names : Names) (more : Nat)

theorem ample_named {expression other : Read Node} {steps : Nat}
    (expressions : Ample Anywhere room 1 expression other) (enough : room < steps)
    (name : Token) :
    Ample Anywhere room 0 (named names expression steps name)
      (named names other (steps + more) name) := by
  refine Ample.ite (fun _ => ?_) fun _ => ?_
  · apply ample_peekKind
    intro token
    refine Ample.ite (fun _ => Ample.facing ?_ token) fun _ => Ample.facing ?_ token
    · exact ((ample_callArguments more expressions enough).fewer (Nat.zero_le 1)).bind
        fun _ arguments => ample_pure _
    · exact (ample_bareArguments more expressions enough).bind fun _ arguments => ample_pure _
  · apply ample_peek
    intro token
    cases kind : token.kind with
    | range =>
        refine Ample.ite (fun _ => ?_) fun _ => ample_pure _
        apply ample_skip (by rw [kind]; decide)
        intro _
        exact ((expressions.within (Nat.sub_le room 1)).fewer (Nat.zero_le 1)).bind
          fun _ last => ample_pure _
    | dot =>
        apply ample_skip (by rw [kind]; decide)
        intro _
        apply (ample_consumeIdentifier.fewer (Nat.zero_le 1)).bind
        intro _ method
        have inside : Ample Anywhere (room - 1) 1 (callArguments expression steps)
            (callArguments other (steps + more)) :=
          ample_callArguments more (expressions.within (Nat.sub_le room 1))
            (Nat.lt_of_le_of_lt (Nat.sub_le room 1) enough)
        exact (inside.fewer (Nat.zero_le 1)).bind fun _ arguments => ample_pure _
    | _ => exact ample_pure _

/-- Both functions hand on their steps less one, and what is taken in between pays for them. -/
theorem ample_expressions (steps : Nat) :
    (∀ room rank, 2 * room + 2 ≤ steps →
        Ample Anywhere room 1 (ranked names steps rank) (ranked names (steps + more) rank)) ∧
      ∀ room, 2 * room + 1 ≤ steps →
        Ample Anywhere room 1 (factor names steps) (factor names (steps + more)) := by
  induction steps with
  | zero => exact ⟨fun _ _ enough => by omega, fun _ enough => by omega⟩
  | succ steps inductionHypothesis =>
      rcases inductionHypothesis with ⟨rankeds, factors⟩
      rw [Nat.add_right_comm]
      constructor
      · intro room rank enough
        rw [ranked, ranked]
        apply (factors room (by omega)).bind
        intro _ left
        apply ample_extend
        intro rank
        exact (rankeds _ rank (by omega)).fewer (Nat.zero_le 1)
      · intro room enough
        rw [factor, factor]
        apply ample_next
        · intro token ended
          exact ⟨.unexpectedToken token .expression, by simp only [ended]; rfl,
            by simp only [ended]; rfl⟩
        · intro _ token _
          have expressions := rankeds (room - 1) expressionRank (by omega)
          have operands := (factors (room - 1) (by omega)).fewer (Nat.zero_le 1)
          cases token.kind with
          | number =>
              unfold numberLiteral
              cases Number.read? token.text.toList with
              | some x => exact ample_pure _
              | none => exact ample_fail _
          | string => exact ample_pure _
          | keyword =>
              refine Ample.ite (fun _ => ample_pure _) fun _ => ?_
              exact Ample.ite (fun _ => ample_pure _) fun _ => ample_unexpected _ _
          | identifier => exact ample_named names more expressions (by omega) token
          | openParen =>
              apply (expressions.fewer (Nat.zero_le 1)).bind
              intro _ inner
              exact ((ample_consume (by decide)).fewer (Nat.zero_le 1)).bind
                fun _ _ => ample_pure _
          | openBracket => exact ample_array more expressions token.line (by omega)
          | range => exact ample_rangeLiteral (expressions.fewer (Nat.zero_le 1)) token
          | minus => exact operands.bind fun _ operand => ample_pure _
          | unaryOperator => exact operands.bind fun _ operand => ample_pure _
          | _ => exact ample_unexpected _ _

end Expressions

/-! ## Statements -/

section Statements

variable {item otherItem : Read Node} {room steps : Nat} (more : Nat)

theorem ample_skipNewLines (enough : room < steps) :
    Ample Anywhere room 0 (skipNewLines steps) (skipNewLines (steps + more)) := by
  induction steps generalizing room with
  | zero => exact absurd enough (Nat.not_lt_zero _)
  | succ steps inductionHypothesis =>
      rw [Nat.add_right_comm]
      apply ample_peekKind
      intro token
      refine Ample.ite (fun broken => ?_) fun _ => ample_pure _
      apply ample_skip (by rw [broken]; decide)
      intro _
      exact inductionHypothesis (by omega)

/-- Whatever the closing token is, every item and every line break takes something. -/
theorem ample_statementsUntil (items : Ample Anywhere room 1 item otherItem)
    (closing : Token.Kind) (enough : room < steps) :
    Ample Anywhere room 0 (statementsUntil item closing steps)
      (statementsUntil otherItem closing (steps + more)) := by
  induction steps generalizing room with
  | zero => exact absurd enough (Nat.not_lt_zero _)
  | succ steps inductionHypothesis =>
      rw [Nat.add_right_comm]
      apply ample_peekKind
      intro token
      refine Ample.ite (fun _ => ?_) fun _ => ?_
      · rintro ⟨⟨scanner, _⟩, arguments⟩ ⟨⟩ _
        have took : skip ⟨⟨scanner, some token⟩, arguments⟩ =
            .ok () ⟨⟨scanner, none⟩, arguments⟩ := skip_of_ahead rfl
        rw [bind_of_ok took]
        exact ⟨rfl, Nat.le_add_right _ _⟩
      · cases kind : token.kind with
        | newLine =>
            apply ample_skip (by rw [kind]; decide)
            intro _
            exact inductionHypothesis (items.within (Nat.sub_le room 1)) (by omega)
        | endOfFile =>
            apply ample_next
            · intro found _
              exact ⟨_, rfl, rfl⟩
            · intro _ found _
              exact ample_unexpected _ _
        | _ =>
            apply Ample.facing _ token
            apply (items.bind fun _ first => ?_ : Ample Anywhere room 0 _ _)
            exact (inductionHypothesis (items.within (Nat.sub_le room 1)) (by omega)).bind
              fun _ others => ample_pure _

theorem ample_bracedBlock (items : Ample Anywhere (room - 1) 1 item otherItem)
    (enough : room ≤ steps) :
    Ample Anywhere room 1 (bracedBlock item steps) (bracedBlock otherItem (steps + more)) := by
  apply (ample_consume (by decide)).bind
  intro _ opening
  exact (ample_statementsUntil more items .closeBrace (by omega)).bind
    fun _ statements => ample_pure _

theorem ample_onArguments {α : Type} (step : EStateM SetupFault Arguments α) :
    Ample Anywhere room 0 (onArguments step) (onArguments step) := by
  intro reader _ _
  refine ⟨rfl, ?_⟩
  unfold onArguments
  cases step reader.arguments with
  | ok result after => exact Nat.le_refl _
  | error fault after => rintro ⟨⟩

theorem ample_declaration : Ample Anywhere room 1 declaration declaration := by
  have ended : ∀ {token : Token} {kind : Token.Kind}, token.kind = .endOfFile →
      kind ≠ .endOfFile → ¬ token.kind = kind :=
    fun atEnd notEnd same => notEnd (same.symm.trans atEnd)
  apply ample_next
  · intro name atEnd
    exact ⟨_, if_neg (ended atEnd (by decide)), if_neg (ended atEnd (by decide))⟩
  intro _ name _
  refine Ample.ite (fun _ => ?_) fun _ => ample_fail _
  apply ample_next
  · intro colon atEnd
    exact ⟨_, if_neg (ended atEnd (by decide)), if_neg (ended atEnd (by decide))⟩
  intro _ colon _
  refine Ample.ite (fun _ => ?_) fun _ => ample_fail _
  apply ample_next
  · intro tag atEnd
    have untyped := ended atEnd (show Token.Kind.typeTag ≠ .endOfFile by decide)
    exact ⟨.malformedDeclaration (.noType name.text tag), by simp only [if_neg untyped],
      by simp only [if_neg untyped]⟩
  intro _ tag _
  generalize (if tag.kind = .typeTag then Value.Kind.ofName? tag.text else none) = kind?
  cases kind? with
  | none => exact ample_fail _
  | some kind => exact (ample_onArguments _).bind fun _ value => ample_pure _

variable (names : Names)

theorem ample_expression (enough : 2 * room + 2 ≤ steps) :
    Ample Anywhere room 1 (ranked names steps expressionRank)
      (ranked names (steps + more) expressionRank) :=
  (ample_expressions names more steps).1 room expressionRank enough

theorem ample_namedStatement (enough : 2 * room + 2 ≤ steps) (name : Token) :
    Ample Anywhere room 0 (namedStatement names steps name)
      (namedStatement names (steps + more) name) := by
  have expressions := ample_expression more names enough
  refine Ample.ite (fun _ => ?_) fun _ => ?_
  · exact (ample_bareArguments more expressions (by omega)).bind fun _ arguments => ample_pure _
  · apply ample_next
    · intro token ended
      exact ⟨.unexpectedToken token (.either .equals .dot), by simp only [ended]; rfl,
        by simp only [ended]; rfl⟩
    · intro _ token _
      have within := expressions.within (Nat.sub_le room 1)
      cases token.kind with
      | equals => exact (within.fewer (Nat.zero_le 1)).bind fun _ value => ample_pure _
      | dot =>
          apply (ample_consumeIdentifier.fewer (Nat.zero_le 1)).bind
          intro _ method
          have inside : Ample Anywhere (room - 1) 1
              (callArguments (ranked names steps expressionRank) steps)
              (callArguments (ranked names (steps + more) expressionRank) (steps + more)) :=
            ample_callArguments more within (by omega)
          exact (inside.fewer (Nat.zero_le 1)).bind fun _ arguments => ample_pure _
      | _ => exact ample_unexpected _ _

theorem ample_loop (items : ∀ less, less + 1 ≤ room → Ample Anywhere less 1 item otherItem)
    (enough : 2 * room + 2 ≤ steps) (line : Nat) :
    Ample Anywhere room 0 (loop names item steps line)
      (loop names otherItem (steps + more) line) := by
  apply ample_consumeIdentifier.bind
  intro _ iterator
  apply (ample_consumeKeyword "in").bind
  intro _ _
  apply ((ample_expression more names (by omega)).fewer (Nat.zero_le 1)).bind
  intro _ iterable
  have body := ample_bracedBlock more (items (room - 1 - 1 - 0 - 1) (by omega))
    (show room - 1 - 1 - 0 ≤ steps by omega)
  exact (body.fewer (Nat.zero_le 1)).bind fun _ body => ample_pure _

theorem ample_declarations (enough : room < steps) (line : Nat) :
    Ample Anywhere room 0 (declarations steps line) (declarations (steps + more) line) :=
  ((ample_separated more ample_declaration enough).fewer (Nat.zero_le 1)).bind
    fun _ _ => ample_pure _

theorem ample_ended {statement other : Read Node}
    (ample : Ample Anywhere room 0 statement other) :
    Ample Anywhere room 0 (ended statement) (ended other) := by
  apply ample.bind
  intro _ node
  exact ample_expectStatementEnd.bind fun _ _ => ample_pure _

/-- Both functions hand on their steps less one. -/
theorem ample_statements (steps : Nat) :
    (∀ room, 2 * room + 2 ≤ steps →
        Ample Anywhere room 1 (statementWithin names steps)
          (statementWithin names (steps + more))) ∧
      ∀ room line, 2 * room + 3 ≤ steps →
        Ample Anywhere room 1 (conditionalWithin names steps line)
          (conditionalWithin names (steps + more) line) := by
  induction steps with
  | zero => exact ⟨fun _ enough => by omega, fun _ _ enough => by omega⟩
  | succ steps inductionHypothesis =>
      rcases inductionHypothesis with ⟨statements, conditionals⟩
      rw [Nat.add_right_comm]
      constructor
      · intro room enough
        rw [statementWithin, statementWithin]
        apply ample_next
        · intro token ended
          exact ⟨.unexpectedStatement token, by simp only [ended], by simp only [ended]⟩
        · intro _ token _
          have flags : ∀ flag, Ample Anywhere (room - 1) 0 (ended (pure (.flag flag token.line)))
              (ended (pure (.flag flag token.line))) :=
            fun flag => ample_ended (ample_pure _)
          cases token.kind with
          | identifier => exact ample_ended (ample_namedStatement more names (by omega) token)
          | keyword =>
              refine Ample.ite (fun _ => ?_) fun _ => ?_
              · exact (conditionals (room - 1) token.line (by omega)).fewer (Nat.zero_le 1)
              refine Ample.ite (fun _ => ?_) fun _ => ?_
              · exact ample_ended (ample_loop more names
                  (fun less inside => statements less (by omega)) (by omega) token.line)
              refine Ample.ite (fun _ => ?_) fun _ => ?_
              · exact ample_ended (ample_declarations more (by omega) token.line)
              refine Ample.ite (fun _ => flags .break) fun _ => ?_
              exact Ample.ite (fun _ => flags .halt) fun _ => ample_fail _
          | _ => exact ample_fail _
      · intro room line enough
        rw [conditionalWithin, conditionalWithin]
        apply (ample_expression more names (by omega)).bind
        intro _ condition
        have branches : ∀ less, less < room → Ample Anywhere less 1
            (bracedBlock (statementWithin names steps) steps)
            (bracedBlock (statementWithin names (steps + more)) (steps + more)) :=
          fun less inside => ample_bracedBlock more (statements (less - 1) (by omega)) (by omega)
        apply ((branches (room - 1) (by omega)).fewer (Nat.zero_le 1)).bind
        intro _ thenBranch
        apply (ample_skipNewLines more (by omega)).bind
        intro _ _
        apply ample_peek
        intro follower
        refine Ample.ite (fun isElse => ?_) fun _ => ample_pure _
        apply ample_skip (by rw [kind_of_isKeyword isElse]; decide)
        intro _
        apply ample_peek
        intro chained
        refine Ample.ite (fun isIf => ?_) fun _ => Ample.facing ?_ chained
        · apply ample_skip (by rw [kind_of_isKeyword isIf]; decide)
          intro _
          exact ((conditionals _ chained.line (by omega)).fewer (Nat.zero_le 1)).bind
            fun _ nested => ample_pure _
        · exact ((branches _ (by omega)).fewer (Nat.zero_le 1)).bind
            fun _ elseBranch => ample_pure _

end Statements

/-! ## Sources -/

/-- The steps that a reader allows itself, and what is left to read. -/
theorem allowance_enough (reader : Reader) : 2 * reader.lexer.unread + 2 ≤ reader.allowance := by
  have few : reader.lexer.unread ≤ reader.lexer.remaining := by
    unfold Lexer.unread Lexer.remaining
    apply Nat.add_le_add_left
    cases reader.lexer.ahead with
    | none => exact Nat.le_refl _
    | some token =>
        simp only [Option.isSome_some, if_true]
        split <;> omega
  unfold allowance
  omega

/-- A reader allows itself steps enough for whatever is left. -/
theorem ample_allowance (names : Names) (reader : Reader) (more : Nat) :
    Ample Anywhere reader.lexer.unread 0
      (statementsUntil (statementWithin names reader.allowance) .endOfFile reader.allowance)
      (statementsUntil (statementWithin names (reader.allowance + more)) .endOfFile
        (reader.allowance + more)) := by
  have enough := allowance_enough reader
  exact ample_statementsUntil more ((ample_statements more names reader.allowance).1 _ enough)
    .endOfFile (by omega)

/-- Within a reading an expression is read as it is by itself. -/
theorem ranked_eq_expression {names : Names} {reader : Reader} {steps : Nat}
    (enough : 2 * reader.lexer.unread + 2 ≤ steps) :
    ranked names steps expressionRank reader = expression names reader := by
  obtain ⟨further, rfl⟩ := Nat.exists_eq_add_of_le enough
  obtain ⟨more, allowed⟩ := Nat.exists_eq_add_of_le (allowance_enough reader)
  have least (extra : Nat) := ample_expression extra names
    (Nat.le_refl (2 * reader.lexer.unread + 2)) reader trivial (Nat.le_refl _)
  rw [(least further).1, ← (least more).1, ← allowed]
  rfl

end Reader

/-- What is made of the statements of a source. -/
def compiled : EStateM.Result Fault Reader (List Node) → EStateM.Result Fault Arguments Program
  | .ok statements final => .ok ⟨.mk false statements 1⟩ final.arguments
  | .error fault final => .error fault final.arguments

/-- Compiling is reading with any number of steps from the reader's own allowance on, and the steps
do not run out. -/
theorem compile_within (library : Library) (source : String) (arguments : Arguments) {steps : Nat}
    (enough : 8 * (source.toList.length + 1) ≤ steps) :
    compile library source arguments =
        compiled (Reader.statementsUntil (Reader.statementWithin library.hasFunction steps)
          .endOfFile steps ⟨.ofSource source, arguments⟩) ∧
      ∀ rest, compile library source arguments ≠ .error .exhausted rest := by
  obtain ⟨more, rfl⟩ := Nat.exists_eq_add_of_le enough
  have ample := Reader.ample_allowance library.hasFunction ⟨.ofSource source, arguments⟩ more
    ⟨.ofSource source, arguments⟩ trivial (Nat.le_refl _)
  have allowance : (⟨.ofSource source, arguments⟩ : Reader).allowance =
      8 * (source.toList.length + 1) := rfl
  rw [allowance] at ample
  rw [compile, Reader.program_eq, allowance, ample.1]
  cases ran : Reader.statementsUntil
      (Reader.statementWithin library.hasFunction (8 * (source.toList.length + 1))) .endOfFile
      (8 * (source.toList.length + 1)) ⟨.ofSource source, arguments⟩ with
  | ok statements final =>
      rw [bind_of_ok ran]
      exact ⟨rfl, fun _ failed => by cases failed⟩
  | error fault final =>
      rw [ran] at ample
      rw [bind_of_error ran]
      refine ⟨rfl, ?_⟩
      rintro rest ⟨⟩
      exact ample.2 rfl

end Scriptlet
