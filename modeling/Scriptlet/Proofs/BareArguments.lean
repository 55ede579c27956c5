import Scriptlet.Proofs.Precedence

namespace Scriptlet

/-!
# Calls without parentheses

Two lists of tokens have to agree for a call without parentheses: the ones that an expression
can begin with, and the ones at which there are no arguments.  No token is on both.  But some
are on neither: the other operators, a comma, a point, a colon, a type name and most keywords.
A function that one of these follows is not called without arguments: the token is reported
where an expression was expected.
-/

/-- An operand can begin with the token. -/
def Token.startsExpression (token : Token) : Bool :=
  match token.kind with
  | .number | .string | .identifier | .openParen | .openBracket | .range => true
  | .minus | .unaryOperator => true
  | .keyword => token.text = "true" || token.text = "false"
  | _ => false

/-- No expression begins where bare arguments end. -/
theorem Token.startsExpression_of_endsArguments {token : Token}
    (ends : Reader.endsArguments token.kind = true) : token.startsExpression = false := by
  unfold startsExpression
  cases kind : token.kind <;> first | rfl | (rw [kind] at ends; cases ends)

namespace Reader

variable {names : Names} {reader ahead after : Reader} {token : Token}

/-- To look at the next token takes nothing. -/
theorem next_of_peek (looked : peek reader = .ok token ahead) : next ahead = next reader := by
  obtain ⟨lexer, ran, rfl⟩ := lexer_of_peek looked
  rw [next_of_ok reader ran, next_of_ahead rfl]
  have empty := Lexer.ahead_of_next ran
  cases lexer with
  | mk scanner kept =>
      cases empty
      rfl

/-- What has been looked at is what is taken next. -/
theorem next_of_looked (looked : peek reader = .ok token ahead) :
    ∃ after, next ahead = .ok token after :=
  ⟨_, next_of_ahead (ahead_of_peek looked)⟩

/-! ## Tokens that no expression begins with -/

theorem factor_unstarted (names : Names) (steps : Nat) (took : next reader = .ok token after)
    (unstarted : token.startsExpression = false) :
    factor names (steps + 1) reader =
      .error (.source (.unexpectedToken token .expression)) after := by
  rw [factor, bind_of_ok took]
  unfold Token.startsExpression at unstarted
  cases kind : token.kind with
  | keyword =>
      simp only [kind, Bool.or_eq_false_iff, decide_eq_false_iff_not] at unstarted
      simp only [truthLiteral, if_neg unstarted.1, if_neg unstarted.2]
      rfl
  | number | string | identifier | openParen | openBracket | range | minus | unaryOperator =>
      simp only [kind, Bool.true_eq_false] at unstarted
  | equals | binaryOperator | closeParen | closeBracket | openBrace | closeBrace | comma | dot
  | colon | typeTag | newLine | endOfFile =>
      rfl

theorem ranked_unstarted (names : Names) {steps : Nat} (enough : 2 ≤ steps) (rank : Nat)
    (took : next reader = .ok token after) (unstarted : token.startsExpression = false) :
    ranked names steps rank reader =
      .error (.source (.unexpectedToken token .expression)) after := by
  obtain ⟨steps, rfl⟩ : ∃ fewer, steps = fewer + 2 := ⟨steps - 2, by omega⟩
  rw [ranked, bind_of_error (factor_unstarted names steps took unstarted)]

/-! ## Tokens that some expression begins with -/

/-- There is a text whose first token is the given one and that an expression is read from. -/
def BeginsExpression (token : Token) : Prop :=
  ∃ names text after node final, next (before text) = .ok token after ∧
    expression names (before text) = .ok node final

theorem not_beginsExpression (unstarted : token.startsExpression = false) :
    ¬ BeginsExpression token := by
  rintro ⟨names, text, after, node, final, took, read⟩
  have enough : 2 ≤ (before text).allowance := by
    unfold allowance
    omega
  have failed := ranked_unstarted names enough expressionRank took unstarted
  rw [expression, failed] at read
  cases read

/-- An atom by itself is an expression. -/
theorem beginsExpression_of_atom (names : Names) {text : String} {node : Node}
    (took : next (before text) = .ok token (before ""))
    (atom : Atom names (before text) node token (before "")) : BeginsExpression token := by
  have ends : peek (before "") = .ok ⟨.endOfFile, "", 1⟩
      ⟨⟨⟨[], 1⟩, some ⟨.endOfFile, "", 1⟩⟩, ⟨[], {}⟩⟩ := by cbv
  have lawful : (before text).Lawful := fun _ none => by cases none
  have apart : ¬ Continues token ⟨.endOfFile, "", 1⟩ := by
    rintro ⟨_, dot | ⟨range, _⟩⟩
    · cases dot
    · cases range
  have reads := atom.readsOperand lawful (Nat.le_refl _) ends apart
  rcases expression_of_standing reads (.ended (peek_again ends) rfl) with ⟨tree, _, read⟩
  exact ⟨names, text, before "", tree, _, took, read⟩

/-- Nothing is a function. -/
def noNames : Names := fun _ => false

/-- Of a token that expressions begin with, only the kind matters, and the word of a keyword. -/
theorem exists_beginsExpression (starts : token.startsExpression = true) :
    ∃ first : Token, first.kind = token.kind ∧
      (token.kind = .keyword → first.text = token.text) ∧ BeginsExpression first := by
  unfold Token.startsExpression at starts
  have other : ∀ {kind : Token.Kind} {word : String}, kind ≠ .keyword → kind = .keyword →
      word = token.text :=
    fun apart same => absurd same apart
  cases kind : token.kind with
  | number =>
      have took : next (before "1") = .ok ⟨.number, "1", 1⟩ (before "") := by cbv
      exact ⟨_, rfl, other (by decide), beginsExpression_of_atom noNames took (.number took rfl)⟩
  | range =>
      have took : next (before "1..2") = .ok ⟨.range, "1..2", 1⟩ (before "") := by cbv
      have runs : digitRuns ⟨.range, "1..2", 1⟩ = ["1".toList, "2".toList] := by cbv
      have first : Number.decimalValue "1".toList ≤ Number.largestWhole := by
        rw [Number.decimalValue_eq_foldl]
        decide
      have last : Number.decimalValue "2".toList ≤ Number.largestWhole := by
        rw [Number.decimalValue_eq_foldl]
        decide
      exact ⟨_, rfl, other (by decide),
        beginsExpression_of_atom noNames took (.range took rfl runs first last)⟩
  | string =>
      have took : next (before "\"\"") = .ok ⟨.string, "", 1⟩ (before "") := by cbv
      exact ⟨_, rfl, other (by decide), beginsExpression_of_atom noNames took (.text took rfl)⟩
  | identifier =>
      have took : next (before "a") = .ok ⟨.identifier, "a", 1⟩ (before "") := by cbv
      exact ⟨_, rfl, other (by decide), beginsExpression_of_atom noNames took (.name took rfl rfl)⟩
  | keyword =>
      simp only [kind, Bool.or_eq_true, decide_eq_true_eq] at starts
      rcases starts with word | word
      · have took : next (before "true") = .ok ⟨.keyword, "true", 1⟩ (before "") := by cbv
        exact ⟨_, rfl, fun _ => word.symm,
          beginsExpression_of_atom noNames took (.truth true took rfl rfl)⟩
      · have took : next (before "false") = .ok ⟨.keyword, "false", 1⟩ (before "") := by cbv
        exact ⟨_, rfl, fun _ => word.symm,
          beginsExpression_of_atom noNames took (.truth false took rfl rfl)⟩
  | openParen =>
      have took : next (before "(a)") = .ok ⟨.openParen, "(", 1⟩ (before "a)") := by cbv
      exact ⟨_, rfl, other (by decide), noNames, "(a)", _, .variable "a" 1, _, took, by cbv⟩
  | openBracket =>
      have took : next (before "[]") = .ok ⟨.openBracket, "[", 1⟩ (before "]") := by cbv
      exact ⟨_, rfl, other (by decide), noNames, "[]", _, .array [] 1, _, took, by cbv⟩
  | minus =>
      have took : next (before "-a") = .ok ⟨.minus, "-", 1⟩ (before "a") := by cbv
      exact ⟨_, rfl, other (by decide), noNames, "-a", _, .unary .negate (.variable "a" 1) 1, _,
        took, by cbv⟩
  | unaryOperator =>
      have took : next (before "not a") = .ok ⟨.unaryOperator, "not", 1⟩ (before " a") := by cbv
      exact ⟨_, rfl, other (by decide), noNames, "not a", _, .unary .not (.variable "a" 1) 1, _,
        took, by cbv⟩
  | equals | binaryOperator | closeParen | closeBracket | openBrace | closeBrace | comma | dot
  | colon | typeTag | newLine | endOfFile =>
      rw [kind] at starts
      cases starts

/-! ## Argument lists -/

section Lists

variable {item : Read Node}

theorem peekKind_of_peek (looked : peek reader = .ok token ahead) :
    peekKind reader = .ok token.kind ahead :=
  bind_of_ok looked

theorem bareArguments_of_ends (steps : Nat) (looked : peek reader = .ok token ahead)
    (ends : endsArguments token.kind = true) :
    bareArguments item steps reader = .ok [] ahead := by
  rw [bareArguments, bind_of_ok (peekKind_of_peek looked), if_pos ends]
  rfl

theorem bareArguments_of_not_ends (steps : Nat) (looked : peek reader = .ok token ahead)
    (goesOn : endsArguments token.kind = false) :
    bareArguments item steps reader = separated item steps ahead := by
  rw [bareArguments, bind_of_ok (peekKind_of_peek looked), if_neg (Bool.eq_false_iff.mp goesOn)]

/-- A list that is begun has its first argument. -/
theorem separated_ne_nil {steps : Nat} {arguments : List Node}
    (read : separated item steps reader = .ok arguments after) : arguments ≠ [] := by
  cases steps with
  | zero => cases read
  | succ steps =>
      rw [separated] at read
      rcases bind_eq_ok read with ⟨first, between, _, read⟩
      rcases bind_eq_ok read with ⟨kind, between, _, read⟩
      split at read
      · rcases bind_eq_ok read with ⟨_, between, _, read⟩
        rcases bind_eq_ok read with ⟨others, between, _, read⟩
        cases read
        exact List.cons_ne_nil first others
      · cases read
        exact List.cons_ne_nil first []

theorem bareArguments_eq_nil_iff (steps : Nat) (looked : peek reader = .ok token ahead) :
    bareArguments item steps reader = .ok [] after ↔
      endsArguments token.kind = true ∧ after = ahead := by
  constructor
  · intro read
    cases ends : endsArguments token.kind with
    | true =>
        rw [bareArguments_of_ends steps looked ends] at read
        cases read
        exact ⟨rfl, rfl⟩
    | false =>
        rw [bareArguments_of_not_ends steps looked ends] at read
        exact absurd rfl (separated_ne_nil read)
  · rintro ⟨ends, rfl⟩
    exact bareArguments_of_ends steps looked ends

theorem bareArguments_unstarted {steps : Nat} (enough : 2 ≤ steps)
    (looked : peek reader = .ok token ahead) (goesOn : endsArguments token.kind = false)
    (unstarted : token.startsExpression = false) (took : next reader = .ok token after) :
    bareArguments (ranked names steps expressionRank) steps reader =
      .error (.source (.unexpectedToken token .expression)) after := by
  have again := (next_of_peek looked).trans took
  rw [bareArguments_of_not_ends steps looked goesOn]
  obtain ⟨steps, rfl⟩ : ∃ fewer, steps = fewer + 1 := ⟨steps - 1, by omega⟩
  rw [separated, bind_of_error (ranked_unstarted names enough expressionRank again unstarted)]

end Lists

/-! ## Calls -/

/-- A call is without arguments when its argument list is empty. -/
theorem call_eq_ok_iff {arguments : Read (List Node)} (function : String) (line : Nat) :
    (do
      let read ← arguments
      pure (Node.call function read line) : Read Node) reader =
        .ok (.call function [] line) after ↔
      arguments reader = .ok [] after := by
  constructor
  · intro read
    rcases bind_eq_ok read with ⟨nodes, between, listed, called⟩
    cases called
    exact listed
  · intro listed
    rw [bind_of_ok listed]
    rfl

theorem namedStatement_eq_call_iff (steps : Nat) {name : Token}
    (called : names name.text = true) (looked : peek reader = .ok token ahead) :
    namedStatement names steps name reader = .ok (.call name.text [] name.line) after ↔
      endsArguments token.kind = true ∧ after = ahead := by
  rw [namedStatement, if_pos called, call_eq_ok_iff]
  exact bareArguments_eq_nil_iff steps looked

theorem named_eq_call_iff {expression : Read Node} (steps : Nat) {name : Token}
    (called : names name.text = true) (looked : peek reader = .ok token ahead)
    (bare : token.kind ≠ .openParen) :
    named names expression steps name reader = .ok (.call name.text [] name.line) after ↔
      endsArguments token.kind = true ∧ after = ahead := by
  have seen := peekKind_of_peek looked
  have again := peekKind_of_peek (peek_again looked)
  rw [named, if_pos called, bind_of_ok seen, if_neg bare, call_eq_ok_iff,
    ← bareArguments_eq_nil_iff steps (peek_again looked)]

/-- A bare argument list is empty exactly at one of the tokens that end argument lists, and then
nothing is taken.  No expression begins with such a token.  A token that is none of them and that
no expression begins with is a fault.  So a function's name makes a call without arguments, as a
statement and in an expression, exactly in front of the tokens that end argument lists. -/
theorem bare_arguments_empty_iff (names : Names) {steps : Nat} (enough : 2 ≤ steps)
    (looked : peek reader = .ok token ahead) :
    (∀ after, bareArguments (ranked names steps expressionRank) steps reader = .ok [] after ↔
      endsArguments token.kind = true ∧ after = ahead) ∧
    next ahead = next reader ∧
    (endsArguments token.kind = true → token.startsExpression = false) ∧
    (endsArguments token.kind = false → token.startsExpression = false →
      ∃ after, next reader = .ok token after ∧
        bareArguments (ranked names steps expressionRank) steps reader =
          .error (.source (.unexpectedToken token .expression)) after) ∧
    ∀ name : Token, names name.text = true → ∀ after,
      (namedStatement names steps name reader = .ok (.call name.text [] name.line) after ↔
        endsArguments token.kind = true ∧ after = ahead) ∧
      (token.kind ≠ .openParen →
        (named names (ranked names steps expressionRank) steps name reader =
            .ok (.call name.text [] name.line) after ↔
          endsArguments token.kind = true ∧ after = ahead)) := by
  refine ⟨fun _ => bareArguments_eq_nil_iff steps looked, next_of_peek looked,
    Token.startsExpression_of_endsArguments, ?_, ?_⟩
  · intro goesOn unstarted
    rcases next_of_looked looked with ⟨after, took⟩
    rw [next_of_peek looked] at took
    exact ⟨after, took, bareArguments_unstarted enough looked goesOn unstarted took⟩
  · intro name called after
    exact ⟨namedStatement_eq_call_iff steps called looked,
      named_eq_call_iff steps called looked⟩

/-- A function without arguments can stand in brackets. -/
theorem bare_arguments_empty_iff_bracket :
    let reader := before "]"
    let ahead : Reader := ⟨⟨⟨[], 1⟩, some ⟨.closeBracket, "]", 1⟩⟩, ⟨[], {}⟩⟩
    peek reader = .ok ⟨.closeBracket, "]", 1⟩ ahead ∧
      named (fun _ => true) (ranked (fun _ => true) 2 expressionRank) 2 ⟨.identifier, "f", 1⟩
          reader =
        .ok (.call "f" [] 1) ahead := by
  intro reader ahead
  have looked : peek reader = .ok ⟨.closeBracket, "]", 1⟩ ahead := by cbv
  have decided := bare_arguments_empty_iff (fun _ => true) (Nat.le_refl 2) looked
  have calls := decided.2.2.2.2 ⟨.identifier, "f", 1⟩ rfl ahead
  exact ⟨looked, (calls.2 (by decide)).mpr ⟨rfl, rfl⟩⟩

/-- No expression begins with a plus sign or with a comma, but no list of arguments is empty in
front of one either, so functions in front of them are not called. -/
theorem bare_arguments_not_empty :
    let names : Names := fun name => name = "f"
    let plus : Token := ⟨.binaryOperator, "+", 1⟩
    let comma : Token := ⟨.comma, ",", 1⟩
    let arguments : Read (List Node) := bareArguments (ranked names 16 expressionRank) 16
    plus.startsExpression = false ∧ comma.startsExpression = false ∧
      next (before " + 1") = .ok plus (before " 1") ∧
      arguments (before " + 1") =
        .error (.source (.unexpectedToken plus .expression)) (before " 1") ∧
      next (before ", 2") = .ok comma (before " 2") ∧
      arguments (before ", 2") =
        .error (.source (.unexpectedToken comma .expression)) (before " 2") ∧
      program names (before "x = f + 1") =
        .error (.source (.unexpectedToken plus .expression)) (before " 1") := by
  intro names plus comma arguments
  exact ⟨rfl, rfl, by cbv, by cbv, by cbv, by cbv, by cbv⟩

end Reader
end Scriptlet
