import Scriptlet.Proofs.NodeLines
import Scriptlet.Proofs.SpentTokens

namespace Scriptlet

/-!
# Progress of reading

Reading ends, it never gives anything back, and it makes no more than its tokens pay for.  The
steps that a reader allows itself are enough for whatever is left, since tokens are taken between
them.  What is made has a root, and the root has to be paid for, so whoever returns a node has taken
a token for it that is not the end of the text.
-/

namespace Reader

/-! ## Whole readings -/

section Readings

variable (names : Names)

/-- A block that is read with so many steps. -/
def blockWithin (closing : Token.Kind) (framed : Bool) (line steps : Nat) : Read Block := do
  let statements ← statementsUntil (statementWithin names steps) closing steps
  pure (.mk framed statements line)

/-- A program that is read with so many steps. -/
def programWithin (steps : Nat) : Read Program := do
  let root ← blockWithin names .endOfFile false 1 steps
  pure ⟨root⟩

theorem block_eq_within (closing : Token.Kind) (framed : Bool) (line : Nat) (reader : Reader) :
    block names closing framed line reader =
      blockWithin names closing framed line reader.allowance reader :=
  rfl

theorem program_eq_within (reader : Reader) :
    program names reader = programWithin names reader.allowance reader := by
  rw [program, programWithin]
  cases ran : blockWithin names .endOfFile false 1 reader.allowance reader with
  | ok root after =>
      rw [bind_of_ok ran, bind_of_ok ((block_eq_within names _ _ _ reader).trans ran)]
  | error fault after =>
      rw [bind_of_error ran, bind_of_error ((block_eq_within names _ _ _ reader).trans ran)]

/-- The block itself is left to who asked for it. -/
theorem spends_block (closing : Token.Kind) (framed : Bool) (line : Nat) :
    Spends Anywhere 1 (block names closing framed line) Block.size := by
  intro reader start
  have items := (spends_statements names reader.allowance).1
  have within : Spends Anywhere 1 (blockWithin names closing framed line reader.allowance)
      Block.size := by
    apply (spends_statementsUntil items closing reader.allowance).bind
    intro statements
    apply spends_pure
    rw [Block.size]
  exact within reader start

theorem spends_program : Spends Anywhere 1 (program names) fun program => program.root.size :=
  (spends_block names .endOfFile false 1).bind fun _ => spends_pure (Nat.le_refl _)

variable {names}

/-- From the reader's own allowance on the number of steps makes no difference, and the steps do
not run out. -/
def Ends {α : Type} (reader : Reader) (step : Read α) (within : Nat → Read α) : Prop :=
  (∀ steps, reader.allowance ≤ steps → within steps reader = step reader) ∧
    ∀ after, step reader ≠ .error .exhausted after

theorem ends_of_ample {α : Type} {reader : Reader} {step : Read α} {within : Nat → Read α}
    {taken : Nat} (whole : step reader = within reader.allowance reader)
    (ample : ∀ more, Ample Anywhere reader.lexer.unread taken (within reader.allowance)
      (within (reader.allowance + more))) : Ends reader step within := by
  have agrees (more : Nat) := ample more reader trivial (Nat.le_refl _)
  constructor
  · intro steps enough
    obtain ⟨more, rfl⟩ := Nat.exists_eq_add_of_le enough
    rw [whole]
    exact (agrees more).1
  · intro after failed
    have outcome := (agrees 0).2
    rw [← whole, failed] at outcome
    exact outcome rfl

theorem ends_expression (reader : Reader) :
    Ends reader (expression names) fun steps => ranked names steps expressionRank :=
  ends_of_ample rfl fun more => ample_expression more names (allowance_enough reader)

theorem ends_statement (reader : Reader) :
    Ends reader (statement names) (statementWithin names) :=
  ends_of_ample rfl fun more =>
    (ample_statements more names reader.allowance).1 _ (allowance_enough reader)

theorem ample_blockWithin (closing : Token.Kind) (framed : Bool) (line : Nat) (reader : Reader)
    (more : Nat) :
    Ample Anywhere reader.lexer.unread 0 (blockWithin names closing framed line reader.allowance)
      (blockWithin names closing framed line (reader.allowance + more)) := by
  have enough := allowance_enough reader
  have items := (ample_statements more names reader.allowance).1 _ enough
  exact (ample_statementsUntil more items closing (by omega)).bind fun _ _ => ample_pure _

theorem ends_block (closing : Token.Kind) (framed : Bool) (line : Nat) (reader : Reader) :
    Ends reader (block names closing framed line) (blockWithin names closing framed line) :=
  ends_of_ample rfl (ample_blockWithin closing framed line reader)

theorem ends_program (reader : Reader) : Ends reader (program names) (programWithin names) :=
  ends_of_ample (program_eq_within names reader) fun more =>
    (ample_blockWithin .endOfFile false 1 reader more).bind fun _ _ => ample_pure _

/-- The functions that reading is made of. -/
inductive Part (names : Names) : {α : Type} → Read α → Prop
  | peek : Part names peek
  | peekKind : Part names peekKind
  | consume (kind : Token.Kind) : Part names (consume kind)
  | keyword (word : String) : Part names (consumeKeyword word)
  | identifier : Part names consumeIdentifier
  | statementEnd : Part names expectStatementEnd
  | ranked (steps rank : Nat) : Part names (ranked names steps rank)
  | factor (steps : Nat) : Part names (factor names steps)
  | named (steps more : Nat) (name : Token) :
      Part names (named names (Reader.ranked names steps expressionRank) more name)
  | range (steps : Nat) (token : Token) :
      Part names (rangeLiteral (Reader.ranked names steps expressionRank) token)
  | array (steps line more : Nat) :
      Part names (array (Reader.ranked names steps expressionRank) line more)
  | callArguments (steps more : Nat) :
      Part names (callArguments (Reader.ranked names steps expressionRank) more)
  | bareArguments (steps more : Nat) :
      Part names (bareArguments (Reader.ranked names steps expressionRank) more)
  | namedStatement (steps : Nat) (name : Token) : Part names (namedStatement names steps name)
  | statementWithin (steps : Nat) : Part names (statementWithin names steps)
  | conditional (steps line : Nat) : Part names (conditionalWithin names steps line)
  | loop (steps more line : Nat) :
      Part names (loop names (Reader.statementWithin names steps) more line)
  | declarations (steps line : Nat) : Part names (declarations steps line)
  | braced (steps more : Nat) :
      Part names (bracedBlock (Reader.statementWithin names steps) more)
  | expression : Part names (expression names)
  | statement : Part names (statement names)
  | block (closing : Token.Kind) (framed : Bool) (line : Nat) :
      Part names (block names closing framed line)
  | program : Part names (program names)

theorem Spends.advances {α : Type} {paid : Nat} {step : Read α} {size : α → Nat}
    (spends : Spends Anywhere paid step size) (reader : Reader) :
    ∃ taken, reader.lexer.Advances taken (left (step reader)).lexer := by
  have ended := spends reader trivial
  cases ran : step reader with
  | ok result after =>
      rw [ran] at ended
      obtain ⟨tokens, advances, _⟩ := ended
      exact ⟨_, advances⟩
  | error fault after =>
      rw [ran] at ended
      exact ended

/-- No part of a reading gives anything back, whatever comes of it. -/
theorem Part.advances {α : Type} {step : Read α} (part : Part names step) (reader : Reader) :
    ∃ taken, reader.lexer.Advances taken (left (step reader)).lexer := by
  have expressions (steps : Nat) := spends_ranked names steps expressionRank
  have items (steps : Nat) := (spends_statements names steps).1
  cases part with
  | peek => exact spends_look.advances reader
  | peekKind =>
      have kinds : Spends Anywhere 0 Reader.peekKind fun _ => 0 :=
        spends_look.bind fun _ => spends_pure (Nat.le_refl 0)
      exact kinds.advances reader
  | consume kind => exact (spends_consumeAny kind).advances reader
  | keyword word => exact (spends_consumeKeyword word : Spends Anywhere 0 _ _).advances reader
  | identifier => exact (spends_consumeIdentifier : Spends Anywhere 0 _ _).advances reader
  | statementEnd => exact (spends_expectStatementEnd : Spends Anywhere 0 _ _).advances reader
  | ranked steps rank => exact (spends_ranked names steps rank).advances reader
  | factor steps => exact (spends_expressions names steps).2.advances reader
  | named steps more name =>
      exact (spends_named names (expressions steps) more name).advances reader
  | range steps token => exact (spends_rangeLiteral (expressions steps) token).advances reader
  | array steps line more => exact (spends_array (expressions steps) line more).advances reader
  | callArguments steps more =>
      exact (spends_callArguments (expressions steps) more : Spends Anywhere 0 _ _).advances reader
  | bareArguments steps more =>
      exact (spends_bareArguments (expressions steps) more : Spends Anywhere 0 _ _).advances reader
  | namedStatement steps name => exact (spends_namedStatement names steps name).advances reader
  | statementWithin steps => exact (items steps).advances reader
  | conditional steps line => exact ((spends_statements names steps).2 line).advances reader
  | loop steps more line => exact (spends_loop names (items steps) more line).advances reader
  | declarations steps line => exact (spends_declarations steps line).advances reader
  | braced steps more => exact (spends_bracedBlock (items steps) more).advances reader
  | expression => exact (spends_expression names).advances reader
  | statement => exact (spends_statement names).advances reader
  | block closing framed line => exact (spends_block names closing framed line).advances reader
  | program => exact (spends_program names).advances reader

/-- What a node is read from has a token in it that is not the end. -/
theorem Spends.takes {step : Read Node} (spends : Spends Anywhere 0 step Node.size)
    {reader after : Reader} {node : Node} (read : step reader = .ok node after) :
    ∃ tokens : List Token, reader.lexer.Advances (tokens.map .ok) after.lexer ∧
      ∃ token ∈ tokens, token.kind ≠ .endOfFile := by
  have ended := spends reader trivial
  rw [read] at ended
  obtain ⟨tokens, advances, pays⟩ := ended
  have positive := node.size_pos
  exact ⟨tokens, advances, Token.exists_of_worths_pos (by omega)⟩

end Readings
end Reader

/-! ## Sources -/

namespace Scanner

theorem tokensWithin_ne_nil {scanner : Scanner} {scans : Nat}
    (enough : scanner.rest.length < scans) : scanner.tokensWithin scans ≠ [] := by
  induction scans generalizing scanner with
  | zero => exact absurd enough (Nat.not_lt_zero _)
  | succ scans inductionHypothesis =>
      rcases scanned : scanner.scan with ⟨outcome, after⟩
      cases outcome with
      | ok token =>
          simp only [tokensWithin, scanned]
          split <;> exact List.cons_ne_nil _ _
      | error fault =>
          have shorter := scan_shortens scanned (by rintro ⟨⟩)
          simp only [tokensWithin, scanned]
          exact inductionHypothesis (by omega)

/-- However often the end of a text is taken, the tokens of the text pay for as much. -/
theorem worths_le_of_results {scanner : Scanner} {taken : List Token} {scans : Nat}
    (given : Lexer.results taken.length ⟨scanner, none⟩ = taken.map .ok)
    (enough : scanner.rest.length < scans) :
    Token.worths taken + 3 ≤ 3 * (scanner.tokensWithin scans).length := by
  induction taken generalizing scanner scans with
  | nil =>
      have nonempty := List.length_pos_iff.mpr (tokensWithin_ne_nil enough)
      change 0 + 3 ≤ _
      omega
  | cons token rest inductionHypothesis =>
      obtain ⟨scans, rfl⟩ : ∃ fewer, scans = fewer + 1 := ⟨scans - 1, by omega⟩
      have others := (List.cons.inj given).2
      have scanned : scanner.scan = (.ok token, scanner.scan.2) := by
        have first := (List.cons.inj given).1
        rw [Lexer.answered_next] at first
        exact Prod.ext first rfl
      rw [Lexer.answered_next] at others
      by_cases ends : token.kind = .endOfFile
      · have atEnd := scan_of_end (ended_of_endOfFile scanned ends)
        have ended : ∀ found ∈ token :: rest, found.kind = .endOfFile := by
          intro found member
          rw [Lexer.results_of_ended atEnd] at given
          have result : (.ok found : Except SyntaxFault Token) ∈ (token :: rest).map .ok :=
            List.mem_map_of_mem member
          rw [← given] at result
          cases List.eq_of_mem_replicate result
          rfl
        have nonempty := List.length_pos_iff.mpr (tokensWithin_ne_nil enough)
        rw [Token.worths_of_ended ended]
        omega
      · have shorter := scan_shortens scanned (by rintro ⟨⟩; exact ends rfl)
        have behind := inductionHypothesis others (show _ < scans by omega)
        have split : scanner.tokensWithin (scans + 1) =
            token :: scanner.scan.2.tokensWithin scans := by
          rw [tokensWithin, scanned]
          exact if_neg ends
        rw [split, Token.worths_cons, Token.worth, if_neg ends, List.length_cons]
        omega

end Scanner

/-- What is compiled has no more nodes and blocks than three for each token of its source. -/
theorem size_of_compile {library : Library} {source : String} {arguments rest : Arguments}
    {program : Program} (compiled : compile library source arguments = .ok program rest) :
    program.root.size ≤ 3 * (Token.ofSource source).length := by
  obtain ⟨reader, ran, _⟩ := compile_iff_program.mp compiled
  have spends := Reader.spends_program library.hasFunction ⟨.ofSource source, arguments⟩ trivial
  rw [ran] at spends
  obtain ⟨tokens, advances, pays⟩ := spends
  have given := advances 0
  rw [List.length_map, Nat.add_zero, Lexer.results, List.append_nil] at given
  have covered : Token.worths tokens + 3 ≤ 3 * (Token.ofSource source).length :=
    Scanner.worths_le_of_results given (Nat.lt_succ_self _)
  have bound : program.root.size ≤ 1 + Token.worths tokens := pays
  omega

/-- Reading ends and goes forwards.  Expressions, statements, blocks and programs are read by every
reader in so many steps as it allows itself, or in any number beyond that, with the same outcome.
No part of a reading gives back anything that has been taken.  An expression or a statement that is
read has taken a token that is not the end of the text.  A program that is compiled has no more
nodes and blocks than three for each token of its source. -/
theorem reading_progresses :
    (∀ (names : Reader.Names) (reader : Reader),
      reader.Ends (Reader.expression names)
        (fun steps => Reader.ranked names steps Reader.expressionRank) ∧
      reader.Ends (Reader.statement names) (Reader.statementWithin names) ∧
      (∀ closing framed line, reader.Ends (Reader.block names closing framed line)
        (Reader.blockWithin names closing framed line)) ∧
      reader.Ends (Reader.program names) (Reader.programWithin names) ∧
      (∀ {α : Type} (step : Reader.Read α), Reader.Part names step →
        ∃ taken, reader.lexer.Advances taken (Reader.left (step reader)).lexer) ∧
      ∀ node after, Reader.expression names reader = .ok node after ∨
          Reader.statement names reader = .ok node after →
        ∃ tokens : List Token, reader.lexer.Advances (tokens.map .ok) after.lexer ∧
          ∃ token ∈ tokens, token.kind ≠ .endOfFile) ∧
    ∀ library source arguments program rest,
      compile library source arguments = .ok program rest →
      program.root.size ≤ 3 * (Token.ofSource source).length := by
  refine ⟨fun names reader => ⟨Reader.ends_expression reader, Reader.ends_statement reader,
    fun closing framed line => Reader.ends_block closing framed line reader,
    Reader.ends_program reader, fun step part => part.advances reader, ?_⟩,
    fun _ _ _ _ _ compiled => size_of_compile compiled⟩
  rintro node after (read | read)
  · exact (Reader.spends_expression names).takes read
  · exact (Reader.spends_statement names).takes read

/-- The chained conditional stands in a block that no brace is written for. -/
theorem reading_progresses_chained :
    let source := "if x \x7b\x7d else if y \x7b\x7d"
    let reader : Reader := ⟨.ofSource source, ⟨[], {}⟩⟩
    (∃ node after, Reader.statement (fun _ => false) reader = .ok node after ∧ node.size = 7 ∧
      ∃ tokens : List Token, reader.lexer.Advances (tokens.map .ok) after.lexer ∧
        ∃ token ∈ tokens, token.kind ≠ .endOfFile) ∧
    ∃ program rest, compile ⟨[], []⟩ source ⟨[], {}⟩ = .ok program rest ∧
      program.root.size = 8 ∧ program.root.size ≤ 3 * (Token.ofSource source).length := by
  intro source reader
  have statement : Reader.statement (fun _ => false) reader = .ok
      (.conditional (.variable "x" 1) (.mk true [] 1)
        (some (.mk false [.conditional (.variable "y" 1) (.mk true [] 1) none 1] 1)) 1)
      ⟨⟨⟨[], 1⟩, some ⟨.endOfFile, "", 1⟩⟩, ⟨[], {}⟩⟩ := by cbv
  have compiled : compile ⟨[], []⟩ source ⟨[], {}⟩ = .ok
      ⟨.mk false
        [.conditional (.variable "x" 1) (.mk true [] 1)
          (some (.mk false [.conditional (.variable "y" 1) (.mk true [] 1) none 1] 1)) 1] 1⟩
      ⟨[], {}⟩ := by cbv
  have takes := (reading_progresses.1 (fun _ => false) reader).2.2.2.2.2 _ _ (Or.inr statement)
  have bound := reading_progresses.2 _ _ _ _ _ compiled
  exact ⟨⟨_, _, statement, rfl, takes⟩, _, _, compiled, rfl, bound⟩

end Scriptlet
