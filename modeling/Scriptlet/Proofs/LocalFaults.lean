import Mathlib
import Scriptlet.Proofs.Allowance
import Scriptlet.Proofs.JoinedTexts
import Scriptlet.Proofs.Partition

namespace Scriptlet

/-!
# Faults do not depend on what follows

A line break ends every token but an open string, and no construct looks further than one token
ahead.  So a text that ends with a line break and fails before its end is seen fails in the same
way whatever is written behind that line break.

A reading of such a text is followed next to a reading of the text that goes on.  They go alike
until the first one takes the last line break.  From there only the line breaks that are skipped
between statements and in front of an `else` lead on, and all that the first reading can still do
is to return or to report the end of its text.
-/

/-! ## Faults at the end of a text -/

/-- The token at fault. -/
def SyntaxFault.found? : SyntaxFault → Option Token
  | .unexpectedToken found _ => some found
  | .unexpectedStatement found => some found
  | .malformedDeclaration fault => some fault.found
  | .unknownSymbol _ _ | .unterminatedString _ _ => none
  | .unterminatedArray _ | .invalidNumber _ _ | .invalidRange _ _ => none

/-- The token at fault is the end of the text. -/
def Fault.reportsEnd : Fault → Bool
  | .source fault => fault.found?.any fun found => found.kind = .endOfFile
  | .runtime _ | .setup _ | .exhausted => false

/-- The fault is owed to the end of the text, or to a bound on the reader's steps. -/
def Fault.OfEnd (fault : Fault) : Prop :=
  fault = .exhausted ∨ fault.reportsEnd = true ∨
    ∃ literal line, fault = .source (.unterminatedString literal line)

/-! ## Scanning up to the last line break -/

/-- A line break leaves an open string open. -/
theorem Lexeme.first_stays_open {c : Char} {cs : List Char}
    (opened : (first c cs).shape = .openString) : (first c (cs ++ ['\n'])).shape = .openString := by
  rcases first_eq_quoted (Or.inr opened) with ⟨rfl, same⟩
  have unquoted : cs.dropWhile (· ≠ '"') = [] := by
    rw [same] at opened
    unfold quoted at opened
    cases tail : cs.dropWhile (· ≠ '"') with
    | nil => rfl
    | cons close others => simp only [tail, reduceCtorEq] at opened
  have longer : first '"' (cs ++ ['\n']) = quoted (cs ++ ['\n']) := rfl
  have none : (cs ++ ['\n']).dropWhile (· ≠ '"') = [] := by
    rw [List.dropWhile_append_of_pos (List.dropWhile_eq_nil_iff.mp unquoted)]
    rfl
  rw [longer, quoted, none]

namespace Scanner

/-- A scan in front of the last line break comes upon a string that is never closed, or it finds
the same whatever follows: something in front of the line break, or the line break. -/
theorem scan_lastLine (cs text : List Char) (line : Nat) :
    (∃ literal last after, (⟨cs ++ ['\n'], line⟩ : Scanner).scan =
        (.error (.unterminatedString literal last), after)) ∨
      (∃ outcome left last,
        (⟨cs ++ ['\n'], line⟩ : Scanner).scan = (outcome, ⟨left ++ ['\n'], last⟩) ∧
        (⟨cs ++ '\n' :: text, line⟩ : Scanner).scan = (outcome, ⟨left ++ '\n' :: text, last⟩)) ∨
      (⟨cs ++ ['\n'], line⟩ : Scanner).scan =
          (.ok ⟨.newLine, "\n", line⟩, ⟨[], line + 1⟩) ∧
        (⟨cs ++ '\n' :: text, line⟩ : Scanner).scan =
          (.ok ⟨.newLine, "\n", line⟩, ⟨text, line + 1⟩) := by
  cases front : Lexeme.afterIgnored cs with
  | nil => exact Or.inr (Or.inr ⟨scan_joined_end front, scan_joined_end front⟩)
  | cons c others =>
      by_cases opened : (Lexeme.first c others).shape = .openString
      · left
        have joined := Lexeme.front_joined (d := '\n') front (by decide) []
        rw [scan_of_cons joined, Lexeme.outcome, Lexeme.first_stays_open opened]
        exact ⟨_, _, _, rfl⟩
      · right
        left
        rw [scan_closed front opened (by decide), scan_closed front opened (by decide)]
        exact ⟨_, _, _, rfl, rfl⟩

/-- In front of a line break no scan finds the end. -/
theorem scan_goesOn {cs : List Char} {line : Nat} {token : Token} {after : Scanner}
    (scanned : (⟨cs ++ ['\n'], line⟩ : Scanner).scan = (.ok token, after)) :
    token.kind ≠ .endOfFile := by
  intro ended
  have nothing := ended_of_endOfFile scanned ended
  rw [Lexeme.afterIgnored_joined] at nothing
  exact List.append_ne_nil_of_right_ne_nil _ (List.cons_ne_nil _ _) nothing

end Scanner

namespace Lexer

/-- Both lexers stand in front of the line break that ends the first text, or they have looked
at it.  Behind it the second text goes on. -/
inductive Beside (text : List Char) : Lexer → Lexer → Prop
  | within {cs : List Char} {line : Nat} {ahead : Option Token} :
      (∀ token ∈ ahead, token.kind ≠ .endOfFile) →
      Beside text ⟨⟨cs ++ ['\n'], line⟩, ahead⟩ ⟨⟨cs ++ '\n' :: text, line⟩, ahead⟩
  | lastLine {token : Token} {line : Nat} : token.kind = .newLine →
      Beside text ⟨⟨[], line⟩, some token⟩ ⟨⟨text, line⟩, some token⟩

/-- Only the end token can be taken. -/
def Spent (lexer : Lexer) : Prop :=
  lexer.scanner.rest = [] ∧ ∀ token ∈ lexer.ahead, token.kind = .endOfFile

variable {text : List Char} {lexer other : Lexer}

/-- Both lexers take the same token, or both meet the same fault, unless it is an open string.
Behind the last line break the first one is spent. -/
theorem Beside.next (beside : Beside text lexer other) :
    match Lexer.next lexer with
    | .ok token after => ∃ otherAfter, Lexer.next other = .ok token otherAfter ∧
        (Beside text after otherAfter ∨ token.kind = .newLine ∧ after.Spent) ∧
        Beside text { after with ahead := some token } { otherAfter with ahead := some token }
    | .error fault _ => (∃ literal line, fault = .unterminatedString literal line) ∨
        ∃ otherAfter, Lexer.next other = .error fault otherAfter := by
  have nothing : ∀ token ∈ (none : Option Token), token.kind ≠ .endOfFile :=
    fun _ none => by cases none
  cases beside with
  | @lastLine token line broken =>
      refine ⟨_, rfl, Or.inr ⟨broken, rfl, ?_⟩, .lastLine broken⟩
      exact fun _ none => by cases none
  | @within cs line ahead inside =>
      cases ahead with
      | some token => exact ⟨_, rfl, Or.inl (.within nothing), .within inside⟩
      | none =>
          rcases Scanner.scan_lastLine cs text line with
            ⟨literal, last, after, scanned⟩ | ⟨outcome, left, last, scanned, otherScanned⟩ |
              ⟨scanned, otherScanned⟩
          · simp only [Lexer.next, scanned]
            exact Or.inl ⟨literal, last, rfl⟩
          · cases outcome with
            | error fault =>
                simp only [Lexer.next, scanned, otherScanned]
                exact Or.inr ⟨_, rfl⟩
            | ok token =>
                simp only [Lexer.next, scanned, otherScanned]
                refine ⟨_, rfl, Or.inl (.within nothing), .within ?_⟩
                rintro _ ⟨⟩
                exact Scanner.scan_goesOn scanned
          · simp only [Lexer.next, scanned, otherScanned]
            refine ⟨_, rfl, Or.inr ⟨trivial, rfl, ?_⟩, .lastLine rfl⟩
            exact fun _ none => by cases none

/-- The end has not been looked at. -/
theorem Beside.goesOn (beside : Beside text lexer other) {token : Token}
    (ahead : lexer.ahead = some token) : token.kind ≠ .endOfFile := by
  cases beside with
  | within inside => exact inside token ahead
  | lastLine broken =>
      cases ahead
      rw [broken]
      decide

/-- A spent lexer takes the end token, and stays spent. -/
theorem Spent.next (spent : lexer.Spent) :
    ∃ token after, Lexer.next lexer = .ok token after ∧ token.kind = .endOfFile ∧
      after.Spent ∧ Spent { after with ahead := some token } := by
  rcases lexer with ⟨⟨rest, line⟩, ahead⟩
  rcases spent with ⟨rfl, found⟩
  have nothing : ∀ token ∈ (none : Option Token), token.kind = .endOfFile :=
    fun _ none => by cases none
  cases ahead with
  | some token => exact ⟨token, _, rfl, found token rfl, ⟨rfl, nothing⟩, rfl, found⟩
  | none =>
      refine ⟨_, _, rfl, rfl, ⟨rfl, nothing⟩, rfl, ?_⟩
      rintro _ ⟨⟩
      rfl

end Lexer

namespace Reader

/-! ## Readings that go alike up to the last line break -/

/-- Both readers stand in front of that line break, with the same arguments left. -/
def Beside (text : List Char) (reader other : Reader) : Prop :=
  Lexer.Beside text reader.lexer other.lexer ∧ other.arguments = reader.arguments

/-- Nothing is left for the reader but the end. -/
def AtEnd (reader : Reader) : Prop :=
  reader.lexer.Spent

/-- A text that ends with a line break, and the same text with more behind it. -/
def Pairing.beside (text : List Char) : Pairing where
  strict := True
  joined := False
  place := id
  spare := 0
  known _ := True
  readers _ := Beside text
  past _ _ _ := False
  lagging _ reader other := reader.AtEnd ∧ other.arguments = reader.arguments
  failed _ reader other := other.arguments = reader.arguments
  spared fault := ∃ literal line, fault = .source (.unterminatedString literal line)

/-- Both readers have looked at the token. -/
abbrev BothFacing (text : List Char) (token : Token) : Reader → Reader → Prop :=
  (Pairing.beside text).Faces [] token token

theorem inStep_beside (text : List Char) :
    (Pairing.beside text).InStep (Lexer.Beside text) fun lexer _ => lexer.Spent where
  loose joined := joined.elim
  known _ := trivial
  readers := Iff.rfl
  lags := Iff.rfl
  failed _ _ _ _ same := same
  step := by
    intro lexer other after token beside ran
    have nexts := beside.next
    rw [ran] at nexts
    rcases nexts with ⟨otherAfter, otherRan, goesOn, kept⟩
    exact ⟨token, otherAfter, otherRan, Or.inl rfl, fun _ => goesOn, kept⟩
  fault := by
    intro _ lexer other after fault beside ran
    have nexts := beside.next
    rw [ran] at nexts
    rcases nexts with ⟨literal, line, rfl⟩ | ⟨otherAfter, otherRan⟩
    · exact Or.inl ⟨literal, line, rfl⟩
    · right
      refine ⟨otherAfter, ?_⟩
      rw [show (Pairing.beside text).place = id from rfl, fault.renumbered_id]
      exact otherRan

theorem lawful_beside (text : List Char) (names : Names) :
    (Pairing.beside text).Lawful names names :=
  (inStep_beside text).lawful

theorem alike_beside {text : List Char} {token other : Token}
    (alike : (Pairing.beside text).Alike token other) : other = token :=
  (alike.resolve_right fun further => further.1).trans token.renumbered_id

/-! ## Steps that do not depend on what follows -/

/-- Beside a text that goes on the step does the same, unless it comes to the end of its own. -/
def Persists {α : Type} (text : List Char) (pre : Reader → Reader → Prop) (step : Read α) : Prop :=
  ∀ reader other, pre reader other →
    match step reader with
    | .ok result after => after.AtEnd ∨
        ∃ otherAfter, step other = .ok result otherAfter ∧ Beside text after otherAfter
    | .error fault after => fault.OfEnd ∨
        ∃ otherAfter, step other = .error fault otherAfter ∧
          otherAfter.arguments = after.arguments

/-- At the end the step returns there, or fails with a fault of the end. -/
abbrev RunsOut {α : Type} (step : Read α) : Prop :=
  Ensures AtEnd step (fun _ => True) Fault.OfEnd

section Composition

variable {text : List Char} {α β : Type} {pre : Reader → Reader → Prop}

namespace Persists

theorem weaken {stronger : Reader → Reader → Prop} {step : Read α}
    (persists : Persists text pre step)
    (starts : ∀ reader other, stronger reader other → pre reader other) :
    Persists text stronger step :=
  fun reader other start => persists reader other (starts reader other start)

theorem pure {result : α} (starts : ∀ reader other, pre reader other → Beside text reader other) :
    Persists text pre (Pure.pure result) :=
  fun reader other start => Or.inr ⟨other, rfl, starts reader other start⟩

theorem throw {fault : Fault}
    (same : ∀ reader other, pre reader other → other.arguments = reader.arguments) :
    Persists text pre (MonadExcept.throw fault : Read α) :=
  fun reader other start => Or.inr ⟨other, rfl, same reader other start⟩

theorem ite {condition : Prop} [Decidable condition] {first second : Read α}
    (holds : condition → Persists text pre first)
    (fails : ¬ condition → Persists text pre second) :
    Persists text pre (if condition then first else second) := by
  by_cases decided : condition
  · rw [if_pos decided]
    exact holds decided
  · rw [if_neg decided]
    exact fails decided

/-- What follows a step must do with the end of the text if the step may have come to it. -/
theorem bind {first : Read β} {next : β → Read α} (before : Persists text pre first)
    (after : ∀ result, Persists text (Beside text) (next result))
    (ended : ∀ result, RunsOut (next result)) : Persists text pre (first >>= next) := by
  intro reader other start
  have started := before reader other start
  cases ran : first reader with
  | error fault between =>
      rw [ran] at started
      rw [bind_of_error ran]
      refine started.imp_right ?_
      rintro ⟨otherAfter, otherRan, same⟩
      exact ⟨otherAfter, bind_of_error otherRan, same⟩
  | ok result between =>
      rw [ran] at started
      rw [bind_of_ok ran]
      rcases started with atEnd | ⟨otherBetween, otherRan, beside⟩
      · have finished := ended result between atEnd
        cases ending : next result between with
        | ok final last =>
            rw [ending] at finished
            exact Or.inl finished.2
        | error fault last =>
            rw [ending] at finished
            exact Or.inl finished
      · rw [bind_of_ok otherRan]
        exact after result between otherBetween beside

theorem map {first : Read β} (before : Persists text pre first) (result : β → α) :
    Persists text pre (first >>= fun found => Pure.pure (result found)) :=
  before.bind (fun _ => pure fun _ _ => id) fun _ => Ensures.pure trivial

/-- A step that goes alike in both readings does not come to the end. -/
theorem after {post : β → β → Reader → Reader → Prop} {middle : β → Reader → Reader → Prop}
    {first : Read β} {next : β → Read α}
    (before : (Pairing.beside text).Follows pre first first post)
    (same : ∀ result otherResult reader other, post result otherResult reader other →
      next otherResult = next result ∧ middle result reader other)
    (goes : ∀ result, Persists text (middle result) (next result)) :
    Persists text pre (first >>= next) := by
  intro reader other start
  have started := before reader other start
  cases ran : first reader with
  | ok result between =>
      cases otherRan : first other with
      | error fault otherBetween =>
          rw [ran, otherRan] at started
          exact started.elim
      | ok otherResult otherBetween =>
          rw [ran, otherRan] at started
          rcases same _ _ _ _ started with ⟨alike, holds⟩
          rw [bind_of_ok ran, bind_of_ok otherRan, alike]
          exact goes result between otherBetween holds
  | error fault between =>
      -- Both texts are read with the same number of steps, so only an open string is spared.
      have spared : (Pairing.beside text).rule.excused fault → fault.OfEnd := by
        rintro (loose | ⟨_, more⟩ | opened)
        · exact absurd trivial loose
        · exact absurd more (Nat.lt_irrefl 0)
        · exact Or.inr (Or.inr opened)
      rw [bind_of_error ran]
      cases otherRan : first other with
      | ok otherResult otherBetween =>
          rw [ran, otherRan] at started
          exact Or.inl (spared started)
      | error otherFault otherBetween =>
          rw [ran, otherRan] at started
          rcases started with excused | ⟨alike, arguments⟩
          · exact Or.inl (spared excused)
          · right
            rw [show (Pairing.beside text).place = id from rfl, fault.renumbered_id] at alike
            rw [bind_of_error otherRan, alike]
            exact ⟨otherBetween, rfl, arguments⟩

theorem of_follows {post : α → α → Reader → Reader → Prop} {step : Read α}
    (follows : (Pairing.beside text).Follows pre step step post)
    (same : ∀ result other reader otherReader, post result other reader otherReader →
      other = result ∧ Beside text reader otherReader) : Persists text pre step := by
  have whole : Persists text pre (step >>= Pure.pure) := by
    apply after follows
    · intro result other reader otherReader holds
      rcases same result other reader otherReader holds with ⟨rfl, beside⟩
      exact ⟨rfl, beside⟩
    · exact fun result => pure fun _ _ => id
  rwa [bind_pure] at whole

theorem keeps {related : β → β → Prop} {first : Read β} {next : β → Read α}
    (before : (Pairing.beside text).Follows pre first first
      ((Pairing.beside text).Keeps [] related))
    (same : ∀ result other, related result other → next other = next result)
    (goes : ∀ result, Persists text (Beside text) (next result)) :
    Persists text pre (first >>= next) :=
  after before (fun _ _ _ _ kept => ⟨same _ _ kept.1, kept.2⟩) goes

end Persists
end Composition

/-! ## Single steps -/

section AtTheEnd

variable {α : Type}

theorem ends_next : Ensures AtEnd next (fun token => token.kind = .endOfFile) Fault.OfEnd := by
  intro reader spent
  rcases Lexer.Spent.next spent with ⟨token, after, ran, ended, still, _⟩
  rw [next_of_ok reader ran]
  exact ⟨ended, still⟩

theorem ends_peek : Ensures AtEnd peek (fun token => token.kind = .endOfFile) Fault.OfEnd := by
  intro reader spent
  rcases Lexer.Spent.next spent with ⟨token, after, ran, ended, _, still⟩
  rw [peek_of_ok reader ran]
  exact ⟨ended, still⟩

theorem ends_peekKind : Ensures AtEnd peekKind (fun kind => kind = .endOfFile) Fault.OfEnd :=
  ends_peek.bind fun _ ended => Ensures.pure ended

theorem runsOut_pure (result : α) : RunsOut (pure result) :=
  Ensures.pure trivial

/-- Statements up to the end of the text return there, and a block that is still open reports the
end. -/
theorem runsOut_statementsUntil (item : Read Node) (closing : Token.Kind) (steps : Nat) :
    RunsOut (statementsUntil item closing steps) := by
  cases steps with
  | zero => exact Ensures.throw (Or.inl rfl)
  | succ steps =>
      apply ends_peekKind.bind
      rintro _ rfl
      apply Ensures.ite
      · intro _
        apply Ensures.bind (ends_next.bind fun _ _ => runsOut_pure ())
        exact fun _ _ => runsOut_pure []
      · intro _
        apply ends_next.bind
        intro found ended
        apply Ensures.throw
        right
        left
        simp only [Fault.reportsEnd, SyntaxFault.found?, ended, Option.any_some, decide_true]

theorem runsOut_skipNewLines (steps : Nat) : RunsOut (skipNewLines steps) := by
  cases steps with
  | zero => exact Ensures.throw (Or.inl rfl)
  | succ steps =>
      apply ends_peekKind.bind
      rintro _ rfl
      exact runsOut_pure ()

theorem runsOut_expectStatementEnd : RunsOut expectStatementEnd := by
  apply ends_peekKind.bind
  rintro _ rfl
  exact runsOut_pure ()

/-- At the end no `else` follows. -/
theorem runsOut_follower (other : Read α) (result : α) :
    RunsOut (do
      let follower ← peek
      if follower.isKeyword "else" then other else pure result) := by
  apply ends_peek.bind
  intro follower ended
  apply Ensures.ite
  · intro isElse
    have keyword := kind_of_isKeyword isElse
    rw [ended] at keyword
    cases keyword
  · intro _
    exact runsOut_pure result

end AtTheEnd

section Steps

variable {text : List Char} {α : Type}

theorem persists_exhausted : Persists text (Beside text) (exhausted : Read α) :=
  Persists.throw fun _ _ beside => beside.2

/-- The next token is taken alike.  Where it is the last line break nothing may follow but a
fault. -/
theorem persists_next {next : Token → Read α}
    (stops : ∀ token : Token, token.kind = .endOfFile ∨ token.kind = .newLine →
      ∃ fault, next token = fail fault)
    (goes : ∀ token, Persists text (Beside text) (next token)) :
    Persists text (Beside text) (Reader.next >>= next) := by
  have nexts : (Pairing.beside text).Follows ((Pairing.beside text).readers []) Reader.next
    Reader.next _ := (inStep_beside text).nexts
  have taken : ∀ token : Token, Persists text
      (fun reader other => other.arguments = reader.arguments ∧
        (token.kind ≠ .endOfFile → token.kind ≠ .newLine → Beside text reader other))
      (next token) := by
    intro token
    by_cases stop : token.kind = .endOfFile ∨ token.kind = .newLine
    · rcases stops token stop with ⟨fault, failed⟩
      rw [failed]
      exact Persists.throw fun _ _ start => start.1
    · rcases not_or.mp stop with ⟨goesOn, unbroken⟩
      exact (goes token).weaken fun _ _ start => start.2 goesOn unbroken
  apply Persists.after nexts _ taken
  rintro token other reader otherReader ⟨alike, same, beside⟩
  refine ⟨congrArg next (alike_beside alike), same, fun goesOn unbroken => ?_⟩
  exact (beside goesOn).resolve_right fun last => unbroken last.1

/-- The token that is looked at is not the end. -/
theorem persists_peek {next : Token → Read α}
    (goes : ∀ token : Token, token.kind ≠ .endOfFile →
      Persists text (BothFacing text token) (next token)) :
    Persists text (Beside text) (peek >>= next) := by
  have peeks : (Pairing.beside text).Follows ((Pairing.beside text).readers []) peek peek _ :=
    (inStep_beside text).peeks
  have looked : ∀ token : Token, Persists text (BothFacing text token) (next token) :=
    fun token reader other faces =>
      goes token (faces.1.1.goesOn faces.2.1) reader other faces
  apply Persists.after peeks _ looked
  rintro token other reader otherReader ⟨alike, faces⟩
  cases alike_beside alike
  exact ⟨rfl, faces⟩

theorem persists_peekKind {next : Token.Kind → Read α}
    (goes : ∀ token : Token, token.kind ≠ .endOfFile →
      Persists text (BothFacing text token) (next token.kind)) :
    Persists text (Beside text) (peekKind >>= next) := by
  have unfolded : peekKind >>= next = peek >>= fun token => next token.kind := by
    rw [peekKind, bind_assoc]
    exact bind_congr fun token => pure_bind token.kind next
  rw [unfolded]
  exact persists_peek goes

/-- What is known of a token that has been looked at is only needed to take it. -/
theorem Persists.facing {step : Read α} (persists : Persists text (Beside text) step)
    {token : Token} : Persists text (BothFacing text token) step :=
  persists.weaken fun _ _ faces => faces.1

/-- A token that has been looked at is taken.  Behind the last line break the end is left. -/
theorem persists_skip {token : Token} : Persists text (BothFacing text token) skip := by
  intro reader other facing
  rcases facing with ⟨beside, ahead, otherAhead⟩
  have nexts := (inStep_beside text).nexts reader other beside
  have inside := beside.1.goesOn ahead
  rw [next_of_ahead ahead, next_of_ahead otherAhead] at nexts
  rw [skip_of_ahead ahead, skip_of_ahead otherAhead]
  rcases nexts.2.2 inside with beside | ⟨_, atEnd, _⟩
  · exact Or.inr ⟨_, rfl, beside⟩
  · exact Or.inl atEnd

/-- Any other token than a line break leads on. -/
theorem persists_taken {token : Token} {next : Unit → Read α} (goesOn : ¬ Pairing.Stops token)
    (goes : Persists text (Beside text) (next ())) :
    Persists text (BothFacing text token) (skip >>= next) :=
  Persists.after (follows_taken (lawful_beside text fun _ => false) goesOn)
    (fun _ _ _ _ beside => ⟨rfl, beside⟩) fun _ => goes

end Steps

/-! ## Statements -/

section Statements

variable {text : List Char} {names : Names}

theorem persists_skipNewLines (steps : Nat) : Persists text (Beside text) (skipNewLines steps) := by
  induction steps with
  | zero => exact persists_exhausted
  | succ steps inductionHypothesis =>
      rw [skipNewLines]
      apply persists_peekKind
      intro token _
      apply Persists.ite
      · intro _
        exact persists_skip.bind (fun _ => inductionHypothesis) fun _ => runsOut_skipNewLines steps
      · intro _
        exact Persists.pure fun _ _ faces => faces.1

theorem persists_statementsUntil {item : Read Node} (items : Persists text (Beside text) item)
    {closing : Token.Kind} (closes : closing = .closeBrace ∨ closing = .endOfFile) (steps : Nat) :
    Persists text (Beside text) (statementsUntil item closing steps) := by
  induction steps with
  | zero => exact persists_exhausted
  | succ steps inductionHypothesis =>
      rw [statementsUntil]
      apply persists_peekKind
      intro token inside
      apply Persists.ite
      · intro closed
        have brace := closes.resolve_right fun ending => inside (closed.trans ending)
        apply persists_taken (Pairing.not_stops (closed.trans brace) (by decide))
        exact Persists.pure fun _ _ => id
      · intro _
        cases kind : token.kind with
        | newLine =>
            exact persists_skip.bind (fun _ => inductionHypothesis)
              fun _ => runsOut_statementsUntil item closing steps
        | endOfFile => exact absurd kind inside
        | _ =>
            apply Persists.facing
            apply items.bind
            · intro first
              exact inductionHypothesis.map (first :: ·)
            · intro first
              apply (runsOut_statementsUntil item closing steps).bind
              exact fun others _ => runsOut_pure (first :: others)

theorem persists_bracedBlock {item : Read Node} (items : Persists text (Beside text) item)
    (steps : Nat) : Persists text (Beside text) (bracedBlock item steps) := by
  apply Persists.keeps (follows_consume (lawful_beside text fun _ => false) (by decide))
  · intro opening other same
    cases same.1
    rfl
  · intro opening
    exact (persists_statementsUntil items (Or.inl rfl) steps).map _

/-- Expressions never come to the end: a line break stands in front of it. -/
theorem persists_expression {α : Type} (steps : Nat) {next : Node → Read α}
    (goes : ∀ node, Persists text (Beside text) (next node)) :
    Persists text (Beside text) (ranked names steps expressionRank >>= next) := by
  apply Persists.keeps (follows_expression (lawful_beside text names) steps [])
  · intro node other same
    rw [same.1]
    exact congrArg next node.renumbered_id
  · exact goes

/-- A statement that may declare something. -/
theorem persists_adds {declared : Node → List Node} {step : Read Node}
    (follows : (Pairing.beside text).Follows ((Pairing.beside text).readers []) step step
      ((Pairing.beside text).Adds [] declared (Pairing.beside text).Nodes)) :
    Persists text (Beside text) step := by
  apply Persists.of_follows follows
  rintro node other _ _ ⟨⟨same, _⟩, beside⟩
  exact ⟨same.trans node.renumbered_id, beside⟩

theorem persists_ended {statement : Read Node} (persists : Persists text (Beside text) statement) :
    Persists text (Beside text) (ended statement) := by
  apply persists.bind
  · intro node
    apply Persists.keeps (follows_expectStatementEnd (lawful_beside text fun _ => false))
    · exact fun _ _ _ => rfl
    · exact fun _ => Persists.pure fun _ _ => id
  · intro node
    apply runsOut_expectStatementEnd.bind
    exact fun _ _ => runsOut_pure node

theorem persists_loop {item : Read Node} (items : Persists text (Beside text) item)
    (steps line : Nat) : Persists text (Beside text) (loop names item steps line) := by
  have lawful := lawful_beside text names
  apply Persists.keeps (follows_consumeIdentifier lawful)
  · intro iterator other same
    rw [same.1]
  · intro iterator
    apply Persists.keeps (follows_consumeKeyword lawful "in")
    · exact fun _ _ _ => rfl
    · intro _
      apply persists_expression
      intro iterable
      exact (persists_bracedBlock items steps).map _

theorem persists_elseBranch {steps : Nat}
    (statements : Persists text (Beside text) (statementWithin names steps))
    (conditionals : ∀ line, Persists text (Beside text) (conditionalWithin names steps line))
    (condition : Node) (thenBranch : Block) (line : Nat) :
    Persists text (Beside text) (behindElse names steps condition thenBranch line) := by
  unfold behindElse
  apply persists_peek
  intro chained _
  apply Persists.ite
  · intro isIf
    apply persists_taken (Pairing.not_stops (kind_of_isKeyword isIf) (by decide))
    exact (conditionals chained.line).map _
  · intro _
    apply Persists.facing
    exact (persists_bracedBlock statements steps).map _

/-- Both functions hand on their steps less one. -/
theorem persists_statements (steps : Nat) :
    Persists text (Beside text) (statementWithin names steps) ∧
      ∀ line, Persists text (Beside text) (conditionalWithin names steps line) := by
  induction steps with
  | zero =>
      constructor
      · rw [statementWithin]
        exact persists_exhausted
      · intro line
        rw [conditionalWithin]
        exact persists_exhausted
  | succ steps inductionHypothesis =>
      rcases inductionHypothesis with ⟨statements, conditionals⟩
      have lawful := lawful_beside text names
      constructor
      · rw [statementWithin]
        apply persists_next
        · rintro token (stop | stop) <;>
            exact ⟨.unexpectedStatement token, by simp only [stop]⟩
        · intro token
          have refused : Persists text (Beside text)
              (fail (.unexpectedStatement token) : Read Node) :=
            Persists.throw fun _ _ beside => beside.2
          have flags : ∀ flag, Persists text (Beside text)
              (ended (pure (.flag flag token.line))) :=
            fun flag => persists_ended (Persists.pure fun _ _ => id)
          cases kind : token.kind with
          | identifier =>
              exact persists_ended (persists_adds (follows_namedStatement lawful steps trivial))
          | keyword =>
              refine Persists.ite (fun _ => conditionals token.line) fun _ => ?_
              refine Persists.ite (fun _ => ?_) fun _ => ?_
              · exact persists_ended (persists_loop statements steps token.line)
              refine Persists.ite (fun _ => ?_) fun _ => ?_
              · apply persists_ended
                apply persists_adds
                exact follows_declarations lawful (fun _ => (inStep_beside text).declares) steps
                  token.line
              refine Persists.ite (fun _ => flags .break) fun _ => ?_
              exact Persists.ite (fun _ => flags .halt) fun _ => refused
          | _ => exact refused
      · intro line
        rw [conditionalWithin]
        apply persists_expression
        intro condition
        apply (persists_bracedBlock statements steps).bind
        · intro thenBranch
          apply (persists_skipNewLines steps).bind
          · intro _
            apply persists_peek
            intro follower _
            apply Persists.ite
            · intro isElse
              apply persists_taken (Pairing.not_stops (kind_of_isKeyword isElse) (by decide))
              exact persists_elseBranch statements conditionals condition thenBranch line
            · intro _
              exact Persists.pure fun _ _ faces => faces.1
          · exact fun _ => runsOut_follower _ _
        · intro thenBranch
          apply (runsOut_skipNewLines steps).bind
          exact fun _ _ => runsOut_follower _ _

end Statements

end Reader

/-! ## Sources -/

/-- A source that ends with a line break fails in the same way, with the same arguments left,
whatever is written behind that line break: unless a string is open, or the fault is that the text
ends.  A reader that has not been handed the end of its text cannot report it, so this is said of
every fault that is met before. -/
theorem compile_faults_local (library : Library) (source : String) (arguments rest : Arguments)
    (fault : Fault)
    (failed : compile library (source ++ "\n") arguments = .error fault rest)
    (before : fault.reportsEnd = false)
    (closed : ∀ literal line, fault ≠ .source (.unterminatedString literal line))
    (text : String) :
    compile library (source ++ "\n" ++ text) arguments = .error fault rest := by
  have first : (source ++ "\n").toList = source.toList ++ ['\n'] := by simp
  have second : (source ++ "\n" ++ text).toList = source.toList ++ '\n' :: text.toList := by simp
  have longer : (source ++ "\n").toList.length ≤ (source ++ "\n" ++ text).toList.length := by
    rw [first, second, List.length_append, List.length_append]
    exact Nat.add_le_add_left (Nat.succ_le_succ (Nat.zero_le _)) _
  have beside : Reader.Beside text.toList ⟨.ofSource (source ++ "\n"), arguments⟩
      ⟨.ofSource (source ++ "\n" ++ text), arguments⟩ := by
    unfold Lexer.ofSource
    rw [first, second]
    exact ⟨.within (fun _ none => by cases none), rfl⟩
  -- Both texts are read with the steps that the longer one is given.
  obtain ⟨steps, enough⟩ : ∃ steps, 8 * ((source ++ "\n" ++ text).toList.length + 1) = steps :=
    ⟨_, rfl⟩
  have shorter := compile_within library (source ++ "\n") arguments (show _ ≤ steps by omega)
  have whole := compile_within library (source ++ "\n" ++ text) arguments (Nat.le_of_eq enough)
  have items : Reader.Persists text.toList (Reader.Beside text.toList)
      (Reader.statementWithin library.hasFunction steps) := (Reader.persists_statements steps).1
  have persists := Reader.persists_statementsUntil items (Or.inr rfl) steps _ _ beside
  cases ran : Reader.statementsUntil (Reader.statementWithin library.hasFunction steps) .endOfFile
      steps ⟨.ofSource (source ++ "\n"), arguments⟩ with
  | ok statements final =>
      rw [shorter.1, ran] at failed
      cases failed
  | error met final =>
      have faulted := failed
      rw [shorter.1, ran] at faulted
      cases faulted
      rw [ran] at persists
      rcases persists with (rfl | ended | ⟨literal, line, opened⟩) | ⟨otherFinal, otherRan, same⟩
      · exact absurd failed (shorter.2 _)
      · rw [ended] at before
        cases before
      · exact absurd opened (closed literal line)
      · rw [whole.1, otherRan]
        exact congrArg (EStateM.Result.error fault) same

/-- The parameter has taken its value, no `else` follows the block, and the last line is at fault
on its own. -/
theorem compile_faults_local_declared :
    compile Standard.library ("with a: bool\nif a { }\n\nx y" ++ "\n")
        ⟨[.truth true, .truth false], {}⟩ =
        .error (.source (.unexpectedToken ⟨.identifier, "y", 4⟩ (.either .equals .dot)))
          ⟨[.truth false], {}⟩ ∧
      ∀ text, compile Standard.library ("with a: bool\nif a { }\n\nx y" ++ "\n" ++ text)
          ⟨[.truth true, .truth false], {}⟩ =
        .error (.source (.unexpectedToken ⟨.identifier, "y", 4⟩ (.either .equals .dot)))
          ⟨[.truth false], {}⟩ := by
  have failed : compile Standard.library ("with a: bool\nif a { }\n\nx y" ++ "\n")
      ⟨[.truth true, .truth false], {}⟩ =
        .error (.source (.unexpectedToken ⟨.identifier, "y", 4⟩ (.either .equals .dot)))
          ⟨[.truth false], {}⟩ := by
    cbv
  refine ⟨failed, fun text => ?_⟩
  apply compile_faults_local Standard.library "with a: bool\nif a { }\n\nx y" _ _ _ failed
  · rfl
  · intro literal line same
    cases same

end Scriptlet
