import Mathlib
import Scriptlet.Proofs.Allowance
import Scriptlet.Proofs.JoinedTexts
import Scriptlet.Proofs.Partition

namespace Scriptlet

/-!
# Tokens written out

A reader knows a text only by what taking its tokens gives, so two texts that give the same
compile alike.

From the tokens of a text another text can be written that gives them again.  Where a token
ends was settled by what stood behind it, and behind it there is a blank now.  So the proof is
about one lexeme: its characters make up the same lexeme when nothing follows them, and a blank
does not change that.  Strings keep their line breaks and line breaks are tokens, so the lines
come out the same as well.
-/

/-! ## A lexeme by itself -/

namespace Lexeme

theorem run_alone (belongs : Char → Bool) (cs : List Char) :
    (cs.takeWhile belongs).takeWhile belongs = cs.takeWhile belongs ∧
      (cs.takeWhile belongs).dropWhile belongs = [] := by
  have all : ∀ c ∈ cs.takeWhile belongs, belongs c = true :=
    fun c member => List.mem_takeWhile_imp member
  have ends : Ends belongs [] := fun _ none => by cases none
  have run := run_append all ends
  rwa [List.append_nil] at run

theorem spelling_eq_cons (c : Char) (cs : List Char) :
    (first c cs).spelling = c :: (first c cs).spelling.tail := by
  have whole := spelling_append_rest c cs
  cases spelled : (first c cs).spelling with
  | nil => exact absurd spelled (spelling_ne_nil c cs)
  | cons d s =>
      rw [spelled, List.cons_append, List.cons.injEq] at whole
      rw [whole.1, List.tail_cons]

theorem numeral_alone (cs : List Char) :
    numeral (numeral cs).spelling = { numeral cs with rest := [] } := by
  simp only [numeral, run_alone]

theorem word_alone (cs : List Char) : word (word cs).spelling = { word cs with rest := [] } := by
  simp only [word, run_alone]

theorem points_alone (cs : List Char) :
    points (points cs).spelling.tail = { points cs with rest := [] } := by
  simp only [points, List.tail_cons, run_alone]

theorem quoted_alone {cs : List Char} (closed : (quoted cs).shape ≠ .openString) :
    quoted (quoted cs).spelling.tail = { quoted cs with rest := [] } := by
  unfold quoted at closed ⊢
  cases tail : cs.dropWhile (· ≠ '"') with
  | nil => simp only [tail, ne_eq, not_true_eq_false] at closed
  | cons close rest =>
      have body : ∀ d ∈ cs.takeWhile (· ≠ '"'), decide (d ≠ '"') = true := by
        intro d member
        exact List.mem_takeWhile_imp (p := fun d => decide (d ≠ '"')) member
      have ends : Ends (· ≠ '"') [close] := by
        have closing := ends_dropWhile (· ≠ '"') cs
        rw [tail] at closing
        exact ends_cons (closing close rfl) []
      simp only [List.cons_append, List.tail_cons, run_append body ends]

/-- The characters of a lexeme are the same lexeme when nothing follows them, unless they are an
open string, which takes all there is. -/
theorem first_alone {c : Char} {cs : List Char} (closed : (first c cs).shape ≠ .openString) :
    first c (first c cs).spelling.tail = { first c cs with rest := [] } := by
  have spelled := (spelling_eq_cons c cs).symm
  by_cases digit : c.isDigit
  · have found : ∀ cs, first c cs = numeral (c :: cs) := fun _ => if_pos digit
    rw [found _, spelled, found cs]
    exact numeral_alone (c :: cs)
  by_cases letter : startsWord c
  · have found : ∀ cs, first c cs = word (c :: cs) :=
      fun _ => (if_neg digit).trans (if_pos letter)
    rw [found _, spelled, found cs]
    exact word_alone (c :: cs)
  by_cases quote : c = '"'
  · have found : ∀ cs, first c cs = quoted cs :=
      fun _ => (if_neg digit).trans ((if_neg letter).trans (if_pos quote))
    rw [found cs] at closed ⊢
    rw [found]
    exact quoted_alone closed
  by_cases point : c = '.'
  · have found : ∀ cs, first c cs = points cs :=
      fun _ => (if_neg digit).trans ((if_neg letter).trans ((if_neg quote).trans (if_pos point)))
    rw [found cs, found]
    exact points_alone cs
  · have found : ∀ cs, first c cs = ⟨((markKind? c).elim .unknown .token), [c], cs⟩ := by
      intro cs
      rw [first, if_neg digit, if_neg letter, if_neg quote, if_neg point]
      cases markKind? c <;> rfl
    rw [found cs, found]
    rfl

theorem not_spacing_of_front {c : Char} {cs others : List Char}
    (front : afterIgnored cs = c :: others) : isSpacing c = false := by
  unfold afterIgnored at front
  split at front
  · next rest _ =>
      have ends := ends_dropWhile (· ≠ '\n') rest
      rw [front] at ends
      have broken : c = '\n' := by simpa using ends c rfl
      rw [broken]
      decide
  · have ends := ends_dropWhile isSpacing cs
    rw [front] at ends
    exact ends c rfl

/-- Nothing of a lexeme is ignored when it stands by itself.  What could start a comment is the
slash, and a lexeme has no second one behind it. -/
theorem front_alone {c : Char} {cs others : List Char} (front : afterIgnored cs = c :: others) :
    afterIgnored (first c others).spelling = c :: (first c others).spelling.tail := by
  by_cases slash : c = '/'
  · subst slash
    rfl
  · rw [spelling_eq_cons]
    exact afterIgnored_cons _ (not_spacing_of_front front) slash

end Lexeme

/-! ## The text of the tokens -/

/-- The characters that a token stands for: a string has its quotes again. -/
def Token.written (token : Token) : String :=
  if token.kind = .string then "\"" ++ token.text ++ "\"" else token.text

/-- The tokens with one blank between them. -/
def writtenOut (tokens : List Token) : String :=
  " ".intercalate (tokens.map Token.written)

theorem Token.toList_written (token : Token) : token.written.toList = slice (.ok token) := by
  by_cases string : token.kind = .string
  · simp [written, slice, string]
  · simp only [written, slice, if_neg string]

/-- The characters of the tokens, each with a blank in front. -/
def trail : List Token → List Char
  | [] => []
  | token :: rest => ' ' :: (slice (.ok token) ++ trail rest)

theorem trail_eq_written {tokens : List Token} (nonempty : tokens ≠ []) :
    trail tokens = ' ' :: (writtenOut tokens).toList := by
  induction tokens with
  | nil => exact absurd rfl nonempty
  | cons token rest inductionHypothesis =>
      rw [trail, ← token.toList_written]
      cases rest with
      | nil => simp [trail, writtenOut]
      | cons next others =>
          have joined : writtenOut (token :: next :: others) =
              token.written ++ " " ++ writtenOut (next :: others) :=
            String.intercalate_cons_of_ne_nil (List.cons_ne_nil _ _)
          rw [inductionHypothesis (List.cons_ne_nil next others), joined, String.toList_append,
            String.toList_append, List.append_assoc]
          rfl

namespace Scanner

variable {last : Nat} {scanner : Scanner} {tokens : List Token}

/-- The scanner gives the tokens and then, on the given line, the end. -/
inductive Lexes (last : Nat) : Scanner → List Token → Prop
  | ended {scanner : Scanner} :
      scanner.scan = (.ok ⟨.endOfFile, "", last⟩, ⟨[], last⟩) → Lexes last scanner []
  | token {scanner after : Scanner} {token : Token} {tokens : List Token} :
      scanner.scan = (.ok token, after) → token.kind ≠ .endOfFile → Lexes last after tokens →
      Lexes last scanner (token :: tokens)

theorem scan_blank (cs : List Char) (line : Nat) :
    (⟨' ' :: cs, line⟩ : Scanner).scan = (⟨cs, line⟩ : Scanner).scan := by
  unfold scan
  rw [Lexeme.afterIgnored_blank]

/-- The characters of a token are scanned as this token where other tokens follow, or none. -/
theorem scan_slice {after : Scanner} {token : Token} (scanned : scanner.scan = (.ok token, after))
    (goesOn : token.kind ≠ .endOfFile) (tokens : List Token) :
    (⟨slice (.ok token) ++ trail tokens, scanner.line⟩ : Scanner).scan =
      (.ok token, ⟨trail tokens, after.line⟩) := by
  cases front : Lexeme.afterIgnored scanner.rest with
  | nil =>
      rw [scan_of_end front] at scanned
      cases scanned
      exact absurd rfl goesOn
  | cons c others =>
      rw [scan_of_cons front, Prod.mk.injEq] at scanned
      rcases scanned with ⟨outcome, rfl⟩
      have closed : (Lexeme.first c others).shape ≠ .openString := by
        intro opened
        simp only [Lexeme.outcome, opened, reduceCtorEq] at outcome
      have alone := Lexeme.first_alone closed
      have front' := Lexeme.front_alone front
      rw [← outcome, Lexeme.slice_outcome, outcome]
      cases tokens with
      | nil =>
          rw [trail, List.append_nil, scan_of_cons front', alone]
          exact congrArg (·, _) outcome
      | cons next rest =>
          rw [trail, scan_closed front' (by rw [alone]; exact closed) (by decide), alone]
          exact congrArg (·, _) outcome

theorem last_of_ended {scanner : Scanner}
    (scanned : scanner.scan = (.ok ⟨.endOfFile, "", last⟩, ⟨[], last⟩)) : last = scanner.line := by
  rw [scan_of_end (ended_of_endOfFile scanned rfl)] at scanned
  cases scanned
  rfl

/-- Written behind blanks, the tokens are found again, on the same lines. -/
theorem Lexes.trail (lexes : Lexes last scanner tokens) :
    Lexes last ⟨trail tokens, scanner.line⟩ tokens := by
  induction lexes with
  | ended scanned =>
      rw [← last_of_ended scanned]
      exact .ended rfl
  | @token scanner after token tokens scanned goesOn _ inductionHypothesis =>
      exact .token ((scan_blank _ _).trans (scan_slice scanned goesOn tokens)) goesOn
        inductionHypothesis

/-- Without the first blank as well. -/
theorem Lexes.written (lexes : Lexes last scanner tokens) :
    Lexes last ⟨(writtenOut tokens).toList, scanner.line⟩ tokens := by
  cases tokens with
  | nil => exact lexes.trail
  | cons token rest =>
      have behind := lexes.trail
      rw [trail_eq_written (List.cons_ne_nil token rest)] at behind
      cases behind with
      | token scanned goesOn others =>
          exact .token ((scan_blank _ _).symm.trans scanned) goesOn others

theorem Lexes.results (lexes : Lexes last scanner tokens) (extra : Nat) :
    Lexer.results (tokens.length + extra) ⟨scanner, none⟩ =
      tokens.map .ok ++ List.replicate extra (.ok ⟨.endOfFile, "", last⟩) := by
  induction lexes with
  | ended scanned =>
      have line := last_of_ended scanned
      subst line
      rw [List.length_nil, Nat.zero_add]
      exact Lexer.results_of_ended scanned extra
  | token scanned _ _ inductionHypothesis =>
      rw [List.length_cons, Nat.add_right_comm, Lexer.results, Lexer.answered_next, scanned,
        inductionHypothesis]
      rfl

theorem lexes_of_results
    (given : Lexer.results (tokens.length + 1) ⟨scanner, none⟩ =
      tokens.map .ok ++ [.ok ⟨.endOfFile, "", last⟩])
    (goOn : ∀ token ∈ tokens, token.kind ≠ .endOfFile) : Lexes last scanner tokens := by
  induction tokens generalizing scanner with
  | nil =>
      have first := (List.cons.inj given).1
      rw [Lexer.answered_next] at first
      have ended := scan_of_end (ended_of_endOfFile (Prod.ext first rfl) rfl)
      rw [ended] at first
      cases first
      exact .ended ended
  | cons token rest inductionHypothesis =>
      rcases List.cons.inj given with ⟨first, others⟩
      rw [Lexer.answered_next] at first others
      rcases List.forall_mem_cons.mp goOn with ⟨kind, kinds⟩
      exact .token (Prod.ext first rfl) kind (inductionHypothesis others kinds)

end Scanner

/-! ## Texts that give the same tokens -/

namespace Lexer

/-- Taking tokens gives the same, however many are taken. -/
def GivesAlike (lexer other : Lexer) : Prop :=
  ∀ count, lexer.results count = other.results count

theorem results_take (count more : Nat) (lexer : Lexer) :
    (lexer.results (count + more)).take count = lexer.results count := by
  induction count generalizing lexer with
  | zero => rfl
  | succ count inductionHypothesis =>
      rw [Nat.add_right_comm, results, results, List.take_succ_cons, inductionHypothesis]

namespace GivesAlike

variable {lexer other after : Lexer}

/-- The next token or fault is the same, and so is what comes behind it. -/
theorem next (alike : GivesAlike lexer other) :
    (answered (Lexer.next lexer)).1 = (answered (Lexer.next other)).1 ∧
      GivesAlike (answered (Lexer.next lexer)).2 (answered (Lexer.next other)).2 :=
  ⟨(List.cons.inj (alike 1)).1, fun count => (List.cons.inj (alike (count + 1))).2⟩

theorem next_ok {token : Token} (alike : GivesAlike lexer other)
    (ran : Lexer.next lexer = .ok token after) :
    ∃ otherAfter, Lexer.next other = .ok token otherAfter ∧ GivesAlike after otherAfter := by
  have next := alike.next
  rw [ran] at next
  cases otherRan : Lexer.next other with
  | ok otherToken otherAfter =>
      rw [otherRan] at next
      cases next.1
      exact ⟨otherAfter, rfl, next.2⟩
  | error fault otherAfter =>
      rw [otherRan] at next
      cases next.1

theorem next_error {fault : SyntaxFault} (alike : GivesAlike lexer other)
    (ran : Lexer.next lexer = .error fault after) :
    ∃ otherAfter, Lexer.next other = .error fault otherAfter := by
  have next := alike.next
  rw [ran] at next
  cases otherRan : Lexer.next other with
  | ok otherToken otherAfter =>
      rw [otherRan] at next
      cases next.1
  | error otherFault otherAfter =>
      rw [otherRan] at next
      cases next.1
      exact ⟨otherAfter, rfl⟩

/-- A token that was only looked at comes again. -/
theorem keep {scanner otherScanner : Scanner}
    (alike : GivesAlike ⟨scanner, none⟩ ⟨otherScanner, none⟩) (token : Token) :
    GivesAlike ⟨scanner, some token⟩ ⟨otherScanner, some token⟩ := by
  intro count
  cases count with
  | zero => rfl
  | succ count => exact congrArg (List.cons (Except.ok token)) (alike count)

end GivesAlike

theorem givesAlike_of_lexes {last : Nat} {scanner otherScanner : Scanner} {tokens : List Token}
    (lexes : Scanner.Lexes last scanner tokens)
    (otherLexes : Scanner.Lexes last otherScanner tokens) :
    GivesAlike ⟨scanner, none⟩ ⟨otherScanner, none⟩ := by
  intro count
  have same := (lexes.results count).trans (otherLexes.results count).symm
  rw [Nat.add_comm] at same
  rw [← results_take count tokens.length, same, results_take]

end Lexer

namespace Reader

/-- Two texts that give the same tokens on the same lines, and the same faults. -/
def Pairing.givingAlike : Pairing where
  strict := True
  joined := False
  place := id
  spare := 0
  known _ := True
  readers _ reader other := Lexer.GivesAlike reader.lexer other.lexer ∧
    other.arguments = reader.arguments
  past _ _ _ := False
  lagging _ _ _ := False
  failed _ reader other := other.arguments = reader.arguments

theorem inStep_givingAlike :
    Pairing.givingAlike.InStep Lexer.GivesAlike fun _ _ => False where
  loose := False.elim
  known _ := trivial
  readers := Iff.rfl
  lags := ⟨False.elim, And.left⟩
  failed _ _ _ _ same := same
  step := by
    intro lexer other after token alike ran
    rcases alike.next_ok ran with ⟨otherAfter, otherRan, goesOn⟩
    refine ⟨token, otherAfter, otherRan, Or.inl rfl, fun _ => Or.inl goesOn, ?_⟩
    rcases after with ⟨scanner, ahead⟩
    rcases otherAfter with ⟨otherScanner, otherAhead⟩
    cases Lexer.ahead_of_next ran
    cases Lexer.ahead_of_next otherRan
    exact goesOn.keep token
  fault := by
    intro _ lexer other after fault alike ran
    have same : fault.renumbered Pairing.givingAlike.place = fault := fault.renumbered_id
    rw [same]
    exact Or.inr (alike.next_error ran)

theorem complete_givingAlike : Pairing.givingAlike.Complete where
  alike alike := alike.elim id fun ⟨joined, _⟩ => joined.elim
  past := id

end Reader

/-- Readers of such texts end alike, and the same is made of what they have read. -/
theorem compiled_givingAlike {ending other : EStateM.Result Fault Reader (List Node)}
    (alike : EndAlike
      (fun nodes others (reader other : Reader) =>
        Reader.Pairing.givingAlike.NodeLists nodes others ∧ other.arguments = reader.arguments)
      Reader.Pairing.givingAlike.rule ending other) :
    compiled other = compiled ending := by
  have strict : ∀ fault, ¬ Reader.Pairing.givingAlike.rule.excused fault := by
    rintro fault (loose | ⟨_, spare⟩ | spared)
    · exact loose trivial
    · exact absurd spare (Nat.lt_irrefl 0)
    · exact spared
  cases ending with
  | ok nodes final =>
      cases other with
      | error fault otherFinal => exact alike.elim
      | ok others otherFinal =>
          rcases alike with ⟨lists, arguments⟩
          have same : others = nodes := lists.1.trans (Node.eachRenumbered_id nodes)
          rw [compiled, compiled, same, arguments]
  | error fault final =>
      cases other with
      | ok others otherFinal => exact absurd alike (strict fault)
      | error otherFault otherFinal =>
          rcases alike.resolve_left (strict fault) with ⟨renumbered, arguments⟩
          have same : otherFault = fault := renumbered.trans fault.renumbered_id
          have left : otherFinal.arguments = final.arguments := arguments
          rw [compiled, compiled, same, left]

/-- Compiling depends on nothing but what taking the tokens of a source gives. -/
theorem compile_of_givesAlike (library : Library) {source other : String} (arguments : Arguments)
    (alike : Lexer.GivesAlike (.ofSource source) (.ofSource other)) :
    compile library other arguments = compile library source arguments := by
  -- The number of steps depends on the length of a source, and some number is enough for both.
  obtain ⟨steps, enough, otherEnough⟩ : ∃ steps, 8 * (source.toList.length + 1) ≤ steps ∧
      8 * (other.toList.length + 1) ≤ steps :=
    ⟨_, Nat.le_max_left _ _, Nat.le_max_right _ _⟩
  rw [(compile_within library source arguments enough).1,
    (compile_within library other arguments otherEnough).1]
  exact compiled_givingAlike (Reader.inStep_givingAlike.follows_wholeText False.elim
    Reader.complete_givingAlike library.hasFunction steps 0 (fun _ => rfl)
    ⟨.ofSource source, arguments⟩ ⟨.ofSource other, arguments⟩ ⟨alike, rfl⟩)

/-! ## Lexing undoes writing -/

/-- Taking tokens from the source gives these and then, on the given line, the end.  No fault
comes up. -/
def LexesTo (source : String) (tokens : List Token) (last : Nat) : Prop :=
  (∀ token ∈ tokens, token.kind ≠ .endOfFile) ∧
    (Lexer.ofSource source).results (tokens.length + 1) =
      tokens.map .ok ++ [.ok ⟨.endOfFile, "", last⟩]

/-- If a source lexes without a fault, the text written from its tokens lexes to the same
tokens, which are of the same kinds, have the same texts and lie on the same lines.  Whatever
the library and the arguments, it compiles to the same program or fails in the same way. -/
theorem lexesTo_writtenOut {source : String} {tokens : List Token} {last : Nat}
    (lexed : LexesTo source tokens last) :
    LexesTo (writtenOut tokens) tokens last ∧
      ∀ (library : Library) (arguments : Arguments),
        compile library (writtenOut tokens) arguments = compile library source arguments := by
  have lexes : Scanner.Lexes last ⟨source.toList, 1⟩ tokens :=
    Scanner.lexes_of_results lexed.2 lexed.1
  refine ⟨⟨lexed.1, lexes.written.results 1⟩, fun library arguments => ?_⟩
  exact compile_of_givesAlike library arguments (Lexer.givesAlike_of_lexes lexes lexes.written)

/-- Numerals with points, a comment with a quote in it, a string over two lines, and marks with
no blanks around them. -/
theorem lexesTo_writtenOut_neighbours :
    ∃ tokens, LexesTo "for i in 1..3\x7bprint-i/2.5// \"\n\x7d\nx=\"a\n b\"" tokens 4 ∧
      writtenOut tokens = "for i in 1..3 \x7b print - i / 2.5 \n \x7d \n x = \"a\n b\"" ∧
      LexesTo "for i in 1..3 \x7b print - i / 2.5 \n \x7d \n x = \"a\n b\"" tokens 4 ∧
      compile Standard.library "for i in 1..3 \x7b print - i / 2.5 \n \x7d \n x = \"a\n b\""
          ⟨[], {}⟩ =
        compile Standard.library "for i in 1..3\x7bprint-i/2.5// \"\n\x7d\nx=\"a\n b\""
          ⟨[], {}⟩ := by
  have lexed : LexesTo "for i in 1..3\x7bprint-i/2.5// \"\n\x7d\nx=\"a\n b\""
      [⟨.keyword, "for", 1⟩, ⟨.identifier, "i", 1⟩, ⟨.keyword, "in", 1⟩, ⟨.range, "1..3", 1⟩,
        ⟨.openBrace, "\x7b", 1⟩, ⟨.identifier, "print", 1⟩, ⟨.minus, "-", 1⟩,
        ⟨.identifier, "i", 1⟩, ⟨.binaryOperator, "/", 1⟩, ⟨.number, "2.5", 1⟩,
        ⟨.newLine, "\n", 1⟩, ⟨.closeBrace, "\x7d", 2⟩, ⟨.newLine, "\n", 2⟩,
        ⟨.identifier, "x", 3⟩, ⟨.equals, "=", 3⟩, ⟨.string, "a\n b", 3⟩] 4 :=
    ⟨by decide, by cbv⟩
  have found := lexesTo_writtenOut lexed
  exact ⟨_, lexed, rfl, found.1, found.2 Standard.library ⟨[], {}⟩⟩

end Scriptlet
