import Mathlib
import Scriptlet.Proofs.Allowance
import Scriptlet.Proofs.JoinedTexts
import Scriptlet.Proofs.Partition

namespace Scriptlet

/-!
# Layout

Blanks, comments and line breaks in front of a line break change nothing but the lines of what
follows.  The text with the layout in it gives more line breaks in that place, and nobody
counts line breaks: where one of them may be taken, any number of them is.  Everywhere else a
reading fails at the first of them, and that one is in both texts, on the same line.

The text with the layout is read first, and the other one follows it.  Up to the line break both
readers stand in front of the same tokens.  Behind the first line break the reader of the longer
text lags, until it has passed over the layout, and then both stand in front of the same rest.
-/

/-- Blanks, comments and line breaks.  A comment goes on until its line ends. -/
inductive Layout : List Char → Prop
  | nothing : Layout []
  | blank {c : Char} {cs : List Char} : Lexeme.isSpacing c = true → Layout cs → Layout (c :: cs)
  | comment {body cs : List Char} : '\n' ∉ body → Layout cs → Layout ('/' :: '/' :: (body ++ cs))
  | lineBreak {cs : List Char} : Layout cs → Layout ('\n' :: cs)

namespace Lexeme

theorem afterIgnored_spacing {run : List Char} (blank : ∀ c ∈ run, isSpacing c = true)
    (cs : List Char) : afterIgnored (run ++ cs) = afterIgnored cs := by
  unfold afterIgnored
  rw [List.dropWhile_append_of_pos blank]

theorem afterIgnored_comment {body cs : List Char} (unbroken : '\n' ∉ body) :
    afterIgnored ('/' :: '/' :: (body ++ cs)) = cs.dropWhile (· ≠ '\n') := by
  have inside : ∀ c ∈ body, decide (c ≠ '\n') = true := by
    intro c member
    apply decide_eq_true
    rintro rfl
    exact unbroken member
  exact List.dropWhile_append_of_pos inside

/-- Where nothing is found, the line does not end. -/
theorem not_lineBreak_of_ended {cs : List Char} (ended : afterIgnored cs = []) : '\n' ∉ cs := by
  rcases afterIgnored_split cs with ⟨ignored, whole, unbroken⟩
  rwa [whole, ended, List.append_nil]

theorem dropWhile_of_unbroken {cs : List Char} (unbroken : '\n' ∉ cs) :
    cs.dropWhile (· ≠ '\n') = [] := by
  apply List.dropWhile_eq_nil_iff.mpr
  intro c member
  apply decide_eq_true
  rintro rfl
  exact unbroken member

/-- If nothing is found in two texts, nothing is found in both of them together: a comment may go
on, but a line break would be found. -/
theorem afterIgnored_append {cs others : List Char} (ended : afterIgnored cs = [])
    (otherEnded : afterIgnored others = []) : afterIgnored (cs ++ others) = [] := by
  rcases afterIgnored_skips cs with ⟨skipped, whole, skips⟩
  rw [ended, List.append_nil] at whole
  rw [whole]
  cases skips with
  | blanks blank =>
      rw [afterIgnored_spacing blank]
      exact otherEnded
  | comment blank unbroken _ =>
      rw [List.append_assoc, afterIgnored_spacing blank, List.cons_append, List.cons_append,
        afterIgnored_comment unbroken]
      exact dropWhile_of_unbroken (not_lineBreak_of_ended otherEnded)

end Lexeme

/-- Nothing is found in a layout, or a line break is, and behind it the layout goes on. -/
theorem Layout.found {cs : List Char} (layout : Layout cs) :
    Lexeme.afterIgnored cs = [] ∨
      ∃ front others, cs = front ++ '\n' :: others ∧ Lexeme.afterIgnored front = [] ∧
        Layout others := by
  induction layout with
  | nothing => exact Or.inl rfl
  | @blank c cs spacing _ inductionHypothesis =>
      have skipped : ∀ text, Lexeme.afterIgnored (c :: text) = Lexeme.afterIgnored text :=
        fun text => Lexeme.afterIgnored_spacing (List.forall_mem_singleton.mpr spacing) text
      rcases inductionHypothesis with ended | ⟨front, others, rfl, ended, layout⟩
      · exact Or.inl ((skipped cs).trans ended)
      · exact Or.inr ⟨c :: front, others, rfl, (skipped front).trans ended, layout⟩
  | @comment body cs unbroken _ inductionHypothesis =>
      rcases inductionHypothesis with ended | ⟨front, others, rfl, ended, layout⟩
      · left
        rw [Lexeme.afterIgnored_comment unbroken]
        exact Lexeme.dropWhile_of_unbroken (Lexeme.not_lineBreak_of_ended ended)
      · refine Or.inr ⟨'/' :: '/' :: (body ++ front), others, ?_, ?_, layout⟩
        · simp
        · rw [Lexeme.afterIgnored_comment unbroken]
          exact Lexeme.dropWhile_of_unbroken (Lexeme.not_lineBreak_of_ended ended)
  | @lineBreak cs layout _ => exact Or.inr ⟨[], cs, rfl, rfl, layout⟩

namespace Scanner

/-- Behind the end of a text with a layout, the first line break is found.  It is the last one,
or the layout goes on. -/
theorem scan_layout {cs layout : List Char} (ended : Lexeme.afterIgnored cs = [])
    (isLayout : Layout layout) (rest : List Char) (line : Nat) :
    (layout.count '\n' = 0 ∧ (⟨cs ++ (layout ++ '\n' :: rest), line⟩ : Scanner).scan =
        (.ok ⟨.newLine, "\n", line⟩, ⟨rest, line + 1⟩)) ∨
      ∃ others, Layout others ∧ layout.count '\n' = others.count '\n' + 1 ∧
        (⟨cs ++ (layout ++ '\n' :: rest), line⟩ : Scanner).scan =
          (.ok ⟨.newLine, "\n", line⟩, ⟨others ++ '\n' :: rest, line + 1⟩) := by
  rcases isLayout.found with nothing | ⟨front, others, rfl, nothing, goesOn⟩
  · left
    rw [← List.append_assoc]
    exact ⟨List.count_eq_zero.mpr (Lexeme.not_lineBreak_of_ended nothing),
      scan_joined_end (Lexeme.afterIgnored_append ended nothing)⟩
  · refine Or.inr ⟨others, goesOn, ?_, ?_⟩
    · rw [List.count_append, List.count_cons_self,
        List.count_eq_zero.mpr (Lexeme.not_lineBreak_of_ended nothing), Nat.zero_add]
    · rw [List.append_assoc, ← List.append_assoc, List.cons_append]
      exact scan_joined_end (Lexeme.afterIgnored_append ended nothing)

/-! ## The line break in front of which the layout is put -/

/-- The line break between the two texts is one of the tokens. -/
def BreaksLine (before rest : List Char) : Prop :=
  ∃ tokens between token after, Gives ⟨before ++ '\n' :: rest, 1⟩ tokens between ∧
    between.scan = (.ok token, after) ∧ token.kind = .newLine ∧ after.rest = rest

/-- When the text is scanned, no string is open at its end. -/
inductive Closed : List Char → Prop
  | ended {cs : List Char} : Lexeme.afterIgnored cs = [] → Closed cs
  | lexeme {c : Char} {cs others : List Char} : Lexeme.afterIgnored cs = c :: others →
      (Lexeme.first c others).shape ≠ .openString → Closed (Lexeme.first c others).rest → Closed cs

/-- A string that is open at the end of a text takes the line break behind it. -/
theorem open_takes {c : Char} {cs : List Char} (opened : (Lexeme.first c cs).shape = .openString)
    (rest : List Char) :
    (Lexeme.first c (cs ++ '\n' :: rest)).shape ≠ .token .newLine ∧
      (Lexeme.first c (cs ++ '\n' :: rest)).rest.length ≤ rest.length := by
  rcases Lexeme.first_eq_quoted (Or.inr opened) with ⟨rfl, same⟩
  have unquoted : ∀ d ∈ cs, decide (d ≠ '"') = true := by
    rw [same] at opened
    unfold Lexeme.quoted at opened
    cases tail : cs.dropWhile (· ≠ '"') with
    | nil => exact List.dropWhile_eq_nil_iff.mp tail
    | cons close others => simp only [tail, reduceCtorEq] at opened
  have first : Lexeme.first '"' (cs ++ '\n' :: rest) = Lexeme.quoted (cs ++ '\n' :: rest) := rfl
  have drops : (cs ++ '\n' :: rest).dropWhile (· ≠ '"') = rest.dropWhile (· ≠ '"') := by
    rw [List.dropWhile_append_of_pos unquoted, List.dropWhile_cons_of_pos (by decide)]
  have shorter : (rest.dropWhile (· ≠ '"')).length ≤ rest.length :=
    (List.dropWhile_suffix _).length_le
  rw [first, Lexeme.quoted, drops]
  cases tail : rest.dropWhile (· ≠ '"') with
  | nil => exact ⟨by simp, Nat.zero_le _⟩
  | cons close others =>
      rw [tail] at shorter
      exact ⟨by simp, Nat.le_of_succ_le shorter⟩

/-- A scan in front of a line break ends in front of it, or it finds it, or it goes too far. -/
theorem scan_broken (cs rest : List Char) (line : Nat) :
    Lexeme.afterIgnored cs = [] ∨
      (∃ others, (⟨cs ++ '\n' :: rest, line⟩ : Scanner).scan.2.rest = others ++ '\n' :: rest ∧
        (Closed others → Closed cs)) ∨
      (⟨cs ++ '\n' :: rest, line⟩ : Scanner).scan.2.rest.length ≤ rest.length ∧
        ∀ token, (⟨cs ++ '\n' :: rest, line⟩ : Scanner).scan.1 = .ok token →
          token.kind ≠ .newLine := by
  cases front : Lexeme.afterIgnored cs with
  | nil => exact Or.inl rfl
  | cons c others =>
      right
      by_cases opened : (Lexeme.first c others).shape = .openString
      · right
        have joined := Lexeme.front_joined (d := '\n') front (by decide) rest
        have takes := open_takes opened rest
        rw [scan_of_cons joined]
        refine ⟨takes.2, ?_⟩
        intro token found
        unfold Lexeme.outcome at found
        cases shape : (Lexeme.first c (others ++ '\n' :: rest)).shape with
        | token kind =>
            simp only [shape, Except.ok.injEq] at found
            rw [← found]
            rintro rfl
            exact takes.1 shape
        | openString => simp only [shape, reduceCtorEq] at found
        | unknown => simp only [shape, reduceCtorEq] at found
      · left
        rw [scan_closed front opened (by decide)]
        exact ⟨(Lexeme.first c others).rest, rfl, fun closed => .lexeme front opened closed⟩

/-- Scanning does not make a text longer. -/
theorem scan_length_le (scanner : Scanner) : scanner.scan.2.rest.length ≤ scanner.rest.length := by
  by_cases ended : Lexeme.afterIgnored scanner.rest = []
  · rw [scan_of_end ended]
    exact Nat.zero_le _
  · apply Nat.le_of_lt
    apply scan_shortens (rfl : scanner.scan = (scanner.scan.1, scanner.scan.2))
    intro found
    exact ended (ended_of_endOfFile (Prod.ext found rfl : scanner.scan = (_, scanner.scan.2)) rfl)

theorem Gives.length_le {scanner after : Scanner} {tokens : List Token}
    (given : Gives scanner tokens after) : after.rest.length ≤ scanner.rest.length := by
  induction given with
  | nothing => exact Nat.le_refl _
  | @token scanner _ _ _ _ scanned _ inductionHypothesis =>
      have shorter := scan_length_le scanner
      rw [scanned] at shorter
      exact Nat.le_trans inductionHypothesis shorter
  | @fault scanner _ _ _ _ scanned _ inductionHypothesis =>
      have shorter := scan_length_le scanner
      rw [scanned] at shorter
      exact Nat.le_trans inductionHypothesis shorter

/-- No string is open in front of a line break that is a token. -/
theorem closed_of_gives {rest : List Char} {start between after : Scanner} {tokens : List Token}
    {token : Token} (given : Gives start tokens between)
    (scanned : between.scan = (.ok token, after)) (broken : token.kind = .newLine)
    (left : after.rest = rest) : ∀ cs, start.rest = cs ++ '\n' :: rest → Closed cs := by
  have shorter : rest.length < between.rest.length := by
    rw [← left]
    apply scan_shortens scanned
    rintro ⟨⟩
    cases broken
  -- One scan leads to where the rest of them start, and they get as far as the line break.
  have step : ∀ {start next : Scanner} {outcome : Except SyntaxFault Token},
      start.scan = (outcome, next) → rest.length < next.rest.length →
      (∀ cs, next.rest = cs ++ '\n' :: rest → Closed cs) →
      ∀ cs, start.rest = cs ++ '\n' :: rest → Closed cs := by
    rintro ⟨_, line⟩ next outcome found more goesOn cs rfl
    rcases scan_broken cs rest line with ended | ⟨others, whole, closed⟩ | ⟨less, _⟩
    · exact .ended ended
    · rw [found] at whole
      exact closed (goesOn others whole)
    · rw [found] at less
      exact absurd less (Nat.not_le_of_lt more)
  induction given with
  | @nothing start =>
      rcases start with ⟨_, line⟩
      rintro cs rfl
      rcases scan_broken cs rest line with ended | ⟨others, whole, _⟩ | ⟨_, other⟩
      · exact .ended ended
      · rw [scanned] at whole
        have lengths := congrArg List.length (left.symm.trans whole)
        rw [List.length_append, List.length_cons] at lengths
        omega
      · rw [scanned] at other
        exact absurd broken (other token rfl)
  | token found given inductionHypothesis =>
      exact step found (Nat.lt_of_lt_of_le shorter given.length_le)
        (inductionHypothesis scanned shorter)
  | fault found given inductionHypothesis =>
      exact step found (Nat.lt_of_lt_of_le shorter given.length_le)
        (inductionHypothesis scanned shorter)

end Scanner

/-! ## Two texts -/

/-- The lines up to the given one are kept, and this many lines behind it are left out. -/
def closeUp (last lines line : Nat) : Nat :=
  if line ≤ last then line else line - lines

theorem closeUp_of_le {last line : Nat} (kept : line ≤ last) (lines : Nat) :
    closeUp last lines line = line :=
  if_pos kept

theorem closeUp_of_lt {last lines line : Nat} (behind : last < line) :
    closeUp last lines line = line - lines :=
  if_neg (Nat.not_le_of_lt behind)

namespace Scanner

section Relaid

variable (layout rest : List Char) (last : Nat)

/-- The scanners stand in front of the same tokens, either before the line break that both texts
have on the given line or behind the layout. -/
inductive Apart : Scanner → Scanner → Prop
  | before {cs : List Char} {line : Nat} : Closed cs → line + cs.count '\n' = last →
      Apart ⟨cs ++ (' ' :: layout ++ '\n' :: rest), line⟩ ⟨cs ++ '\n' :: rest, line⟩
  | behind {text : List Char} {line : Nat} : last + layout.count '\n' < line →
      Apart ⟨text, line⟩ ⟨text, line - layout.count '\n'⟩

/-- The first scanner has more of the layout in front of it, and the second one is behind the line
break. -/
inductive Passing : Scanner → Scanner → Prop
  | within {cs : List Char} {line : Nat} : Layout cs →
      line + cs.count '\n' = last + layout.count '\n' →
      Passing ⟨cs ++ '\n' :: rest, line⟩ ⟨rest, last + 1⟩

variable {layout rest : List Char} {last : Nat} {scanner other : Scanner}

/-- Where the first scanner has found a line break, it is behind the layout or still in it. -/
theorem found_break {cs more : List Char} {line : Nat} (ended : Lexeme.afterIgnored cs = [])
    (isLayout : Layout more)
    (lines : line + more.count '\n' = last + layout.count '\n') :
    ∃ after, (⟨cs ++ (more ++ '\n' :: rest), line⟩ : Scanner).scan =
        (.ok ⟨.newLine, "\n", line⟩, after) ∧
      (Apart layout rest last after ⟨rest, last + 1⟩ ∨
        Passing layout rest last after ⟨rest, last + 1⟩) := by
  rcases scan_layout ended isLayout rest line with
    ⟨none, scanned⟩ | ⟨further, goesOn, counted, scanned⟩
  · refine ⟨_, scanned, Or.inl ?_⟩
    have there : last + 1 = line + 1 - layout.count '\n' := by omega
    rw [there]
    exact .behind (by omega)
  · exact ⟨_, scanned, Or.inr (.within goesOn (by omega))⟩

theorem Passing.scan (passing : Passing layout rest last scanner other) :
    ∃ after, scanner.scan = (.ok ⟨.newLine, "\n", scanner.line⟩, after) ∧
      (Apart layout rest last after other ∨ Passing layout rest last after other) := by
  cases passing with
  | within isLayout lines =>
      have ended : Lexeme.afterIgnored [] = [] := rfl
      exact found_break ended isLayout lines

/-- Both scanners report the same, and they get to the same place unless it is the line break that
they have found. -/
theorem Apart.scan (apart : Apart layout rest last scanner other) (isLayout : Layout layout) :
    other.scan.1 = renumberedScan (closeUp last (layout.count '\n')) scanner.scan.1 ∧
      (Apart layout rest last scanner.scan.2 other.scan.2 ∨
        scanner.scan.1 = .ok ⟨.newLine, "\n", scanner.line⟩ ∧
          Passing layout rest last scanner.scan.2 other.scan.2) := by
  cases apart with
  | @before cs line closed lines =>
      cases closed with
      | ended ended =>
          have here : line = last := by
            rwa [List.count_eq_zero.mpr (Lexeme.not_lineBreak_of_ended ended), Nat.add_zero]
              at lines
          subst here
          have blank : Layout (' ' :: layout) := .blank (by decide) isLayout
          have counted : (' ' :: layout).count '\n' = layout.count '\n' :=
            List.count_cons_of_ne (by decide)
          obtain ⟨after, scanned, goesOn⟩ : ∃ after,
              (⟨cs ++ (' ' :: layout ++ '\n' :: rest), line⟩ : Scanner).scan =
                (.ok ⟨.newLine, "\n", line⟩, after) ∧
              (Apart layout rest line after ⟨rest, line + 1⟩ ∨
                Passing layout rest line after ⟨rest, line + 1⟩) :=
            found_break ended blank (congrArg (line + ·) counted)
          rw [scanned, scan_joined_end ended]
          refine ⟨?_, goesOn.imp_right fun passing => ⟨rfl, passing⟩⟩
          simp only [renumberedScan, Token.renumbered, closeUp_of_le (Nat.le_refl line)]
      | @lexeme c _ others front shut closed =>
          have kept := scan_keeps_lastLine ⟨cs, line⟩
          rw [scan_of_cons front] at kept
          simp only [lines] at kept
          have elsewhere := Lexeme.outcome_elsewhere (closeUp last (layout.count '\n'))
            (Lexeme.first c others) line (line + (Lexeme.first c others).spelling.count '\n')
          rw [closeUp_of_le (by omega), closeUp_of_le (by omega)] at elsewhere
          rw [scan_closed front shut (by decide), List.cons_append,
            scan_closed front shut (by decide)]
          exact ⟨elsewhere, Or.inl (.before closed kept)⟩
  | @behind text line beyond =>
      cases front : Lexeme.afterIgnored text with
      | nil =>
          rw [scan_of_end front, scan_of_end front]
          refine ⟨?_, Or.inl (.behind beyond)⟩
          simp only [renumberedScan, Token.renumbered, closeUp_of_lt (show last < line by omega)]
      | cons c others =>
          have elsewhere := Lexeme.outcome_elsewhere (closeUp last (layout.count '\n'))
            (Lexeme.first c others) line (line + (Lexeme.first c others).spelling.count '\n')
          rw [closeUp_of_lt (by omega), closeUp_of_lt (by omega)] at elsewhere
          have later : line - layout.count '\n' + (Lexeme.first c others).spelling.count '\n' =
              line + (Lexeme.first c others).spelling.count '\n' - layout.count '\n' := by
            omega
          rw [scan_of_cons front, scan_of_cons front]
          simp only [later]
          exact ⟨elsewhere, Or.inl (.behind (by omega))⟩

end Relaid
end Scanner

namespace Lexer

section Relaid

variable (layout rest : List Char) (last : Nat)

/-- The lexers are in step: what the first one has looked at, the second one has looked at, and
the layout has not been entered unless its first line break was only looked at. -/
structure Relaid (lexer other : Lexer) : Prop where
  scanners : Scanner.Apart layout rest last lexer.scanner other.scanner ∨
    Scanner.Passing layout rest last lexer.scanner other.scanner ∧
      ∃ token, lexer.ahead = some token ∧ token.kind = .newLine
  ahead : other.ahead =
    lexer.ahead.map (Token.renumbered (closeUp last (layout.count '\n')))

/-- The first lexer has line breaks in front of it that the second one does not have. -/
structure Lags (lexer other : Lexer) : Prop where
  scanners : Scanner.Passing layout rest last lexer.scanner other.scanner
  ahead : lexer.ahead = none
  otherAhead : other.ahead = none

end Relaid

section Relaid

variable {layout rest : List Char} {last : Nat} {lexer other : Lexer}

/-- Both lexers take the same token, or both meet the same fault. -/
theorem Relaid.next (relaid : Relaid layout rest last lexer other) (isLayout : Layout layout) :
    match Lexer.next lexer with
    | .ok token after => ∃ otherAfter,
        Lexer.next other =
          .ok (token.renumbered (closeUp last (layout.count '\n'))) otherAfter ∧
        (Relaid layout rest last after otherAfter ∨
          token.kind = .newLine ∧ Lags layout rest last after otherAfter) ∧
        Relaid layout rest last { after with ahead := some token }
          { otherAfter with
            ahead := some (token.renumbered (closeUp last (layout.count '\n'))) }
    | .error fault _ => ∃ otherAfter, Lexer.next other =
        .error (fault.renumbered (closeUp last (layout.count '\n'))) otherAfter := by
  rcases lexer with ⟨scanner, ahead⟩
  rcases other with ⟨otherScanner, otherAhead⟩
  rcases relaid with ⟨scanners, rfl⟩
  cases ahead with
  | some token =>
      refine ⟨⟨otherScanner, none⟩, rfl, ?_, scanners, rfl⟩
      rcases scanners with apart | ⟨passing, _, ⟨⟩, broken⟩
      · exact Or.inl ⟨Or.inl apart, rfl⟩
      · exact Or.inr ⟨broken, passing, rfl, rfl⟩
  | none =>
      have apart : Scanner.Apart layout rest last scanner otherScanner :=
        scanners.resolve_right fun ⟨_, _, ahead, _⟩ => by cases ahead
      have scans := apart.scan isLayout
      rcases scanned : scanner.scan with ⟨outcome, after⟩
      rcases otherScanned : otherScanner.scan with ⟨otherOutcome, otherAfter⟩
      rw [scanned, otherScanned] at scans
      rcases scans with ⟨rfl, goesOn⟩
      simp only [Lexer.next, Option.map_none, scanned, otherScanned]
      cases outcome with
      | error fault => exact ⟨_, rfl⟩
      | ok token =>
          refine ⟨⟨otherAfter, none⟩, rfl, ?_, ?_, rfl⟩
          · rcases goesOn with apart | ⟨broken, passing⟩
            · exact Or.inl ⟨Or.inl apart, rfl⟩
            · cases broken
              exact Or.inr ⟨rfl, passing, rfl, rfl⟩
          · refine goesOn.imp_right ?_
            rintro ⟨broken, passing⟩
            cases broken
            exact ⟨passing, _, rfl, rfl⟩

/-- The lexer that lags takes a line break. -/
theorem Lags.next (lags : Lags layout rest last lexer other) :
    ∃ token after, Lexer.next lexer = .ok token after ∧ token.kind = .newLine ∧
      (Relaid layout rest last after other ∨ Lags layout rest last after other) := by
  rcases lexer with ⟨scanner, ahead⟩
  rcases other with ⟨otherScanner, otherAhead⟩
  rcases lags with ⟨passing, rfl, rfl⟩
  rcases passing.scan with ⟨after, scanned, goesOn⟩
  have ran : Lexer.next ⟨scanner, none⟩ = .ok ⟨.newLine, "\n", scanner.line⟩ ⟨after, none⟩ := by
    simp only [Lexer.next, scanned]
  refine ⟨_, _, ran, rfl, goesOn.imp ?_ ?_⟩
  · exact fun apart => ⟨Or.inl apart, rfl⟩
  · exact fun passing => ⟨passing, rfl, rfl⟩

end Relaid
end Lexer

/-! ## Two readings -/

namespace Reader

/-- A text with a layout in it, and the same text without.  The first reading goes through more
tokens, so it may run out of steps where the second one does not. -/
def Pairing.relaid (layout rest : List Char) (last : Nat) : Pairing where
  strict := True
  joined := False
  place := closeUp last (layout.count '\n')
  spare := 1
  known _ := True
  readers _ reader other := Lexer.Relaid layout rest last reader.lexer other.lexer ∧
    other.arguments = reader.arguments
  past _ _ _ := False
  lagging _ reader other := Lexer.Lags layout rest last reader.lexer other.lexer ∧
    other.arguments = reader.arguments
  failed _ reader other := other.arguments = reader.arguments

theorem inStep_relaid {layout : List Char} (isLayout : Layout layout) (rest : List Char)
    (last : Nat) :
    (Pairing.relaid layout rest last).InStep (Lexer.Relaid layout rest last)
      (Lexer.Lags layout rest last) where
  loose joined := joined.elim
  known _ := trivial
  readers := Iff.rfl
  lags := Iff.rfl
  failed _ _ _ _ same := same
  step := by
    intro lexer other after token relaid ran
    have nexts := relaid.next isLayout
    rw [ran] at nexts
    rcases nexts with ⟨otherAfter, otherRan, goesOn, kept⟩
    exact ⟨_, otherAfter, otherRan, Or.inl rfl, fun _ => goesOn, kept⟩
  fault := by
    intro _ lexer other after fault relaid ran
    have nexts := relaid.next isLayout
    rw [ran] at nexts
    exact Or.inr nexts

theorem catchesUp_relaid {layout : List Char} (isLayout : Layout layout) (rest : List Char)
    (last : Nat) : (Pairing.relaid layout rest last).CatchesUp :=
  (inStep_relaid isLayout rest last).catchesUp
    fun lags => ⟨Or.inr (Or.inl ⟨rfl, Nat.one_pos⟩), lags.next⟩

theorem complete_relaid (layout rest : List Char) (last : Nat) :
    (Pairing.relaid layout rest last).Complete where
  alike alike := alike.elim id fun ⟨joined, _⟩ => joined.elim
  past := id

end Reader

/-! ## Sources -/

/-- What compiling a source comes to, on other lines.  What is left of the arguments is the
same. -/
def relined (place : Nat → Nat) :
    EStateM.Result Fault Arguments Program → EStateM.Result Fault Arguments Program
  | .ok program rest => .ok ⟨program.root.renumbered place⟩ rest
  | .error fault rest => .error (fault.renumbered place) rest

/-- Both sources are read side by side, with steps enough for the longer one.  The shorter one
gets one more step, so that nothing is asked of it where the longer one runs out of them; that
does not happen. -/
theorem statements_relaid (library : Library) {before layout rest : String}
    (arguments : Arguments) (breaks : Scanner.BreaksLine before.toList rest.toList)
    (isLayout : Layout layout.toList) (steps : Nat) :
    EndAlike
      (fun nodes others (reader other : Reader) =>
        others = Node.eachRenumbered (closeUp (newLines before + 1) (newLines layout)) nodes ∧
          other.arguments = reader.arguments)
      (Reader.Pairing.relaid layout.toList rest.toList (newLines before + 1)).rule
      (Reader.statementsUntil (Reader.statementWithin library.hasFunction steps) .endOfFile steps
        ⟨.ofSource (before ++ " " ++ layout ++ "\n" ++ rest), arguments⟩)
      (Reader.statementsUntil (Reader.statementWithin library.hasFunction (steps + 1)) .endOfFile
        (steps + 1) ⟨.ofSource (before ++ "\n" ++ rest), arguments⟩) := by
  rcases breaks with ⟨tokens, between, token, after, given, scanned, broken, left⟩
  have closed := Scanner.closed_of_gives given scanned broken left before.toList rfl
  have relaid : Lexer.Relaid layout.toList rest.toList (newLines before + 1)
      (.ofSource (before ++ " " ++ layout ++ "\n" ++ rest))
      (.ofSource (before ++ "\n" ++ rest)) := by
    have whole : (before ++ "\n" ++ rest).toList = before.toList ++ '\n' :: rest.toList := by simp
    have longer : (before ++ " " ++ layout ++ "\n" ++ rest).toList =
        before.toList ++ (' ' :: layout.toList ++ '\n' :: rest.toList) := by simp
    unfold Lexer.ofSource
    rw [whole, longer]
    exact ⟨Or.inl (.before closed (Nat.add_comm 1 _)), rfl⟩
  have follows := (Reader.inStep_relaid isLayout rest.toList (newLines before + 1)).follows_wholeText
    (Reader.catchesUp_relaid isLayout rest.toList (newLines before + 1))
    (Reader.complete_relaid layout.toList rest.toList (newLines before + 1))
    library.hasFunction steps 1
    (fun asked => absurd (Or.inr (Or.inl ⟨rfl, Nat.one_pos⟩)) asked)
  exact (follows ⟨.ofSource _, arguments⟩ ⟨.ofSource _, arguments⟩ ⟨relaid, rfl⟩).weaken
    fun _ _ _ _ ⟨lists, same⟩ => ⟨lists.1, same⟩

/-- The readings being alike, so is what is made of them, if the first one has steps enough. -/
theorem compiled_relaid {layout rest : List Char} {last : Nat}
    {ending other : EStateM.Result Fault Reader (List Node)}
    (alike : EndAlike
      (fun nodes others (reader other : Reader) =>
        others = Node.eachRenumbered (closeUp (last + 1) (layout.count '\n')) nodes ∧
          other.arguments = reader.arguments)
      (Reader.Pairing.relaid layout rest (last + 1)).rule ending other)
    (goesOn : ∀ arguments, compiled ending ≠ .error .exhausted arguments) :
    compiled other = relined (closeUp (last + 1) (layout.count '\n')) (compiled ending) := by
  cases ending with
  | ok statements final =>
      cases other with
      | error fault otherFinal => exact alike.elim
      | ok others otherFinal =>
          rcases alike with ⟨rfl, same⟩
          simp only [compiled, relined, Block.renumbered, same, closeUp_of_le (Nat.le_add_left 1 _)]
  | error fault final =>
      have asked : ¬ (Reader.Pairing.relaid layout rest (last + 1)).rule.excused fault := by
        rintro (loose | ⟨rfl, _⟩ | spared)
        · exact loose trivial
        · exact goesOn final.arguments rfl
        · exact spared
      cases other with
      | ok others otherFinal => exact absurd alike asked
      | error otherFault otherFinal =>
          rcases alike.resolve_left asked with ⟨rfl, same⟩
          exact congrArg (EStateM.Result.error _) same

/-- A blank and any layout can be put in front of a line break that is a token.  The source
compiles as before, or fails as before, with the same arguments left: only the lines behind that
line break are other ones. -/
theorem layout_insensitive (library : Library) (before layout rest : String)
    (arguments : Arguments) (breaks : Scanner.BreaksLine before.toList rest.toList)
    (isLayout : Layout layout.toList) :
    compile library (before ++ "\n" ++ rest) arguments =
      relined (closeUp (newLines before + 1) (newLines layout))
        (compile library (before ++ " " ++ layout ++ "\n" ++ rest) arguments) := by
  have longer : (before ++ "\n" ++ rest).toList.length ≤
      (before ++ " " ++ layout ++ "\n" ++ rest).toList.length := by
    simp
    omega
  have first := compile_within library (before ++ " " ++ layout ++ "\n" ++ rest) arguments
    (Nat.le_refl _)
  have second := compile_within library (before ++ "\n" ++ rest) arguments (show _ ≤ 8 *
    ((before ++ " " ++ layout ++ "\n" ++ rest).toList.length + 1) + 1 by omega)
  have goesOn := first.2
  rw [first.1] at goesOn ⊢
  rw [second.1]
  exact compiled_relaid (statements_relaid library arguments breaks isLayout _) goesOn

/-- A conditional whose `else` stands on its own line keeps it. -/
theorem layout_insensitive_else :
    compile Standard.library ("if true { }" ++ " " ++ "// or\n" ++ "\n" ++ "else { }")
          ⟨[], {}⟩ =
        .ok ⟨.mk false [.conditional (.literal (.truth true) 1) (.mk true [] 1)
          (some (.mk true [] 3)) 1] 1⟩ ⟨[], {}⟩ ∧
      compile Standard.library ("if true { }" ++ "\n" ++ "else { }") ⟨[], {}⟩ =
        .ok ⟨.mk false [.conditional (.literal (.truth true) 1) (.mk true [] 1)
          (some (.mk true [] 2)) 1] 1⟩ ⟨[], {}⟩ := by
  have compiled : compile Standard.library
      ("if true { }" ++ " " ++ "// or\n" ++ "\n" ++ "else { }") ⟨[], {}⟩ =
        .ok ⟨.mk false [.conditional (.literal (.truth true) 1) (.mk true [] 1)
          (some (.mk true [] 3)) 1] 1⟩ ⟨[], {}⟩ := by
    cbv
  have breaks : Scanner.BreaksLine "if true { }".toList "else { }".toList :=
    ⟨_, _, _, _, .token rfl (.token rfl (.token rfl (.token rfl .nothing))), rfl, rfl, rfl⟩
  have isLayout : Layout ('/' :: '/' :: ([' ', 'o', 'r'] ++ ['\n'])) :=
    .comment (by decide) (.lineBreak .nothing)
  have same := layout_insensitive Standard.library "if true { }" "// or\n" "else { }" ⟨[], {}⟩
    breaks isLayout
  rw [compiled] at same
  exact ⟨compiled, same⟩

end Scriptlet
