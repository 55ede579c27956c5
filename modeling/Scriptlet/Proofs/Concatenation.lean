import Mathlib
import Scriptlet.Proofs.JoinedTexts
import Scriptlet.Proofs.RunningAlike
import Scriptlet.Script

namespace Scriptlet

/-!
# Programs one after the other

Two sources with a line break between them are read as the statements of the first and then
those of the second on later lines, and running them is running the first and then, if it
proceeds to its end, the second.

The one place where the first reading looks beyond its end is the `else` that a conditional may
have after line breaks.  No source begins with an `else`, so nothing is found there.
-/

/-- A token that is taken leaves less to read. -/
theorem Lexer.next_shortens {lexer after : Lexer} {token : Token}
    (ran : Lexer.next lexer = .ok token after) (goesOn : token.kind ≠ .endOfFile) :
    after.remaining < lexer.remaining := by
  rcases next_cases lexer with ⟨found, ahead, step⟩ | ⟨found, scanner, ahead, scanned, step⟩ |
      ⟨fault, scanner, ahead, scanned, step⟩ <;>
    rw [step] at ran <;> cases ran
  · simp [remaining, ahead]
  · have shorter := Scanner.scan_shortens scanned (by rintro ⟨⟩; exact goesOn rfl)
    simpa [remaining, ahead] using shorter

namespace Reader

/-! ## Reading on -/

section ReadingOn

variable {item : Read Node} {steps : Nat} {lexer after : Lexer} {token : Token}
  (ran : Lexer.next lexer = .ok token after) (arguments : Arguments)
include ran

theorem statementsUntil_closing (closing : token.kind = .endOfFile) :
    statementsUntil item .endOfFile (steps + 1) ⟨lexer, arguments⟩ =
      .ok [] ⟨after, arguments⟩ := by
  rw [statementsUntil, bind_of_ok (peekKind_of_ok ran arguments), if_pos closing,
    bind_of_ok (skip_ahead ran arguments)]
  rfl

theorem statementsUntil_item (goesOn : token.kind ≠ .endOfFile) (unbroken : token.kind ≠ .newLine) :
    statementsUntil item .endOfFile (steps + 1) ⟨lexer, arguments⟩ =
      (do
        let first ← item
        let others ← statementsUntil item .endOfFile steps
        pure (first :: others) : Read (List Node))
        ⟨{ after with ahead := some token }, arguments⟩ := by
  rw [statementsUntil, bind_of_ok (peekKind_of_ok ran arguments), if_neg goesOn]
  cases kind : token.kind with
  | newLine => exact absurd kind unbroken
  | endOfFile => exact absurd kind goesOn
  | _ => rfl

omit ran in
/-- Reading statements begins with looking at a token. -/
theorem next_of_statementsUntil {nodes : List Node} {final : Reader}
    (read : statementsUntil item .endOfFile steps ⟨lexer, arguments⟩ = .ok nodes final) :
    ∃ token after, Lexer.next lexer = .ok token after := by
  cases steps with
  | zero => cases read
  | succ steps =>
      cases ran : Lexer.next lexer with
      | ok token after => exact ⟨token, after, rfl⟩
      | error fault after =>
          have failed : peekKind ⟨lexer, arguments⟩ = .error (.source fault) ⟨after, arguments⟩ :=
            bind_of_error (peek_of_error ⟨lexer, arguments⟩ ran)
          rw [statementsUntil, bind_of_error failed] at read
          cases read

end ReadingOn

/-- Statements are still to be read, in any number of steps from some number on. -/
def ReadsOn (item : Read Node) (steps : Nat) (arguments rest : Arguments) (nodes : List Node)
    (lexer : Lexer) : Prop :=
  ∀ more, steps ≤ more → ∃ final,
    statementsUntil item .endOfFile more ⟨lexer, arguments⟩ = .ok nodes final ∧
      final.arguments = rest

namespace ReadsOn

variable {item : Read Node} {steps : Nat} {arguments rest : Arguments} {nodes : List Node}
  {lexer after : Lexer} {token : Token}

theorem next (readsOn : ReadsOn item steps arguments rest nodes lexer) :
    ∃ token after, Lexer.next lexer = .ok token after := by
  rcases readsOn steps (Nat.le_refl steps) with ⟨final, read, _⟩
  exact next_of_statementsUntil arguments read

/-- Looking at the next token changes nothing. -/
theorem look (readsOn : ReadsOn item steps arguments rest nodes lexer)
    (ran : Lexer.next lexer = .ok token after) :
    ReadsOn item steps arguments rest nodes { after with ahead := some token } := by
  intro more enough
  rcases readsOn more enough with ⟨final, read, left⟩
  refine ⟨final, ?_, left⟩
  cases more with
  | zero => cases read
  | succ more =>
      have again : Lexer.next { after with ahead := some token } = .ok token after := by
        have none := Lexer.ahead_of_next ran
        rcases after with ⟨scanner, ahead⟩
        cases none
        rfl
      rw [statementsUntil, bind_of_ok (peekKind_of_ok ran arguments)] at read
      rw [statementsUntil, bind_of_ok (peekKind_of_ok again arguments)]
      exact read

/-- Line breaks can be passed over. -/
theorem skip (readsOn : ReadsOn item steps arguments rest nodes lexer)
    (ran : Lexer.next lexer = .ok token after) (broken : token.kind = .newLine) :
    ReadsOn item steps arguments rest nodes after := by
  intro more enough
  rcases readsOn (more + 1) (Nat.le_succ_of_le enough) with ⟨final, read, left⟩
  rw [statementsUntil_newLine (by decide) ran broken arguments] at read
  exact ⟨final, read, left⟩

/-- No statement begins with an `else`. -/
theorem notElse {names : Names} {within : Nat}
    (readsOn : ReadsOn (statementWithin names within) steps arguments rest nodes lexer)
    (ran : Lexer.next lexer = .ok token after) : token.isKeyword "else" = false := by
  by_contra isElse
  rw [Bool.not_eq_false, Token.isKeyword, Bool.and_eq_true, decide_eq_true_eq,
    decide_eq_true_eq] at isElse
  rcases isElse with ⟨kind, text⟩
  rcases readsOn (steps + 1) (Nat.le_succ steps) with ⟨final, read, _⟩
  rw [statementsUntil_item ran arguments (by rw [kind]; decide) (by rw [kind]; decide)] at read
  rcases bind_eq_ok read with ⟨node, between, first, _⟩
  cases within with
  | zero =>
      rw [statementWithin] at first
      cases first
  | succ within =>
      rw [statementWithin, bind_of_ok (next_of_ahead rfl)] at first
      simp only [kind, text, String.reduceEq, if_false] at first
      cases first

/-- Passing over line breaks gets to a token that is not an `else`. -/
theorem skips {names : Names} {within : Nat}
    (readsOn : ReadsOn (statementWithin names within) steps arguments rest nodes lexer)
    (others : Arguments) {more : Nat} (enough : lexer.remaining < more) :
    ∃ final, skipNewLines more ⟨lexer, others⟩ = .ok () ⟨final, others⟩ ∧
      ReadsOn (statementWithin names within) steps arguments rest nodes final ∧
      ∃ token, final.ahead = some token ∧ token.isKeyword "else" = false := by
  induction more generalizing lexer with
  | zero => exact absurd enough (Nat.not_lt_zero _)
  | succ more inductionHypothesis =>
      rcases readsOn.next with ⟨token, after, ran⟩
      rw [skipNewLines, bind_of_ok (peekKind_of_ok ran others)]
      by_cases broken : token.kind = .newLine
      · rw [if_pos broken, bind_of_ok (skip_ahead ran others)]
        have shorter := Lexer.next_shortens ran (by rw [broken]; decide)
        exact inductionHypothesis (readsOn.skip ran broken) (by omega)
      · rw [if_neg broken]
        exact ⟨_, rfl, readsOn.look ran, token, rfl, readsOn.notElse ran⟩

end ReadsOn

/-! ## Statements of both texts -/

section Joining

variable {text : List Char} {last spare : Nat} {beyond : Lexer → Prop}

/-- Line breaks at the front of the second text lead to a place where more can be read, but no
`else`. -/
def GoesOn (text : List Char) (last : Nat) (beyond : Lexer → Prop) : Prop :=
  ∀ arguments more, text.length < more → ∃ final,
    skipNewLines more ⟨⟨⟨text, last + 1⟩, none⟩, arguments⟩ = .ok () ⟨final, arguments⟩ ∧
      beyond final ∧ ∃ token, final.ahead = some token ∧ token.isKeyword "else" = false

/-- Where a conditional of the first text looks for its `else`, the second reading may pass over
line breaks of the second text. -/
theorem skips_joining (goesOn : GoesOn text last beyond) (room : text.length < spare)
    (names : Names) (read : List Node) (steps : Nat) :
    (Pairing.joining text last spare beyond).Follows
      ((Pairing.joining text last spare beyond).readers read) (skipNewLines steps)
      (skipNewLines (steps + spare)) fun _ _ =>
        (Pairing.joining text last spare beyond).Between read := by
  have lawful : (Pairing.joining text last spare beyond).Lawful names names :=
    (inStep_joining text last spare beyond).lawful
  induction steps with
  | zero => exact follows_exhausted lawful _ _ rfl rfl
  | succ steps inductionHypothesis =>
      rw [Nat.add_right_comm]
      apply follows_peekKind lawful
      rintro token other (rfl | ⟨_, ended, broken⟩)
      · apply Tracks.ite Iff.rfl
        · intro broken
          apply Tracks.bind (lawful.breaks read token broken)
          intro _ _
          exact inductionHypothesis.weaken (fun _ _ behind => behind.resolve_right id)
            fun _ _ _ _ => id
        · intro _
          exact Tracks.pure fun _ _ faces => Or.inl faces.1
      · rintro reader ⟨otherLexer, arguments⟩ ⟨⟨followed, same⟩, ahead, otherAhead⟩
        rcases followed.ahead_cases with ⟨_, inside⟩ | atBreak
        · exact absurd ended (inside token ahead)
        · change otherLexer = _ at atBreak
          subst atBreak
          rcases goesOn arguments (steps + spare) (by omega) with ⟨final, ran, holds, notElse⟩
          rw [ended, if_neg (by decide), broken, if_pos rfl, bind_of_ok (skip_of_ahead rfl), ran]
          exact Or.inr ⟨⟨token, ahead, ended⟩, same, holds, notElse⟩

theorem lawful_joining (goesOn : GoesOn text last beyond) (room : text.length < spare)
    (names : Names) :
    (Pairing.joining text last spare beyond).LawfulStatements names names where
  toLawful := (inStep_joining text last spare beyond).lawful
  catchesUp := catchesUp_joining text last spare beyond
  declares _ := (inStep_joining text last spare beyond).declares
  skips := skips_joining goesOn room names
  past_first past := ⟨id, past.1⟩
  past_second past := past.2.2.2

end Joining

/-- The second text goes on wherever its statements can be read. -/
theorem ReadsOn.goesOn {names : Names} {within steps : Nat} {arguments rest : Arguments}
    {nodes : List Node} {text : List Char} {last : Nat}
    (readsOn : ReadsOn (statementWithin names within) steps arguments rest nodes
      ⟨⟨text, last + 1⟩, none⟩) :
    GoesOn text last (ReadsOn (statementWithin names within) steps arguments rest nodes) :=
  fun others _ enough => readsOn.skips others enough


/-- A text in front of a line break is read as on its own, and the statements of the text behind
it follow. -/
theorem statements_joined {item otherItem : Read Node} {text : List Char} {last spare steps : Nat}
    {between rest : Arguments} {second : List Node}
    (items : ∀ read,
      (Pairing.joining text last spare (ReadsOn otherItem steps between rest second)).Follows
        ((Pairing.joining text last spare
          (ReadsOn otherItem steps between rest second)).readers read) item otherItem
        ((Pairing.joining text last spare
          (ReadsOn otherItem steps between rest second)).Finishes read))
    (start : ReadsOn otherItem steps between rest second ⟨⟨text, last + 1⟩, none⟩)
    {first : List Node} {final : Reader} :
    ∀ taken more, taken + steps ≤ more → ∀ read reader other,
      (Pairing.joining text last spare (ReadsOn otherItem steps between rest second)).Between read
        reader other →
      statementsUntil item .endOfFile taken reader = .ok first final →
      final.arguments = between →
      ∃ after, statementsUntil otherItem .endOfFile more other = .ok (first ++ second) after ∧
        after.arguments = rest := by
  intro taken
  induction taken generalizing first with
  | zero =>
      intro _ _ _ _ _ _ ran
      cases ran
  | succ taken inductionHypothesis =>
      rintro more enough read ⟨lexer, arguments⟩ ⟨otherLexer, others⟩ related ran left
      obtain ⟨more, rfl⟩ : ∃ fewer, more = fewer + 1 := ⟨more - 1, by omega⟩
      rcases related with ⟨followed, same⟩ | ⟨⟨token, ahead, ended⟩, same, readsOn, _⟩
      · change others = arguments at same
        subst same
        rcases next_of_statementsUntil others ran with ⟨token, after, took⟩
        rcases followed.step took with ⟨otherToken, otherAfter, otherTook, alike, goesOn, kept⟩
        by_cases ended : token.kind = .endOfFile
        · have broken : otherAfter = ⟨⟨text, last + 1⟩, none⟩ ∧ otherToken.kind = .newLine := by
            rcases kept.ahead_cases with ⟨_, inside⟩ | atBreak
            · exact absurd ended (inside token rfl)
            · have none := Lexer.ahead_of_next otherTook
              rcases otherAfter with ⟨scanner, _⟩
              cases none
              cases atBreak
              exact ⟨rfl, rfl⟩
          rw [statementsUntil_closing took others ended] at ran
          cases ran
          change others = between at left
          subst left
          rw [statementsUntil_newLine (by decide) otherTook broken.2 others, broken.1]
          exact start more (by omega)
        · have tokens : otherToken = token := alike.resolve_right fun broken => ended broken.1
          subst tokens
          by_cases broken : otherToken.kind = .newLine
          · rw [statementsUntil_newLine (by decide) took broken others] at ran
            rw [statementsUntil_newLine (by decide) otherTook broken others]
            exact inductionHypothesis more (by omega) read ⟨after, others⟩ ⟨otherAfter, others⟩
              (Or.inl ⟨goesOn ended, rfl⟩) ran left
          · rw [statementsUntil_item took others ended broken] at ran
            rw [statementsUntil_item otherTook others ended broken]
            rcases bind_eq_ok ran with ⟨node, reader, readNode, readOthers⟩
            rcases bind_eq_ok readOthers with ⟨nodes, between, readNodes, finished⟩
            cases finished
            have statement := items read ⟨{ after with ahead := some otherToken }, others⟩
              ⟨{ otherAfter with ahead := some otherToken }, others⟩ ⟨kept, rfl⟩
            rw [readNode] at statement
            cases otherRead : otherItem ⟨{ otherAfter with ahead := some otherToken }, others⟩ with
            | error fault stopped =>
                rw [otherRead] at statement
                exact statement.elim
            | ok otherNode otherReader =>
                rw [otherRead] at statement
                rcases statement with ⟨⟨sameNode, _⟩, related⟩
                rcases inductionHypothesis more (by omega) _ reader otherReader related readNodes
                  left with ⟨last, readLast, arguments⟩
                refine ⟨last, ?_, arguments⟩
                rw [bind_of_ok otherRead, bind_of_ok readLast, sameNode]
                exact congrArg (EStateM.Result.ok · last)
                  (congrArg (· :: (nodes ++ second)) node.renumbered_id)
      · change others = arguments at same
        subst same
        rcases lexer with ⟨scanner, _⟩
        cases ahead
        rw [statementsUntil_closing rfl others ended] at ran
        cases ran
        change others = between at left
        subst left
        exact readsOn (more + 1) (by omega)

/-- A source that can be read can be read on later lines, with more steps. -/
theorem readsOn_later {names : Names} {source : String} {arguments : Arguments} {within : Nat}
    {statements : List Node} {final : Reader}
    (read : statementsUntil (statementWithin names within) .endOfFile within
      ⟨.ofSource source, arguments⟩ = .ok statements final) (lines spare : Nat) :
    ReadsOn (statementWithin names (within + spare)) within arguments final.arguments
      (Node.eachRenumbered (· + lines) statements) ⟨⟨source.toList, 1 + lines⟩, none⟩ := by
  intro more enough
  obtain ⟨extra, rfl⟩ : ∃ extra, more = within + extra := ⟨more - within, by omega⟩
  have ends := (inStep_later lines spare).follows_wholeText (catchesUp_later lines spare)
    (complete_later lines spare) names
    within extra (fun asked => absurd (Or.inl id) asked) ⟨.ofSource source, arguments⟩
    ⟨⟨⟨source.toList, 1 + lines⟩, none⟩, arguments⟩ ⟨rfl, rfl⟩
  rw [read] at ends
  cases otherRead : statementsUntil (statementWithin names (within + spare)) .endOfFile
      (within + extra) ⟨⟨⟨source.toList, 1 + lines⟩, none⟩, arguments⟩ with
  | error fault stopped =>
      rw [show (Pairing.later lines spare).spare = spare from rfl, otherRead] at ends
      exact ends.elim
  | ok nodes otherFinal =>
      rw [show (Pairing.later lines spare).spare = spare from rfl, otherRead] at ends
      rcases ends with ⟨⟨same, _⟩, left⟩
      exact ⟨otherFinal, congrArg (EStateM.Result.ok · otherFinal) same, left⟩

end Reader

/-! ## Sources -/

/-- The statements of both programs, those of the second on later lines. -/
def Program.followedBy (first : Program) (lines : Nat) (second : Program) : Program where
  root := .mk false (first.root.statements ++
    second.root.statements.map (Node.renumbered (· + lines))) 1

/-- What it takes to compile a source. -/
theorem compile_eq_ok {library : Library} {source : String} {arguments rest : Arguments}
    {program : Program} :
    compile library source arguments = .ok program rest ↔
      ∃ statements final,
        Reader.statementsUntil
          (Reader.statementWithin library.hasFunction (8 * (source.toList.length + 1))) .endOfFile
          (8 * (source.toList.length + 1)) ⟨.ofSource source, arguments⟩ = .ok statements final ∧
        final.arguments = rest ∧ program = ⟨.mk false statements 1⟩ := by
  have allowance : (⟨.ofSource source, arguments⟩ : Reader).allowance =
      8 * (source.toList.length + 1) := rfl
  unfold compile
  rw [Reader.program_eq, allowance]
  cases ran : Reader.statementsUntil
      (Reader.statementWithin library.hasFunction (8 * (source.toList.length + 1))) .endOfFile
      (8 * (source.toList.length + 1)) ⟨.ofSource source, arguments⟩ with
  | error fault final =>
      rw [bind_of_error ran]
      constructor
      · intro compiled
        cases compiled
      · rintro ⟨_, _, read, _⟩
        cases read
  | ok statements final =>
      rw [bind_of_ok ran]
      constructor
      · intro compiled
        cases compiled
        exact ⟨statements, final, rfl, rfl, rfl⟩
      · rintro ⟨_, _, read, rfl, rfl⟩
        cases read
        rfl

/-- Two sources that compile one after the other compile together. -/
theorem compile_joined {library : Library} {source other : String}
    {arguments between rest : Arguments} {first second : Program}
    (compiled : compile library source arguments = .ok first between)
    (compiledNext : compile library other between = .ok second rest) :
    compile library (source ++ "\n" ++ other) arguments =
      .ok (first.followedBy (newLines source + 1) second) rest := by
  rcases compile_eq_ok.mp compiled with ⟨statements, final, read, left, rfl⟩
  rcases compile_eq_ok.mp compiledNext with ⟨others, otherFinal, readNext, leftNext, rfl⟩
  have whole : (source ++ "\n" ++ other).toList = source.toList ++ '\n' :: other.toList := by
    simp
  have readsOn := Reader.readsOn_later readNext (newLines source + 1)
    (8 * (source.toList.length + 1))
  rw [leftNext, Nat.add_comm (8 * (other.toList.length + 1))] at readsOn
  have lawful := Reader.lawful_joining (Reader.ReadsOn.goesOn readsOn)
    (by omega : other.toList.length < 8 * (other.toList.length + 1)) library.hasFunction
  have items := (Reader.follows_statements lawful (8 * (source.toList.length + 1))).1
  have followed : Lexer.Followed other.toList (1 + newLines source) (.ofSource source)
      (.ofSource (source ++ "\n" ++ other)) := by
    unfold Lexer.ofSource
    rw [whole]
    exact .within rfl fun _ none => by cases none
  rcases Reader.statements_joined items readsOn _ _ (Nat.le_refl _) []
    ⟨.ofSource source, arguments⟩ ⟨.ofSource (source ++ "\n" ++ other), arguments⟩
    (Or.inl ⟨followed, rfl⟩) read left with ⟨after, joined, leftLast⟩
  have allowance : 8 * ((source ++ "\n" ++ other).toList.length + 1) =
      8 * (source.toList.length + 1) + 8 * (other.toList.length + 1) := by
    rw [whole, List.length_append, List.length_cons]
    omega
  refine compile_eq_ok.mpr ⟨statements ++
    Node.eachRenumbered (· + (newLines source + 1)) others, after, ?_, leftLast, ?_⟩
  · rw [allowance]
    exact joined
  · rw [Node.eachRenumbered_eq_map]
    rfl

/-! ## Runs -/

namespace Machine

/-- Statements in two groups: the second group runs if the first one proceeds to its end. -/
theorem performEach_append (environment : Environment) (first second : List Node) :
    performEach environment (first ++ second) = (do
      let ending ← performEach environment first
      match ending.signal with
      | .proceed => performEach environment second
      | signal => pure ⟨signal, ending.early || !second.isEmpty⟩) := by
  induction first with
  | nil =>
      rw [List.nil_append, performEach, pure_bind]
  | cons node rest inductionHypothesis =>
      have lefts : (!(rest ++ second).isEmpty) = (!rest.isEmpty || !second.isEmpty) := by
        cases rest <;> rfl
      rw [List.cons_append, performEach, performEach, bind_assoc]
      congr 1
      funext signal
      cases signal with
      | proceed => exact inductionHypothesis
      | «break» => rw [lefts, pure_bind]
      | halt => rw [lefts, pure_bind]

/-- Running one program and, if it proceeds to its end, another one whose lines are counted
after the lines of the first. -/
def runBoth (environment : Environment) (first : Program) (lines : Nat) (second : Program) :
    Run Unit := fun machine =>
  match performBlock environment first.root machine with
  | .ok .proceed between =>
      Likeness.renumberedEnding (· + lines) (run environment second between)
  | .ok _ between => .ok () between
  | .error fault between => .error fault between

end Machine

/-- On any line the standard library answers the same. -/
theorem Standard.fits (lines : Nat) (node : Node) :
    (Likeness.same (· + lines)).Fits library library node := by
  cases node with
  | literal value line => exact Likeness.goes_copy value
  | call function arguments line => exact (Likeness.answers_standard function).1
  | methodCall receiver method arguments line => exact (Likeness.answers_standard method).2
  | _ => exact trivial

/-- Statements on later lines do the same, and fail on later lines. -/
theorem Machine.performEach_later (config : Config) (lines : Nat) (nodes : List Node)
    (machine : Machine) :
    performEach ⟨Standard.library, config⟩ (nodes.map (Node.renumbered (· + lines))) machine =
      Likeness.renumberedEnding (· + lines)
        (performEach ⟨Standard.library, config⟩ nodes machine) := by
  have goes : (Likeness.same (· + lines)).Goes (Likeness.same (· + lines)).machines
      (Likeness.same (· + lines)).Equal () (performEach ⟨Standard.library, config⟩ nodes)
      (performEach ⟨Standard.library, config⟩ (Node.eachRenumbered (· + lines) nodes)) :=
    Likeness.goes_performEach nodes (fun _ _ part _ => Standard.fits lines part) ()
  rw [← Node.eachRenumbered_eq_map]
  exact goes.ending_eq machine

/-- Without a frame a block is its statements. -/
theorem Machine.performBlock_unframed (environment : Environment) (statements : List Node)
    (line : Nat) :
    performBlock environment (.mk false statements line) = (do
      let ending ← performEach environment statements
      pure ending.signal) := by
  rw [performBlock]
  rfl

theorem Machine.run_unframed (environment : Environment) (statements : List Node) (line : Nat) :
    run environment ⟨.mk false statements line⟩ = (do
      let _ ← performEach environment statements
      pure ()) := by
  unfold run
  rw [performBlock_unframed, bind_assoc]
  rfl

/-- A program without a frame at its top runs behind another one as it does alone. -/
theorem Machine.run_followedBy (config : Config) (statements others : List Node)
    (lines : Nat) (machine : Machine) :
    run ⟨Standard.library, config⟩
        (Program.followedBy ⟨.mk false statements 1⟩ lines ⟨.mk false others 1⟩) machine =
      runBoth ⟨Standard.library, config⟩ ⟨.mk false statements 1⟩ lines ⟨.mk false others 1⟩
        machine := by
  unfold Program.followedBy runBoth
  rw [run_unframed, run_unframed, performBlock_unframed]
  simp only [Block.statements]
  rw [performEach_append, bind_assoc]
  cases ran : performEach ⟨Standard.library, config⟩ statements machine with
  | error fault between => rw [bind_of_error ran, bind_of_error ran]
  | ok ending between =>
      rw [bind_of_ok ran, bind_of_ok ran]
      rcases ending with ⟨signal, early⟩
      cases signal with
      | «break» => rfl
      | halt => rfl
      | proceed =>
          have later := performEach_later config lines others between
          change (performEach _ _ >>= _) between =
            Likeness.renumberedEnding (· + lines) ((performEach _ _ >>= _) between)
          cases ranNext : performEach ⟨Standard.library, config⟩ others between with
          | error fault after =>
              rw [ranNext] at later
              rw [bind_of_error later, bind_of_error ranNext]
              rfl
          | ok ending after =>
              rw [ranNext] at later
              rw [bind_of_ok later, bind_of_ok ranNext]
              rfl

/-- Two sources that compile one after the other, the second with the arguments that the first
has left, compile together.  The statements are those of the first and then those of the second,
on lines after the lines of the first.  With the standard library, running them together is
running the first program and, if it proceeds to its end, the second one on the same machine. -/
theorem programs_compose (library : Library) (source other : String)
    (arguments between rest : Arguments) (first second : Program)
    (compiled : compile library source arguments = .ok first between)
    (compiledNext : compile library other between = .ok second rest) :
    compile library (source ++ "\n" ++ other) arguments =
        .ok (first.followedBy (newLines source + 1) second) rest ∧
      (library = Standard.library → ∀ config machine,
        Machine.run ⟨library, config⟩ (first.followedBy (newLines source + 1) second) machine =
          Machine.runBoth ⟨library, config⟩ first (newLines source + 1) second machine) := by
  refine ⟨compile_joined compiled compiledNext, ?_⟩
  rintro rfl config machine
  rcases compile_eq_ok.mp compiled with ⟨statements, _, _, _, rfl⟩
  rcases compile_eq_ok.mp compiledNext with ⟨others, _, _, _, rfl⟩
  exact Machine.run_followedBy config statements others _ machine

/-- Behind a conditional, where an `else` is looked for. -/
theorem programs_compose_conditional :
    compile Standard.library ("if true { }" ++ "\n" ++ "\nprint(x)") ⟨[], {}⟩ =
        .ok ⟨.mk false [.conditional (.literal (.truth true) 1) (.mk true [] 1) none 1,
          .call "print" [.variable "x" 3] 3] 1⟩ ⟨[], {}⟩ ∧
      ∀ config machine,
        Machine.run ⟨Standard.library, config⟩
            ⟨.mk false [.conditional (.literal (.truth true) 1) (.mk true [] 1) none 1,
              .call "print" [.variable "x" 3] 3] 1⟩ machine =
          Machine.runBoth ⟨Standard.library, config⟩
            ⟨.mk false [.conditional (.literal (.truth true) 1) (.mk true [] 1) none 1] 1⟩ 1
            ⟨.mk false [.call "print" [.variable "x" 2] 2] 1⟩ machine := by
  have compiled : compile Standard.library "if true { }" ⟨[], {}⟩ =
      .ok ⟨.mk false [.conditional (.literal (.truth true) 1) (.mk true [] 1) none 1] 1⟩
        ⟨[], {}⟩ := by
    cbv
  have compiledNext : compile Standard.library "\nprint(x)" ⟨[], {}⟩ =
      .ok ⟨.mk false [.call "print" [.variable "x" 2] 2] 1⟩ ⟨[], {}⟩ := by
    cbv
  have composed := programs_compose Standard.library "if true { }" "\nprint(x)" ⟨[], {}⟩ ⟨[], {}⟩
    ⟨[], {}⟩ _ _ compiled compiledNext
  exact ⟨composed.1, composed.2 rfl⟩

end Scriptlet
