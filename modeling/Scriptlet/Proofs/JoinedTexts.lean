import Scriptlet.Proofs.ReadingAlike

namespace Scriptlet

/-!
# Texts that are joined by a line break

A text followed by a line break and another text has the tokens of the first one, a line break
where its end was, and the tokens of the second one on later lines.  No lexeme of the first text
runs into the second: names, numerals and marks stop at a line break, a comment ends in front of
it, and a string that is closed is closed before.

What two lexers have to do with one another for two readings to go alike is said of one step
here.
-/

/-! ## Scanning in front of a line break -/

/-- The number of line breaks in a text. -/
def newLines (text : String) : Nat :=
  text.toList.count '\n'

/-- What a scan reports, on other lines. -/
def renumberedScan (place : Nat → Nat) : Except SyntaxFault Token → Except SyntaxFault Token
  | .ok token => .ok (token.renumbered place)
  | .error fault => .error (fault.renumbered place)

namespace Lexeme

/-- A run of characters of a class does not reach over a character that does not belong to it,
and it may end before. -/
theorem run_joined (belongs : Char → Bool) (cs : List Char) (d : Char) (rest : List Char)
    (stops : belongs d = false ∨ cs.dropWhile belongs ≠ []) :
    (cs ++ d :: rest).takeWhile belongs = cs.takeWhile belongs ∧
      (cs ++ d :: rest).dropWhile belongs = cs.dropWhile belongs ++ d :: rest := by
  have ends : Ends belongs (cs.dropWhile belongs ++ d :: rest) := by
    cases tail : cs.dropWhile belongs with
    | nil => exact ends_cons (stops.resolve_right fun nonempty => nonempty tail) rest
    | cons d others =>
        have other := List.head?_dropWhile_not belongs cs
        rw [tail, List.head?_cons] at other
        exact ends_cons (by simpa using other) _
  have all : ∀ c ∈ cs.takeWhile belongs, belongs c = true :=
    fun c member => List.mem_takeWhile_imp member
  have run := run_append all ends
  rwa [← List.append_assoc, List.takeWhile_append_dropWhile] at run

theorem afterIgnored_joined (cs rest : List Char) :
    afterIgnored (cs ++ '\n' :: rest) = afterIgnored cs ++ '\n' :: rest := by
  unfold afterIgnored
  rw [(run_joined isSpacing cs '\n' rest (Or.inl (by decide))).2]
  generalize cs.dropWhile isSpacing = front
  by_cases comment : ∃ others, front = '/' :: '/' :: others
  · rcases comment with ⟨others, rfl⟩
    exact (run_joined (· ≠ '\n') others '\n' rest (Or.inl (by decide))).2
  · have plain : ∀ others, front ≠ '/' :: '/' :: others := fun others same => comment ⟨others, same⟩
    have same : ∀ others, front ++ '\n' :: rest ≠ '/' :: '/' :: others := by
      intro others same
      rcases front with _ | ⟨c, _ | ⟨d, more⟩⟩
      · simp at same
      · simp at same
      · simp only [List.cons_append, List.cons.injEq] at same
        exact plain more (by rw [same.1, same.2.1])
    split
    · next others equal => exact absurd equal (same others)
    · rfl

/-- What a text begins with behind blanks and comments, it begins with if it goes on. -/
theorem front_joined {c d : Char} {cs others : List Char} (front : afterIgnored cs = c :: others)
    (mark : d ≠ '/') (rest : List Char) :
    afterIgnored (cs ++ d :: rest) = c :: (others ++ d :: rest) := by
  rw [← List.cons_append, ← front]
  have nonempty : cs.dropWhile isSpacing ≠ [] := by
    intro none
    simp only [afterIgnored, none, reduceCtorEq] at front
  unfold afterIgnored at front ⊢
  rw [(run_joined isSpacing cs d rest (Or.inr nonempty)).2]
  generalize cs.dropWhile isSpacing = start at front nonempty ⊢
  by_cases comment : ∃ more, start = '/' :: '/' :: more
  · rcases comment with ⟨more, rfl⟩
    have ends : more.dropWhile (· ≠ '\n') ≠ [] := by
      intro none
      simp only [none, reduceCtorEq] at front
    exact (run_joined (· ≠ '\n') more d rest (Or.inr ends)).2
  · have plain : ∀ more, start ≠ '/' :: '/' :: more := fun more same => comment ⟨more, same⟩
    have same : ∀ more, start ++ d :: rest ≠ '/' :: '/' :: more := by
      intro more same
      rcases start with _ | ⟨first, _ | ⟨second, further⟩⟩
      · exact nonempty rfl
      · simp only [List.cons_append, List.nil_append, List.cons.injEq] at same
        exact mark same.2.1
      · simp only [List.cons_append, List.cons.injEq] at same
        exact plain further (by rw [same.1, same.2.1])
    split
    · next more equal => exact absurd equal (same more)
    · rfl

/-- A line break or a blank behind a lexeme leaves it as it is, unless it is an open string. -/
theorem first_joined (c : Char) (cs : List Char) {d : Char}
    (apart : isNumeral d = false ∧ continuesWord d = false) (rest : List Char)
    (closed : (first c cs).shape ≠ .openString) :
    first c (cs ++ d :: rest) = { first c cs with rest := (first c cs).rest ++ d :: rest } := by
  have point : decide (d = '.') = false := by
    apply decide_eq_false
    rintro rfl
    exact absurd apart.1 (by decide)
  revert closed
  unfold first
  split
  · intro _
    have run := run_joined isNumeral (c :: cs) d rest (Or.inl apart.1)
    rw [List.cons_append] at run
    simp only [numeral, run]
  split
  · intro _
    have run := run_joined continuesWord (c :: cs) d rest (Or.inl apart.2)
    rw [List.cons_append] at run
    simp only [word, run]
  split
  · intro closed
    have nonempty : cs.dropWhile (· ≠ '"') ≠ [] := by
      intro none
      simp only [quoted, none, ne_eq, not_true_eq_false] at closed
    have run := run_joined (· ≠ '"') cs d rest (Or.inr nonempty)
    cases tail : cs.dropWhile (· ≠ '"') with
    | nil => exact absurd tail nonempty
    | cons close others => simp only [quoted, run, tail, List.cons_append]
  split
  · intro _
    have run := run_joined (· = '.') cs d rest (Or.inl point)
    simp only [points, run]
  · intro _
    cases markKind? c with
    | none => rfl
    | some kind => rfl

/-- On other lines a lexeme is reported on those. -/
theorem outcome_elsewhere (place : Nat → Nat) (lexeme : Lexeme) (firstLine lastLine : Nat) :
    lexeme.outcome (place firstLine) (place lastLine) =
      renumberedScan place (lexeme.outcome firstLine lastLine) := by
  unfold outcome
  cases lexeme.shape <;> rfl

end Lexeme

namespace Scanner

variable {cs rest : List Char} {line : Nat} {token : Token} {after : Scanner}

/-- A lexeme that is not an open string is scanned alike in front of a line break or a blank. -/
theorem scan_closed {c d : Char} {others : List Char} (front : Lexeme.afterIgnored cs = c :: others)
    (closed : (Lexeme.first c others).shape ≠ .openString)
    (apart : Lexeme.isNumeral d = false ∧ Lexeme.continuesWord d = false ∧ d ≠ '/') :
    (⟨cs ++ d :: rest, line⟩ : Scanner).scan =
      ((Lexeme.first c others).outcome line
          (line + (Lexeme.first c others).spelling.count '\n'),
        ⟨(Lexeme.first c others).rest ++ d :: rest,
          line + (Lexeme.first c others).spelling.count '\n'⟩) := by
  have joined : Lexeme.afterIgnored (cs ++ d :: rest) = c :: (others ++ d :: rest) :=
    Lexeme.front_joined front apart.2.2 rest
  rw [scan_of_cons joined, Lexeme.first_joined c others ⟨apart.1, apart.2.1⟩ rest closed]
  rfl

/-- Up to its end the first text is scanned as if nothing followed it. -/
theorem scan_joined (scanned : (⟨cs, line⟩ : Scanner).scan = (.ok token, after))
    (goesOn : token.kind ≠ .endOfFile) :
    (⟨cs ++ '\n' :: rest, line⟩ : Scanner).scan =
      (.ok token, ⟨after.rest ++ '\n' :: rest, after.line⟩) := by
  cases front : Lexeme.afterIgnored cs with
  | nil =>
      rw [scan_of_end front] at scanned
      cases scanned
      exact absurd rfl goesOn
  | cons c others =>
      rw [scan_of_cons front, Prod.mk.injEq] at scanned
      have closed : (Lexeme.first c others).shape ≠ .openString := by
        intro opened
        simp only [Lexeme.outcome, opened, reduceCtorEq, false_and] at scanned
      rw [scan_closed front closed (by decide), ← scanned.2]
      exact congrArg (·, _) scanned.1

/-- Where the first text ends, the line break is found. -/
theorem scan_joined_end (ended : Lexeme.afterIgnored cs = []) :
    (⟨cs ++ '\n' :: rest, line⟩ : Scanner).scan =
      (.ok ⟨.newLine, "\n", line⟩, ⟨rest, line + 1⟩) := by
  have joined : Lexeme.afterIgnored (cs ++ '\n' :: rest) = '\n' :: rest := by
    rw [Lexeme.afterIgnored_joined, ended, List.nil_append]
  have mark : Lexeme.first '\n' rest = ⟨.token .newLine, ['\n'], rest⟩ :=
    Lexeme.first_mark (by decide) rest
  rw [scan_of_cons joined, mark]
  rfl

/-- On later lines the same is scanned. -/
theorem scan_later (lines : Nat) (scanned : (⟨cs, line⟩ : Scanner).scan = (.ok token, after)) :
    (⟨cs, line + lines⟩ : Scanner).scan =
      (.ok (token.renumbered (· + lines)), ⟨after.rest, after.line + lines⟩) := by
  cases front : Lexeme.afterIgnored cs with
  | nil =>
      rw [scan_of_end front] at scanned ⊢
      cases scanned
      rfl
  | cons c others =>
      have elsewhere := Lexeme.outcome_elsewhere (· + lines) (Lexeme.first c others) line
        (line + (Lexeme.first c others).spelling.count '\n')
      rw [scan_of_cons front, Prod.mk.injEq] at scanned ⊢
      rw [scanned.1] at elsewhere
      rw [← scanned.2, Nat.add_right_comm]
      exact ⟨elsewhere, rfl⟩

end Scanner

/-! ## Lexers -/

namespace Lexer

/-- The lexer in front of the same text on later lines. -/
def later (lines : Nat) (lexer : Lexer) : Lexer where
  scanner := ⟨lexer.scanner.rest, lexer.scanner.line + lines⟩
  ahead := lexer.ahead.map (Token.renumbered (· + lines))

theorem next_later (lines : Nat) {lexer after : Lexer} {token : Token}
    (ran : Lexer.next lexer = .ok token after) :
    Lexer.next (lexer.later lines) =
      .ok (token.renumbered (· + lines)) (after.later lines) := by
  rcases lexer with ⟨⟨rest, line⟩, ahead⟩
  cases ahead with
  | some found =>
      cases ran
      rfl
  | none =>
      rcases scanned : (⟨rest, line⟩ : Scanner).scan with ⟨outcome, scanner⟩
      simp only [Lexer.next, scanned] at ran
      cases outcome with
      | error fault => cases ran
      | ok found =>
          cases ran
          simp only [Lexer.next, later, Option.map_none, Scanner.scan_later lines scanned]

/-- The second lexer stands in the same text, which ends on the given line, and there the text
goes on.  Where the first one has found the end, the second one has found the line break. -/
inductive Followed (text : List Char) (last : Nat) : Lexer → Lexer → Prop
  | within {rest : List Char} {line : Nat} {ahead : Option Token} :
      line + rest.count '\n' = last → (∀ token ∈ ahead, token.kind ≠ .endOfFile) →
      Followed text last ⟨⟨rest, line⟩, ahead⟩ ⟨⟨rest ++ '\n' :: text, line⟩, ahead⟩
  | ended {token : Token} {line : Nat} : token.kind = .endOfFile →
      Followed text last ⟨⟨[], line⟩, some token⟩
        ⟨⟨text, last + 1⟩, some ⟨.newLine, "\n", last⟩⟩

namespace Followed

variable {text : List Char} {last : Nat} {lexer other after : Lexer} {token : Token}

/-- Whether the first lexer has found its end. -/
theorem ahead_cases (followed : Followed text last lexer other) :
    (other.ahead = lexer.ahead ∧ ∀ token ∈ lexer.ahead, token.kind ≠ .endOfFile) ∨
      other = ⟨⟨text, last + 1⟩, some ⟨.newLine, "\n", last⟩⟩ := by
  cases followed with
  | within _ inside => exact Or.inl ⟨rfl, inside⟩
  | ended => exact Or.inr rfl

/-- Up to the end of the first text both lexers take the same tokens. -/
theorem step (followed : Followed text last lexer other)
    (ran : Lexer.next lexer = .ok token after) :
    ∃ otherToken otherAfter, Lexer.next other = .ok otherToken otherAfter ∧
      (otherToken = token ∨ token.kind = .endOfFile ∧ otherToken.kind = .newLine) ∧
      (token.kind ≠ .endOfFile → Followed text last after otherAfter) ∧
      Followed text last { after with ahead := some token }
        { otherAfter with ahead := some otherToken } := by
  cases followed with
  | ended kind =>
      cases ran
      exact ⟨_, _, rfl, Or.inr ⟨kind, rfl⟩, fun goesOn => absurd kind goesOn, .ended kind⟩
  | @within rest line ahead lines inside =>
      cases ahead with
      | some found =>
          cases ran
          have empty : ∀ token ∈ (none : Option Token), token.kind ≠ .endOfFile :=
            fun _ none => by cases none
          exact ⟨_, _, rfl, Or.inl rfl, fun _ => .within lines empty, .within lines inside⟩
      | none =>
          rcases scanned : (⟨rest, line⟩ : Scanner).scan with ⟨outcome, scanner⟩
          simp only [Lexer.next, scanned] at ran
          cases outcome with
          | error fault => cases ran
          | ok found =>
              cases ran
              have kept := Scanner.scan_keeps_lastLine ⟨rest, line⟩
              rw [scanned, lines] at kept
              by_cases kind : token.kind = .endOfFile
              · have atEnd := Scanner.ended_of_endOfFile scanned kind
                rw [Scanner.scan_of_end atEnd, Prod.mk.injEq] at scanned
                rw [← scanned.2] at kept
                change line = last at kept
                refine ⟨⟨.newLine, "\n", last⟩, ⟨⟨text, last + 1⟩, none⟩, ?_, Or.inr ⟨kind, rfl⟩,
                  fun goesOn => absurd kind goesOn, ?_⟩
                · simp only [Lexer.next, Scanner.scan_joined_end atEnd, kept]
                · rw [← scanned.2]
                  exact .ended kind
              · refine ⟨token, ⟨⟨scanner.rest ++ '\n' :: text, scanner.line⟩, none⟩, ?_, Or.inl rfl,
                  fun _ => .within kept inside, .within kept ?_⟩
                · simp only [Lexer.next, Scanner.scan_joined scanned kind]
                · rintro _ ⟨⟩
                  exact kind

end Followed
end Lexer

/-! ## Lexers in step -/

namespace Reader

/-- The line of a declaration is only seen in the fault if no value can be bound. -/
theorem bind_elsewhere (place : Nat → Nat) (name : String) (kind : Value.Kind) (line : Nat)
    (arguments : Arguments) :
    Arguments.bind name kind (place line) arguments =
      match Arguments.bind name kind line arguments with
      | .ok value after => .ok value after
      | .error fault after => .error (fault.renumbered place) after := by
  rcases arguments with ⟨queue, heap⟩
  cases queue with
  | nil => rfl
  | cons first rest =>
      rcases coerced : Heap.coerce first kind heap with ⟨result, final⟩
      cases result with
      | none =>
          simp only [Arguments.bind, coerced]
          rfl
      | some result => simp only [Arguments.bind, coerced]

/-- The readers differ in what their lexers stand in front of.  Each token that the first lexer
takes has one that the second lexer takes, and the lexers stay in step, also when the tokens are
only looked at.  Behind a line break the first lexer may have more of them to take, one by
one. -/
structure Pairing.InStep (pairing : Pairing) (related lagging : Lexer → Lexer → Prop) : Prop where
  loose : pairing.joined → ¬ pairing.strict
  known : ∀ name, pairing.known name
  readers : ∀ {read reader other}, pairing.readers read reader other ↔
    related reader.lexer other.lexer ∧ other.arguments = reader.arguments
  lags : ∀ {read reader other}, pairing.lagging read reader other ↔
    lagging reader.lexer other.lexer ∧ other.arguments = reader.arguments
  failed : pairing.strict → ∀ {fault reader other}, other.arguments = reader.arguments →
    pairing.failed fault reader other
  step : ∀ {lexer other after token}, related lexer other →
    Lexer.next lexer = .ok token after →
    ∃ otherToken otherAfter, Lexer.next other = .ok otherToken otherAfter ∧
      pairing.Alike token otherToken ∧
      (token.kind ≠ .endOfFile →
        related after otherAfter ∨ token.kind = .newLine ∧ lagging after otherAfter) ∧
      related { after with ahead := some token } { otherAfter with ahead := some otherToken }
  fault : pairing.strict → ∀ {lexer other after fault}, related lexer other →
    Lexer.next lexer = .error fault after → pairing.spared (.source fault) ∨
      ∃ otherAfter, Lexer.next other = .error (fault.renumbered pairing.place) otherAfter

namespace Pairing.InStep

variable {pairing : Pairing} {related lagging : Lexer → Lexer → Prop} {names : Names}
  {read : List Node} (inStep : pairing.InStep related lagging)
include inStep

/-- Where the first reading fails, the second one fails alike if that is asked of it. -/
theorem fails {α : Type} {post : α → α → Reader → Reader → Prop} {fault : Fault}
    {reader : Reader} {ending : EStateM.Result Fault Reader α}
    (failed : pairing.strict → pairing.spared fault ∨
      ∃ other, ending = .error (fault.renumbered pairing.place) other ∧
        other.arguments = reader.arguments) :
    EndAlike post pairing.rule (.error fault reader) ending := by
  by_cases strict : pairing.strict
  · rcases failed strict with spared | ⟨other, rfl, arguments⟩
    · exact EndAlike.excuse (Or.inr (Or.inr spared)) _
    · exact Or.inr ⟨rfl, inStep.failed strict arguments⟩
  · exact EndAlike.excuse (Or.inl strict) _

theorem nexts : pairing.Follows (pairing.readers read) next next
    fun token other reader otherReader => pairing.Alike token other ∧
      otherReader.arguments = reader.arguments ∧ (token.kind ≠ .endOfFile →
        pairing.readers read reader otherReader ∨
          token.kind = .newLine ∧ pairing.lagging read reader otherReader) := by
  intro reader other related
  rcases inStep.readers.mp related with ⟨lexers, arguments⟩
  cases ran : Lexer.next reader.lexer with
  | error fault after =>
      rw [next_of_error reader ran]
      apply inStep.fails
      intro strict
      refine (inStep.fault strict lexers ran).imp_right ?_
      rintro ⟨otherAfter, otherRan⟩
      exact ⟨_, next_of_error other otherRan, arguments⟩
  | ok token after =>
      rcases inStep.step lexers ran with ⟨otherToken, otherAfter, otherRan, alike, goesOn, _⟩
      rw [next_of_ok reader ran, next_of_ok other otherRan]
      refine ⟨alike, arguments, fun kind => (goesOn kind).imp ?_ (And.imp_right ?_)⟩
      · exact fun kept => inStep.readers.mpr ⟨kept, arguments⟩
      · exact fun lags => inStep.lags.mpr ⟨lags, arguments⟩

theorem peeks : pairing.Follows (pairing.readers read) peek peek
    fun token other reader otherReader => pairing.Alike token other ∧
      pairing.Faces read token other reader otherReader := by
  intro reader other related
  rcases inStep.readers.mp related with ⟨lexers, arguments⟩
  cases ran : Lexer.next reader.lexer with
  | error fault after =>
      rw [peek_of_error reader ran]
      apply inStep.fails
      intro strict
      refine (inStep.fault strict lexers ran).imp_right ?_
      rintro ⟨otherAfter, otherRan⟩
      exact ⟨_, peek_of_error other otherRan, arguments⟩
  | ok token after =>
      rcases inStep.step lexers ran with ⟨otherToken, otherAfter, otherRan, alike, _, kept⟩
      rw [peek_of_ok reader ran, peek_of_ok other otherRan]
      exact ⟨alike, inStep.readers.mpr ⟨kept, arguments⟩, rfl, rfl⟩

theorem breaks {token : Token} (broken : token.kind = .newLine) (other : Token) :
    pairing.Follows (pairing.Faces read token other) skip skip fun _ _ => pairing.Behind read := by
  rintro reader otherReader ⟨related, ahead, otherAhead⟩
  have taken := inStep.nexts reader otherReader related
  rw [next_of_ahead ahead, next_of_ahead otherAhead] at taken
  rw [skip_of_ahead ahead, skip_of_ahead otherAhead]
  have goesOn : token.kind ≠ .endOfFile := by
    rw [broken]
    decide
  exact (taken.2.2 goesOn).imp_right And.right

theorem lawful : pairing.Lawful names names where
  loose := inStep.loose
  names_eq _ _ := rfl
  refuses strict related _ _ := inStep.failed strict (inStep.readers.mp related).2
  nexts read := by
    refine inStep.nexts.weaken (fun _ _ start => start) ?_
    rintro token other reader otherReader ⟨alike, arguments, goesOn⟩
    refine ⟨alike, fun _ => inStep.known token.text, fun stops => ?_,
      fun strict _ _ => inStep.failed strict arguments⟩
    have kept := goesOn fun ended => stops (Or.inl ended)
    exact kept.resolve_right fun broken => stops (Or.inr (Or.inr broken.1))
  peeks _ := inStep.peeks
  breaks _ _ broken := inStep.breaks broken _

/-- A first reader that lags catches up if its lexer does. -/
theorem catchesUp (catches : ∀ {lexer other}, lagging lexer other →
      pairing.rule.excused .exhausted ∧ ∃ token after, Lexer.next lexer = .ok token after ∧
        token.kind = .newLine ∧ (related after other ∨ lagging after other)) :
    pairing.CatchesUp := by
  intro read reader otherReader behind
  rcases inStep.lags.mp behind with ⟨lexers, arguments⟩
  rcases catches lexers with ⟨excused, token, after, ran, broken, ahead⟩
  refine ⟨excused, token, after, ran, broken, ahead.imp ?_ ?_⟩
  · exact fun kept => inStep.readers.mpr ⟨kept, arguments⟩
  · exact fun lags => inStep.lags.mpr ⟨lags, arguments⟩

/-- One more token of a declaration. -/
theorem next_of_kind {α : Type} {kind : Token.Kind}
    (goesOn : kind ≠ .endOfFile ∧ kind ≠ .newLine) {next otherNext : Token → Read α}
    {refused : Token → SyntaxFault}
    (refuses : ∀ token : Token, refused (token.renumbered pairing.place) =
      (refused token).renumbered pairing.place) {post : α → α → Reader → Reader → Prop}
    (goes : ∀ token, token.kind = kind → pairing.Follows (pairing.readers read) (next token)
      (otherNext (token.renumbered pairing.place)) post) :
    pairing.Follows (pairing.readers read)
      (do
        let token ← Reader.next
        if token.kind = kind then next token else fail (refused token))
      (do
        let token ← Reader.next
        if token.kind = kind then otherNext token else fail (refused token)) post := by
  apply Tracks.bind inStep.nexts
  rintro token other reader otherReader ⟨alike, arguments, on⟩
  by_cases same : token.kind = kind
  · have inside : token.kind ≠ .endOfFile ∧ token.kind ≠ .newLine := by rwa [same]
    rw [alike.of_kind inside.1, if_pos same, if_pos (by rwa [Token.renumbered_kind])]
    exact goes token same reader otherReader
      ((on inside.1).resolve_right fun broken => inside.2 broken.1)
  · rw [if_neg same]
    apply inStep.fails
    intro strict
    rw [alike.of_strict inStep.loose strict, if_neg (by rwa [Token.renumbered_kind]), refuses]
    exact Or.inr ⟨_, rfl, arguments⟩

/-- A declaration is read alike: it takes the same value of the host. -/
theorem declares : pairing.Follows (pairing.readers read) declaration declaration
    (pairing.Adds read (fun node => [node]) pairing.Nodes) := by
  unfold declaration
  apply inStep.next_of_kind (by decide) (fun _ => rfl)
  intro name _
  apply inStep.next_of_kind (by decide) (fun _ => rfl)
  intro colon _
  apply Tracks.bind inStep.nexts
  rintro tag other reader otherReader ⟨alike, arguments, on⟩
  have bound : ∀ kind, pairing.Follows (pairing.readers read)
      (do
        let value ← onArguments (Arguments.bind name.text kind name.line)
        pure (.assignment name.text (.literal value name.line) name.line))
      (do
        let value ← onArguments (Arguments.bind name.text kind (pairing.place name.line))
        pure (.assignment name.text (.literal value (pairing.place name.line))
          (pairing.place name.line)))
      (pairing.Adds read (fun node => [node]) pairing.Nodes) := by
    intro kind reader other related
    rcases inStep.readers.mp related with ⟨lexers, arguments⟩
    have elsewhere := bind_elsewhere pairing.place name.text kind name.line reader.arguments
    cases ran : Arguments.bind name.text kind name.line reader.arguments with
    | error fault after =>
        rw [ran] at elsewhere
        have failed : onArguments (Arguments.bind name.text kind name.line) reader =
            .error (.setup fault) ⟨reader.lexer, after⟩ := by
          simp only [onArguments, ran]
        have otherFailed :
            onArguments (Arguments.bind name.text kind (pairing.place name.line)) other =
              .error (.setup (fault.renumbered pairing.place)) ⟨other.lexer, after⟩ := by
          simp only [onArguments, arguments, elsewhere]
        rw [bind_of_error failed]
        apply inStep.fails
        intro _
        exact Or.inr ⟨_, bind_of_error otherFailed, rfl⟩
    | ok value after =>
        rw [ran] at elsewhere
        have took : onArguments (Arguments.bind name.text kind name.line) reader =
            .ok value ⟨reader.lexer, after⟩ := by
          simp only [onArguments, ran]
        have otherTook :
            onArguments (Arguments.bind name.text kind (pairing.place name.line)) other =
              .ok value ⟨other.lexer, after⟩ := by
          simp only [onArguments, arguments, elsewhere]
        rw [bind_of_ok took, bind_of_ok otherTook]
        exact ⟨nodes_assignment name.text name.line (nodes_literal value name.line),
          inStep.readers.mpr ⟨lexers, rfl⟩⟩
  have untyped : ∀ {ending : EStateM.Result Fault Reader Node},
      (pairing.strict → ending = .error (.source (.malformedDeclaration
        (.noType name.text (tag.renumbered pairing.place)))) otherReader) →
      EndAlike (pairing.Adds read (fun node => [node]) pairing.Nodes) pairing.rule
        (.error (.source (.malformedDeclaration (.noType name.text tag))) reader) ending :=
    fun failed => inStep.fails fun strict => Or.inr ⟨otherReader, failed strict, arguments⟩
  by_cases isType : tag.kind = .typeTag
  · have inside : tag.kind ≠ .endOfFile ∧ tag.kind ≠ .newLine := by
      rw [isType]
      decide
    rw [alike.of_kind inside.1]
    simp only [isType, if_true, Token.renumbered_kind, Token.renumbered_text]
    cases Value.Kind.ofName? tag.text with
    | none => exact untyped fun _ => rfl
    | some kind =>
        exact bound kind reader otherReader
          ((on inside.1).resolve_right fun broken => inside.2 broken.1)
  · simp only [if_neg isType]
    apply untyped
    intro strict
    rw [alike.of_strict inStep.loose strict]
    have other : ¬ (tag.renumbered pairing.place).kind = .typeTag := isType
    simp only [if_neg other]
    rfl

theorem lawfulStatements (catchesUp : pairing.CatchesUp) (complete : pairing.Complete) :
    pairing.LawfulStatements names names := by
  have lawful : pairing.Lawful names names := inStep.lawful
  refine ⟨lawful, catchesUp, fun _ => inStep.declares, ?_,
    fun past => absurd past complete.past, fun past => absurd past complete.past⟩
  intro read steps
  exact (skips_of_complete lawful catchesUp complete steps pairing.spare pairing.spare_eq).weaken
    (fun _ _ => Or.inl) fun _ _ _ _ => id

/-- If both texts end together, their statements are read alike up to the end, and the same
arguments are left. -/
theorem follows_wholeText (catchesUp : pairing.CatchesUp) (complete : pairing.Complete)
    (names : Names) (steps more : Nat)
    (equal : ¬ pairing.rule.excused .exhausted → more = 0) :
    pairing.Follows (pairing.readers [])
      (statementsUntil (statementWithin names steps) .endOfFile steps)
      (statementsUntil (statementWithin names (steps + pairing.spare)) .endOfFile (steps + more))
      fun nodes others reader other => pairing.NodeLists nodes others ∧
        other.arguments = reader.arguments := by
  have lawful : pairing.LawfulStatements names names :=
    inStep.lawfulStatements catchesUp complete
  have closes : ∀ (read : List Node) (token : Token), token.kind = .endOfFile →
      pairing.Follows (pairing.Faces read token (token.renumbered pairing.place)) skip skip
        fun _ _ reader other => other.arguments = reader.arguments := by
    rintro _ token _ reader other ⟨related, ahead, otherAhead⟩
    rw [skip_of_ahead ahead, skip_of_ahead otherAhead]
    exact (inStep.readers.mp related).2
  exact (follows_statementsUntil lawful (follows_statements lawful steps).1 (Or.inr complete) closes
    (by decide) steps more equal []).weaken (fun _ _ related => Or.inr (Or.inl related))
      fun _ _ _ _ => id

end Pairing.InStep

/-! ## The two pairings -/

/-- One text on its own, and on later lines behind another text. -/
def Pairing.later (lines spare : Nat) : Pairing where
  strict := False
  joined := False
  place := (· + lines)
  spare := spare
  known _ := True
  readers _ reader other :=
    other.lexer = reader.lexer.later lines ∧ other.arguments = reader.arguments
  past _ _ _ := False
  lagging _ _ _ := False
  failed _ _ _ := True

theorem inStep_later (lines spare : Nat) :
    (Pairing.later lines spare).InStep (fun lexer other => other = lexer.later lines)
      fun _ _ => False where
  loose := False.elim
  known _ := trivial
  readers := Iff.rfl
  lags := ⟨False.elim, And.left⟩
  failed := False.elim
  step := by
    rintro lexer _ after token rfl ran
    exact ⟨_, _, Lexer.next_later lines ran, Or.inl rfl, fun _ => Or.inl rfl, rfl⟩
  fault := False.elim

theorem catchesUp_later (lines spare : Nat) : (Pairing.later lines spare).CatchesUp :=
  False.elim

theorem complete_later (lines spare : Nat) : (Pairing.later lines spare).Complete where
  alike alike := alike.elim id fun ⟨joined, _⟩ => joined.elim
  past := id

/-- One text on its own, and with another text behind it.  What is past the end of the first
text is said by the given predicate. -/
def Pairing.joining (text : List Char) (last spare : Nat) (beyond : Lexer → Prop) : Pairing where
  strict := False
  joined := True
  place := id
  spare := spare
  known _ := True
  readers _ reader other :=
    Lexer.Followed text last reader.lexer other.lexer ∧ other.arguments = reader.arguments
  past _ reader other := (∃ token, reader.lexer.ahead = some token ∧ token.kind = .endOfFile) ∧
    other.arguments = reader.arguments ∧ beyond other.lexer ∧
    ∃ token, other.lexer.ahead = some token ∧ token.isKeyword "else" = false
  lagging _ _ _ := False
  failed _ _ _ := True

theorem inStep_joining (text : List Char) (last spare : Nat) (beyond : Lexer → Prop) :
    (Pairing.joining text last spare beyond).InStep (Lexer.Followed text last)
      fun _ _ => False where
  loose _ := id
  known _ := trivial
  readers := Iff.rfl
  lags := ⟨False.elim, And.left⟩
  failed := False.elim
  step := by
    intro lexer other after token followed ran
    rcases followed.step ran with ⟨otherToken, otherAfter, otherRan, alike, goesOn, kept⟩
    exact ⟨otherToken, otherAfter, otherRan, alike.imp_right fun ended => ⟨trivial, ended⟩,
      fun goes => Or.inl (goesOn goes), kept⟩
  fault := False.elim

theorem catchesUp_joining (text : List Char) (last spare : Nat) (beyond : Lexer → Prop) :
    (Pairing.joining text last spare beyond).CatchesUp :=
  False.elim

end Reader
end Scriptlet
