import Scriptlet.Proofs.Scanning

namespace Scriptlet

/-!
# The tokens of a text

Reading takes tokens one at a time and may stop anywhere.  The tokens of a whole text are
computed here by scanning to its end; what a reader has taken at any moment is a beginning of
them.  A fault takes characters and gives no token.
-/

namespace Lexeme

/-- A lexeme and what is behind it are the text that it was found in. -/
theorem spelling_append_rest (c : Char) (cs : List Char) :
    (first c cs).spelling ++ (first c cs).rest = c :: cs := by
  unfold first
  split
  · exact List.takeWhile_append_dropWhile
  split
  · exact List.takeWhile_append_dropWhile
  split
  · rename_i quote
    have whole := List.takeWhile_append_dropWhile (p := fun d => decide (d ≠ '"')) (l := cs)
    unfold quoted
    cases tail : cs.dropWhile (· ≠ '"') with
    | nil =>
        rw [tail, List.append_nil] at whole
        simp only [quote, whole, List.append_nil]
    | cons close rest =>
        rw [tail] at whole
        simp only [quote, List.cons_append, List.append_assoc, List.nil_append, whole]
  split
  · rename_i point
    rw [point]
    exact congrArg (List.cons '.') List.takeWhile_append_dropWhile
  · cases markKind? c with
    | none => rfl
    | some kind => rfl

theorem spelling_ne_nil (c : Char) (cs : List Char) : (first c cs).spelling ≠ [] := by
  unfold first
  split
  · rename_i digit
    unfold numeral
    rw [List.takeWhile_cons_of_pos (Scanner.isNumeral_of_digit digit)]
    exact List.cons_ne_nil _ _
  split
  · rename_i starts
    unfold word
    rw [List.takeWhile_cons_of_pos (startsWord_continues starts)]
    exact List.cons_ne_nil _ _
  split
  · unfold quoted
    split
    · exact List.cons_ne_nil _ _
    · exact List.cons_ne_nil _ _
  split
  · exact List.cons_ne_nil _ _
  · cases markKind? c with
    | none => exact List.cons_ne_nil _ _
    | some kind => exact List.cons_ne_nil _ _

theorem markKind?_ne_endOfFile {c : Char} {kind : Token.Kind} (mark : markKind? c = some kind) :
    kind ≠ .endOfFile := by
  unfold markKind? at mark
  split at mark <;> cases mark <;> decide

/-- Only the end of the text gives the end token. -/
theorem shape_ne_endOfFile (c : Char) (cs : List Char) :
    (first c cs).shape ≠ .token .endOfFile := by
  unfold first
  split
  · simp only [numeral]
    split <;> decide
  split
  · rcases kindOfWord_cases (String.ofList (word (c :: cs)).spelling) with
      found | found | found | found | found <;>
      simp only [word] at found ⊢ <;> rw [found] <;> decide
  split
  · unfold quoted
    split <;> simp only [ne_eq, reduceCtorEq, Shape.token.injEq, not_false_eq_true]
  split
  · simp only [points]
    split <;> decide
  · cases mark : markKind? c with
    | none => simp only [ne_eq, reduceCtorEq, not_false_eq_true]
    | some kind =>
        intro same
        cases same
        exact markKind?_ne_endOfFile mark rfl

/-- What separates two lexemes: blanks, and then perhaps a comment, which goes on until the
line or the text ends. -/
inductive Skipped (rest : List Char) : List Char → Prop
  | blanks {run : List Char} : (∀ c ∈ run, isSpacing c = true) → Skipped rest run
  | comment {run body : List Char} : (∀ c ∈ run, isSpacing c = true) → '\n' ∉ body →
      Ends (· ≠ '\n') rest → Skipped rest (run ++ '/' :: '/' :: body)

theorem not_lineBreak_of_spacing {run : List Char} (blank : ∀ c ∈ run, isSpacing c = true) :
    '\n' ∉ run := by
  intro member
  have spacing := blank '\n' member
  revert spacing
  decide

theorem Skipped.not_lineBreak {rest skipped : List Char} (skips : Skipped rest skipped) :
    '\n' ∉ skipped := by
  cases skips with
  | blanks blank => exact not_lineBreak_of_spacing blank
  | comment blank unbroken _ =>
      intro member
      rcases List.mem_append.mp member with before | inside
      · exact not_lineBreak_of_spacing blank before
      · simp only [List.mem_cons, Char.reduceEq, false_or] at inside
        exact unbroken inside

theorem ends_dropWhile (belongs : Char → Bool) (cs : List Char) :
    Ends belongs (cs.dropWhile belongs) := by
  intro c first
  have head := List.head?_dropWhile_not belongs cs
  rw [Option.mem_def.mp first] at head
  simpa using head

/-- What is ignored in front of a text is blanks and comments. -/
theorem afterIgnored_skips (cs : List Char) :
    ∃ skipped, cs = skipped ++ afterIgnored cs ∧ Skipped (afterIgnored cs) skipped := by
  have blanks : cs = cs.takeWhile isSpacing ++ cs.dropWhile isSpacing :=
    List.takeWhile_append_dropWhile.symm
  have blank : ∀ c ∈ cs.takeWhile isSpacing, isSpacing c = true := fun c =>
    List.mem_takeWhile_imp
  unfold afterIgnored
  split
  · rename_i rest others
    have comment : rest = rest.takeWhile (· ≠ '\n') ++ rest.dropWhile (· ≠ '\n') :=
      List.takeWhile_append_dropWhile.symm
    refine ⟨cs.takeWhile isSpacing ++ '/' :: '/' :: rest.takeWhile (· ≠ '\n'), ?_, ?_⟩
    · rw [List.append_assoc, List.cons_append, List.cons_append, ← comment, ← others]
      exact blanks
    · refine .comment blank ?_ (ends_dropWhile _ rest)
      intro member
      have kept := List.mem_takeWhile_imp member
      simp at kept
  · exact ⟨cs.takeWhile isSpacing, blanks, .blanks blank⟩

/-- What is ignored is a beginning of the text without a line break. -/
theorem afterIgnored_split (cs : List Char) :
    ∃ ignored, cs = ignored ++ afterIgnored cs ∧ '\n' ∉ ignored := by
  rcases afterIgnored_skips cs with ⟨skipped, whole, skips⟩
  exact ⟨skipped, whole, skips.not_lineBreak⟩

end Lexeme

namespace Scanner

/-- At the end of the text a scan gives the end token and stays there. -/
theorem scan_of_end {scanner : Scanner} (ended : Lexeme.afterIgnored scanner.rest = []) :
    scanner.scan = (.ok ⟨.endOfFile, "", scanner.line⟩, ⟨[], scanner.line⟩) := by
  unfold scan
  rw [ended]

theorem scan_of_cons {scanner : Scanner} {c : Char} {cs : List Char}
    (front : Lexeme.afterIgnored scanner.rest = c :: cs) :
    scanner.scan =
      ((Lexeme.first c cs).outcome scanner.line
          (scanner.line + (Lexeme.first c cs).spelling.count '\n'),
        ⟨(Lexeme.first c cs).rest,
          scanner.line + (Lexeme.first c cs).spelling.count '\n'⟩) := by
  unfold scan
  rw [front]

/-- A scan that is not at the end leaves less text. -/
theorem scan_shortens {scanner after : Scanner} {outcome : Except SyntaxFault Token}
    (scanned : scanner.scan = (outcome, after))
    (found : outcome ≠ .ok ⟨.endOfFile, "", scanner.line⟩) :
    after.rest.length < scanner.rest.length := by
  cases front : Lexeme.afterIgnored scanner.rest with
  | nil =>
      rw [scan_of_end front] at scanned
      cases scanned
      exact absurd rfl found
  | cons c cs =>
      rcases Lexeme.afterIgnored_split scanner.rest with ⟨ignored, whole, _⟩
      have split := congrArg List.length (Lexeme.spelling_append_rest c cs)
      have nonempty := List.length_pos_iff.mpr (Lexeme.spelling_ne_nil c cs)
      have total := congrArg List.length whole
      rw [scan_of_cons front] at scanned
      cases scanned
      rw [front] at total
      rw [List.length_append] at split total
      change (Lexeme.first c cs).rest.length < _
      omega

/-- The line that a text ends on does not change while it is scanned. -/
theorem scan_keeps_lastLine (scanner : Scanner) :
    scanner.scan.2.line + scanner.scan.2.rest.count '\n' =
      scanner.line + scanner.rest.count '\n' := by
  rcases Lexeme.afterIgnored_split scanner.rest with ⟨ignored, whole, plain⟩
  have unbroken : ignored.count '\n' = 0 := List.count_eq_zero.mpr plain
  have total := congrArg (List.count '\n') whole
  rw [List.count_append, unbroken, Nat.zero_add] at total
  rw [total]
  cases front : Lexeme.afterIgnored scanner.rest with
  | nil => rw [scan_of_end front]
  | cons c cs =>
      rw [scan_of_cons front, ← Lexeme.spelling_append_rest c cs, List.count_append]
      exact Nat.add_assoc _ _ _

/-- The end token is given at the end only. -/
theorem ended_of_endOfFile {scanner after : Scanner} {token : Token}
    (scanned : scanner.scan = (.ok token, after)) (kind : token.kind = .endOfFile) :
    Lexeme.afterIgnored scanner.rest = [] := by
  cases front : Lexeme.afterIgnored scanner.rest with
  | nil => rfl
  | cons c cs =>
      rw [scan_of_cons front, Prod.mk.injEq] at scanned
      have outcome := scanned.1
      unfold Lexeme.outcome at outcome
      cases shape : (Lexeme.first c cs).shape with
      | token found =>
          simp only [shape, Except.ok.injEq] at outcome
          rw [← outcome] at kind
          exact absurd (shape.trans (congrArg _ kind)) (Lexeme.shape_ne_endOfFile c cs)
      | openString => simp only [shape, reduceCtorEq] at outcome
      | unknown => simp only [shape, reduceCtorEq] at outcome

/-- The tokens that some number of scans give, the end token last. -/
def tokensWithin : Nat → Scanner → List Token
  | 0, _ => []
  | scans + 1, scanner =>
      match scanner.scan with
      | (.ok token, after) =>
          if token.kind = .endOfFile then [token] else token :: after.tokensWithin scans
      | (.error _, after) => after.tokensWithin scans

/-- The tokens up to the end of the text. -/
def tokens (scanner : Scanner) : List Token :=
  scanner.tokensWithin (scanner.rest.length + 1)

/-- Scanning on from the first scanner gives the tokens and gets to the second one. -/
inductive Gives : Scanner → List Token → Scanner → Prop
  | nothing {scanner : Scanner} : Gives scanner [] scanner
  | token {scanner between after : Scanner} {token : Token} {tokens : List Token} :
      scanner.scan = (.ok token, between) → Gives between tokens after →
      Gives scanner (token :: tokens) after
  | fault {scanner between after : Scanner} {fault : SyntaxFault} {tokens : List Token} :
      scanner.scan = (.error fault, between) → Gives between tokens after →
      Gives scanner tokens after

namespace Gives

variable {scanner between after : Scanner} {first last : List Token}

theorem append (start : Gives scanner first between) (goesOn : Gives between last after) :
    Gives scanner (first ++ last) after := by
  induction start with
  | nothing => exact goesOn
  | token scanned _ inductionHypothesis => exact .token scanned (inductionHypothesis goesOn)
  | fault scanned _ inductionHypothesis => exact .fault scanned (inductionHypothesis goesOn)

/-- At the end of the text nothing but the end token is given. -/
theorem ended (given : Gives scanner first after)
    (atEnd : Lexeme.afterIgnored scanner.rest = []) :
    ∀ token ∈ first, token = ⟨.endOfFile, "", scanner.line⟩ := by
  induction given with
  | nothing => exact List.forall_mem_nil _
  | token scanned _ inductionHypothesis =>
      rw [scan_of_end atEnd] at scanned
      cases scanned
      exact List.forall_mem_cons.mpr ⟨rfl, inductionHypothesis rfl⟩
  | fault scanned _ _ =>
      rw [scan_of_end atEnd] at scanned
      cases scanned

/-- Every token that is given is one of the tokens of the text. -/
theorem mem_tokensWithin (given : Gives scanner first after) {scans : Nat}
    (enough : scanner.rest.length < scans) :
    ∀ token ∈ first, token ∈ scanner.tokensWithin scans := by
  induction given generalizing scans with
  | nothing => exact List.forall_mem_nil _
  | @token scanner between after token tokens scanned given inductionHypothesis =>
      obtain ⟨scans, rfl⟩ : ∃ fewer, scans = fewer + 1 := ⟨scans - 1, by omega⟩
      simp only [tokensWithin, scanned]
      by_cases kind : token.kind = .endOfFile
      · have atEnd := ended_of_endOfFile scanned kind
        rw [if_pos kind]
        rw [scan_of_end atEnd] at scanned
        cases scanned
        intro found member
        rcases List.mem_cons.mp member with rfl | later
        · exact List.mem_singleton_self _
        · rw [given.ended rfl found later]
          exact List.mem_singleton_self _
      · rw [if_neg kind]
        have shorter := scan_shortens scanned (by rintro ⟨⟩; exact kind rfl)
        intro found member
        rcases List.mem_cons.mp member with rfl | later
        · exact List.mem_cons_self
        · exact List.mem_cons_of_mem _ (inductionHypothesis (by omega) found later)
  | @fault scanner between after fault tokens scanned given inductionHypothesis =>
      obtain ⟨scans, rfl⟩ : ∃ fewer, scans = fewer + 1 := ⟨scans - 1, by omega⟩
      simp only [tokensWithin, scanned]
      have shorter := scan_shortens scanned (by rintro ⟨⟩)
      exact inductionHypothesis (by omega)

/-- What is given up to the end token is all the tokens of the text. -/
theorem tokensWithin_eq {ending : Token} (given : Gives scanner (first ++ [ending]) after)
    (ends : ending.kind = .endOfFile) (others : ∀ token ∈ first, token.kind ≠ .endOfFile)
    {scans : Nat} (enough : scanner.rest.length < scans) :
    scanner.tokensWithin scans = first ++ [ending] := by
  generalize all : first ++ [ending] = tokens at given ⊢
  induction given generalizing first scans with
  | nothing => simp at all
  | @token scanner between after token tokens found given inductionHypothesis =>
      obtain ⟨scans, rfl⟩ : ∃ fewer, scans = fewer + 1 := ⟨scans - 1, by omega⟩
      cases first with
      | nil =>
          cases all
          simp only [tokensWithin, found, if_pos ends]
      | cons head first =>
          cases all
          have kind := others token List.mem_cons_self
          have shorter := scan_shortens found (by rintro ⟨⟩; exact kind rfl)
          have rest : between.tokensWithin scans = first ++ [ending] :=
            inductionHypothesis (fun other member => others other (List.mem_cons_of_mem _ member))
              (by omega) rfl
          simp only [tokensWithin, found, if_neg kind, rest, List.append_eq]
  | @fault scanner between after fault tokens found given inductionHypothesis =>
      obtain ⟨scans, rfl⟩ : ∃ fewer, scans = fewer + 1 := ⟨scans - 1, by omega⟩
      have shorter := scan_shortens found (by rintro ⟨⟩)
      simp only [tokensWithin, found]
      exact inductionHypothesis others (by omega) all

end Gives
end Scanner

/-- The tokens of a source text. -/
def Token.ofSource (source : String) : List Token :=
  Scanner.tokens ⟨source.toList, 1⟩

namespace Lexer

/-- The tokens that have been taken from a source text when the lexer has got where it is.  A
token read ahead is not taken yet. -/
def HasTaken (source : String) (taken : List Token) (lexer : Lexer) : Prop :=
  Scanner.Gives ⟨source.toList, 1⟩ (taken ++ lexer.ahead.toList) lexer.scanner

variable {source : String} {taken : List Token} {lexer after : Lexer} {token : Token}

theorem hasTaken_ofSource (source : String) : HasTaken source [] (.ofSource source) :=
  .nothing

/-- What is taken: a token that was read ahead, or what the next scan gives. -/
theorem next_cases (lexer : Lexer) :
    (∃ token, lexer.ahead = some token ∧ Lexer.next lexer = .ok token ⟨lexer.scanner, none⟩) ∨
      (∃ token scanner, lexer.ahead = none ∧ lexer.scanner.scan = (.ok token, scanner) ∧
        Lexer.next lexer = .ok token ⟨scanner, none⟩) ∨
      ∃ fault scanner, lexer.ahead = none ∧ lexer.scanner.scan = (.error fault, scanner) ∧
        Lexer.next lexer = .error fault ⟨scanner, none⟩ := by
  rcases lexer with ⟨scanner, ahead⟩
  cases ahead with
  | some token => exact Or.inl ⟨token, rfl, rfl⟩
  | none =>
      rcases scanned : scanner.scan with ⟨outcome, after⟩
      cases outcome with
      | ok token =>
          refine Or.inr (Or.inl ⟨token, after, rfl, rfl, ?_⟩)
          simp only [Lexer.next, scanned]
      | error fault =>
          refine Or.inr (Or.inr ⟨fault, after, rfl, rfl, ?_⟩)
          simp only [Lexer.next, scanned]

/-- Looking ahead is taking a token and keeping it. -/
theorem peek_eq (lexer : Lexer) :
    Lexer.peek lexer =
      match Lexer.next lexer with
      | .ok token after => .ok token { after with ahead := some token }
      | .error fault after => .error fault after := by
  rcases lexer with ⟨scanner, ahead⟩
  cases ahead with
  | some token => rfl
  | none =>
      simp only [Lexer.peek, Lexer.next]
      rcases scanner.scan with ⟨outcome, after⟩
      cases outcome with
      | ok token => rfl
      | error fault => rfl

theorem ahead_of_next (ran : Lexer.next lexer = .ok token after) : after.ahead = none := by
  rcases next_cases lexer with ⟨_, _, step⟩ | ⟨_, _, _, _, step⟩ | ⟨_, _, _, _, step⟩ <;>
    rw [step] at ran <;> cases ran <;> rfl

theorem HasTaken.next (has : HasTaken source taken lexer)
    (ran : Lexer.next lexer = .ok token after) : HasTaken source (taken ++ [token]) after := by
  unfold HasTaken at has ⊢
  rcases next_cases lexer with ⟨found, ahead, step⟩ | ⟨found, scanner, ahead, scanned, step⟩ |
      ⟨fault, scanner, ahead, scanned, step⟩ <;>
    rw [step] at ran <;> cases ran <;> rw [ahead] at has
  · rw [Option.toList_none, List.append_nil]
    exact has
  · rw [Option.toList_none, List.append_nil] at has ⊢
    exact has.append (.token scanned .nothing)

/-- A fault of the scanner takes no token. -/
theorem HasTaken.next_fault (has : HasTaken source taken lexer) {fault : SyntaxFault}
    (ran : Lexer.next lexer = .error fault after) : HasTaken source taken after := by
  unfold HasTaken at has ⊢
  rcases next_cases lexer with ⟨found, ahead, step⟩ | ⟨found, scanner, ahead, scanned, step⟩ |
      ⟨fault, scanner, ahead, scanned, step⟩ <;>
    rw [step] at ran <;> cases ran
  rw [ahead] at has
  have given := has.append (.fault scanned .nothing)
  rw [List.append_nil] at given
  exact given

/-- A token that is looked at again has not been taken. -/
theorem HasTaken.keep (has : HasTaken source (taken ++ [token]) lexer) (none : lexer.ahead = none) :
    HasTaken source taken { lexer with ahead := some token } := by
  unfold HasTaken at has ⊢
  rw [none, Option.toList_none, List.append_nil] at has
  exact has

/-- Every token that has been taken is one of the source. -/
theorem HasTaken.mem_ofSource (has : HasTaken source taken lexer) :
    ∀ token ∈ taken, token ∈ Token.ofSource source := by
  intro token member
  exact Scanner.Gives.mem_tokensWithin has (Nat.lt_succ_self _) token
    (List.mem_append_left _ member)

/-- Once the end token is read ahead, all tokens of the source are known. -/
theorem HasTaken.ofSource_eq (has : HasTaken source taken lexer)
    (ahead : lexer.ahead = some token) (ends : token.kind = .endOfFile)
    (others : ∀ token ∈ taken, token.kind ≠ .endOfFile) :
    Token.ofSource source = taken ++ [token] := by
  unfold HasTaken at has
  rw [ahead, Option.toList_some] at has
  exact has.tokensWithin_eq ends others (Nat.lt_succ_self _)

end Lexer
end Scriptlet
