import Scriptlet.Proofs.SourceTokens

namespace Scriptlet

/-!
# A text and what its scans report

Scanning splits a text into stretches: what is skipped, and behind it the characters that a
token or a fault stands for.  Nothing of the text is lost and nothing is read twice, so the
line of a report can be counted in the text in front of it.

What a report stands for is recovered from the report alone.  Strings and faults compete for
the same characters with comments; the stretches say who got them.
-/

namespace Lexeme

/-- Only a quote starts a string, closed or not. -/
theorem first_eq_quoted {c : Char} {cs : List Char}
    (string : (first c cs).shape = .token .string ∨ (first c cs).shape = .openString) :
    c = '"' ∧ first c cs = quoted cs := by
  unfold first at string ⊢
  by_cases digit : c.isDigit = true
  · rw [if_pos digit] at string
    simp only [numeral] at string
    split at string <;> simp at string
  by_cases starts : startsWord c = true
  · rw [if_neg digit, if_pos starts] at string
    rcases kindOfWord_cases (String.ofList (word (c :: cs)).spelling) with
      found | found | found | found | found <;>
      simp only [word] at found string <;> rw [found] at string <;> simp at string
  by_cases quote : c = '"'
  · rw [if_neg digit, if_neg starts, if_pos quote]
    exact ⟨quote, rfl⟩
  by_cases point : c = '.'
  · rw [if_neg digit, if_neg starts, if_neg quote, if_pos point] at string
    simp only [points] at string
    split at string <;> simp at string
  · rw [if_neg digit, if_neg starts, if_neg quote, if_neg point] at string
    cases mark : markKind? c with
    | none => simp [mark] at string
    | some kind =>
        simp only [mark, Shape.token.injEq, reduceCtorEq, or_false] at string
        exact absurd string (markKind?_plain mark).2.1

/-- The spelling of a string is its text between quotes. -/
theorem spelling_of_string {c : Char} {cs : List Char}
    (string : (first c cs).shape = .token .string) :
    (first c cs).spelling = '"' :: (first c cs).text.toList ++ ['"'] := by
  have same := (first_eq_quoted (Or.inl string)).2
  rw [same] at string ⊢
  rw [quoted_text string]
  unfold quoted at string ⊢
  cases tail : cs.dropWhile (· ≠ '"') with
  | nil =>
      simp only [tail] at string
      cases string
  | cons close rest =>
      have ends := ends_dropWhile (· ≠ '"') cs
      rw [tail] at ends
      have closing := ends close rfl
      have isQuote : close = '"' := by simpa using closing
      rw [isQuote]

theorem rest_of_openString {c : Char} {cs : List Char}
    (unclosed : (first c cs).shape = .openString) : (first c cs).rest = [] := by
  have same := (first_eq_quoted (Or.inr unclosed)).2
  rw [same] at unclosed ⊢
  unfold quoted at unclosed ⊢
  cases tail : cs.dropWhile (· ≠ '"') with
  | nil => rfl
  | cons close rest =>
      simp only [tail] at unclosed
      cases unclosed

end Lexeme

/-- The characters that the result of a scan stands for. -/
def slice : Except SyntaxFault Token → List Char
  | .ok token =>
      if token.kind = .string then '"' :: token.text.toList ++ ['"'] else token.text.toList
  | .error (.unknownSymbol symbol _) => symbol.toList
  | .error (.unterminatedString literal _) => literal.toList
  | .error _ => []

/-- What a scan skipped, and its result. -/
structure Stretch where
  skipped : List Char
  result : Except SyntaxFault Token

def Stretch.text (stretch : Stretch) : List Char :=
  stretch.skipped ++ slice stretch.result

/-- The line that a result has to report, if a text starts on the line `first` and ends on
the line `last`, and `before` is what comes before the characters that the result stands
for. -/
def Reports (first last : Nat) (before : List Char) : Except SyntaxFault Token → Prop
  | .ok token => token.kind ≠ .endOfFile ∧ token.line = first + before.count '\n'
  | .error (.unknownSymbol _ line) => line = first + before.count '\n'
  | .error (.unterminatedString _ line) => line = last
  | .error _ => False

theorem Reports.prepend {first last : Nat} {text before : List Char}
    {result : Except SyntaxFault Token}
    (reports : Reports (first + text.count '\n') last before result) :
    Reports first last (text ++ before) result := by
  unfold Reports at reports ⊢
  rw [List.count_append, ← Nat.add_assoc]
  exact reports

namespace Lexeme

theorem slice_outcome (c : Char) (cs : List Char) (firstLine lastLine : Nat) :
    slice ((first c cs).outcome firstLine lastLine) = (first c cs).spelling := by
  unfold outcome
  cases shape : (first c cs).shape with
  | token kind =>
      by_cases string : kind = .string
      · subst string
        exact (spelling_of_string shape).symm
      · have other : (first c cs).shape ≠ .token .string := by
          rw [shape]
          simpa using string
        simp only [slice, if_neg string, text_of_ne_string other]
  | openString => exact text_of_ne_string (by rw [shape]; decide)
  | unknown => exact text_of_ne_string (by rw [shape]; decide)

/-- The line that a lexeme is reported on. -/
theorem reports_outcome (c : Char) (cs : List Char) (firstLine : Nat) {lastLine last : Nat}
    {before : List Char} (unbroken : before.count '\n' = 0)
    (ends : (first c cs).rest = [] → lastLine = last) :
    Reports firstLine last before ((first c cs).outcome firstLine lastLine) := by
  unfold outcome
  cases shape : (first c cs).shape with
  | token kind =>
      refine ⟨?_, ?_⟩
      · rintro rfl
        exact shape_ne_endOfFile c cs shape
      · rw [unbroken]
        rfl
  | openString => exact ends (rest_of_openString shape)
  | unknown =>
      rw [Reports, unbroken]
      rfl

end Lexeme

namespace Scanner

/-- A scan that reached something: what it skipped, what it reports and where it left off. -/
structure Reached (scanner : Scanner) (stretch : Stretch) (after : Scanner) : Prop where
  scan_eq : scanner.scan = (stretch.result, after)
  whole : scanner.rest = stretch.text ++ after.rest
  skips : Lexeme.Skipped (slice stretch.result ++ after.rest) stretch.skipped
  nonempty : slice stretch.result ≠ []
  line_eq : after.line = scanner.line + stretch.text.count '\n'
  reports : Reports scanner.line (scanner.line + scanner.rest.count '\n') stretch.skipped
    stretch.result

/-- A scan is at the end, or it reaches something. -/
theorem scan_cases (scanner : Scanner) :
    (Lexeme.Skipped [] scanner.rest ∧
      scanner.scan = (.ok ⟨.endOfFile, "", scanner.line⟩, ⟨[], scanner.line⟩)) ∨
    ∃ stretch after, Reached scanner stretch after := by
  rcases Lexeme.afterIgnored_skips scanner.rest with ⟨skipped, whole, skips⟩
  have unbroken : skipped.count '\n' = 0 := List.count_eq_zero.mpr skips.not_lineBreak
  cases front : Lexeme.afterIgnored scanner.rest with
  | nil =>
      rw [front, List.append_nil] at whole
      rw [front, ← whole] at skips
      exact Or.inl ⟨skips, scan_of_end front⟩
  | cons c cs =>
      have scanned := scan_of_cons front
      have spelled := Lexeme.slice_outcome c cs scanner.line
        (scanner.line + (Lexeme.first c cs).spelling.count '\n')
      have split := Lexeme.spelling_append_rest c cs
      rw [front, ← split] at whole skips
      have lastLine : (Lexeme.first c cs).rest = [] →
          scanner.line + (Lexeme.first c cs).spelling.count '\n' =
            scanner.line + scanner.rest.count '\n' := by
        intro ended
        rw [whole, ended, List.append_nil, List.count_append, unbroken, Nat.zero_add]
      have reports := Lexeme.reports_outcome c cs scanner.line unbroken lastLine
      generalize (Lexeme.first c cs).outcome scanner.line _ = result at scanned spelled reports
      refine Or.inr ⟨⟨skipped, result⟩, _, scanned, ?_, ?_, ?_, ?_, reports⟩
      · rw [Stretch.text, spelled, List.append_assoc]
        exact whole
      · rw [spelled]
        exact skips
      · rw [spelled]
        exact Lexeme.spelling_ne_nil c cs
      · rw [Stretch.text, spelled, List.count_append, unbroken, Nat.zero_add]

/-- The scanner goes through the stretches, and what is left is skipped up to the end. -/
inductive Splits : Scanner → List Stretch → List Char → Prop
  | ended {scanner : Scanner} : Lexeme.Skipped [] scanner.rest →
      scanner.scan = (.ok ⟨.endOfFile, "", scanner.line⟩, ⟨[], scanner.line⟩) →
      Splits scanner [] scanner.rest
  | goesOn {scanner after : Scanner} {stretch : Stretch} {stretches : List Stretch}
      {trailing : List Char} : Reached scanner stretch after → Splits after stretches trailing →
      Splits scanner (stretch :: stretches) trailing

theorem Reached.shortens {scanner after : Scanner} {stretch : Stretch}
    (reached : Reached scanner stretch after) : after.rest.length < scanner.rest.length := by
  have nonempty := List.length_pos_iff.mpr reached.nonempty
  rw [reached.whole, Stretch.text, List.length_append, List.length_append]
  omega

theorem exists_splits (scanner : Scanner) :
    ∃ stretches trailing, Splits scanner stretches trailing := by
  generalize size : scanner.rest.length = length
  induction length using Nat.strong_induction_on generalizing scanner with
  | _ length inductionHypothesis =>
      rcases scan_cases scanner with ⟨skips, scanned⟩ | ⟨stretch, after, reached⟩
      · exact ⟨[], scanner.rest, .ended skips scanned⟩
      · have shorter := reached.shortens
        rw [size] at shorter
        rcases inductionHypothesis _ shorter after rfl with ⟨stretches, trailing, splits⟩
        exact ⟨stretch :: stretches, trailing, .goesOn reached splits⟩

namespace Splits

variable {scanner : Scanner} {stretches : List Stretch} {trailing : List Char}

theorem whole (splits : Splits scanner stretches trailing) :
    scanner.rest = stretches.flatMap Stretch.text ++ trailing := by
  induction splits with
  | ended _ _ => rfl
  | goesOn reached _ inductionHypothesis =>
      rw [List.flatMap_cons, List.append_assoc, ← inductionHypothesis]
      exact reached.whole

theorem few (splits : Splits scanner stretches trailing) :
    stretches.length ≤ scanner.rest.length := by
  induction splits with
  | ended _ _ => exact Nat.zero_le _
  | goesOn reached _ inductionHypothesis =>
      exact Nat.succ_le_of_lt (Nat.lt_of_le_of_lt inductionHypothesis reached.shortens)

theorem skips (splits : Splits scanner stretches trailing) {earlier later : List Stretch}
    {stretch : Stretch} (parts : stretches = earlier ++ stretch :: later) :
    Lexeme.Skipped (slice stretch.result ++ (later.flatMap Stretch.text ++ trailing))
      stretch.skipped := by
  induction splits generalizing earlier with
  | ended _ _ => simp at parts
  | goesOn reached rest inductionHypothesis =>
      cases earlier with
      | nil =>
          cases parts
          rw [← rest.whole]
          exact reached.skips
      | cons first earlier =>
          cases parts
          exact inductionHypothesis rfl

/-- Every stretch reports its own line, counted from the start. -/
theorem reports (splits : Splits scanner stretches trailing) {earlier later : List Stretch}
    {stretch : Stretch} (parts : stretches = earlier ++ stretch :: later) :
    Reports scanner.line (scanner.line + scanner.rest.count '\n')
      (earlier.flatMap Stretch.text ++ stretch.skipped) stretch.result := by
  induction splits generalizing earlier with
  | ended _ _ => simp at parts
  | goesOn reached rest inductionHypothesis =>
      cases earlier with
      | nil =>
          cases parts
          exact reached.reports
      | cons first earlier =>
          cases parts
          have later := inductionHypothesis rfl
          rw [reached.line_eq] at later
          rw [reached.whole, List.count_append, ← Nat.add_assoc, List.flatMap_cons,
            List.append_assoc]
          exact later.prepend

theorem nonempty (splits : Splits scanner stretches trailing) :
    ∀ stretch ∈ stretches, slice stretch.result ≠ [] := by
  induction splits with
  | ended _ _ => exact List.forall_mem_nil _
  | goesOn reached _ inductionHypothesis =>
      exact List.forall_mem_cons.mpr ⟨reached.nonempty, inductionHypothesis⟩

theorem trailing_skips (splits : Splits scanner stretches trailing) :
    Lexeme.Skipped [] trailing := by
  induction splits with
  | ended skips _ => exact skips
  | goesOn _ _ inductionHypothesis => exact inductionHypothesis

end Splits
end Scanner

namespace Lexer

/-- What a call returns, and the lexer after it. -/
def answered : EStateM.Result SyntaxFault Lexer Token → Except SyntaxFault Token × Lexer
  | .ok token after => (.ok token, after)
  | .error fault after => (.error fault, after)

/-- The results of taking tokens one after the other. -/
def results : Nat → Lexer → List (Except SyntaxFault Token)
  | 0, _ => []
  | count + 1, lexer =>
      (answered (Lexer.next lexer)).1 :: (answered (Lexer.next lexer)).2.results count

/-- The ways to ask for a token. -/
inductive Call where
  | next
  | peek

def call (lexer : Lexer) : Call → Lexer
  | .next => (answered (Lexer.next lexer)).2
  | .peek => (answered (Lexer.peek lexer)).2

theorem answered_next (scanner : Scanner) :
    answered (Lexer.next ⟨scanner, none⟩) = (scanner.scan.1, ⟨scanner.scan.2, none⟩) := by
  simp only [Lexer.next]
  rcases scanner.scan with ⟨outcome, after⟩
  cases outcome <;> rfl

/-- A call scans once, unless a token was read ahead. -/
theorem scanner_call (lexer : Lexer) (call : Call) :
    (lexer.call call).scanner = lexer.scanner ∨
      (lexer.call call).scanner = lexer.scanner.scan.2 := by
  rcases lexer with ⟨scanner, ahead⟩
  cases ahead with
  | some token => cases call <;> exact Or.inl rfl
  | none =>
      refine Or.inr ?_
      cases call with
      | next => exact congrArg (fun answer => answer.2.scanner) (answered_next scanner)
      | peek =>
          simp only [Lexer.call, Lexer.peek]
          rcases scanner.scan with ⟨outcome, after⟩
          cases outcome <;> rfl

theorem results_of_ended {scanner : Scanner}
    (ended : scanner.scan = (.ok ⟨.endOfFile, "", scanner.line⟩, ⟨[], scanner.line⟩))
    (count : Nat) :
    results count ⟨scanner, none⟩ = List.replicate count (.ok ⟨.endOfFile, "", scanner.line⟩) := by
  induction count generalizing scanner with
  | zero => rfl
  | succ count inductionHypothesis =>
      rw [results, answered_next, ended, List.replicate_succ]
      exact congrArg _ (inductionHypothesis rfl)

/-- Taking tokens gives the results of all stretches, and then the end token over and over. -/
theorem results_of_splits {scanner : Scanner} {stretches : List Stretch} {trailing : List Char}
    (splits : Scanner.Splits scanner stretches trailing) (extra : Nat) :
    results (stretches.length + extra) ⟨scanner, none⟩ =
      stretches.map Stretch.result ++
        List.replicate extra
          (.ok ⟨.endOfFile, "", scanner.line + scanner.rest.count '\n'⟩) := by
  induction splits with
  | ended skips ended =>
      rw [List.count_eq_zero.mpr skips.not_lineBreak, List.length_nil, Nat.zero_add]
      exact results_of_ended ended extra
  | goesOn reached rest inductionHypothesis =>
      rw [reached.whole, List.count_append, ← Nat.add_assoc, ← reached.line_eq,
        List.length_cons, Nat.add_right_comm, results, answered_next, reached.scan_eq,
        inductionHypothesis]
      rfl

/-- Whatever the calls, they have scanned whole stretches, or everything once the end was
reached, and the line counts what they have scanned. -/
theorem scanned_of_splits {lexer : Lexer} {stretches : List Stretch} {trailing : List Char}
    (splits : Scanner.Splits lexer.scanner stretches trailing) (calls : List Call) :
    ∃ scanned, lexer.scanner.rest = scanned ++ (calls.foldl call lexer).scanner.rest ∧
      (calls.foldl call lexer).line = lexer.line + scanned.count '\n' ∧
      ∃ earlier later, stretches = earlier ++ later ∧
        (scanned = earlier.flatMap Stretch.text ∨
          later = [] ∧ scanned = lexer.scanner.rest) := by
  induction calls generalizing lexer stretches trailing with
  | nil => exact ⟨[], rfl, rfl, [], stretches, rfl, Or.inl rfl⟩
  | cons called calls inductionHypothesis =>
      rw [List.foldl_cons]
      rcases scanner_call lexer called with same | moved
      · have goesOn := @inductionHypothesis (lexer.call called) _ _ (same ▸ splits)
        unfold line at goesOn ⊢
        rwa [same] at goesOn
      · cases splits with
        | ended skips ended =>
            have there : (lexer.call called).scanner = ⟨[], lexer.scanner.line⟩ := by
              rw [moved, ended]
            have atEnd : Scanner.Splits ⟨[], lexer.scanner.line⟩ [] [] :=
              .ended (.blanks (List.forall_mem_nil _)) (Scanner.scan_of_end rfl)
            rcases @inductionHypothesis (lexer.call called) _ _ (there ▸ atEnd) with
              ⟨scanned, left, counted, _⟩
            rw [there] at left
            rcases List.append_eq_nil_iff.mp left.symm with ⟨nothing, none⟩
            refine ⟨lexer.scanner.rest, ?_, ?_, [], [], rfl, Or.inr ⟨rfl, rfl⟩⟩
            · rw [none, List.append_nil]
            · rw [counted, nothing, line, there,
                List.count_eq_zero.mpr skips.not_lineBreak]
              rfl
        | @goesOn _ after stretch stretches _ reached rest =>
            have there : (lexer.call called).scanner = after := by
              rw [moved, reached.scan_eq]
            rcases @inductionHypothesis (lexer.call called) _ _ (there ▸ rest) with
              ⟨scanned, left, counted, earlier, later, parts, which⟩
            refine ⟨stretch.text ++ scanned, ?_, ?_, stretch :: earlier, later, ?_, ?_⟩
            · rw [List.append_assoc, ← left, there]
              exact reached.whole
            · rw [counted, line, there, reached.line_eq, List.count_append, ← Nat.add_assoc]
              rfl
            · rw [parts, List.cons_append]
            · rcases which with stretched | ⟨none, all⟩
              · exact Or.inl (by rw [stretched, List.flatMap_cons])
              · refine Or.inr ⟨none, ?_⟩
                rw [all, there]
                exact reached.whole.symm

end Lexer

/-- What the stretches of a text are, and what each of them has to report. -/
structure Partitions (text : List Char) (stretches : List Stretch) (trailing : List Char) :
    Prop where
  whole : text = stretches.flatMap Stretch.text ++ trailing
  few : stretches.length ≤ text.length
  nonempty : ∀ stretch ∈ stretches, slice stretch.result ≠ []
  skips : ∀ earlier stretch later, stretches = earlier ++ stretch :: later →
    Lexeme.Skipped (slice stretch.result ++ (later.flatMap Stretch.text ++ trailing))
      stretch.skipped
  trailing_skips : Lexeme.Skipped [] trailing
  reports : ∀ earlier stretch later, stretches = earlier ++ stretch :: later →
    Reports 1 (1 + text.count '\n') (earlier.flatMap Stretch.text ++ stretch.skipped)
      stretch.result

/-- Every text is made of the characters that the results of its scans stand for and of the
blanks and comments between them.  Taking tokens gives these results, no more than there are
characters, and from then on the end token.  Tokens and unknown symbols are reported on the
line of their first character, open strings and the end on the last line; and whatever was
asked of a lexer, its line is that of the characters it has scanned. -/
theorem lexer_partitions (source : String) :
    ∃ stretches trailing, Partitions source.toList stretches trailing ∧
      (∀ extra, (Lexer.ofSource source).results (stretches.length + extra) =
        stretches.map Stretch.result ++
          List.replicate extra (.ok ⟨.endOfFile, "", 1 + source.toList.count '\n'⟩)) ∧
      ∀ calls : List Lexer.Call, ∃ scanned,
        source.toList = scanned ++ (calls.foldl Lexer.call (.ofSource source)).scanner.rest ∧
        (calls.foldl Lexer.call (.ofSource source)).line = 1 + scanned.count '\n' ∧
        ∃ earlier later, stretches = earlier ++ later ∧
          (scanned = earlier.flatMap Stretch.text ∨ later = [] ∧ scanned = source.toList) := by
  rcases Scanner.exists_splits ⟨source.toList, 1⟩ with ⟨stretches, trailing, splits⟩
  refine ⟨stretches, trailing, ?_, Lexer.results_of_splits splits, ?_⟩
  · exact ⟨splits.whole, splits.few, splits.nonempty, fun _ _ _ parts => splits.skips parts,
      splits.trailing_skips, fun _ _ _ parts => splits.reports parts⟩
  · exact fun calls => @Lexer.scanned_of_splits (.ofSource source) _ _ splits calls

/-- A comment mark inside quotes belongs to the string, and a quote inside a comment starts
none. -/
example : (Lexer.ofSource "\"a // b\" // \"c").results 2 =
    [.ok ⟨.string, "a // b", 1⟩, .ok ⟨.endOfFile, "", 1⟩] := by
  decide

end Scriptlet
