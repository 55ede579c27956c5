import Mathlib
import Scriptlet.Proofs.ExactValues
import Scriptlet.Proofs.ListTexts
import Scriptlet.Proofs.NodeLines
import Scriptlet.Proofs.Precedence
import Scriptlet.Proofs.Spelling
import Scriptlet.Proofs.WrittenExpressions

namespace Scriptlet

/-!
# Tokens made of digits and points

The lexer tells numbers from ranges by counting points.  The reader of a range takes it apart at the
points and asks whether the last character is one.  Both are the same as looking at the runs of
digits: their number decides between the bounds that are written and a bound that is still to be
read.

This rests on how a range token starts.  Either its first character is a digit, so that a single run
leaves two points for its end, or it has no digit at all.
-/

namespace Text

/-! ## Runs of digits -/

/-- The runs of digits in a text that are as long as can be. -/
def digitRuns (cs : List Char) : List (List Char) :=
  (cs.splitBy fun c d => c.isDigit == d.isDigit).filter fun run => run.all Char.isDigit

/-- A stretch of digits, or of anything else, that ends where the text ends or changes. -/
theorem splitBy_stretch {stretch rest : List Char} {digit : Bool} (nonempty : stretch ≠ [])
    (alike : ∀ c ∈ stretch, c.isDigit = digit) (ends : ∀ c ∈ rest.head?, c.isDigit = !digit) :
    ((stretch ++ rest).splitBy fun c d => c.isDigit == d.isDigit) =
      stretch :: rest.splitBy fun c d => c.isDigit == d.isDigit := by
  rw [List.splitBy_append, List.splitBy_of_isChain nonempty]
  · rfl
  · apply List.Pairwise.isChain
    apply List.Pairwise.imp_of_mem (R := fun _ _ => True)
    · intro c d first second _
      rw [alike c first, alike d second]
      exact beq_self_eq_true digit
    · exact List.pairwise_of_forall fun _ _ => trivial
  · intro c last d next
    rw [alike c (List.mem_of_mem_getLast? last), ends d next]
    cases digit <;> rfl

theorem digitRuns_append {digits rest : List Char} (nonempty : digits ≠ [])
    (all : ∀ c ∈ digits, c.isDigit = true) (ends : ∀ c ∈ rest.head?, c.isDigit = false) :
    digitRuns (digits ++ rest) = digits :: digitRuns rest := by
  have whole : digits.all Char.isDigit = true := List.all_eq_true.mpr all
  unfold digitRuns
  rw [splitBy_stretch nonempty all ends, List.filter_cons, if_pos whole]

theorem digitRuns_stretch {others rest : List Char} (none : ∀ c ∈ others, c.isDigit = false)
    (ends : ∀ c ∈ rest.head?, c.isDigit = true) :
    digitRuns (others ++ rest) = digitRuns rest := by
  cases others with
  | nil => rfl
  | cons c others =>
      have other : ¬ (c :: others).all Char.isDigit = true := by simp [none c List.mem_cons_self]
      unfold digitRuns
      rw [splitBy_stretch (List.cons_ne_nil _ _) none ends, List.filter_cons, if_neg other]

/-- A digit starts the run that goes as far as there are digits. -/
theorem digitRuns_of_digit {c : Char} (digit : c.isDigit = true) (rest : List Char) :
    digitRuns (c :: rest) =
      (c :: rest.takeWhile Char.isDigit) :: digitRuns (rest.dropWhile Char.isDigit) := by
  have ends : ∀ d ∈ (rest.dropWhile Char.isDigit).head?, d.isDigit = false :=
    Lexeme.ends_dropWhile Char.isDigit rest
  have all : ∀ d ∈ c :: rest.takeWhile Char.isDigit, d.isDigit = true :=
    List.forall_mem_cons.mpr ⟨digit, fun _ member => List.mem_takeWhile_imp member⟩
  have runs := digitRuns_append (List.cons_ne_nil _ _) all ends
  rwa [List.cons_append, List.takeWhile_append_dropWhile] at runs

/-- What is no digit is in no run. -/
theorem digitRuns_of_not_digit {c : Char} (other : c.isDigit = false) (rest : List Char) :
    digitRuns (c :: rest) = digitRuns rest := by
  have none : ∀ d ∈ rest.takeWhile fun d => !d.isDigit, d.isDigit = false := by
    intro d member
    simpa using List.mem_takeWhile_imp member
  have ends : ∀ d ∈ (rest.dropWhile fun d => !d.isDigit).head?, d.isDigit = true := by
    intro d head
    simpa using Lexeme.ends_dropWhile (fun d => !d.isDigit) rest d head
  have whole := digitRuns_stretch none ends
  have more := digitRuns_stretch (List.forall_mem_cons.mpr ⟨other, none⟩) ends
  rw [List.takeWhile_append_dropWhile] at whole
  rw [List.cons_append, List.takeWhile_append_dropWhile] at more
  rw [more, whole]

theorem not_digit_of_no_runs {cs : List Char} (none : digitRuns cs = []) :
    ∀ c ∈ cs, c.isDigit = false := by
  induction cs with
  | nil => exact List.forall_mem_nil _
  | cons c rest inductionHypothesis =>
      cases digit : c.isDigit with
      | true =>
          rw [digitRuns_of_digit digit] at none
          cases none
      | false =>
          rw [digitRuns_of_not_digit digit] at none
          exact List.forall_mem_cons.mpr ⟨digit, inductionHypothesis none⟩

theorem pieces_separator (separator : Char) (rest : List Char) :
    pieces separator (separator :: rest) = [] :: pieces separator rest := by
  rw [pieces]
  cases split : pieces separator rest with
  | nil => exact absurd split (pieces_ne_nil separator rest)
  | cons piece others => exact if_pos rfl

/-- In a text of digits and points the runs of digits are what stands between the points. -/
theorem filter_pieces {cs : List Char} (numeral : ∀ c ∈ cs, Lexeme.isNumeral c = true) :
    (pieces '.' cs).filter (fun piece => !piece.isEmpty) = digitRuns cs := by
  generalize size : cs.length = length
  induction length using Nat.strong_induction_on generalizing cs with
  | _ length inductionHypothesis =>
      have isPoint {d : Char} (member : d ∈ cs) (other : d.isDigit = false) : d = '.' := by
        simpa [Lexeme.isNumeral, other] using numeral d member
      cases cs with
      | nil => rfl
      | cons c rest =>
          have others : ∀ d ∈ rest, Lexeme.isNumeral d = true :=
            fun d later => numeral d (List.mem_cons_of_mem c later)
          have shorter : rest.length < length := by
            rw [← size]
            exact Nat.lt_succ_self _
          cases digit : c.isDigit with
          | false =>
              rw [digitRuns_of_not_digit digit, ← inductionHypothesis _ shorter others rfl,
                isPoint List.mem_cons_self digit, pieces_separator]
              rfl
          | true =>
              -- Behind the first run the text ends or goes on with a point, and either way the
              -- pieces of the rest start with an empty one.
              have free : '.' ∉ c :: rest.takeWhile Char.isDigit := by
                intro member
                have all : ∀ d ∈ c :: rest.takeWhile Char.isDigit, d.isDigit = true :=
                  List.forall_mem_cons.mpr ⟨digit, fun _ later => List.mem_takeWhile_imp later⟩
                exact absurd (all _ member) (by decide)
              have tail : ∃ more, pieces '.' (rest.dropWhile Char.isDigit) = [] :: more := by
                cases split : rest.dropWhile Char.isDigit with
                | nil => exact ⟨[], rfl⟩
                | cons d more =>
                    have ends := Lexeme.ends_dropWhile Char.isDigit rest
                    have behind : d ∈ rest := (List.dropWhile_sublist Char.isDigit).subset
                      (split ▸ List.mem_cons_self)
                    rw [split] at ends
                    rw [isPoint (List.mem_cons_of_mem c behind) (ends d rfl), pieces_separator]
                    exact ⟨_, rfl⟩
              obtain ⟨more, split⟩ := tail
              have runs := inductionHypothesis (rest.dropWhile Char.isDigit).length
                (Nat.lt_of_le_of_lt (List.dropWhile_sublist Char.isDigit).length_le shorter)
                (fun d later => others d ((List.dropWhile_sublist Char.isDigit).subset later)) rfl
              have whole := Reader.pieces_append free split
              rw [List.cons_append, List.takeWhile_append_dropWhile, List.append_nil] at whole
              rw [split] at runs
              rw [whole, digitRuns_of_digit digit, ← runs]
              rfl

end Text

/-! ## Range tokens -/

/-- The text of a range token: digits and at least two points, with a digit in front or none at
all. -/
structure Token.IsDotted (cs : List Char) : Prop where
  numeral : ∀ c ∈ cs, Lexeme.isNumeral c = true
  points : 2 ≤ cs.count '.'
  front : (∃ c rest, cs = c :: rest ∧ c.isDigit = true) ∨ ∀ c ∈ cs, c.isDigit = false

/-- A range that shows one bound only ends with its points. -/
theorem Token.IsDotted.ends_with_point {cs run : List Char} (dotted : Token.IsDotted cs)
    (single : Text.digitRuns cs = [run]) : cs.getLast? = some '.' := by
  rcases dotted.front with ⟨c, rest, rfl, digit⟩ | none
  · rw [Text.digitRuns_of_digit digit, List.cons.injEq] at single
    have plain := Text.not_digit_of_no_runs single.2
    have split := List.takeWhile_append_dropWhile (p := Char.isDigit) (l := rest)
    have digits : ∀ d ∈ c :: rest.takeWhile Char.isDigit, d.isDigit = true :=
      List.forall_mem_cons.mpr ⟨digit, fun _ member => List.mem_takeWhile_imp member⟩
    have noPoint : (c :: rest.takeWhile Char.isDigit).count '.' = 0 :=
      Scanner.count_point_of_digits digits
    have points := dotted.points
    rw [← split, ← List.cons_append, List.count_append, noPoint, Nat.zero_add] at points
    rcases List.eq_nil_or_concat (rest.dropWhile Char.isDigit) with nothing | ⟨front, last, tail⟩
    · rw [nothing] at points
      exact absurd points (by decide)
    · have member : last ∈ rest.dropWhile Char.isDigit := by simp [tail]
      have behind : last ∈ c :: rest :=
        List.mem_cons_of_mem c ((List.dropWhile_sublist Char.isDigit).subset member)
      have isPoint : last = '.' := by
        simpa [Lexeme.isNumeral, plain last member] using dotted.numeral last behind
      rw [← split, tail, isPoint, List.concat_eq_append, ← List.cons_append, ← List.append_assoc,
        List.getLast?_concat]
  · have nothing : Text.digitRuns cs = Text.digitRuns [] := by
      have whole : Text.digitRuns (cs ++ []) = Text.digitRuns [] :=
        Text.digitRuns_stretch none (by simp)
      rwa [List.append_nil] at whole
    rw [nothing] at single
    cases single

namespace Lexeme

theorem markKind?_ne_range {c : Char} {kind : Token.Kind} (mark : markKind? c = some kind) :
    kind ≠ .range := by
  unfold markKind? at mark
  split at mark <;> cases mark <;> decide

theorem dotted_of_range {c : Char} {cs : List Char}
    (range : (first c cs).shape = .token .range) : Token.IsDotted (first c cs).text.toList := by
  rw [text_of_ne_string (by rw [range]; decide)]
  unfold first at range ⊢
  by_cases digit : c.isDigit = true
  · have isFirst : isNumeral c = true := by simp [isNumeral, digit]
    simp only [if_pos digit, numeral] at range ⊢
    refine ⟨fun d member => List.mem_takeWhile_imp member, ?_, Or.inl ?_⟩
    · by_contra few
      rw [if_pos (Nat.lt_of_not_le few)] at range
      cases range
    · exact ⟨c, _, List.takeWhile_cons_of_pos isFirst, digit⟩
  by_cases starts : startsWord c = true
  · simp only [if_neg digit, if_pos starts, word] at range
    rcases kindOfWord_cases (String.ofList ((c :: cs).takeWhile continuesWord)) with
      found | found | found | found | found <;>
      rw [found] at range <;> cases range
  by_cases quote : c = '"'
  · simp only [if_neg digit, if_neg starts, if_pos quote, quoted] at range
    split at range <;> cases range
  by_cases point : c = '.'
  · simp only [if_neg digit, if_neg starts, if_neg quote, if_pos point, points] at range ⊢
    have all : ∀ d ∈ '.' :: cs.takeWhile (· = '.'), d = '.' :=
      List.forall_mem_cons.mpr ⟨rfl, fun d member => by
        simpa using List.mem_takeWhile_imp member⟩
    refine ⟨fun d member => by rw [all d member]; decide, ?_,
      Or.inr fun d member => by rw [all d member]; decide⟩
    cases run : cs.takeWhile (· = '.') with
    | nil =>
        rw [run] at range
        cases range
    | cons d more =>
        rw [run] at all
        rw [all d (by simp)]
        simp
  · simp only [if_neg digit, if_neg starts, if_neg quote, if_neg point] at range
    cases mark : markKind? c with
    | none =>
        rw [mark] at range
        cases range
    | some kind =>
        rw [mark] at range
        cases range
        exact absurd rfl (markKind?_ne_range mark)

end Lexeme

theorem Scanner.dotted_of_range {scanner after : Scanner} {token : Token}
    (scanned : scanner.scan = (.ok token, after)) (range : token.kind = .range) :
    Token.IsDotted token.text.toList := by
  cases front : Lexeme.afterIgnored scanner.rest with
  | nil =>
      rw [scan_of_end front, Prod.mk.injEq, Except.ok.injEq] at scanned
      rw [← scanned.1] at range
      cases range
  | cons c cs =>
      rw [scan_of_cons front, Prod.mk.injEq] at scanned
      have outcome := scanned.1
      unfold Lexeme.outcome at outcome
      cases shape : (Lexeme.first c cs).shape with
      | token kind =>
          simp only [shape, Except.ok.injEq] at outcome
          rw [← outcome] at range ⊢
          exact Lexeme.dotted_of_range (shape.trans (congrArg _ range))
      | openString => simp only [shape, reduceCtorEq] at outcome
      | unknown => simp only [shape, reduceCtorEq] at outcome

/-- A token of a source is taken as it was scanned. -/
theorem Lexer.OnSource.scanned_next {source : String} {lexer after : Lexer} {token : Token}
    (on : OnSource source lexer) (ran : Lexer.next lexer = .ok token after) :
    ∃ before behind : Scanner, before.scan = (.ok token, behind) := by
  rcases next_cases lexer with ⟨found, ahead, step⟩ | ⟨found, scanner, ahead, scanned, step⟩ |
      ⟨fault, scanner, ahead, scanned, step⟩ <;>
    rw [step] at ran <;> cases ran
  · obtain ⟨before, scanned⟩ := on.scanned_ahead ahead
    exact ⟨before, _, scanned⟩
  · exact ⟨_, _, scanned⟩

/-! ## Bounds -/

namespace Text

/-- The integer that digits write is beyond those that doubles tell apart. -/
def isTooLarge (digits : List Char) : Bool :=
  Number.largestWhole < Nat.ofDigitChars 10 digits 0

end Text

namespace Node

/-- A literal of the integer that digits write. -/
def IsWhole (line : Nat) (digits : List Char) (node : Node) : Prop :=
  ∃ x, node = .literal (.number x) line ∧
    Number.exactValue? x = some (Nat.ofDigitChars 10 digits 0 : ℚ)

end Node

namespace Reader

theorem isWhole_wholeLiteral {digits : List Char} (small : Text.isTooLarge digits = false)
    (line : Nat) : Node.IsWhole line digits (wholeLiteral line digits) := by
  have bound : Number.decimalValue digits ≤ Number.largestWhole := by
    rw [Number.decimalValue_eq_ofDigitChars]
    exact Nat.le_of_not_lt (of_decide_eq_false small)
  refine ⟨_, rfl, ?_⟩
  rw [Number.exactValue?_ofInt (n := Number.decimalValue digits) bound,
    Number.decimalValue_eq_ofDigitChars]
  rfl

theorem rangeBound_of_small {digits : List Char} (small : Text.isTooLarge digits = false)
    (line : Nat) : rangeBound line digits = .ok (wholeLiteral line digits) := by
  apply rangeBound_of_le
  rw [Number.decimalValue_eq_ofDigitChars]
  exact Nat.le_of_not_lt (of_decide_eq_false small)

theorem rangeBound_of_large {digits : List Char} (large : Text.isTooLarge digits = true)
    (line : Nat) :
    rangeBound line digits = .error (.invalidNumber (String.ofList digits) line) := by
  apply rangeBound_of_lt
  rw [Number.decimalValue_eq_ofDigitChars]
  exact of_decide_eq_true large

/-- Runs of digits are the bounds of a range unless one of them is too large, and then the first
such run is reported. -/
theorem mapM_rangeBound (runs : List (List Char)) (line : Nat) :
    runs.mapM (rangeBound line) =
      match runs.find? Text.isTooLarge with
      | some run => .error (.invalidNumber (String.ofList run) line)
      | none => .ok (runs.map (wholeLiteral line)) := by
  induction runs with
  | nil => rfl
  | cons run runs inductionHypothesis =>
      rw [List.mapM_cons, List.find?_cons]
      cases large : Text.isTooLarge run with
      | true =>
          rw [rangeBound_of_large large]
          rfl
      | false =>
          rw [rangeBound_of_small large, inductionHypothesis]
          cases runs.find? Text.isTooLarge with
          | some other => rfl
          | none => rfl

theorem rangeBounds_eq {token : Token}
    (numeral : ∀ c ∈ token.text.toList, Lexeme.isNumeral c = true) :
    rangeBounds token =
      match (Text.digitRuns token.text.toList).find? Text.isTooLarge with
      | some run => .error (.invalidNumber (String.ofList run) token.line)
      | none => .ok ((Text.digitRuns token.text.toList).map (wholeLiteral token.line)) := by
  rw [rangeBounds, Text.filter_pieces numeral, mapM_rangeBound]

/-! ## Operands -/

variable {names : Names}

/-- A token that some source has been read up to is as it was scanned. -/
theorem scanned_of_next {source : String} {reader after : Reader} {token : Token}
    (on : reader.lexer.OnSource source) (took : next reader = .ok token after) :
    ∃ before behind : Scanner, before.scan = (.ok token, behind) := by
  obtain ⟨lexer, ran, rfl⟩ := lexer_of_next took
  exact on.scanned_next ran

/-- What becomes of a range token, by its runs of digits.  The first run that is too large is
reported.  Two runs are the bounds, and nothing more is read; one run is the first bound, and an
expression that follows is the other; no run and more than two are no range. -/
def ReadsRange (expression : Read Node) (token : Token) (after : Reader)
    (outcome : EStateM.Result Fault Reader Node) : Prop :=
  match (Text.digitRuns token.text.toList).find? Text.isTooLarge with
  | some run => outcome = .error (.source (.invalidNumber (String.ofList run) token.line)) after
  | none =>
      match Text.digitRuns token.text.toList with
      | [only] =>
          ∃ first : Node, first.IsWhole token.line only ∧
            outcome = (do
              let last ← expression
              pure (.range first last token.line) : Read Node) after
      | [one, other] =>
          ∃ first last : Node, first.IsWhole token.line one ∧ last.IsWhole token.line other ∧
            outcome = .ok (.range first last token.line) after
      | _ => outcome = .error (.source (.invalidRange token.text token.line)) after

theorem readsRange_rangeLiteral {token : Token} (dotted : Token.IsDotted token.text.toList)
    (expression : Read Node) (reader : Reader) :
    ReadsRange expression token reader (rangeLiteral expression token reader) := by
  have bounds := rangeBounds_eq dotted.numeral
  have ends (run : List Char) (single : Text.digitRuns token.text.toList = [run]) :=
    dotted.ends_with_point single
  unfold ReadsRange rangeLiteral
  rw [bounds]
  generalize Text.digitRuns token.text.toList = runs at ends
  cases large : runs.find? Text.isTooLarge with
  | some run => rfl
  | none =>
      have whole {run : List Char} (member : run ∈ runs) :
          Node.IsWhole token.line run (wholeLiteral token.line run) :=
        isWhole_wholeLiteral (by simpa using List.find?_eq_none.mp large run member) token.line
      match runs with
      | [] => rfl
      | [only] =>
          refine ⟨_, whole List.mem_cons_self, ?_⟩
          simp only [List.map_cons, List.map_nil, if_pos (ends only rfl)]
      | [one, other] => exact ⟨_, _, whole (by simp), whole (by simp), rfl⟩
      | one :: other :: third :: others => rfl

/-- Of the expression behind a range it matters only what it reads there. -/
theorem rangeLiteral_congr {expression other : Read Node} {reader : Reader}
    (same : expression reader = other reader) (token : Token) :
    rangeLiteral expression token reader = rangeLiteral other token reader := by
  have rest (first : Node) :
      (do let last ← expression; pure (.range first last token.line) : Read Node) reader =
        (do let last ← other; pure (.range first last token.line) : Read Node) reader := by
    cases ran : expression reader with
    | ok last after => rw [bind_of_ok ran, bind_of_ok (same.symm.trans ran)]
    | error fault after => rw [bind_of_error ran, bind_of_error (same.symm.trans ran)]
  unfold rangeLiteral
  cases rangeBounds token with
  | error fault => rfl
  | ok bounds =>
      match bounds with
      | [] => rfl
      | [first] =>
          by_cases pointed : token.text.toList.getLast? = some '.'
          · simp only [if_pos pointed]
            exact rest first
          · simp only [if_neg pointed]
      | [first, last] => rfl
      | first :: second :: third :: others => rfl

/-- An operand that starts with digits or points.  A number is always a literal.  A range goes by
its runs of digits, wherever the points stand between them. -/
theorem factor_of_digits_and_points {source : String} {reader after : Reader} {token : Token}
    {steps : Nat} (onSource : reader.lexer.OnSource source)
    (took : next reader = .ok token after) (enough : 2 * reader.lexer.unread + 1 ≤ steps) :
    (token.kind = .number → ∃ x, Number.read? token.text.toList = some x ∧
      factor names steps reader = .ok (.literal (.number x) token.line) after) ∧
    (token.kind = .range →
      ReadsRange (expression names) token after (factor names steps reader)) := by
  obtain ⟨less, rfl⟩ : ∃ less, steps = less + 1 := ⟨steps - 1, by omega⟩
  obtain ⟨before, behind, scanned⟩ := scanned_of_next onSource took
  constructor
  · intro number
    have lawful := Scanner.scan_lawful scanned
    simp only [Token.Lawful, number] at lawful
    obtain ⟨magnitude, _, reads⟩ := Number.read?_isNumeral lawful
    refine ⟨_, reads, ?_⟩
    rw [factor, bind_of_ok took]
    simp only [number, numberLiteral, reads]
    rfl
  · intro range
    have shorter := unread_of_next took
    rw [range, if_neg (by decide)] at shorter
    have follows : ranked names less expressionRank after = expression names after :=
      ranked_eq_expression (by omega)
    rw [factor, bind_of_ok took]
    simp only [range]
    rw [rangeLiteral_congr follows]
    exact readsRange_rangeLiteral (Scanner.dotted_of_range scanned range) _ _

/-- The second point stands behind both bounds, and what follows is left alone. -/
theorem factor_of_trailing_point :
    next (before "1.5. 2") = .ok ⟨.range, "1.5.", 1⟩ (before " 2") ∧
      ∃ first last : Node, first.IsWhole 1 ['1'] ∧ last.IsWhole 1 ['5'] ∧
        factor (fun _ => false) 13 (before "1.5. 2") = .ok (.range first last 1) (before " 2") := by
  have took : next (before "1.5. 2") = .ok ⟨.range, "1.5.", 1⟩ (before " 2") := by cbv
  have onSource : (before "1.5. 2").lexer.OnSource "1.5. 2" := .start
  have enough : 2 * (before "1.5. 2").lexer.unread + 1 ≤ 13 := by decide
  have reads : ReadsRange (expression fun _ => false) ⟨.range, "1.5.", 1⟩ (before " 2")
      (factor (fun _ => false) 13 (before "1.5. 2")) :=
    (factor_of_digits_and_points onSource took enough).2 rfl
  have runs : Text.digitRuns ("1.5.".toList) = [['1'], ['5']] := by cbv
  have small : [['1'], ['5']].find? Text.isTooLarge = none := by decide
  unfold ReadsRange at reads
  simp only [runs, small] at reads
  exact ⟨took, reads⟩

end Reader
end Scriptlet
