import Scriptlet.Proofs.LawfulTokens

namespace Scriptlet

/-!
# Scanning what was written

A text that starts with the spelling of a token is scanned as that token, if what follows
does not go on with it.  Marks end by themselves; words and numbers end where a character
follows that cannot belong to them.
-/

namespace Lexeme

theorem startsWord_of_digit {c : Char} (digit : c.isDigit = true) : startsWord c = false := by
  have bounds : 48 ≤ c.toNat ∧ c.toNat ≤ 57 := by
    simpa [Char.isDigit, UInt32.le_iff_toNat_le] using digit
  have letter : c.isAlpha = false := by
    have ranges : c.isAlpha = (decide (65 ≤ c.toNat ∧ c.toNat ≤ 90) ||
        decide (97 ≤ c.toNat) && decide (c.toNat ≤ 122)) := rfl
    rw [ranges]
    simp only [Bool.or_eq_false_iff, Bool.and_eq_false_iff, decide_eq_false_iff_not]
    omega
  have line : c ≠ '_' := by
    rintro rfl
    revert bounds
    decide
  have ascii : c.toNat < 128 := by omega
  simp [startsWord, Text.isLetter, ascii, letter, line]

theorem not_digit_of_startsWord {c : Char} (starts : startsWord c = true) : c.isDigit = false := by
  cases digit : c.isDigit with
  | false => rfl
  | true =>
      rw [startsWord_of_digit digit] at starts
      cases starts

theorem ne_of_startsWord {c d : Char} (starts : startsWord c = true)
    (other : startsWord d = false) : c ≠ d := by
  rintro rfl
  rw [starts] at other
  cases other

theorem not_spacing_of_startsWord {c : Char} (starts : startsWord c = true) :
    isSpacing c = false := by
  have blank := ne_of_startsWord starts (d := ' ') (by decide)
  have tab := ne_of_startsWord starts (d := '\t') (by decide)
  have carriage := ne_of_startsWord starts (d := '\r') (by decide)
  have feed := ne_of_startsWord starts (d := '\x0c') (by decide)
  simp [isSpacing, blank, tab, carriage, feed]

theorem afterIgnored_cons {c : Char} (cs : List Char) (spacing : isSpacing c = false)
    (slash : c ≠ '/') : afterIgnored (c :: cs) = c :: cs := by
  unfold afterIgnored
  rw [List.dropWhile_cons_of_neg (by rw [spacing]; decide)]
  split
  · simp_all
  · rfl

theorem afterIgnored_blank (cs : List Char) : afterIgnored (' ' :: cs) = afterIgnored cs := by
  unfold afterIgnored
  rw [List.dropWhile_cons_of_pos (by decide)]

/-- Whether the spelling is that of a word. -/
def isWord : List Char → Bool
  | [] => false
  | c :: cs => startsWord c && cs.all continuesWord

/-- The text does not start with a character of the class. -/
def Ends (belongs : Char → Bool) (rest : List Char) : Prop :=
  ∀ c ∈ rest.head?, belongs c = false

theorem ends_cons {belongs : Char → Bool} {c : Char} (other : belongs c = false)
    (rest : List Char) : Ends belongs (c :: rest) := by
  intro d first
  cases first
  exact other

/-- A run of characters of a class is taken as a whole where the class ends. -/
theorem run_append {belongs : Char → Bool} {run rest : List Char}
    (all : ∀ c ∈ run, belongs c = true) (ends : Ends belongs rest) :
    (run ++ rest).takeWhile belongs = run ∧ (run ++ rest).dropWhile belongs = rest := by
  rw [List.takeWhile_append_of_pos all, List.dropWhile_append_of_pos all]
  cases rest with
  | nil => simp
  | cons c others =>
      have other : ¬ belongs c = true := by
        rw [ends c rfl]
        decide
      rw [List.takeWhile_cons_of_neg other, List.dropWhile_cons_of_neg other]
      simp

/-- A character that is a mark by itself, whatever follows it. -/
structure IsMark (c : Char) (kind : Token.Kind) : Prop where
  mark : markKind? c = some kind
  digit : c.isDigit = false
  word : startsWord c = false
  spacing : isSpacing c = false
  other : c ≠ '"' ∧ c ≠ '.' ∧ c ≠ '/'

instance (c : Char) (kind : Token.Kind) : Decidable (IsMark c kind) :=
  decidable_of_iff
    (markKind? c = some kind ∧ c.isDigit = false ∧ startsWord c = false ∧ isSpacing c = false ∧
      (c ≠ '"' ∧ c ≠ '.' ∧ c ≠ '/'))
    ⟨fun ⟨mark, digit, word, spacing, other⟩ => ⟨mark, digit, word, spacing, other⟩,
      fun ⟨mark, digit, word, spacing, other⟩ => ⟨mark, digit, word, spacing, other⟩⟩

theorem first_mark {c : Char} {kind : Token.Kind} (isMark : IsMark c kind) (rest : List Char) :
    first c rest = ⟨.token kind, [c], rest⟩ := by
  unfold first
  simp [isMark.digit, isMark.word, isMark.other.1, isMark.other.2.1, isMark.mark]

theorem markKind?_ne_string {c : Char} {kind : Token.Kind} (mark : markKind? c = some kind) :
    Shape.token kind ≠ .token .string := by
  intro same
  cases same
  exact (markKind?_plain mark).2.1 rfl

end Lexeme

namespace Scanner

/-- Whatever line it starts on, the text is scanned as a token of the class with the given text,
and the rest is left. -/
def Scans (text : List Char) (kind : Token.Kind) (word : String) (rest : List Char) : Prop :=
  ∀ line, ∃ first last, scan ⟨text, line⟩ = (.ok ⟨kind, word, first⟩, ⟨rest, last⟩)

theorem scans_of_first {text cs : List Char} {c : Char} {kind : Token.Kind} {lexeme : Lexeme}
    (ignored : Lexeme.afterIgnored text = c :: cs) (first : Lexeme.first c cs = lexeme)
    (shape : lexeme.shape = .token kind) : Scans text kind lexeme.text lexeme.rest := by
  intro line
  refine ⟨line, line + lexeme.spelling.count '\n', ?_⟩
  simp only [scan, ignored, first, Lexeme.outcome, shape]

theorem Scans.blank {text rest : List Char} {kind : Token.Kind} {word : String}
    (scans : Scans text kind word rest) : Scans (' ' :: text) kind word rest := by
  intro line
  rcases scans line with ⟨first, last, scanned⟩
  refine ⟨first, last, ?_⟩
  unfold scan at scanned ⊢
  rw [Lexeme.afterIgnored_blank]
  exact scanned

theorem scans_end : Scans [] .endOfFile "" [] :=
  fun line => ⟨line, line, rfl⟩

theorem scans_mark (c : Char) (kind : Token.Kind) (isMark : Lexeme.IsMark c kind)
    (rest : List Char) : Scans (c :: rest) kind (String.ofList [c]) rest := by
  have ignored := Lexeme.afterIgnored_cons rest isMark.spacing isMark.other.2.2
  have scans := scans_of_first ignored (Lexeme.first_mark isMark rest) rfl
  unfold Lexeme.text at scans
  rw [if_neg (Lexeme.markKind?_ne_string isMark.mark)] at scans
  exact scans

/-- A slash before a blank starts no comment. -/
theorem scans_slash (rest : List Char) :
    Scans ('/' :: ' ' :: rest) .binaryOperator "/" (' ' :: rest) := by
  have first : Lexeme.first '/' (' ' :: rest) =
      ⟨.token .binaryOperator, ['/'], ' ' :: rest⟩ := rfl
  exact scans_of_first rfl first rfl

theorem scans_word {word : String} {rest : List Char}
    (spelled : ∃ c cs, word.toList = c :: cs ∧ Lexeme.startsWord c = true ∧
      ∀ d ∈ cs, Lexeme.continuesWord d = true)
    (ends : Lexeme.Ends Lexeme.continuesWord rest) :
    Scans (word.toList ++ rest) (Token.kindOfWord word) word rest := by
  rcases spelled with ⟨c, cs, characters, starts, continues⟩
  have all : ∀ d ∈ c :: cs, Lexeme.continuesWord d = true :=
    List.forall_mem_cons.mpr ⟨Lexeme.startsWord_continues starts, continues⟩
  have run := Lexeme.run_append all ends
  have whole : String.ofList (c :: cs) = word := by
    rw [← characters, String.ofList_toList]
  have first : Lexeme.first c (cs ++ rest) = ⟨.token (Token.kindOfWord word), c :: cs, rest⟩ := by
    have notDigit := Lexeme.not_digit_of_startsWord starts
    simp only [Lexeme.first, notDigit, starts, if_true, Lexeme.word, Bool.false_eq_true, if_false]
    rw [← List.cons_append, run.1, run.2, whole]
  have ignored : Lexeme.afterIgnored (word.toList ++ rest) = c :: (cs ++ rest) := by
    rw [characters]
    exact Lexeme.afterIgnored_cons _ (Lexeme.not_spacing_of_startsWord starts)
      (Lexeme.ne_of_startsWord starts (by decide))
  have scans := scans_of_first ignored first rfl
  have notString : ¬ Lexeme.Shape.token (Token.kindOfWord word) = .token .string := by
    rcases Lexeme.kindOfWord_cases word with found | found | found | found | found <;>
      rw [found] <;> decide
  unfold Lexeme.text at scans
  rw [if_neg notString, whole] at scans
  exact scans

/-- A word that can be checked by evaluation. -/
theorem scans_reserved {word : String} {rest : List Char}
    (spelled : Lexeme.isWord word.toList = true) (ends : Lexeme.Ends Lexeme.continuesWord rest) :
    Scans (word.toList ++ rest) (Token.kindOfWord word) word rest := by
  refine scans_word ?_ ends
  cases characters : word.toList with
  | nil =>
      rw [characters] at spelled
      cases spelled
  | cons c cs =>
      rw [characters, Lexeme.isWord, Bool.and_eq_true, List.all_eq_true] at spelled
      exact ⟨c, cs, rfl, spelled⟩

theorem scans_name {name : String} {rest : List Char} (isName : Token.IsName name)
    (ends : Lexeme.Ends Lexeme.continuesWord rest) :
    Scans (name.toList ++ rest) .identifier name rest := by
  rw [← isName.free]
  exact scans_word isName.word ends

theorem isDigit_ne {c d : Char} (digit : c.isDigit = true) (other : d.isDigit = false) : c ≠ d := by
  rintro rfl
  rw [digit] at other
  cases other

/-- A run of digits and points that starts with a digit. -/
theorem scans_numeral {run rest : List Char} (first : ∃ c cs, run = c :: cs ∧ c.isDigit = true)
    (all : ∀ c ∈ run, Lexeme.isNumeral c = true) (ends : Lexeme.Ends Lexeme.isNumeral rest) :
    Scans (run ++ rest) (if run.count '.' < 2 then .number else .range) (String.ofList run)
      rest := by
  rcases first with ⟨c, cs, rfl, digit⟩
  have taken := Lexeme.run_append all ends
  have lexeme : Lexeme.first c (cs ++ rest) =
      ⟨.token (if (c :: cs).count '.' < 2 then .number else .range), c :: cs, rest⟩ := by
    simp only [Lexeme.first, digit, if_true, Lexeme.numeral]
    rw [← List.cons_append, taken.1, taken.2]
  have spacing : Lexeme.isSpacing c = false := by
    have blank := isDigit_ne digit (d := ' ') rfl
    have tab := isDigit_ne digit (d := '\t') rfl
    have carriage := isDigit_ne digit (d := '\r') rfl
    have feed := isDigit_ne digit (d := '\x0c') rfl
    simp [Lexeme.isSpacing, blank, tab, carriage, feed]
  have ignored := Lexeme.afterIgnored_cons (cs ++ rest) spacing (isDigit_ne digit rfl)
  have scans := scans_of_first ignored lexeme rfl
  have notString :
      ¬ Lexeme.Shape.token (if (c :: cs).count '.' < 2 then Token.Kind.number else .range) =
        .token .string := by
    split <;> decide
  unfold Lexeme.text at scans
  rw [if_neg notString] at scans
  exact scans

theorem isNumeral_of_digit {c : Char} (digit : c.isDigit = true) : Lexeme.isNumeral c = true := by
  unfold Lexeme.isNumeral
  rw [digit]
  rfl

theorem count_point_of_digits {digits : List Char} (all : ∀ c ∈ digits, c.isDigit = true) :
    digits.count '.' = 0 := by
  apply List.count_eq_zero.mpr
  intro member
  exact isDigit_ne (all '.' member) rfl rfl

theorem starts_of_digits {digits : List Char} (nonempty : digits ≠ [])
    (all : ∀ c ∈ digits, c.isDigit = true) (rest : List Char) :
    ∃ c cs, digits ++ rest = c :: cs ∧ c.isDigit = true := by
  cases digits with
  | nil => exact absurd rfl nonempty
  | cons c cs => exact ⟨c, cs ++ rest, rfl, all c List.mem_cons_self⟩

theorem scans_number {numeral rest : List Char} (isNumeral : Token.IsNumeral numeral)
    (ends : Lexeme.Ends Lexeme.isNumeral rest) :
    Scans (numeral ++ rest) .number (String.ofList numeral) rest := by
  cases isNumeral with
  | whole nonempty all =>
      have scans := scans_numeral (by simpa using starts_of_digits nonempty all [])
        (fun c member => isNumeral_of_digit (all c member)) ends
      rw [count_point_of_digits all] at scans
      exact scans
  | @pointed digits fraction nonempty all allAfter =>
      have characters : ∀ c ∈ digits ++ '.' :: fraction, Lexeme.isNumeral c = true := by
        intro c member
        rcases List.mem_append.mp member with digit | later
        · exact isNumeral_of_digit (all c digit)
        · rcases List.mem_cons.mp later with rfl | digit
          · rfl
          · exact isNumeral_of_digit (allAfter c digit)
      have scans := scans_numeral (starts_of_digits nonempty all _) characters ends
      rw [List.count_append, List.count_cons_self, count_point_of_digits all,
        count_point_of_digits allAfter] at scans
      exact scans

/-- Digits with two points behind them. -/
theorem scans_bound {digits rest : List Char} (nonempty : digits ≠ [])
    (all : ∀ c ∈ digits, c.isDigit = true) (ends : Lexeme.Ends Lexeme.isNumeral rest) :
    Scans (digits ++ '.' :: '.' :: rest) .range (String.ofList (digits ++ ['.', '.'])) rest := by
  have characters : ∀ c ∈ digits ++ ['.', '.'], Lexeme.isNumeral c = true := by
    intro c member
    rcases List.mem_append.mp member with digit | point
    · exact isNumeral_of_digit (all c digit)
    · simp only [List.mem_cons, List.not_mem_nil, or_false, or_self] at point
      rw [point]
      rfl
  have scans := scans_numeral (starts_of_digits nonempty all _) characters ends
  rw [List.count_append, count_point_of_digits all, List.append_assoc] at scans
  exact scans

theorem scans_points {rest : List Char} (ends : Lexeme.Ends (· = '.') rest) :
    Scans ('.' :: '.' :: rest) .range ".." rest := by
  have points : ∀ c ∈ ['.'], (decide (c = '.')) = true := by
    intro c member
    exact decide_eq_true (List.mem_singleton.mp member)
  have run := Lexeme.run_append points ends
  have first : Lexeme.first '.' ('.' :: rest) = ⟨.token .range, ['.', '.'], rest⟩ := by
    change Lexeme.points (['.'] ++ rest) = _
    unfold Lexeme.points
    rw [run.1, run.2]
    rfl
  exact scans_of_first rfl first rfl

theorem scans_dot {rest : List Char} (ends : Lexeme.Ends (· = '.') rest) :
    Scans ('.' :: rest) .dot "." rest := by
  have none : ∀ c ∈ ([] : List Char), decide (c = '.') = true := List.forall_mem_nil _
  have run := Lexeme.run_append none ends
  have first : Lexeme.first '.' rest = ⟨.token .dot, ['.'], rest⟩ := by
    change Lexeme.points ([] ++ rest) = _
    unfold Lexeme.points
    rw [run.1, run.2]
    rfl
  exact scans_of_first (by cases rest <;> rfl) first rfl

theorem scans_quoted {s : String} (plain : '"' ∉ s.toList) (rest : List Char) :
    Scans ('"' :: (s.toList ++ '"' :: rest)) .string s rest := by
  have body : ∀ c ∈ s.toList, decide (c ≠ '"') = true := by
    intro c member
    apply decide_eq_true
    rintro rfl
    exact plain member
  have ends : Lexeme.Ends (· ≠ '"') ('"' :: rest) := Lexeme.ends_cons rfl rest
  have run := Lexeme.run_append body ends
  have first : Lexeme.first '"' (s.toList ++ '"' :: rest) =
      ⟨.token .string, '"' :: s.toList ++ ['"'], rest⟩ := by
    change Lexeme.quoted (s.toList ++ '"' :: rest) = _
    unfold Lexeme.quoted
    rw [run.1, run.2]
  have ignored : Lexeme.afterIgnored ('"' :: (s.toList ++ '"' :: rest)) =
      '"' :: (s.toList ++ '"' :: rest) := Lexeme.afterIgnored_cons _ rfl (by decide)
  have scans := scans_of_first ignored first rfl
  have text : String.ofList ('"' :: s.toList ++ ['"']).tail.dropLast = s := by
    rw [List.cons_append, List.tail_cons, List.dropLast_concat, String.ofList_toList]
  unfold Lexeme.text at scans
  rw [if_pos rfl, text] at scans
  exact scans

end Scanner

end Scriptlet
