import Mathlib.Data.List.TakeWhile
import Scriptlet.Number.Numeral
import Scriptlet.Token.Lexer

namespace Scriptlet

/-!
# The texts that tokens can have

The class of a token limits its text: a name is a word that is not reserved, a string has no
quote in it, and a number is digits with at most one point behind the first of them.  Trees
are built from tokens that the lexer made, so these limits carry over to the names and
literals of every tree that is read.
-/

namespace Token

/-- A word that is neither an operator nor reserved nor the name of a type. -/
structure IsName (name : String) : Prop where
  word : ∃ c cs, name.toList = c :: cs ∧ Lexeme.startsWord c = true ∧
    ∀ d ∈ cs, Lexeme.continuesWord d = true
  free : kindOfWord name = .identifier

/-- Digits, and perhaps a point with digits behind it or none. -/
inductive IsNumeral : List Char → Prop
  | whole {digits : List Char} : digits ≠ [] → (∀ c ∈ digits, c.isDigit = true) → IsNumeral digits
  | pointed {digits fraction : List Char} : digits ≠ [] → (∀ c ∈ digits, c.isDigit = true) →
      (∀ c ∈ fraction, c.isDigit = true) → IsNumeral (digits ++ '.' :: fraction)

/-- What the class of a token says about its text. -/
def Lawful (token : Token) : Prop :=
  match token.kind with
  | .identifier => IsName token.text
  | .string => '"' ∉ token.text.toList
  | .number => IsNumeral token.text.toList
  | _ => True

end Token

namespace Lexeme

theorem startsWord_continues {c : Char} (starts : startsWord c = true) :
    continuesWord c = true := by
  unfold continuesWord
  rw [starts]
  rfl

/-- A run of digits and points that starts with a digit and has at most one point. -/
theorem isNumeral_of_count {cs : List Char} (digits : ∀ c ∈ cs, isNumeral c = true)
    (first : ∃ c rest, cs = c :: rest ∧ c.isDigit = true) (points : cs.count '.' < 2) :
    Token.IsNumeral cs := by
  rcases first with ⟨c, rest, rfl, isDigit⟩
  have split := List.takeWhile_append_dropWhile (p := Char.isDigit) (l := rest)
  have leading : ∀ d ∈ c :: rest.takeWhile Char.isDigit, d.isDigit = true := by
    intro d member
    rcases List.mem_cons.mp member with rfl | later
    · exact isDigit
    · exact List.mem_takeWhile_imp later
  cases tail : rest.dropWhile Char.isDigit with
  | nil =>
      rw [tail, List.append_nil] at split
      rw [← split]
      exact .whole (List.cons_ne_nil _ _) leading
  | cons d others =>
      have notDigit : d.isDigit = false := by
        have head := List.head?_dropWhile_not Char.isDigit rest
        rw [tail] at head
        simpa using head
      have isPoint : d = '.' := by
        have member : d ∈ c :: rest := by
          rw [← split, tail]
          simp
        have numeral := digits d member
        unfold isNumeral at numeral
        rw [notDigit] at numeral
        simpa using numeral
      subst isPoint
      rw [tail] at split
      rw [← split] at points digits ⊢
      have noPoint : others.count '.' = 0 := by
        simp only [← List.cons_append, List.count_append, List.count_cons_self] at points
        omega
      have fraction : ∀ d ∈ others, d.isDigit = true := by
        intro d member
        have numeral := digits d (by simp [member])
        have different : d ≠ '.' := by
          rintro rfl
          exact List.count_eq_zero.mp noPoint member
        unfold isNumeral at numeral
        simpa [different] using numeral
      exact .pointed (List.cons_ne_nil c _) leading fraction

/-- A lexeme that is a token keeps to the limits of its class. -/
def Lawful (lexeme : Lexeme) : Prop :=
  ∀ kind line, lexeme.shape = .token kind → Token.Lawful ⟨kind, lexeme.text, line⟩

theorem text_of_ne_string {lexeme : Lexeme} (other : lexeme.shape ≠ .token .string) :
    lexeme.text.toList = lexeme.spelling := by
  unfold text
  rw [if_neg other, String.toList_ofList]

theorem numeral_lawful {c : Char} (digit : c.isDigit = true) (cs : List Char) :
    (numeral (c :: cs)).Lawful := by
  have isFirst : isNumeral c = true := by
    unfold isNumeral
    rw [digit]
    rfl
  intro kind line shape
  by_cases points : ((c :: cs).takeWhile isNumeral).count '.' < 2
  · have number : (numeral (c :: cs)).shape = .token .number := by
      simp only [numeral, points, if_true]
    cases number.symm.trans shape
    change Token.IsNumeral (numeral (c :: cs)).text.toList
    rw [text_of_ne_string (by rw [number]; decide)]
    apply isNumeral_of_count
    · intro d member
      exact List.mem_takeWhile_imp member
    · refine ⟨c, cs.takeWhile isNumeral, ?_, digit⟩
      exact List.takeWhile_cons_of_pos isFirst
    · exact points
  · have range : (numeral (c :: cs)).shape = .token .range := by
      simp only [numeral, points, if_false]
    cases range.symm.trans shape
    exact trivial

theorem kindOfWord_cases (word : String) :
    Token.kindOfWord word = .unaryOperator ∨ Token.kindOfWord word = .binaryOperator ∨
      Token.kindOfWord word = .keyword ∨ Token.kindOfWord word = .typeTag ∨
      Token.kindOfWord word = .identifier := by
  unfold Token.kindOfWord
  split
  · exact Or.inl rfl
  · split
    · exact Or.inr (Or.inl rfl)
    · split
      · exact Or.inr (Or.inr (Or.inl rfl))
      · split
        · exact Or.inr (Or.inr (Or.inr (Or.inl rfl)))
        · exact Or.inr (Or.inr (Or.inr (Or.inr rfl)))

theorem word_lawful {c : Char} (starts : startsWord c = true) (cs : List Char) :
    (word (c :: cs)).Lawful := by
  intro kind line shape
  have spelled : (word (c :: cs)).spelling = c :: cs.takeWhile continuesWord :=
    List.takeWhile_cons_of_pos (startsWord_continues starts)
  have class_eq : kind = Token.kindOfWord (String.ofList (word (c :: cs)).spelling) := by
    cases shape
    rfl
  have other : (word (c :: cs)).shape ≠ .token .string := by
    rw [shape, class_eq]
    rcases kindOfWord_cases (String.ofList (word (c :: cs)).spelling) with
      found | found | found | found | found <;> rw [found] <;> decide
  have text_eq : (word (c :: cs)).text = String.ofList (word (c :: cs)).spelling := by
    unfold text
    rw [if_neg other]
  rcases kindOfWord_cases (String.ofList (word (c :: cs)).spelling) with
    found | found | found | found | found <;> rw [class_eq, found]
  · exact trivial
  · exact trivial
  · exact trivial
  · exact trivial
  · refine ⟨⟨c, cs.takeWhile continuesWord, ?_, starts, ?_⟩, ?_⟩
    · change (word (c :: cs)).text.toList = _
      rw [text_of_ne_string other, spelled]
    · intro d member
      exact List.mem_takeWhile_imp member
    · change Token.kindOfWord (word (c :: cs)).text = _
      rw [text_eq, found]

theorem quoted_text {cs : List Char} (closed : (quoted cs).shape = .token .string) :
    (quoted cs).text.toList = cs.takeWhile (· ≠ '"') := by
  unfold text
  rw [if_pos closed, String.toList_ofList]
  unfold quoted at closed ⊢
  cases tail : cs.dropWhile (· ≠ '"') with
  | nil =>
      simp only [tail] at closed
      cases closed
  | cons close rest =>
      simp only [List.cons_append, List.tail_cons, List.dropLast_concat]

theorem quoted_lawful (cs : List Char) : (quoted cs).Lawful := by
  intro kind line shape
  cases tail : cs.dropWhile (· ≠ '"') with
  | nil =>
      simp only [quoted, tail] at shape
      cases shape
  | cons close rest =>
      have closed : (quoted cs).shape = .token .string := by
        simp only [quoted, tail]
      cases closed.symm.trans shape
      change '"' ∉ (quoted cs).text.toList
      rw [quoted_text closed]
      intro member
      have kept := List.mem_takeWhile_imp member
      simp at kept

theorem markKind?_plain {c : Char} {kind : Token.Kind} (mark : markKind? c = some kind) :
    kind ≠ .identifier ∧ kind ≠ .string ∧ kind ≠ .number := by
  unfold markKind? at mark
  split at mark <;> cases mark <;> decide

theorem first_lawful (c : Char) (cs : List Char) : (first c cs).Lawful := by
  unfold first
  split
  · exact numeral_lawful ‹_› cs
  split
  · exact word_lawful ‹_› cs
  split
  · exact quoted_lawful cs
  split
  · intro kind line shape
    simp only [points, Shape.token.injEq] at shape
    split at shape <;> cases shape <;> exact trivial
  · cases mark : markKind? c with
    | none =>
        intro kind line shape
        cases shape
    | some found =>
        intro kind line shape
        cases shape
        have plain := markKind?_plain mark
        unfold Token.Lawful
        split
        · exact absurd ‹_› plain.1
        · exact absurd ‹_› plain.2.1
        · exact absurd ‹_› plain.2.2
        · exact trivial

end Lexeme

theorem Scanner.scan_lawful {scanner after : Scanner} {token : Token}
    (scanned : scanner.scan = (.ok token, after)) : token.Lawful := by
  unfold Scanner.scan at scanned
  cases rest : Lexeme.afterIgnored scanner.rest with
  | nil =>
      simp only [rest, Prod.mk.injEq, Except.ok.injEq] at scanned
      rw [← scanned.1]
      exact trivial
  | cons c cs =>
      simp only [rest, Prod.mk.injEq] at scanned
      have outcome := scanned.1
      unfold Lexeme.outcome at outcome
      cases shape : (Lexeme.first c cs).shape with
      | token kind =>
          simp only [shape, Except.ok.injEq] at outcome
          rw [← outcome]
          exact Lexeme.first_lawful c cs kind scanner.line shape
      | openString => simp only [shape, reduceCtorEq] at outcome
      | unknown => simp only [shape, reduceCtorEq] at outcome

end Scriptlet
