import Scriptlet.Proofs.LawfulTokens

namespace Scriptlet
namespace Number

/-!
# Numerals without a sign

Numerals in source text are digits with at most one point.  Reading one takes its digits as
they stand, so the result is never negative, never undefined and at most infinite.
-/

theorem nearestMagnitude_le (numerator denominator : Nat) :
    nearestMagnitude numerator denominator ≤ infiniteMagnitude := by
  unfold nearestMagnitude
  split
  · exact Nat.zero_le _
  · exact Nat.min_le_right _ _

theorem takeWhile_digits {digits : List Char} (all : ∀ c ∈ digits, c.isDigit = true) :
    digits.takeWhile Char.isDigit = digits :=
  List.takeWhile_eq_self_iff.mpr all

theorem dropWhile_digits {digits : List Char} (all : ∀ c ∈ digits, c.isDigit = true) :
    digits.dropWhile Char.isDigit = [] :=
  List.dropWhile_eq_nil_iff.mpr all

theorem takeWhile_digits_point {digits : List Char} (all : ∀ c ∈ digits, c.isDigit = true)
    (rest : List Char) : (digits ++ '.' :: rest).takeWhile Char.isDigit = digits := by
  rw [List.takeWhile_append_of_pos all, List.takeWhile_cons_of_neg (by decide), List.append_nil]

theorem dropWhile_digits_point {digits : List Char} (all : ∀ c ∈ digits, c.isDigit = true)
    (rest : List Char) : (digits ++ '.' :: rest).dropWhile Char.isDigit = '.' :: rest := by
  rw [List.dropWhile_append_of_pos all, List.dropWhile_cons_of_neg (by decide)]

theorem unsigned?_whole {digits : List Char} (nonempty : digits ≠ [])
    (all : ∀ c ∈ digits, c.isDigit = true) :
    unsigned? false digits = .some (ofDigits false digits [] 0) := by
  simp [unsigned?, takeWhile_digits all, dropWhile_digits all, exponent?, nonempty]

theorem unsigned?_pointed {digits fraction : List Char} (nonempty : digits ≠ [])
    (all : ∀ c ∈ digits, c.isDigit = true) (allAfter : ∀ c ∈ fraction, c.isDigit = true) :
    unsigned? false (digits ++ '.' :: fraction) = .some (ofDigits false digits fraction 0) := by
  simp [unsigned?, takeWhile_digits_point all, dropWhile_digits_point all,
    takeWhile_digits allAfter, dropWhile_digits allAfter, exponent?, nonempty]

/-- A numeral that starts with a digit has no sign. -/
theorem read?_of_digit {c : Char} {cs : List Char} {x : Float} (digit : c.isDigit = true)
    (unsigned : unsigned? false (c :: cs) = some x) : read? (c :: cs) = some x := by
  have notMinus : c ≠ '-' := by
    rintro rfl
    revert digit
    decide
  have notPlus : c ≠ '+' := by
    rintro rfl
    revert digit
    decide
  simp [read?, notMinus, notPlus, unsigned]

theorem read?_whole {digits : List Char} (nonempty : digits ≠ [])
    (all : ∀ c ∈ digits, c.isDigit = true) :
    read? digits = .some (ofDigits false digits [] 0) := by
  have unsigned := unsigned?_whole nonempty all
  cases digits with
  | nil => exact absurd rfl nonempty
  | cons c cs => exact read?_of_digit (all c List.mem_cons_self) unsigned

theorem read?_pointed {digits fraction : List Char} (nonempty : digits ≠ [])
    (all : ∀ c ∈ digits, c.isDigit = true) (allAfter : ∀ c ∈ fraction, c.isDigit = true) :
    read? (digits ++ '.' :: fraction) = .some (ofDigits false digits fraction 0) := by
  have unsigned := unsigned?_pointed nonempty all allAfter
  cases digits with
  | nil => exact absurd rfl nonempty
  | cons c cs => exact read?_of_digit (all c List.mem_cons_self) unsigned

/-- A numeral always reads, as a number that is not negative. -/
theorem read?_isNumeral {cs : List Char} (numeral : Token.IsNumeral cs) :
    ∃ magnitude, magnitude ≤ infiniteMagnitude ∧
      read? cs = some (ofMagnitude false magnitude) := by
  cases numeral with
  | whole nonempty all => exact ⟨_, nearestMagnitude_le _ _, read?_whole nonempty all⟩
  | pointed nonempty all allAfter =>
      exact ⟨_, nearestMagnitude_le _ _, read?_pointed nonempty all allAfter⟩

end Number
end Scriptlet
