import Scriptlet.Number.Decimal
import Scriptlet.Proofs.Doubles
import Scriptlet.Proofs.Numerals

namespace Scriptlet
namespace Number

/-!
# Numbers written and read back

The text of a finite number that is not negative is a numeral, and the numeral reads back as
the same number.  The text of a whole number has no point, and its digits have that number
for a value.
-/

/-! ## Digits -/

theorem decimalValue_eq_ofDigitChars (digits : List Char) :
    decimalValue digits = Nat.ofDigitChars 10 digits 0 :=
  decimalValue_eq_foldl digits

theorem decimalValue_toDigits (n : Nat) : decimalValue (Nat.toDigits 10 n) = n := by
  rw [decimalValue_eq_ofDigitChars, Nat.ofDigitChars_ten_toDigits]

theorem decimalValue_append_zeros (digits : List Char) (zeros : Nat) :
    decimalValue (digits ++ List.replicate zeros '0') = decimalValue digits * tenTo zeros := by
  rw [decimalValue_eq_ofDigitChars, decimalValue_eq_ofDigitChars, Nat.ofDigitChars_append,
    Nat.ofDigitChars_replicate_zero, Nat.mul_comm]
  rfl

theorem decimalValue_zeros_append (zeros : Nat) (digits : List Char) :
    decimalValue (List.replicate zeros '0' ++ digits) = decimalValue digits := by
  rw [decimalValue_eq_ofDigitChars, decimalValue_eq_ofDigitChars, Nat.ofDigitChars_append,
    Nat.ofDigitChars_replicate_zero, Nat.mul_zero]

theorem isDigit_toDigits {n : Nat} {c : Char} (member : c ∈ Nat.toDigits 10 n) :
    c.isDigit = true :=
  Nat.isDigit_of_mem_toDigits (by decide) (by decide) member

theorem isDigit_replicate_zero {zeros : Nat} {c : Char} (member : c ∈ List.replicate zeros '0') :
    c.isDigit = true := by
  rw [List.eq_of_mem_replicate member]
  rfl

theorem isDigit_toDigits_zeros {n zeros : Nat} {c : Char}
    (member : c ∈ Nat.toDigits 10 n ++ List.replicate zeros '0') : c.isDigit = true := by
  rcases List.mem_append.mp member with digit | zero
  · exact isDigit_toDigits digit
  · exact isDigit_replicate_zero zero

theorem tenTo_pos (n : Nat) : 0 < tenTo n :=
  Nat.pow_pos (by decide)

theorem tenTo_zero : tenTo 0 = 1 :=
  rfl

theorem tenTo_eq_mul (n : Nat) : tenTo n = fiveTo n * twoTo n :=
  Nat.mul_pow 5 2 n

theorem tenTo_add (m n : Nat) : tenTo (m + n) = tenTo m * tenTo n :=
  Nat.pow_add 10 m n

namespace Decimal

/-! ## Positional notation -/

/-- What is left out of the digits after the point is zeros. -/
theorem withoutTrailingZeros_append (digits : List Char) :
    ∃ zeros, digits = withoutTrailingZeros digits ++ List.replicate zeros '0' := by
  have zeros : digits.reverse.takeWhile (· = '0') =
      List.replicate (digits.reverse.takeWhile (· = '0')).length '0' := by
    apply List.eq_replicate_of_mem
    intro c member
    simpa using List.mem_takeWhile_imp member
  refine ⟨(digits.reverse.takeWhile (· = '0')).length, ?_⟩
  have split := congrArg List.reverse
    (List.takeWhile_append_dropWhile (p := (· = '0')) (l := digits.reverse))
  rw [List.reverse_append, List.reverse_reverse, zeros, List.reverse_replicate] at split
  exact split.symm

theorem positional_of_nonneg {d : Decimal} (nonneg : 0 ≤ d.exponent) :
    d.positional = Nat.toDigits 10 d.digits ++ List.replicate d.exponent.toNat '0' := by
  simp only [positional, nonneg, if_true]

/-- Below the units, positional notation is digits around a point or digits alone, whose value
has lost some zeros at the end. -/
theorem positional_of_neg {d : Decimal} (negative : ¬ 0 ≤ d.exponent) :
    ∃ whole fraction zeros, whole ≠ [] ∧ (∀ c ∈ whole ++ fraction, c.isDigit = true) ∧
      fraction.length + zeros = (-d.exponent).toNat ∧
      decimalValue (whole ++ fraction) * tenTo zeros = d.digits ∧
      d.positional = if fraction.isEmpty then whole else whole ++ '.' :: fraction := by
  simp only [positional, if_neg negative]
  generalize (-d.exponent).toNat = places
  generalize padding : List.replicate (places + 1 - (Nat.toDigits 10 d.digits).length) '0' ++
    Nat.toDigits 10 d.digits = padded
  have value : decimalValue padded = d.digits := by
    rw [← padding, decimalValue_zeros_append, decimalValue_toDigits]
  have digits : ∀ c ∈ padded, c.isDigit = true := by
    intro c member
    rw [← padding] at member
    rcases List.mem_append.mp member with zero | digit
    · exact isDigit_replicate_zero zero
    · exact isDigit_toDigits digit
  have long : places + 1 ≤ padded.length := by
    rw [← padding, List.length_append, List.length_replicate]
    omega
  rcases withoutTrailingZeros_append (padded.drop (padded.length - places)) with ⟨zeros, split⟩
  have joined := List.take_append_drop (padded.length - places) padded
  refine ⟨padded.take (padded.length - places),
    withoutTrailingZeros (padded.drop (padded.length - places)), zeros, ?_, ?_, ?_, ?_, rfl⟩
  · intro none
    have lengths := congrArg List.length none
    rw [List.length_take, List.length_nil] at lengths
    omega
  · intro c member
    apply digits
    rw [← joined, split, ← List.append_assoc]
    exact List.mem_append_left _ member
  · have lengths := congrArg List.length split
    rw [List.length_drop, List.length_append, List.length_replicate] at lengths
    omega
  · rw [← decimalValue_append_zeros, List.append_assoc, ← split, joined, value]

/-- Positional notation is a numeral, and it reads as the decimal it was made of. -/
theorem positional_reads (d : Decimal) :
    Token.IsNumeral d.positional ∧
      read? d.positional = some (ofDecimal false d.digits d.exponent) := by
  by_cases nonneg : 0 ≤ d.exponent
  · rw [positional_of_nonneg nonneg]
    have nonempty : Nat.toDigits 10 d.digits ++ List.replicate d.exponent.toNat '0' ≠ [] :=
      List.append_ne_nil_of_left_ne_nil Nat.toDigits_ne_nil _
    have digits : ∀ c ∈ Nat.toDigits 10 d.digits ++ List.replicate d.exponent.toNat '0',
        c.isDigit = true := fun c member => isDigit_toDigits_zeros member
    refine ⟨.whole nonempty digits, ?_⟩
    rw [read?_whole nonempty digits]
    have down : (-d.exponent).toNat = 0 := by omega
    have none : (0 - (([] : List Char).length : Int)).toNat = 0 := rfl
    have alsoNone : (-(0 - (([] : List Char).length : Int))).toNat = 0 := rfl
    unfold ofDigits ofDecimal
    rw [List.append_nil, decimalValue_append_zeros, decimalValue_toDigits, down, none, alsoNone,
      tenTo_zero, Nat.mul_one]
  · rcases positional_of_neg nonneg with
      ⟨whole, fraction, zeros, nonempty, digits, lengths, value, form⟩
    have wholeDigits : ∀ c ∈ whole, c.isDigit = true :=
      fun c member => digits c (List.mem_append_left _ member)
    have fractionDigits : ∀ c ∈ fraction, c.isDigit = true :=
      fun c member => digits c (List.mem_append_right _ member)
    have up : d.exponent.toNat = 0 := by omega
    have same : ofDigits false whole fraction 0 = ofDecimal false d.digits d.exponent := by
      have none : (0 - (fraction.length : Int)).toNat = 0 := by omega
      have length : (-(0 - (fraction.length : Int))).toNat = fraction.length := by omega
      unfold ofDigits ofDecimal nearest
      rw [none, length, up, ← lengths, ← value]
      congr 1
      apply nearestMagnitude_congr (tenTo_pos _) (tenTo_pos _)
      rw [tenTo_add, tenTo_zero]
      ring
    rw [form]
    cases fraction with
    | nil =>
        refine ⟨.whole nonempty wholeDigits, ?_⟩
        rw [← same]
        exact read?_whole nonempty wholeDigits
    | cons c rest =>
        refine ⟨.pointed nonempty wholeDigits fractionDigits, ?_⟩
        rw [← same]
        exact read?_pointed nonempty wholeDigits fractionDigits

/-! ## The shortest decimal -/

theorem ofDecimal_of_readsBack {magnitude : Nat} {d : Decimal}
    (back : d.readsBack magnitude = true) :
    ofDecimal false d.digits d.exponent = ofMagnitude false magnitude := by
  have same := of_decide_eq_true back
  unfold ofDecimal nearest
  rw [same]

theorem onGrid?_readsBack {magnitude numerator denominator : Nat} {grid : Int} {d : Decimal}
    (found : onGrid? magnitude numerator denominator grid = some d) :
    d.readsBack magnitude = true ∧ d.exponent = grid := by
  unfold onGrid? at found
  dsimp only at found
  split at found
  · split at found <;> cases found <;> exact ⟨‹_›, rfl⟩
  · cases found
    exact ⟨‹_›, rfl⟩
  · cases found
    exact ⟨‹_›, rfl⟩
  · cases found

theorem exact_readsBack {magnitude : Nat} (finite : magnitude < infiniteMagnitude) :
    (exact (significandOf magnitude) (unitOf magnitude)).readsBack magnitude = true := by
  apply decide_eq_true
  have value := nearestMagnitude_exact finite
  generalize significandOf magnitude = significand at *
  generalize unitOf magnitude = unit at *
  unfold exact
  split
  · have down : (-unit).toNat = 0 := by omega
    have none : (0 : Int).toNat = 0 := rfl
    have alsoNone : (-(0 : Int)).toNat = 0 := rfl
    rw [down] at value
    rw [none, alsoNone, tenTo_zero, Nat.mul_one]
    exact value
  · have up : unit.toNat = 0 := by omega
    rw [← value, up]
    apply nearestMagnitude_congr (tenTo_pos _) (twoTo_pos _)
    rw [tenTo_zero, tenTo_eq_mul, Nat.mul_one, Nat.mul_assoc]
    exact congrArg (· * _) (Nat.mul_one significand).symm

theorem shortest_readsBack {magnitude : Nat} (finite : magnitude < infiniteMagnitude) :
    (shortest magnitude (significandOf magnitude) (unitOf magnitude)).readsBack magnitude =
      true := by
  unfold shortest
  dsimp only
  generalize search : (List.range 17).findSome? _ = found
  cases found with
  | none => exact exact_readsBack finite
  | some d =>
      rcases List.exists_of_findSome?_eq_some search with ⟨count, _, grid⟩
      exact (onGrid?_readsBack grid).1

/-- A search in ascending order stops no later than at a number that is found. -/
theorem findSome?_range {f : Nat → Option Decimal} {limit k : Nat} (below : k < limit)
    (found : f k ≠ none) :
    ∃ first d, first ≤ k ∧ f first = some d ∧ (List.range limit).findSome? f = some d := by
  induction limit with
  | zero => omega
  | succ limit inductionHypothesis =>
      rw [List.range_succ, List.findSome?_append]
      by_cases earlier : k < limit
      · rcases inductionHypothesis earlier with ⟨first, d, bound, here, search⟩
        refine ⟨first, d, bound, here, ?_⟩
        rw [search]
        rfl
      · have last : k = limit := by omega
        subst last
        cases search : (List.range k).findSome? f with
        | some d =>
            rcases List.exists_of_findSome?_eq_some search with ⟨first, member, here⟩
            exact ⟨first, d, (List.mem_range.mp member).le, here, rfl⟩
        | none =>
            rcases Option.ne_none_iff_exists'.mp found with ⟨d, here⟩
            refine ⟨k, d, le_rfl, here, ?_⟩
            simp [here]

/-- On the grid of the units a whole number reads back as it stands. -/
theorem onGrid?_units {n denominator : Nat} (positive : 0 < denominator) :
    onGrid? (nearestMagnitude n 1) (n * denominator) denominator 0 ≠ none := by
  have none : (0 : Int).toNat = 0 := rfl
  have alsoNone : (-(0 : Int)).toNat = 0 := rfl
  have back : readsBack (nearestMagnitude n 1) ⟨n, 0⟩ = true := by
    apply decide_eq_true
    rw [none, alsoNone, tenTo_zero, Nat.mul_one]
  unfold onGrid?
  simp only [none, alsoNone, tenTo_zero, Nat.mul_one, Nat.mul_div_cancel _ positive, back]
  cases readsBack (nearestMagnitude n 1) ⟨n + 1, 0⟩ <;> exact Option.some_ne_none _

/-- The digits of a whole number end at the units, if not earlier. -/
theorem shortest_whole {n : Nat} (positive : 0 < n) (bound : n ≤ largestWhole) :
    0 ≤ (shortest (nearestMagnitude n 1) (significandOf (nearestMagnitude n 1))
      (unitOf (nearestMagnitude n 1))).exponent := by
  rcases parts_whole positive bound with ⟨significand, unit⟩
  have short := log2_le_of_whole positive bound
  have up : ((Nat.log2 n : Int) - 52).toNat = 0 := by omega
  have down : (-((Nat.log2 n : Int) - 52)).toNat = 52 - Nat.log2 n := by omega
  unfold shortest
  dsimp only
  rw [significand, unit, up, down]
  have one : twoTo 0 = 1 := rfl
  rw [one, Nat.mul_one]
  have denominatorPos := twoTo_pos (52 - Nat.log2 n)
  generalize twoTo (52 - Nat.log2 n) = denominator at *
  have places : scale (n * denominator) denominator = (Nat.toDigits 10 n).length := by
    have large : denominator ≤ n * denominator := Nat.le_mul_of_pos_left _ positive
    unfold scale
    rw [if_pos large, Nat.mul_div_cancel _ denominatorPos]
  have atLeast : 0 < (Nat.toDigits 10 n).length := Nat.length_toDigits_pos
  have atMost : (Nat.toDigits 10 n).length ≤ 16 := by
    rw [Nat.length_toDigits_le_iff (by decide) (by decide)]
    exact lt_of_le_of_lt bound (by decide)
  rw [places]
  generalize (Nat.toDigits 10 n).length = length at *
  have below : length - 1 < 17 := by omega
  have units : onGrid? (nearestMagnitude n 1) (n * denominator) denominator
      ((length : Int) - (((length - 1 : Nat) : Int) + 1)) ≠ none := by
    have grid : (length : Int) - (((length - 1 : Nat) : Int) + 1) = 0 := by omega
    rw [grid]
    exact onGrid?_units denominatorPos
  rcases findSome?_range
      (f := fun count => onGrid? (nearestMagnitude n 1) (n * denominator) denominator
        ((length : Int) - ((count : Int) + 1)))
      below units with ⟨first, d, earlier, here, search⟩
  rw [search]
  have grid := (onGrid?_readsBack here).2
  change 0 ≤ d.exponent
  omega

end Decimal

/-! ## Spellings -/

theorem significandOf_eq_zero_iff (magnitude : Nat) :
    significandOf magnitude = 0 ↔ magnitude = 0 := by
  unfold significandOf fractions
  split <;> omega

theorem spelling_ofMagnitude {magnitude : Nat} (finite : magnitude < infiniteMagnitude) :
    spelling (ofMagnitude false magnitude) =
      if magnitude = 0 then ['0']
      else
        (Decimal.shortest magnitude (significandOf magnitude) (unitOf magnitude)).positional := by
  have bits := toBits_ofMagnitude false finite.le
  have small : magnitude % signWeight = magnitude := by
    apply Nat.mod_eq_of_lt
    unfold infiniteMagnitude fractions at finite
    unfold signWeight
    omega
  simp only [Bool.false_eq_true, if_false] at bits
  unfold spelling
  simp only [parts_ofMagnitude false finite, bits, small, significandOf_eq_zero_iff, signed,
    Bool.false_eq_true, if_false]

/-- The text of a finite number that is not negative is a numeral that reads back. -/
theorem spelling_reads {magnitude : Nat} (finite : magnitude < infiniteMagnitude) :
    Token.IsNumeral (spelling (ofMagnitude false magnitude)) ∧
      read? (spelling (ofMagnitude false magnitude)) = some (ofMagnitude false magnitude) := by
  rw [spelling_ofMagnitude finite]
  by_cases zero : magnitude = 0
  · subst zero
    have reads := Decimal.positional_reads ⟨0, 0⟩
    unfold ofDecimal nearest at reads
    rw [Nat.zero_mul, nearestMagnitude_zero] at reads
    exact reads
  · rw [if_neg zero]
    have reads :=
      (Decimal.shortest magnitude (significandOf magnitude) (unitOf magnitude)).positional_reads
    rw [Decimal.ofDecimal_of_readsBack (Decimal.shortest_readsBack finite)] at reads
    exact reads

theorem ofInt_natCast (n : Nat) : ofInt n = ofMagnitude false (nearestMagnitude n 1) := by
  have nonneg : decide ((n : Int) < 0) = false := by simp
  unfold ofInt nearest
  rw [nonneg, Int.natAbs_natCast]

/-- The text of a whole number is its digits. -/
theorem spelling_whole {n : Nat} (bound : n ≤ largestWhole) :
    spelling (ofInt n) ≠ [] ∧ (∀ c ∈ spelling (ofInt n), c.isDigit = true) ∧
      decimalValue (spelling (ofInt n)) = n := by
  have finite : nearestMagnitude n 1 < infiniteMagnitude := by
    have small := nearestMagnitude_lt_of_whole bound
    unfold infiniteMagnitude
    unfold fractions at *
    omega
  rw [ofInt_natCast, spelling_ofMagnitude finite]
  rcases Nat.eq_zero_or_pos n with rfl | positive
  · rw [nearestMagnitude_zero, if_pos rfl, ← Nat.toDigits_zero 10]
    exact ⟨Nat.toDigits_ne_nil, fun c member => isDigit_toDigits member, decimalValue_toDigits 0⟩
  · have back := of_decide_eq_true (Decimal.shortest_readsBack finite)
    have nonneg := Decimal.shortest_whole positive bound
    have nonzero : nearestMagnitude n 1 ≠ 0 := by
      intro zero
      rw [← nearestMagnitude_zero 1] at zero
      have same := nearestMagnitude_whole_inj (Nat.zero_le _) zero
      omega
    rw [if_neg nonzero]
    generalize Decimal.shortest (nearestMagnitude n 1) (significandOf (nearestMagnitude n 1))
      (unitOf (nearestMagnitude n 1)) = d at *
    rw [Decimal.positional_of_nonneg nonneg]
    refine ⟨List.append_ne_nil_of_left_ne_nil Nat.toDigits_ne_nil _, ?_, ?_⟩
    · exact fun c member => isDigit_toDigits_zeros member
    · have down : (-d.exponent).toNat = 0 := by omega
      rw [down, tenTo_zero] at back
      rw [decimalValue_append_zeros, decimalValue_toDigits]
      exact nearestMagnitude_whole_inj bound back

end Number
end Scriptlet
