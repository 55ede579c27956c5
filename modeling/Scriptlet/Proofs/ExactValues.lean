import Mathlib.Data.Rat.Floor
import Scriptlet.Proofs.Doubles

namespace Scriptlet
namespace Number

/-!
# Exact values of doubles

A finite double stands for one rational number.  Cutting off its fraction, and asking whether it
has one, is done in natural numbers, on the significand; here both are compared with the floor and
the ceiling of the number itself.  The double of an integer stands for just that integer, as long
as the integer is among those that are converted at all.
-/

/-- The number that a finite double stands for. -/
def exactValue? (x : Float) : Option ℚ :=
  match parts x with
  | .finite negative significand exponent =>
      some ((if negative then -1 else 1) * (significand * 2 ^ exponent))
  | _ => none

/-- A number without its fraction: the nearest integer on the way to zero. -/
def towardZero (q : ℚ) : ℤ :=
  if q < 0 then ⌈q⌉ else ⌊q⌋

theorem towardZero_intCast (n : ℤ) : towardZero n = n := by
  unfold towardZero
  split
  · exact Int.ceil_intCast n
  · exact Int.floor_intCast n

theorem towardZero_signed (negative : Bool) {q : ℚ} (nonneg : 0 ≤ q) :
    towardZero ((if negative then -1 else 1) * q) = if negative then -⌊q⌋ else ⌊q⌋ := by
  unfold towardZero
  cases negative with
  | false =>
      simp only [Bool.false_eq_true, if_false, one_mul]
      rw [if_neg (not_lt.mpr nonneg)]
  | true =>
      simp only [if_true, neg_one_mul]
      split
      · exact Int.ceil_neg
      · have zero : q = 0 := by linarith
        rw [zero]
        simp

theorem scaled_nonneg (significand : Nat) (exponent : Int) :
    (0 : ℚ) ≤ significand * 2 ^ exponent :=
  mul_nonneg (Nat.cast_nonneg _) (zpow_nonneg two_pos.le _)

/-- The whole units of a significand are the floor of what it stands for. -/
theorem wholePart_eq_floor (significand : Nat) (exponent : Int) :
    (wholePart significand exponent : ℤ) = ⌊(significand : ℚ) * 2 ^ exponent⌋ := by
  rw [scaled_eq_ratio, Rat.floor_natCast_div_natCast]
  rfl

/-- What truncation says of a double, in terms of the number that the double stands for. -/
theorem truncate_eq (x : Float) :
    truncate x =
      match exactValue? x with
      | none => .error .notFinite
      | some q =>
          if largestWhole < (towardZero q).natAbs then .error .tooLarge
          else .ok (towardZero q) := by
  unfold truncate exactValue?
  cases parts x with
  | undefined => rfl
  | infinite negative => rfl
  | finite negative significand exponent =>
      have nonneg := scaled_nonneg significand exponent
      have cut : towardZero ((if negative then -1 else 1) * (significand * 2 ^ exponent)) =
          if negative then -(wholePart significand exponent : ℤ)
          else wholePart significand exponent := by
        rw [towardZero_signed negative nonneg, wholePart_eq_floor]
      have magnitude : (towardZero
          ((if negative then -1 else 1) * (significand * 2 ^ exponent))).natAbs =
            wholePart significand exponent := by
        rw [cut]
        split <;> omega
      dsimp only
      rw [magnitude, cut]

/-- A significand has no fraction just when it stands for its whole units. -/
theorem isWhole_iff (significand : Nat) (exponent : Int) :
    isWhole significand exponent = true ↔
      (wholePart significand exponent : ℚ) = significand * 2 ^ exponent := by
  have unitPos : (0 : ℚ) < (twoTo (-exponent).toNat : Nat) := by exact_mod_cast twoTo_pos _
  have units := Nat.div_add_mod' (significand * twoTo exponent.toNat) (twoTo (-exponent).toNat)
  rw [scaled_eq_ratio, eq_div_iff unitPos.ne', ← Nat.cast_mul, Nat.cast_inj]
  unfold isWhole wholePart
  rw [decide_eq_true_iff]
  omega

/-- What asking for a position says of a double, in terms of the number that the double stands
for. -/
theorem index_eq (x : Float) :
    index x =
      match exactValue? x with
      | none => .error .notNatural
      | some q =>
          if (⌊q⌋₊ : ℚ) ≠ q then .error .notNatural
          else if largestWhole < ⌊q⌋₊ then .error .tooLarge
          else .ok ⌊q⌋₊ := by
  unfold index exactValue?
  cases parts x with
  | undefined => rfl
  | infinite negative => rfl
  | finite negative significand exponent =>
      have nonneg := scaled_nonneg significand exponent
      have floor : ⌊(significand : ℚ) * 2 ^ exponent⌋₊ = wholePart significand exponent := by
        rw [← Int.floor_toNat, ← wholePart_eq_floor, Int.toNat_natCast]
      dsimp only
      by_cases below : negative = true ∧ significand ≠ 0
      · -- Below zero the floor among the naturals is zero, which is not the number itself.
        have positive : (0 : ℚ) < significand * 2 ^ exponent :=
          mul_pos (by exact_mod_cast Nat.pos_of_ne_zero below.2) (zpow_pos two_pos _)
        have different : ((⌊-((significand : ℚ) * 2 ^ exponent)⌋₊ : ℕ) : ℚ) ≠
            -(significand * 2 ^ exponent) := by
          rw [Nat.floor_of_nonpos (by linarith), Nat.cast_zero]
          linarith
        rw [if_pos (Or.inl below), below.1, if_pos rfl, neg_one_mul, if_pos different]
      · have value : (if negative = true then (-1 : ℚ) else 1) * (significand * 2 ^ exponent) =
            significand * 2 ^ exponent := by
          split
          · have zero := not_and_not_right.mp below ‹_›
            rw [zero, Nat.cast_zero, zero_mul, mul_zero]
          · exact one_mul _
        rw [value, floor]
        simp only [below, false_or, Bool.not_eq_true', ← Bool.not_eq_true, isWhole_iff]

/-- A double is a position when it stands for a natural number that is not too large. -/
theorem index_eq_ok {x : Float} {n : Nat} :
    index x = .ok n ↔ exactValue? x = some (n : ℚ) ∧ n ≤ largestWhole := by
  rw [index_eq]
  cases exactValue? x with
  | none =>
      constructor
      · intro found
        cases found
      · rintro ⟨value, _⟩
        cases value
  | some q =>
      dsimp only
      constructor
      · intro found
        split_ifs at found with fraction large
        cases found
        rw [not_not.mp fraction]
        exact ⟨rfl, Nat.le_of_not_lt large⟩
      · rintro ⟨value, small⟩
        cases value
        simp only [Nat.floor_natCast, ne_eq, not_true_eq_false, if_false,
          if_neg (Nat.not_lt.mpr small)]

theorem exactValue?_ofMagnitude (negative : Bool) {magnitude : Nat}
    (finite : magnitude < infiniteMagnitude) :
    exactValue? (ofMagnitude negative magnitude) =
      some ((if negative then -1 else 1) *
        ((significandOf magnitude : ℚ) * 2 ^ unitOf magnitude)) := by
  simp only [exactValue?, parts_ofMagnitude negative finite]

theorem ofInt_eq (n : Int) : ofInt n = ofMagnitude (decide (n < 0)) (nearestMagnitude n.natAbs 1) :=
  rfl

/-- The double of an integer that is converted stands for that integer. -/
theorem exactValue?_ofInt {n : Int} (bound : n.natAbs ≤ largestWhole) :
    exactValue? (ofInt n) = some (n : ℚ) := by
  have finite : nearestMagnitude n.natAbs 1 < infiniteMagnitude := by
    have small := nearestMagnitude_lt_of_whole bound
    unfold infiniteMagnitude
    unfold fractions at *
    omega
  have magnitude : (significandOf (nearestMagnitude n.natAbs 1) : ℚ) *
      2 ^ unitOf (nearestMagnitude n.natAbs 1) = n.natAbs := by
    rcases Nat.eq_zero_or_pos n.natAbs with zero | positive
    · rw [zero, nearestMagnitude_zero]
      have none : significandOf 0 = 0 := rfl
      rw [none, Nat.cast_zero, zero_mul]
    · have short := log2_le_of_whole positive bound
      rw [(parts_whole positive bound).1, (parts_whole positive bound).2, Nat.cast_mul, mul_assoc]
      have scale : ((twoTo (52 - Nat.log2 n.natAbs) : Nat) : ℚ) *
          2 ^ ((Nat.log2 n.natAbs : Int) - 52) = 1 := by
        have power : ((twoTo (52 - Nat.log2 n.natAbs) : Nat) : ℚ) =
            2 ^ (((52 - Nat.log2 n.natAbs : Nat) : Int)) := by
          rw [zpow_natCast]
          exact Nat.cast_pow 2 _
        rw [power, ← zpow_add₀ two_ne_zero]
        have level :
            ((52 - Nat.log2 n.natAbs : Nat) : Int) + ((Nat.log2 n.natAbs : Int) - 52) = 0 := by
          omega
        rw [level, zpow_zero]
      rw [scale, mul_one]
  rw [ofInt_eq, exactValue?_ofMagnitude _ finite, magnitude]
  simp only [decide_eq_true_eq]
  congr 1
  split
  · have sign : (n.natAbs : ℚ) = ((-n : ℤ) : ℚ) := by
      rw [← Int.cast_natCast, show (n.natAbs : ℤ) = -n by omega]
    rw [sign, Int.cast_neg]
    ring
  · have sign : (n.natAbs : ℚ) = (n : ℚ) := by
      rw [← Int.cast_natCast, show (n.natAbs : ℤ) = n by omega]
    rw [sign, one_mul]

/-- Cutting the double of an integer gives the integer back. -/
theorem truncate_ofInt {n : Int} (bound : n.natAbs ≤ largestWhole) :
    truncate (ofInt n) = .ok n := by
  rw [truncate_eq, exactValue?_ofInt bound]
  simp only [towardZero_intCast, if_neg (Nat.not_lt.mpr bound)]

end Number
end Scriptlet
