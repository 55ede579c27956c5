import Mathlib
import Scriptlet.Number.Whole

namespace Scriptlet
namespace Number

open Float.Model UnpackedFloat

/-!
# Doubles and the values they stand for

The bits of a double say which value it stands for, and a double made from bits has those
bits.  Rounding to the nearest double depends on the ratio alone, not on how it is written,
and takes the value of a double back to that double.
-/

/-! ## Bits -/

theorem toNat_unpackMantissa (b : BitVec 64) :
    (@unpackMantissa .binary64 b).toNat = b.toNat % fractions := by
  simp [unpackMantissa, fractions]

theorem toNat_unpackExponent (b : BitVec 64) :
    (@unpackExponent .binary64 b).toNat = b.toNat / fractions % 2048 := by
  simp [unpackExponent, fractions, Nat.shiftRight_eq_div_pow]

/-- A double made from bits has those bits, unless they are among the many that say that the
number is undefined. -/
theorem toBits_ofBits {bits : UInt64} (defined : bits.toNat / fractions % 2048 = 2047 →
    bits.toNat % fractions = 0) : (Float.ofBits bits).toBits = bits := by
  have number : @isNaNBits .binary64 bits.toBitVec = false := by
    apply decide_eq_false
    rintro ⟨top, undefined⟩
    apply undefined
    apply BitVec.eq_of_toNat_eq
    rw [toNat_unpackMantissa]
    apply defined
    have field := toNat_unpackExponent bits.toBitVec
    rw [top] at field
    exact field.symm
  have packed := @pack_unpack .binary64 bits.toBitVec
  rw [number, if_neg Bool.false_ne_true] at packed
  change UInt64.ofBitVec (pack .binary64 (unpack .binary64 bits.toBitVec)) = bits
  rw [packed (by decide)]

/-! ## Magnitudes -/

/-- The integer that a finite double is a multiple of its unit by. -/
def significandOf (magnitude : Nat) : Nat :=
  if magnitude < fractions then magnitude else fractions + magnitude % fractions

/-- The exponent of the unit in the last place. -/
def unitOf (magnitude : Nat) : Int :=
  if magnitude < fractions then -1074 else ((magnitude / fractions : Nat) : Int) - 1075

theorem toBits_ofMagnitude (negative : Bool) {magnitude : Nat}
    (bound : magnitude ≤ infiniteMagnitude) :
    (ofMagnitude negative magnitude).toBits.toNat =
      if negative then signWeight + magnitude else magnitude := by
  unfold infiniteMagnitude fractions at bound
  unfold ofMagnitude
  generalize weight : (if negative then signWeight + magnitude else magnitude) = word
  have small : word < 2 ^ 64 := by
    unfold signWeight at weight
    split at weight <;> omega
  have bits : (UInt64.ofNat word).toNat = word := UInt64.toNat_ofNat_of_lt' small
  rw [toBits_ofBits]
  · exact bits
  · rw [bits]
    unfold signWeight at weight
    unfold fractions
    split at weight <;> omega

theorem parts_ofMagnitude (negative : Bool) {magnitude : Nat}
    (finite : magnitude < infiniteMagnitude) :
    parts (ofMagnitude negative magnitude) =
      .finite negative (significandOf magnitude) (unitOf magnitude) := by
  have bits := toBits_ofMagnitude negative finite.le
  unfold parts
  generalize (ofMagnitude negative magnitude).toBits.toNat = word at bits
  unfold infiniteMagnitude at finite
  have sign : decide (signWeight ≤ word) = negative := by
    cases negative with
    | false =>
        apply decide_eq_false
        simp only [Bool.false_eq_true, if_false] at bits
        unfold signWeight
        unfold fractions at finite
        omega
    | true =>
        apply decide_eq_true
        simp only [if_true] at bits
        omega
  have exponent : word / fractions % 2048 = magnitude / fractions := by
    cases negative <;> simp [signWeight, fractions] at bits finite ⊢ <;> omega
  have fraction : word % fractions = magnitude % fractions := by
    cases negative <;> simp [signWeight, fractions] at bits finite ⊢ <;> omega
  have notTop : ¬ magnitude / fractions = 2047 := by
    unfold fractions at finite ⊢
    omega
  have small : magnitude / fractions = 0 ↔ magnitude < fractions := by
    unfold fractions
    omega
  simp only [sign, exponent, fraction, if_neg notTop, small, significandOf, unitOf]
  split
  · rw [Nat.mod_eq_of_lt ‹_›]
  · rfl

theorem parts_infinity (negative : Bool) :
    parts (ofMagnitude negative infiniteMagnitude) = .infinite negative := by
  have bits := toBits_ofMagnitude negative (le_refl infiniteMagnitude)
  unfold parts
  rw [bits]
  cases negative <;> decide

/-! ## Rounding -/

theorem roundedQuotient_scale (numerator denominator : Nat) {factor : Nat}
    (positive : 0 < factor) :
    roundedQuotient (numerator * factor) (denominator * factor) =
      roundedQuotient numerator denominator := by
  have left : 2 * (numerator % denominator * factor) < denominator * factor ↔
      2 * (numerator % denominator) < denominator := by
    rw [← Nat.mul_assoc]
    exact Nat.mul_lt_mul_right positive
  have right : denominator * factor < 2 * (numerator % denominator * factor) ↔
      denominator < 2 * (numerator % denominator) := by
    rw [← Nat.mul_assoc]
    exact Nat.mul_lt_mul_right positive
  unfold roundedQuotient
  simp only [Nat.mul_div_mul_right _ _ positive, Nat.mul_mod_mul_right, left, right]

theorem roundedQuotient_multiple (quotient : Nat) {denominator : Nat}
    (positive : 0 < denominator) :
    roundedQuotient (quotient * denominator) denominator = quotient := by
  simp [roundedQuotient, positive]

theorem twoTo_pos (n : Nat) : 0 < twoTo n :=
  Nat.two_pow_pos n

/-- A power of two as the ratio that computations write it by. -/
theorem zpow_eq_ratio (exponent : Int) :
    (2 : ℚ) ^ exponent = (twoTo exponent.toNat : ℚ) / twoTo (-exponent).toNat := by
  have split : (exponent.toNat : Int) - ((-exponent).toNat : Int) = exponent := by omega
  calc (2 : ℚ) ^ exponent
      = 2 ^ ((exponent.toNat : Int) - ((-exponent).toNat : Int)) := by rw [split]
    _ = (2 : ℚ) ^ exponent.toNat / 2 ^ (-exponent).toNat := by
        rw [zpow_sub₀ two_ne_zero, zpow_natCast, zpow_natCast]
    _ = (twoTo exponent.toNat : ℚ) / twoTo (-exponent).toNat := by
        simp [twoTo]

/-- What a significand stands for, as the ratio that computations write it by. -/
theorem scaled_eq_ratio (significand : Nat) (exponent : Int) :
    (significand : ℚ) * 2 ^ exponent =
      ((significand * twoTo exponent.toNat : Nat) : ℚ) / (twoTo (-exponent).toNat : Nat) := by
  rw [zpow_eq_ratio, Nat.cast_mul, mul_div_assoc]

theorem ratio_lt_zpow_iff (numerator : Nat) {denominator : Nat} (positive : 0 < denominator)
    (exponent : Int) :
    numerator * twoTo (-exponent).toNat < denominator * twoTo exponent.toNat ↔
      (numerator : ℚ) / denominator < 2 ^ exponent := by
  have denominatorPos : (0 : ℚ) < denominator := by exact_mod_cast positive
  have scalePos : (0 : ℚ) < twoTo (-exponent).toNat := by exact_mod_cast twoTo_pos _
  rw [zpow_eq_ratio, div_lt_div_iff₀ denominatorPos scalePos, mul_comm (twoTo exponent.toNat : ℚ)]
  exact_mod_cast Iff.rfl

theorem ratio_pos {numerator denominator : Nat} (numeratorPos : 0 < numerator)
    (denominatorPos : 0 < denominator) : (0 : ℚ) < (numerator : ℚ) / denominator := by
  have above : (0 : ℚ) < numerator := by exact_mod_cast numeratorPos
  have below : (0 : ℚ) < denominator := by exact_mod_cast denominatorPos
  exact div_pos above below

theorem zpow_log2_le {n : Nat} (positive : 0 < n) : (2 : ℚ) ^ (Nat.log2 n : Int) ≤ n := by
  rw [zpow_natCast]
  exact_mod_cast Nat.log2_self_le positive.ne'

theorem lt_zpow_log2_succ (n : Nat) : (n : ℚ) < 2 ^ ((Nat.log2 n : Int) + 1) := by
  have bound : n < 2 ^ (Nat.log2 n + 1) := Nat.lt_log2_self
  have cast : ((Nat.log2 n : Int) + 1) = ((Nat.log2 n + 1 : Nat) : Int) := by push_cast; rfl
  rw [cast, zpow_natCast]
  exact_mod_cast bound

theorem binaryExponent_eq_log {numerator denominator : Nat} (numeratorPos : 0 < numerator)
    (denominatorPos : 0 < denominator) :
    binaryExponent numerator denominator = Int.log 2 ((numerator : ℚ) / denominator) := by
  have ratioPos := ratio_pos numeratorPos denominatorPos
  have below : (0 : ℚ) < denominator := by exact_mod_cast denominatorPos
  generalize estimate : (Nat.log2 numerator : Int) - Nat.log2 denominator = e
  have upper : (numerator : ℚ) / denominator < 2 ^ (e + 1) := by
    rw [div_lt_iff₀ below]
    calc (numerator : ℚ) < 2 ^ ((Nat.log2 numerator : Int) + 1) := lt_zpow_log2_succ numerator
      _ = 2 ^ (e + 1) * 2 ^ (Nat.log2 denominator : Int) := by
          rw [← zpow_add₀ two_ne_zero]
          congr 1
          omega
      _ ≤ 2 ^ (e + 1) * denominator :=
          mul_le_mul_of_nonneg_left (zpow_log2_le denominatorPos) (zpow_nonneg two_pos.le _)
  have lower : (2 : ℚ) ^ (e - 1) ≤ (numerator : ℚ) / denominator := by
    rw [le_div_iff₀ below]
    calc (2 : ℚ) ^ (e - 1) * denominator
        ≤ 2 ^ (e - 1) * 2 ^ ((Nat.log2 denominator : Int) + 1) :=
          mul_le_mul_of_nonneg_left (lt_zpow_log2_succ denominator).le (zpow_nonneg two_pos.le _)
      _ = 2 ^ (Nat.log2 numerator : Int) := by
          rw [← zpow_add₀ two_ne_zero]
          congr 1
          omega
      _ ≤ numerator := zpow_log2_le numeratorPos
  have atMost := (Int.lt_zpow_iff_log_lt one_lt_two ratioPos).mp upper
  have atLeast := (Int.zpow_le_iff_le_log one_lt_two ratioPos).mp lower
  unfold binaryExponent
  simp only [ratio_lt_zpow_iff numerator denominatorPos, estimate]
  split
  · have less := (Int.lt_zpow_iff_log_lt one_lt_two ratioPos).mp ‹_›
    omega
  · have least := (Int.zpow_le_iff_le_log one_lt_two ratioPos).mp (not_lt.mp ‹_›)
    omega

theorem nearestMagnitude_zero (denominator : Nat) : nearestMagnitude 0 denominator = 0 :=
  if_pos rfl

/-- Rounding depends on the ratio alone. -/
theorem nearestMagnitude_congr {a b c d : Nat} (bPos : 0 < b) (dPos : 0 < d)
    (same : a * d = c * b) : nearestMagnitude a b = nearestMagnitude c d := by
  rcases Nat.eq_zero_or_pos a with rfl | aPos
  · have cZero : c = 0 := by
      have product : c * b = 0 := by rw [← same, Nat.zero_mul]
      exact (Nat.mul_eq_zero.mp product).resolve_right bPos.ne'
    rw [cZero, nearestMagnitude_zero, nearestMagnitude_zero]
  have cPos : 0 < c := by
    apply Nat.pos_of_ne_zero
    rintro rfl
    have product : 0 < a * d := Nat.mul_pos aPos dPos
    omega
  have exponents : binaryExponent a b = binaryExponent c d := by
    rw [binaryExponent_eq_log aPos bPos, binaryExponent_eq_log cPos dPos]
    congr 1
    have bNonzero : (b : ℚ) ≠ 0 := by exact_mod_cast bPos.ne'
    have dNonzero : (d : ℚ) ≠ 0 := by exact_mod_cast dPos.ne'
    rw [div_eq_div_iff bNonzero dNonzero]
    exact_mod_cast same
  have quotients (x y : Nat) :
      roundedQuotient (a * x) (b * y) = roundedQuotient (c * x) (d * y) := by
    calc roundedQuotient (a * x) (b * y)
        = roundedQuotient (a * x * d) (b * y * d) := (roundedQuotient_scale _ _ dPos).symm
      _ = roundedQuotient (c * x * b) (d * y * b) := by
          congr 1
          · rw [Nat.mul_right_comm, same, Nat.mul_right_comm]
          · rw [Nat.mul_right_comm, Nat.mul_comm b d, Nat.mul_right_comm]
      _ = roundedQuotient (c * x) (d * y) := roundedQuotient_scale _ _ bPos
  unfold nearestMagnitude
  simp only [aPos.ne', cPos.ne', if_false, exponents, quotients]

/-- A significand together with a unit that it does not waste. -/
structure Normal (significand : Nat) (unit : Int) : Prop where
  positive : 0 < significand
  below : significand < 2 * fractions
  least : -1074 ≤ unit
  full : fractions ≤ significand ∨ unit = -1074

theorem log2_lt_of_lt {n : Nat} (positive : 0 < n) (bound : n < 2 * fractions) :
    Nat.log2 n < 53 :=
  (Nat.log2_lt positive.ne').mpr bound

theorem binaryExponent_scaled {significand : Nat} (positive : 0 < significand) (unit : Int) :
    binaryExponent (significand * twoTo unit.toNat) (twoTo (-unit).toNat) =
      Nat.log2 significand + unit := by
  have numeratorPos := Nat.mul_pos positive (twoTo_pos unit.toNat)
  have ratioPos := ratio_pos numeratorPos (twoTo_pos (-unit).toNat)
  have unitPos : (0 : ℚ) < 2 ^ unit := zpow_pos two_pos _
  rw [binaryExponent_eq_log numeratorPos (twoTo_pos _)]
  rw [← scaled_eq_ratio] at ratioPos ⊢
  have lower : (2 : ℚ) ^ ((Nat.log2 significand : Int) + unit) ≤ significand * 2 ^ unit := by
    rw [zpow_add₀ two_ne_zero]
    exact mul_le_mul_of_nonneg_right (zpow_log2_le positive) unitPos.le
  have upper : significand * (2 : ℚ) ^ unit < 2 ^ ((Nat.log2 significand : Int) + unit + 1) := by
    rw [add_right_comm, zpow_add₀ two_ne_zero]
    exact mul_lt_mul_of_pos_right (lt_zpow_log2_succ significand) unitPos
  have atLeast := (Int.zpow_le_iff_le_log one_lt_two ratioPos).mp lower
  have atMost := (Int.lt_zpow_iff_log_lt one_lt_two ratioPos).mp upper
  omega

/-- Rounding a multiple of its own unit changes nothing. -/
theorem nearestMagnitude_scaled {significand : Nat} {unit : Int}
    (normal : Normal significand unit) :
    nearestMagnitude (significand * twoTo unit.toNat) (twoTo (-unit).toNat) =
      min (if significand < fractions then significand
        else (unit + 1075).toNat * fractions + (significand - fractions)) infiniteMagnitude := by
  have numeratorPos := Nat.mul_pos normal.positive (twoTo_pos unit.toNat)
  have exponent := binaryExponent_scaled normal.positive unit
  have short := log2_lt_of_lt normal.positive normal.below
  have units : max (binaryExponent (significand * twoTo unit.toNat) (twoTo (-unit).toNat) - 52)
      (-1074) = unit := by
    rw [exponent]
    rcases normal.full with full | least
    · have long : 52 ≤ Nat.log2 significand := (Nat.le_log2 normal.positive.ne').mpr full
      have bound := normal.least
      omega
    · omega
  have quotient : roundedQuotient (significand * twoTo unit.toNat * twoTo (-unit).toNat)
      (twoTo (-unit).toNat * twoTo unit.toNat) = significand := by
    rw [Nat.mul_assoc, Nat.mul_comm (twoTo (-unit).toNat)]
    exact roundedQuotient_multiple _ (Nat.mul_pos (twoTo_pos _) (twoTo_pos _))
  unfold nearestMagnitude
  simp only [numeratorPos.ne', if_false, units, quotient]

theorem normal_of_finite {magnitude : Nat} (positive : 0 < magnitude) :
    Normal (significandOf magnitude) (unitOf magnitude) := by
  unfold significandOf unitOf
  by_cases small : magnitude < fractions
  · simp only [small, if_true]
    refine ⟨positive, ?_, le_rfl, Or.inr rfl⟩
    omega
  · simp only [small, if_false]
    have fraction : magnitude % fractions < fractions := Nat.mod_lt _ (by decide)
    have exponent : 0 < magnitude / fractions := Nat.div_pos (not_lt.mp small) (by decide)
    refine ⟨?_, ?_, ?_, Or.inl (Nat.le_add_right _ _)⟩
    · omega
    · omega
    · omega

/-- The value of a finite double rounds to that double. -/
theorem nearestMagnitude_exact {magnitude : Nat} (finite : magnitude < infiniteMagnitude) :
    nearestMagnitude (significandOf magnitude * twoTo (unitOf magnitude).toNat)
      (twoTo (-unitOf magnitude).toNat) = magnitude := by
  rcases Nat.eq_zero_or_pos magnitude with rfl | positive
  · have zero : significandOf 0 = 0 := rfl
    rw [zero, Nat.zero_mul, nearestMagnitude_zero]
  rw [nearestMagnitude_scaled (normal_of_finite positive)]
  unfold significandOf unitOf
  by_cases small : magnitude < fractions
  · simp only [small, if_true]
    exact Nat.min_eq_left finite.le
  · have fields := Nat.div_add_mod magnitude fractions
    have large : ¬ fractions + magnitude % fractions < fractions := by omega
    have exponent : (((magnitude / fractions : Nat) : Int) - 1075 + 1075).toNat =
        magnitude / fractions := by
      rw [Int.sub_add_cancel, Int.toNat_natCast]
    simp only [small, if_false, large, exponent]
    rw [Nat.add_sub_cancel_left, Nat.mul_comm, fields]
    exact Nat.min_eq_left finite.le

/-! ## Whole numbers -/

theorem log2_le_of_whole {n : Nat} (positive : 0 < n) (bound : n ≤ largestWhole) :
    Nat.log2 n ≤ 52 := by
  have below : n < 2 ^ 53 := Nat.lt_succ_of_le bound
  have short := (Nat.log2_lt positive.ne').mpr below
  omega

/-- A whole number that is shifted up takes the full width of a significand. -/
theorem fractions_le_of_whole {n : Nat} (positive : 0 < n) (bound : n ≤ largestWhole) :
    fractions ≤ n * twoTo (52 - Nat.log2 n) := by
  have short := log2_le_of_whole positive bound
  calc fractions = 2 ^ (Nat.log2 n + (52 - Nat.log2 n)) := by
        rw [Nat.add_sub_cancel' short]
        rfl
    _ = 2 ^ Nat.log2 n * twoTo (52 - Nat.log2 n) := Nat.pow_add 2 _ _
    _ ≤ n * twoTo (52 - Nat.log2 n) := Nat.mul_le_mul_right _ (Nat.log2_self_le positive.ne')

theorem normal_of_whole {n : Nat} (positive : 0 < n) (bound : n ≤ largestWhole) :
    Normal (n * twoTo (52 - Nat.log2 n)) ((Nat.log2 n : Int) - 52) := by
  have short := log2_le_of_whole positive bound
  have shiftPos := twoTo_pos (52 - Nat.log2 n)
  refine ⟨Nat.mul_pos positive shiftPos, ?_, ?_, Or.inl (fractions_le_of_whole positive bound)⟩
  · calc n * twoTo (52 - Nat.log2 n)
        < 2 ^ (Nat.log2 n + 1) * twoTo (52 - Nat.log2 n) :=
          Nat.mul_lt_mul_of_pos_right Nat.lt_log2_self shiftPos
      _ = 2 ^ (Nat.log2 n + 1 + (52 - Nat.log2 n)) := (Nat.pow_add 2 _ _).symm
      _ = 2 ^ 53 := by
          congr 1
          omega
      _ = 2 * fractions := rfl
  · omega

theorem nearestMagnitude_whole {n : Nat} (positive : 0 < n) (bound : n ≤ largestWhole) :
    nearestMagnitude n 1 = (Nat.log2 n + 1022) * fractions + n * twoTo (52 - Nat.log2 n) := by
  have short := log2_le_of_whole positive bound
  have normal := normal_of_whole positive bound
  have up : ((Nat.log2 n : Int) - 52).toNat = 0 := by omega
  have down : (-((Nat.log2 n : Int) - 52)).toNat = 52 - Nat.log2 n := by omega
  have field : ((Nat.log2 n : Int) - 52 + 1075).toNat = Nat.log2 n + 1023 := by omega
  have full := fractions_le_of_whole positive bound
  have below := normal.below
  have scaled := nearestMagnitude_scaled normal
  rw [up, down, field, if_neg (not_lt.mpr full)] at scaled
  have same : n * twoTo (52 - Nat.log2 n) = n * twoTo (52 - Nat.log2 n) * twoTo 0 * 1 := by
    rw [Nat.mul_one]
    exact (Nat.mul_one _).symm
  rw [nearestMagnitude_congr Nat.one_pos (twoTo_pos (52 - Nat.log2 n)) same, scaled]
  clear same scaled normal
  generalize n * twoTo (52 - Nat.log2 n) = significand at *
  unfold infiniteMagnitude
  unfold fractions at *
  omega

/-- The parts of a whole number are what it was shifted to and by. -/
theorem parts_whole {n : Nat} (positive : 0 < n) (bound : n ≤ largestWhole) :
    significandOf (nearestMagnitude n 1) = n * twoTo (52 - Nat.log2 n) ∧
      unitOf (nearestMagnitude n 1) = (Nat.log2 n : Int) - 52 := by
  have normal := normal_of_whole positive bound
  have short := log2_le_of_whole positive bound
  have full := fractions_le_of_whole positive bound
  have below := normal.below
  rw [nearestMagnitude_whole positive bound]
  unfold significandOf unitOf
  generalize n * twoTo (52 - Nat.log2 n) = significand at *
  unfold fractions at *
  constructor
  · split <;> omega
  · split <;> omega

theorem nearestMagnitude_lt_of_whole {n : Nat} (bound : n ≤ largestWhole) :
    nearestMagnitude n 1 < 1076 * fractions := by
  rcases Nat.eq_zero_or_pos n with rfl | positive
  · rw [nearestMagnitude_zero]
    decide
  · have below := (normal_of_whole positive bound).below
    have short := log2_le_of_whole positive bound
    rw [nearestMagnitude_whole positive bound]
    unfold fractions at *
    omega

theorem le_nearestMagnitude_of_large {n : Nat} (large : largestWhole < n) :
    1076 * fractions ≤ nearestMagnitude n 1 := by
  have positive : 0 < n := by omega
  have long : 53 ≤ Nat.log2 n := (Nat.le_log2 positive.ne').mpr large
  have exponent : binaryExponent n 1 = Nat.log2 n := by
    have scaled := binaryExponent_scaled positive 0
    rw [Int.add_zero] at scaled
    rw [← scaled]
    exact congrArg (binaryExponent · 1) (Nat.mul_one n).symm
  have unit : max (binaryExponent n 1 - 52) (-1074) = (Nat.log2 n : Int) - 52 := by
    rw [exponent]
    omega
  have down : (-((Nat.log2 n : Int) - 52)).toNat = 0 := by omega
  have up : ((Nat.log2 n : Int) - 52).toNat = Nat.log2 n - 52 := by omega
  have field : ((Nat.log2 n : Int) - 52 + 1075).toNat = Nat.log2 n + 1023 := by omega
  have full : fractions ≤ roundedQuotient (n * twoTo 0) (1 * twoTo (Nat.log2 n - 52)) := by
    have quotient : fractions ≤ n * twoTo 0 / (1 * twoTo (Nat.log2 n - 52)) := by
      rw [Nat.one_mul, Nat.le_div_iff_mul_le (twoTo_pos _)]
      calc fractions * twoTo (Nat.log2 n - 52)
          = 2 ^ (52 + (Nat.log2 n - 52)) := (Nat.pow_add 2 52 (Nat.log2 n - 52)).symm
        _ = 2 ^ Nat.log2 n := by
            congr 1
            omega
        _ ≤ n := Nat.log2_self_le positive.ne'
        _ = n * twoTo 0 := (Nat.mul_one n).symm
    unfold roundedQuotient
    dsimp only
    split_ifs <;> omega
  unfold nearestMagnitude
  simp only [positive.ne', if_false, unit, down, up, field, if_neg (not_lt.mpr full)]
  generalize roundedQuotient (n * twoTo 0) (1 * twoTo (Nat.log2 n - 52)) = significand at *
  clear exponent unit down up field
  unfold infiniteMagnitude
  unfold fractions at *
  omega

theorem nearestMagnitude_whole_ne_zero {n : Nat} (positive : 0 < n) (bound : n ≤ largestWhole) :
    nearestMagnitude n 1 ≠ 0 := by
  have width := Nat.mul_pos positive (twoTo_pos (52 - Nat.log2 n))
  rw [nearestMagnitude_whole positive bound]
  omega

/-- No other whole number shares the double of one that doubles hold exactly. -/
theorem nearestMagnitude_whole_inj {m n : Nat} (bound : n ≤ largestWhole)
    (same : nearestMagnitude m 1 = nearestMagnitude n 1) : m = n := by
  have small := nearestMagnitude_lt_of_whole bound
  have mBound : m ≤ largestWhole := by
    by_contra large
    have big := le_nearestMagnitude_of_large (not_le.mp large)
    omega
  rcases Nat.eq_zero_or_pos m with rfl | mPos
  · rcases Nat.eq_zero_or_pos n with rfl | nPos
    · rfl
    · rw [nearestMagnitude_zero] at same
      exact absurd same.symm (nearestMagnitude_whole_ne_zero nPos bound)
  rcases Nat.eq_zero_or_pos n with rfl | nPos
  · rw [nearestMagnitude_zero] at same
    exact absurd same (nearestMagnitude_whole_ne_zero mPos mBound)
  have mParts := parts_whole mPos mBound
  have nParts := parts_whole nPos bound
  rw [same] at mParts
  have lengths : Nat.log2 m = Nat.log2 n := by
    have units := mParts.2.symm.trans nParts.2
    omega
  have significands := mParts.1.symm.trans nParts.1
  rw [lengths] at significands
  exact Nat.eq_of_mul_eq_mul_right (twoTo_pos _) significands

end Number
end Scriptlet
