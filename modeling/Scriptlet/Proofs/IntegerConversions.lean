import Scriptlet.Proofs.IntegerRanges
import Scriptlet.Proofs.MethodCalls
import Scriptlet.Proofs.SpelledDoubles

namespace Scriptlet

/-!
# Integers as doubles, and doubles as positions

No two doubles stand for one number, but for the two zeros.  An integer that has a double is
therefore found again from it, and a double from the position that it is.  The elements of a list
are reached by the doubles of the integers below their count, and the first one by the negative
zero as well.
-/

namespace Number

/-! ## Doubles that stand for one number -/

theorem exists_of_exactValue? {x : Float} {q : ℚ} (value : exactValue? x = some q) :
    ∃ negative magnitude, magnitude < infiniteMagnitude ∧ x = ofMagnitude negative magnitude := by
  rcases double_cases x with rfl | ⟨negative, magnitude, bound, rfl⟩
  · unfold exactValue? at value
    rw [parts_undefined] at value
    cases value
  · rcases bound.lt_or_eq with finite | rfl
    · exact ⟨negative, magnitude, finite, rfl⟩
    · unfold exactValue? at value
      rw [parts_infinity] at value
      cases value

/-- The number that a magnitude stands for is rounded to that magnitude, so that no other stands
for it. -/
theorem magnitude_inj {m n : Nat} (mFinite : m < infiniteMagnitude)
    (nFinite : n < infiniteMagnitude)
    (same : (significandOf m : ℚ) * 2 ^ unitOf m = significandOf n * 2 ^ unitOf n) : m = n := by
  have mUnit : ((twoTo (-unitOf m).toNat : Nat) : ℚ) ≠ 0 := by exact_mod_cast (twoTo_pos _).ne'
  have nUnit : ((twoTo (-unitOf n).toNat : Nat) : ℚ) ≠ 0 := by exact_mod_cast (twoTo_pos _).ne'
  rw [scaled_eq_ratio, scaled_eq_ratio, div_eq_div_iff mUnit nUnit] at same
  have rounded := nearestMagnitude_congr (twoTo_pos _) (twoTo_pos _) (by exact_mod_cast same)
  rwa [nearestMagnitude_exact mFinite, nearestMagnitude_exact nFinite] at rounded

theorem abs_signed (negative : Bool) {q : ℚ} (nonneg : 0 ≤ q) :
    |(if negative then -1 else 1) * q| = q := by
  cases negative <;> simp [abs_of_nonneg nonneg]

theorem eq_of_exactValue? {x y : Float} {q : ℚ} (first : exactValue? x = some q)
    (second : exactValue? y = some q) (nonzero : q ≠ 0) : x = y := by
  obtain ⟨negative, m, mFinite, rfl⟩ := exists_of_exactValue? first
  obtain ⟨other, n, nFinite, rfl⟩ := exists_of_exactValue? second
  rw [exactValue?_ofMagnitude negative mFinite, Option.some.injEq] at first
  rw [exactValue?_ofMagnitude other nFinite, Option.some.injEq] at second
  have magnitudes : m = n := by
    apply magnitude_inj mFinite nFinite
    rw [← abs_signed negative (scaled_nonneg _ _), first, ← second,
      abs_signed other (scaled_nonneg _ _)]
  subst magnitudes
  have signs := mul_right_cancel₀ (right_ne_zero_of_mul (second ▸ nonzero)) (first.trans second.symm)
  have same : negative = other := by
    have different : (1 : ℚ) ≠ -1 := by norm_num
    cases negative <;> cases other
    · rfl
    · exact absurd signs different
    · exact absurd signs.symm different
    · rfl
  rw [same]

/-- Zero has two doubles, which differ in their signs. -/
theorem eq_zero_of_exactValue? {x : Float} (value : exactValue? x = some 0) :
    ∃ negative, x = ofMagnitude negative 0 := by
  obtain ⟨negative, magnitude, finite, rfl⟩ := exists_of_exactValue? value
  rw [exactValue?_ofMagnitude negative finite, Option.some.injEq] at value
  have none : (significandOf magnitude : ℚ) * 2 ^ unitOf magnitude = 0 := by
    rw [← abs_signed negative (scaled_nonneg _ _), value, abs_zero]
  have significand := (mul_eq_zero.mp none).resolve_right (zpow_ne_zero _ two_ne_zero)
  have zero := (significandOf_eq_zero_iff magnitude).mp (Nat.cast_eq_zero.mp significand)
  exact ⟨negative, by rw [zero]⟩

theorem negativeZero_eq : (-0.0 : Float) = ofMagnitude true 0 :=
  toBits_inj (by decide +kernel)

theorem exactValue?_negativeZero : exactValue? (-0.0) = some 0 := by
  have none : significandOf 0 = 0 := rfl
  rw [negativeZero_eq, exactValue?_ofMagnitude true (by decide), none, Nat.cast_zero, zero_mul,
    mul_zero]

/-- The doubles that stand for an integer are the one that it is converted to and, for zero, the
negative zero. -/
theorem exactValue?_eq_intCast {x : Float} {n : Int} (bound : n.natAbs ≤ largestWhole) :
    exactValue? x = some (n : ℚ) ↔ x = ofInt n ∨ n = 0 ∧ x = -0.0 := by
  constructor
  · intro value
    by_cases zero : n = 0
    · subst zero
      rw [Int.cast_zero] at value
      obtain ⟨negative, rfl⟩ := eq_zero_of_exactValue? value
      cases negative with
      | false => exact Or.inl rfl
      | true => exact Or.inr ⟨rfl, negativeZero_eq.symm⟩
    · exact Or.inl (eq_of_exactValue? value (exactValue?_ofInt bound) (Int.cast_ne_zero.mpr zero))
  · rintro (rfl | ⟨rfl, rfl⟩)
    · exact exactValue?_ofInt bound
    · exact exactValue?_negativeZero

/-! ## Conversions -/

theorem ofInt?_eq_some {n : Int} {x : Float} :
    ofInt? n = some x ↔ n.natAbs ≤ largestWhole ∧ x = ofInt n := by
  unfold ofInt?
  rw [Option.ite_none_right_eq_some, Option.some.injEq, eq_comm (a := x)]

theorem ofIntOn_eq_ok {line : Nat} {n : Int} {x : Float} :
    ofIntOn line n = .ok x ↔ n.natAbs ≤ largestWhole ∧ x = ofInt n := by
  rw [← ofInt?_eq_some]
  unfold ofIntOn
  cases ofInt? n with
  | none => exact ⟨nofun, nofun⟩
  | some y => rw [Except.ok.injEq, Option.some.injEq]

theorem integerOn_ofInt {line : Nat} {n : Int} (bound : n.natAbs ≤ largestWhole) :
    integerOn line (ofInt n) = .ok n := by
  rw [integerOn, truncate_ofInt bound]

theorem indexOn_eq_ok {line n : Nat} {x : Float} :
    indexOn line x = .ok n ↔ exactValue? x = some (n : ℚ) ∧ n ≤ largestWhole := by
  rw [← index_eq_ok]
  unfold indexOn
  cases index x with
  | ok m => rw [Except.ok.injEq, Except.ok.injEq]
  | error fault => cases fault <;> exact ⟨nofun, nofun⟩

/-- The doubles that are a position. -/
theorem indexOn_eq_ok_iff {line n : Nat} {x : Float} :
    indexOn line x = .ok n ↔ n ≤ largestWhole ∧ (x = ofInt n ∨ n = 0 ∧ x = -0.0) := by
  rw [indexOn_eq_ok, and_comm]
  refine and_congr_right fun bound => ?_
  have stands := exactValue?_eq_intCast (x := x) (n := n) bound
  rw [Int.cast_natCast, Int.natCast_eq_zero] at stands
  exact stands

end Number

/-! ## Positions in a list -/

namespace ListMethod

theorem position_eq_ok {argument : Value} {line n : Nat} {heap : Heap} :
    position argument line heap = .ok n ↔ n ≤ Number.largestWhole ∧
      (argument = .number (Number.ofInt n) ∨ n = 0 ∧ argument = .number (-0.0)) := by
  cases argument with
  | number x =>
      rw [Value.number.injEq, Value.number.injEq]
      exact Number.indexOn_eq_ok_iff
  | text _ | truth _ | list _ | object _ =>
      constructor
      · intro found
        cases found
      · rintro ⟨_, same | ⟨_, same⟩⟩ <;> cases same

theorem element_eq_ok {heap after : Heap} {address line : Nat} {argument : Value}
    {result : Option Value} (admissible : heap.count address ≤ Number.largestWhole) :
    element (.list address) [argument] line heap = .ok result after ↔
      after = heap ∧ ∃ i < heap.count address, result = (heap.elements address)[i]? ∧
        (argument = .number (Number.ofInt i) ∨ i = 0 ∧ argument = .number (-0.0)) := by
  rw [element_single]
  constructor
  · intro ⟨_, elements, listed, ⟨_, i, given, placed, inside, found, same⟩, changed⟩
    cases listed
    cases given
    rw [same, update_elements] at changed
    rw [length_elements] at inside
    exact ⟨changed, i, inside, found, (position_eq_ok.mp placed).2⟩
  · intro ⟨unchanged, i, inside, found, named⟩
    refine ⟨address, _, rfl, ⟨argument, i, rfl, ?_, ?_, found, rfl⟩, ?_⟩
    · exact position_eq_ok.mpr ⟨by omega, named⟩
    · rw [length_elements]
      exact inside
    · rw [update_elements]
      exact unchanged

theorem count_of_le {heap : Heap} {address : Nat} (line : Nat)
    (admissible : heap.count address ≤ Number.largestWhole) :
    count (.list address) [] line heap =
      .ok (some (.number (Number.ofInt (heap.count address)))) heap := by
  apply Heap.read_of_ok
  change (Number.ofIntOn line (heap.count address) >>= fun total => _) = _
  rw [Heap.ofIntOn_of_le (n := heap.count address) admissible]
  rfl

end ListMethod

open Number

/-- Conversions of integers lose nothing.  An integer has a double just when its magnitude is at
most the largest whole number; the double stands for that integer, and cutting it gives the integer
back.  A length has a double on the same condition, and as a position the double is that length.
A double is a position just when it stands for a natural number in this range, and it is the double
of its position or the negative zero.  The count of a list that is not too long is its length as a
double, and elements are found for just the doubles of the integers below it and, unless the list
is empty, for the negative zero. -/
theorem integers_converted_exactly :
    (∀ (n : ℤ) (line : Nat), ((∃ x, ofInt? n = some x) ↔ n.natAbs ≤ largestWhole) ∧
      ∀ x, ofInt? n = some x → exactValue? x = some (n : ℚ) ∧ integerOn line x = .ok n) ∧
    (∀ n line : Nat, ((∃ x, ofIntOn line n = .ok x) ↔ n ≤ largestWhole) ∧
      ∀ x, ofIntOn line n = .ok x → exactValue? x = some (n : ℚ) ∧ indexOn line x = .ok n) ∧
    (∀ (x : Float) (n line : Nat),
      (indexOn line x = .ok n ↔ exactValue? x = some (n : ℚ) ∧ n ≤ largestWhole) ∧
      (indexOn line x = .ok n → ofIntOn line n = .ok x ∨ n = 0 ∧ x = -0.0)) ∧
    ∀ (heap : Heap) (address line : Nat), heap.count address ≤ largestWhole →
      ListMethod.count (.list address) [] line heap =
        .ok (some (.number (ofInt (heap.count address)))) heap ∧
      ∀ argument result after,
        ListMethod.element (.list address) [argument] line heap = .ok result after ↔
          after = heap ∧ ∃ i < heap.count address, result = (heap.elements address)[i]? ∧
            (argument = .number (ofInt i) ∨ i = 0 ∧ argument = .number (-0.0)) := by
  refine ⟨?_, ?_, ?_, ?_⟩
  · intro n line
    refine ⟨⟨fun ⟨x, converted⟩ => (ofInt?_eq_some.mp converted).1,
      fun bound => ⟨_, ofInt?_eq_some.mpr ⟨bound, rfl⟩⟩⟩, ?_⟩
    intro x converted
    obtain ⟨bound, rfl⟩ := ofInt?_eq_some.mp converted
    exact ⟨exactValue?_ofInt bound, integerOn_ofInt bound⟩
  · intro n line
    refine ⟨⟨fun ⟨x, converted⟩ => (ofIntOn_eq_ok.mp converted).1,
      fun bound => ⟨_, ofIntOn_eq_ok.mpr ⟨bound, rfl⟩⟩⟩, ?_⟩
    intro x converted
    obtain ⟨bound, rfl⟩ := ofIntOn_eq_ok.mp converted
    have placed : indexOn line (ofInt n) = .ok n := indexOn_eq_ok_iff.mpr ⟨bound, Or.inl rfl⟩
    exact ⟨(indexOn_eq_ok.mp placed).1, placed⟩
  · intro x n line
    refine ⟨indexOn_eq_ok, fun placed => ?_⟩
    obtain ⟨bound, converted⟩ := indexOn_eq_ok_iff.mp placed
    exact converted.imp_left fun same => ofIntOn_eq_ok.mpr ⟨bound, same⟩
  · intro heap address line admissible
    exact ⟨ListMethod.count_of_le line admissible,
      fun _ _ _ => ListMethod.element_eq_ok admissible⟩

/-- The largest integers of either sign come back and the least one of 64 bits has no double.  In a
list of two elements the negative zero finds the first one and the double of the count finds none. -/
theorem integers_converted_exactly_extremes :
    let heap : Heap := ⟨#[#[.text "a", .text "b"]], 0⟩
    (∃ x, ofInt? (-9007199254740991) = some x ∧ integerOn 1 x = .ok (-9007199254740991)) ∧
    (¬ ∃ x, ofInt? (-9223372036854775808) = some x) ∧
    (∃ x, ofIntOn 1 9007199254740991 = .ok x ∧ indexOn 1 x = .ok 9007199254740991) ∧
    ListMethod.count (.list 0) [] 1 heap = .ok (some (.number (ofInt 2))) heap ∧
    ListMethod.element (.list 0) [.number (-0.0)] 1 heap = .ok (some (.text "a")) heap ∧
    ListMethod.element (.list 0) [.number (ofInt 1)] 1 heap = .ok (some (.text "b")) heap ∧
    ¬ ∃ result after, ListMethod.element (.list 0) [.number (ofInt 2)] 1 heap = .ok result after := by
  intro heap
  obtain ⟨integers, lengths, positions, lists⟩ := integers_converted_exactly
  obtain ⟨least, leastConverted⟩ := (integers (-9007199254740991) 1).1.mpr (by decide)
  obtain ⟨greatest, greatestConverted⟩ := (lengths 9007199254740991 1).1.mpr (by decide)
  have beyond := mt (integers (-9223372036854775808) 1).1.mp (by decide)
  obtain ⟨counted, elements⟩ := lists heap 0 1 (by decide)
  refine ⟨⟨least, leastConverted, ((integers _ 1).2 least leastConverted).2⟩, beyond,
    ⟨greatest, greatestConverted, ((lengths _ 1).2 greatest greatestConverted).2⟩, counted,
    (elements _ _ _).mpr ⟨rfl, 0, by decide, rfl, Or.inr ⟨rfl, rfl⟩⟩,
    (elements _ _ _).mpr ⟨rfl, 1, by decide, rfl, Or.inl rfl⟩, ?_⟩
  rintro ⟨result, after, found⟩
  obtain ⟨_, i, inside, _, named⟩ := (elements _ _ _).mp found
  have small : i ≤ largestWhole := inside.le.trans (by decide)
  have placed : ListMethod.position (.number (ofInt 2)) 1 heap = .ok i :=
    ListMethod.position_eq_ok.mpr ⟨small, named⟩
  have two : ListMethod.position (.number (ofInt 2)) 1 heap = .ok 2 :=
    ListMethod.position_eq_ok.mpr ⟨by decide, Or.inl rfl⟩
  rw [two] at placed
  cases placed
  exact absurd inside (by decide)

end Scriptlet
