import Scriptlet.Proofs.Spelling

namespace Scriptlet
namespace Number

open Float.Model UnpackedFloat

/-!
# Every double reads back

A double is undefined, or it has a sign and a magnitude.  Reading settles the magnitude before it
looks at the sign, so what holds of numerals without a sign holds behind a sign as well.  Every
double, negative, infinite and undefined ones included, is therefore read back from its text, and
no two doubles have one text.
-/

/-! ## Doubles by their bits -/

theorem toBits_inj {x y : Float} (same : x.toBits.toNat = y.toBits.toNat) : x = y := by
  rcases x with ⟨⟨bits, _⟩⟩
  rcases y with ⟨⟨others, _⟩⟩
  have equal : bits = others := UInt64.toNat_inj.mp same
  subst equal
  rfl

/-- There is one undefined double: of the many bits that say so only one pattern is kept. -/
theorem eq_undefined {x : Float} (top : x.toBits.toNat / fractions % 2048 = 2047)
    (fraction : x.toBits.toNat % fractions ≠ 0) : x = undefined := by
  have kept := x.toModel.valid.eq_packedNaN
  have exponent : @unpackExponent .binary64 x.toModel.toBits.toBitVec =
      -BitVec.ofNat Format.binary64.exponentBits 1 := by
    apply BitVec.eq_of_toNat_eq
    rw [toNat_unpackExponent]
    exact top
  have mantissa : @unpackMantissa .binary64 x.toModel.toBits.toBitVec ≠
      BitVec.ofNat Format.binary64.mantissaBitsWithoutImplicit 0 := by
    intro none
    have field := congrArg BitVec.toNat none
    rw [toNat_unpackMantissa] at field
    exact fraction field
  apply toBits_inj
  have bits : x.toBits.toNat = (packedNaN .binary64).toNat :=
    congrArg BitVec.toNat (kept exponent mantissa)
  rw [bits]
  decide +kernel

/-- A double that is not undefined has a sign and a magnitude. -/
theorem double_cases (x : Float) :
    x = undefined ∨ ∃ negative magnitude, magnitude ≤ infiniteMagnitude ∧
      x = ofMagnitude negative magnitude := by
  by_cases none : x.toBits.toNat / fractions % 2048 = 2047 ∧ x.toBits.toNat % fractions ≠ 0
  · exact Or.inl (eq_undefined none.1 none.2)
  · have small : x.toBits.toNat < 2 ^ 64 := x.toBits.toNat_lt
    have bound : x.toBits.toNat % signWeight ≤ infiniteMagnitude := by
      unfold infiniteMagnitude
      unfold fractions at none ⊢
      unfold signWeight
      omega
    refine Or.inr ⟨decide (signWeight ≤ x.toBits.toNat), x.toBits.toNat % signWeight, bound, ?_⟩
    apply toBits_inj
    rw [toBits_ofMagnitude _ bound]
    unfold signWeight
    split
    · have high := of_decide_eq_true ‹_›
      omega
    · have low := of_decide_eq_false (Bool.eq_false_iff.mpr ‹_›)
      omega

theorem parts_undefined : parts undefined = .undefined := by
  have bits : undefined.toBits.toNat = 0x7FF8000000000000 := by decide +kernel
  unfold parts
  rw [bits]
  decide

/-! ## Numerals behind a sign -/

theorem ofDigits_signs (refused : Prop) [Decidable refused] (whole fraction rest : List Char) :
    ∃ magnitude? : Option Nat, (∀ magnitude ∈ magnitude?, magnitude ≤ infiniteMagnitude) ∧
      ∀ negative, (if refused then none
          else (exponent? rest).map (ofDigits negative whole fraction)) =
        magnitude?.map (ofMagnitude negative) := by
  by_cases empty : refused
  · refine ⟨none, fun _ member => absurd member (Option.not_mem_none _), fun negative => ?_⟩
    rw [if_pos empty]
    rfl
  · simp only [if_neg empty]
    cases exponent? rest with
    | none => exact ⟨none, fun _ member => absurd member (Option.not_mem_none _), fun _ => rfl⟩
    | some exponent =>
        refine ⟨some (nearestMagnitude _ _), ?_, fun negative => rfl⟩
        intro magnitude member
        rw [← Option.mem_some.mp member]
        exact nearestMagnitude_le _ _

/-- The sign of a numeral goes to a magnitude that does not depend on it. -/
theorem unsigned?_signs (cs : List Char) :
    ∃ magnitude? : Option Nat, (∀ magnitude ∈ magnitude?, magnitude ≤ infiniteMagnitude) ∧
      ∀ negative, unsigned? negative cs = magnitude?.map (ofMagnitude negative) :=
  ofDigits_signs _ _ _ _

theorem unsigned?_isNumeral {cs : List Char} (numeral : Token.IsNumeral cs) :
    unsigned? false cs = read? cs := by
  cases numeral with
  | whole nonempty all => rw [unsigned?_whole nonempty all, read?_whole nonempty all]
  | pointed nonempty all allAfter =>
      rw [unsigned?_pointed nonempty all allAfter, read?_pointed nonempty all allAfter]

/-- A sign in front of a numeral is the sign of the number that is read. -/
theorem read?_signed {cs : List Char} {magnitude : Nat} (numeral : Token.IsNumeral cs)
    (bound : magnitude ≤ infiniteMagnitude)
    (reads : read? cs = some (ofMagnitude false magnitude)) (negative : Bool) :
    read? (signed negative cs) = some (ofMagnitude negative magnitude) := by
  cases negative with
  | false => exact reads
  | true =>
      rcases unsigned?_signs cs with ⟨magnitude?, bounds, signs⟩
      have unsigned := unsigned?_isNumeral numeral
      rw [reads, signs] at unsigned
      cases magnitude? with
      | none => cases unsigned
      | some other =>
          have doubles := congrArg Float.toBits (Option.some.inj unsigned)
          have bits := congrArg UInt64.toNat doubles
          rw [toBits_ofMagnitude false (bounds other rfl), toBits_ofMagnitude false bound] at bits
          have same : other = magnitude := bits
          simp [signed, read?, signs, same]

/-! ## Texts of doubles -/

theorem spelling_signed {negative : Bool} {magnitude : Nat}
    (finite : magnitude < infiniteMagnitude) :
    spelling (ofMagnitude negative magnitude) =
      signed negative (spelling (ofMagnitude false magnitude)) := by
  have bits := toBits_ofMagnitude negative finite.le
  have plain :
      (if negative then signWeight + magnitude else magnitude) % signWeight = magnitude := by
    unfold infiniteMagnitude fractions at finite
    unfold signWeight
    split <;> omega
  rw [spelling_ofMagnitude finite]
  unfold spelling
  simp only [parts_ofMagnitude negative finite, bits, plain, significandOf_eq_zero_iff]

theorem spelling_infinity (negative : Bool) :
    spelling (ofMagnitude negative infiniteMagnitude) = signed negative ['i', 'n', 'f'] := by
  simp only [spelling, parts_infinity]

theorem spelling_undefined : spelling undefined = ['N', 'a', 'N'] := by
  simp only [spelling, parts_undefined]

/-- Every double is read back from its text. -/
theorem read?_spelling (x : Float) : read? (spelling x) = some x := by
  rcases double_cases x with rfl | ⟨negative, magnitude, bound, rfl⟩
  · rw [spelling_undefined]
    rfl
  · rcases bound.lt_or_eq with finite | rfl
    · rw [spelling_signed finite]
      rcases spelling_reads finite with ⟨numeral, reads⟩
      exact read?_signed numeral bound reads negative
    · rw [spelling_infinity]
      cases negative <;> rfl

/-- Two doubles with one text are one double. -/
theorem spelling_injective : Function.Injective spelling := by
  intro x y same
  have reads := read?_spelling x
  rw [same, read?_spelling y] at reads
  exact (Option.some.inj reads).symm

/-- The characters that texts of doubles are made of: digits and letters, the point and the
sign. -/
def isSpelled (c : Char) : Bool :=
  c.isAlphanum || c = '.' || c = '-'

theorem isSpelled_of_isNumeral {cs : List Char} (numeral : Token.IsNumeral cs) :
    ∀ c ∈ cs, isSpelled c = true := by
  have digit : ∀ {c : Char}, c.isDigit = true → isSpelled c = true := by
    intro c isDigit
    simp [isSpelled, Char.isAlphanum, isDigit]
  cases numeral with
  | whole _ all => exact fun c member => digit (all c member)
  | pointed _ all allAfter =>
      intro c member
      rcases List.mem_append.mp member with before | after
      · exact digit (all c before)
      · rcases List.mem_cons.mp after with rfl | fraction
        · rfl
        · exact digit (allAfter c fraction)

theorem isSpelled_signed {cs : List Char} (all : ∀ c ∈ cs, isSpelled c = true) (negative : Bool) :
    ∀ c ∈ signed negative cs, isSpelled c = true := by
  cases negative with
  | false => exact all
  | true =>
      intro c member
      rcases List.mem_cons.mp member with rfl | later
      · rfl
      · exact all c later

theorem isSpelled_spelling (x : Float) : ∀ c ∈ spelling x, isSpelled c = true := by
  rcases double_cases x with rfl | ⟨negative, magnitude, bound, rfl⟩
  · rw [spelling_undefined]
    exact List.all_eq_true.mp rfl
  · rcases bound.lt_or_eq with finite | rfl
    · rw [spelling_signed finite]
      exact isSpelled_signed (isSpelled_of_isNumeral (spelling_reads finite).1) negative
    · rw [spelling_infinity]
      exact isSpelled_signed (List.all_eq_true.mp rfl) negative

end Number
end Scriptlet
