import Scriptlet.Proofs.StructuralEquality

namespace Scriptlet

/-!
# Comparing both ways

It makes no difference which of two values is compared with the other.  For numbers this comes
down to a law of differences: if they are taken the other way round, they change in nothing but
the sign, and neither rounding nor storing a number depends on its sign.
-/

namespace Number

open Float.Model Float.Model.UnpackedFloat

variable {spec : Format}

theorem abs_round (sign other : Sign) (mantissa : Nat) (exponent : Int) :
    (UnpackedFloat.round spec sign mantissa exponent).abs =
      (UnpackedFloat.round spec other mantissa exponent).abs := by
  have forget : ∀ (m : Nat) (e : Int) (positive : ¬ m = 0 → 0 < m),
      (if none : m = 0 then zero sign else finite sign m e (positive none)).abs =
        (if none : m = 0 then zero other else finite other m e (positive none)).abs := by
    intro m e positive
    by_cases none : m = 0
    · rw [dif_pos none, dif_pos none]
      rfl
    · rw [dif_neg none, dif_neg none]
      rfl
  exact forget _ _ Nat.pos_of_ne_zero

theorem abs_normalize_neg (mantissa exponent : Int) (zeroSign : Sign) :
    (UnpackedFloat.normalize spec (-mantissa) exponent zeroSign).abs =
      (UnpackedFloat.normalize spec mantissa exponent zeroSign).abs := by
  have above : ∀ whole : Int, 0 < whole →
      (UnpackedFloat.normalize spec (-whole) exponent zeroSign).abs =
        (UnpackedFloat.normalize spec whole exponent zeroSign).abs := by
    intro whole positive
    have negative : compare (-whole) 0 = .lt := Int.compare_eq_lt.mpr (by omega)
    have greater : compare whole 0 = .gt := Int.compare_eq_gt.mpr positive
    unfold UnpackedFloat.normalize
    rw [negative, greater, Int.neg_neg]
    exact abs_round .negative .positive whole.toNat exponent
  rcases Int.lt_trichotomy mantissa 0 with negative | zero | positive
  · have law := above (-mantissa) (by omega)
    rw [Int.neg_neg] at law
    exact law.symm
  · rw [zero]
    rfl
  · exact above mantissa positive

theorem abs_unpacked_sub_comm (x y : UnpackedFloat) :
    (x.sub spec y).abs = (y.sub spec x).abs := by
  cases x with
  | notANumber => cases y <;> rfl
  | infinity sign =>
      cases y with
      | infinity other => cases sign <;> cases other <;> rfl
      | _ => rfl
  | zero sign =>
      cases y with
      | zero other => cases sign <;> cases other <;> rfl
      | _ => rfl
  | finite sign mantissa exponent positive =>
      cases y with
      | finite other otherMantissa otherExponent otherPositive =>
          unfold UnpackedFloat.sub
          dsimp only
          rw [Int.min_comm otherExponent exponent, ← abs_normalize_neg, Int.neg_sub]
      | _ => rfl

/-- What is read off some bits depends on their sign only in its sign. -/
theorem abs_unpack_congr {bits others : BitVec spec.numBits}
    (mantissas : unpackMantissa bits = unpackMantissa others)
    (exponents : unpackExponent bits = unpackExponent others) :
    (UnpackedFloat.unpack spec bits).abs = (UnpackedFloat.unpack spec others).abs := by
  have finite_eq : ∀ {m n : Nat} {e f : Int} (positive : 0 < m) (otherPositive : 0 < n),
      m = n → e = f → finite .positive m e positive = finite .positive n f otherPositive := by
    intro m n e f positive otherPositive same units
    cases same
    cases units
    rfl
  have units := congrArg (fun exponent => (exponent.toNat : Int) -
    (spec.exponentBias + spec.mantissaBitsWithoutImplicit)) exponents
  have wholes := congrArg (fun mantissa => (BitVec.ofNat 1 1 ++ mantissa).toNat) mantissas
  unfold UnpackedFloat.unpack
  dsimp only
  by_cases top : unpackExponent bits = -BitVec.ofNat spec.exponentBits 1
  · rw [if_pos top, if_pos (exponents.symm.trans top)]
    by_cases whole : unpackMantissa bits = BitVec.ofNat spec.mantissaBitsWithoutImplicit 0
    · rw [if_pos whole, if_pos (mantissas.symm.trans whole)]
      rfl
    · rw [if_neg whole, if_neg fun same => whole (mantissas.trans same)]
  · rw [if_neg top, if_neg fun same => top (exponents.trans same)]
    by_cases low : unpackExponent bits = BitVec.ofNat spec.exponentBits 0
    · rw [if_pos low, if_pos (exponents.symm.trans low)]
      by_cases whole : unpackMantissa bits = BitVec.ofNat spec.mantissaBitsWithoutImplicit 0
      · rw [dif_pos whole, dif_pos (mantissas.symm.trans whole)]
        rfl
      · rw [dif_neg whole, dif_neg fun same => whole (mantissas.trans same)]
        exact finite_eq _ _ (congrArg BitVec.toNat mantissas) (congrArg (· + 1) units)
    · rw [if_neg low, if_neg fun same => low (exponents.trans same)]
      exact finite_eq _ _ wholes units

theorem abs_unpack_pack (x : UnpackedFloat) :
    (UnpackedFloat.unpack spec (UnpackedFloat.pack spec x.abs)).abs =
      (UnpackedFloat.unpack spec (UnpackedFloat.pack spec x)).abs := by
  have forget : ∀ (sign other : Sign) (exponent : BitVec spec.exponentBits)
      (mantissa : BitVec spec.mantissaBitsWithoutImplicit),
      (UnpackedFloat.unpack spec (packComponents spec sign exponent mantissa)).abs =
        (UnpackedFloat.unpack spec (packComponents spec other exponent mantissa)).abs := by
    intro sign other exponent mantissa
    apply abs_unpack_congr
    · rw [unpackMantissa_packComponents, unpackMantissa_packComponents]
    · rw [unpackExponent_packComponents, unpackExponent_packComponents]
  cases x with
  | notANumber => rfl
  | infinity sign => exact forget _ _ _ _
  | zero sign => exact forget _ _ _ _
  | finite sign mantissa exponent positive =>
      change (UnpackedFloat.unpack spec (UnpackedFloat.pack spec
        (finite .positive mantissa exponent positive))).abs = _
      unfold UnpackedFloat.pack
      dsimp only
      split
      · exact forget _ _ _ _
      · split <;> exact forget _ _ _ _

/-- The distance of two numbers does not depend on their order. -/
theorem abs_sub_swap (x y : Float) : (x - y).abs = (y - x).abs := by
  have distance : (UnpackedFloat.unpack .binary64 (UnpackedFloat.pack .binary64
        (x.toModel.unpack.sub .binary64 y.toModel.unpack))).abs =
      (UnpackedFloat.unpack .binary64 (UnpackedFloat.pack .binary64
        (y.toModel.unpack.sub .binary64 x.toModel.unpack))).abs := by
    rw [← abs_unpack_pack, abs_unpacked_sub_comm, abs_unpack_pack]
  exact congrArg (fun unpacked => Float.ofModel (.pack unpacked)) distance

end Number

namespace Heap

theorem sameNumber_comm (x y : Float) : sameNumber x y = sameNumber y x := by
  rw [sameNumber, sameNumber, Number.abs_sub_swap]

theorem same_swap_of_plain {heap : Heap} {value : Value} (plain : value.isList = false)
    (other : Value) : heap.same value other = heap.same other value := by
  cases value with
  | list address => cases plain
  | number x =>
      cases other with
      | number y => exact sameNumber_comm x y
      | _ => rfl
  | text text =>
      cases other with
      | text otherText => exact decide_eq_decide.mpr eq_comm
      | _ => rfl
  | truth b =>
      cases other with
      | truth otherTruth => exact decide_eq_decide.mpr eq_comm
      | _ => rfl
  | object object =>
      cases other with
      | object otherObject => exact decide_eq_decide.mpr eq_comm
      | _ => rfl

theorem forall₂_swap {α : Type} {related : α → α → Prop} {xs ys : List α}
    (swap : ∀ x ∈ xs, ∀ y ∈ ys, related x y → related y x) (pairs : List.Forall₂ related xs ys) :
    List.Forall₂ related ys xs := by
  obtain ⟨lengths, elements⟩ := List.forall₂_iff_zip.mp pairs
  refine List.Forall₂.flip (List.forall₂_iff_zip.mpr ⟨lengths, fun member => ?_⟩)
  have held := List.of_mem_zip member
  exact swap _ held.1 _ held.2 (elements member)

/-- Values that end are the same or not, whichever comes first. -/
theorem same_comm {heap : Heap} {value other : Value} (grounded : heap.Grounded value)
    (otherGrounded : heap.Grounded other) : heap.same value other = heap.same other value := by
  suffices all : ∀ other, heap.Grounded other →
      (heap.same value other = true ↔ heap.same other value = true) from
    Bool.eq_iff_iff.mpr (all other otherGrounded)
  clear otherGrounded
  refine grounded.induct ?_ ?_
  · intro value plain other _
    rw [same_swap_of_plain plain]
  · intro x grounded elements other otherGrounded
    cases other with
    | list y =>
        have swap : ∀ u ∈ heap.elements x, ∀ v ∈ heap.elements y,
            (heap.same u v = true ↔ heap.same v u = true) :=
          fun u member v held => elements u member v (otherGrounded.element held)
        rw [same_list grounded otherGrounded, same_list otherGrounded grounded, eq_comm]
        refine or_congr_right ?_
        constructor
        · exact forall₂_swap fun u member v held => (swap u member v held).mp
        · exact forall₂_swap fun v held u member => (swap u member v held).mpr
    | _ => rfl

end Heap
end Scriptlet
