import Scriptlet.Proofs.Ensures
import Scriptlet.Proofs.ExactValues
import Scriptlet.Value.Operation

namespace Scriptlet
namespace Heap

/-!
# Ranges of integers

A bound of a range is a number or a text that spells one.  It is cut to an integer, and refused
only where the number is not finite or its integer lies beyond those that doubles tell apart.
Between two bounds that are not refused lie only integers that doubles tell apart, so that the
conversion back never fails: a range is made as soon as both of its bounds are there.  Counted
from the other end, it is the same integers in the opposite order.
-/

/-! ## Bounds -/

/-- The double that a value is, or that a text spells. -/
inductive Denotes : Value → Float → Prop
  | number (x : Float) : Denotes (.number x) x
  | text {s : String} {x : Float} (reads : Number.read? (Text.trim s.toList) = some x) :
      Denotes (.text s) x

/-- A value that denotes a finite number whose integer part is not too large. -/
def IsBound (value : Value) (n : ℤ) : Prop :=
  ∃ x q, Denotes value x ∧ Number.exactValue? x = some q ∧ Number.towardZero q = n ∧
    n.natAbs ≤ Number.largestWhole

theorem IsBound.natAbs_le {value : Value} {n : ℤ} (bound : IsBound value n) :
    n.natAbs ≤ Number.largestWhole := by
  rcases bound with ⟨_, _, _, _, _, small⟩
  exact small

/-- Why a value is no bound, and the fault that says so. -/
inductive Refuses (heap : Heap) (line : Nat) : Value → RuntimeFault → Prop
  | spelling {s : String} (fails : Number.read? (Text.trim s.toList) = none) :
      Refuses heap line (.text s) (.expectedNumber s line)
  | kind {value : Value} (number : value.kind ≠ .number) (text : value.kind ≠ .text) :
      Refuses heap line value (.expectedNumber (heap.render value) line)
  | notFinite {value : Value} {x : Float} (denotes : Denotes value x)
      (infinite : Number.exactValue? x = none) :
      Refuses heap line value (.invalidArgument (.notFinite x) line)
  | tooLarge {value : Value} {x : Float} {q : ℚ} (denotes : Denotes value x)
      (finite : Number.exactValue? x = some q)
      (large : Number.largestWhole < (Number.towardZero q).natAbs) :
      Refuses heap line value (.invalidArgument (.tooLargeInteger x) line)

section Bounds

variable {heap : Heap} {line : Nat} {value : Value}

theorem toNumber_of_denotes {x : Float} (denotes : Denotes value x) :
    toNumber value line heap = .ok x := by
  cases denotes with
  | number => rfl
  | text reads =>
      unfold toNumber
      simp only [reads]

theorem rangeBound_of_denotes {x : Float} (denotes : Denotes value x) :
    rangeBound value line heap = Number.integerOn line x := by
  unfold rangeBound
  rw [toNumber_of_denotes denotes]
  rfl

theorem rangeBound_of_isBound {n : ℤ} (bound : IsBound value n) :
    rangeBound value line heap = .ok n := by
  rcases bound with ⟨x, q, denotes, finite, cut, small⟩
  rw [rangeBound_of_denotes denotes]
  unfold Number.integerOn
  rw [Number.truncate_eq, finite]
  subst cut
  simp only [if_neg (Nat.not_lt.mpr small)]

theorem rangeBound_of_refuses {fault : RuntimeFault} (refuses : Refuses heap line value fault) :
    rangeBound value line heap = .error fault := by
  cases refuses with
  | spelling fails =>
      unfold rangeBound toNumber
      simp only [fails]
      rfl
  | kind number text =>
      cases value with
      | number x => exact absurd rfl number
      | text s => exact absurd rfl text
      | truth b => rfl
      | list address => rfl
      | object identity => rfl
  | notFinite denotes infinite =>
      rw [rangeBound_of_denotes denotes]
      unfold Number.integerOn
      rw [Number.truncate_eq, infinite]
  | tooLarge denotes finite large =>
      rw [rangeBound_of_denotes denotes]
      unfold Number.integerOn
      rw [Number.truncate_eq, finite]
      simp only [if_pos large]

theorem isBound_or_refuses_of_denotes (heap : Heap) (line : Nat) {x : Float}
    (denotes : Denotes value x) :
    (∃ n, IsBound value n) ∨ ∃ fault, Refuses heap line value fault := by
  cases finite : Number.exactValue? x with
  | none => exact Or.inr ⟨_, .notFinite denotes finite⟩
  | some q =>
      rcases Nat.lt_or_ge Number.largestWhole (Number.towardZero q).natAbs with large | small
      · exact Or.inr ⟨_, .tooLarge denotes finite large⟩
      · exact Or.inl ⟨_, x, q, denotes, finite, rfl, small⟩

theorem isBound_or_refuses (heap : Heap) (line : Nat) (value : Value) :
    (∃ n, IsBound value n) ∨ ∃ fault, Refuses heap line value fault := by
  cases value with
  | number x => exact isBound_or_refuses_of_denotes heap line (.number x)
  | text s =>
      cases reads : Number.read? (Text.trim s.toList) with
      | none => exact Or.inr ⟨_, .spelling reads⟩
      | some x => exact isBound_or_refuses_of_denotes heap line (.text reads)
  | truth b => exact Or.inr ⟨_, .kind nofun nofun⟩
  | list address => exact Or.inr ⟨_, .kind nofun nofun⟩
  | object identity => exact Or.inr ⟨_, .kind nofun nofun⟩

theorem rangeBound_eq_ok {n : ℤ} : rangeBound value line heap = .ok n ↔ IsBound value n := by
  constructor
  · intro cut
    rcases isBound_or_refuses heap line value with ⟨m, bound⟩ | ⟨fault, refuses⟩
    · rw [rangeBound_of_isBound bound] at cut
      cases cut
      exact bound
    · rw [rangeBound_of_refuses refuses] at cut
      cases cut
  · exact rangeBound_of_isBound

end Bounds

/-! ## The integers in between -/

/-- The integers from the first to the last one, both included, each next to the one before. -/
structure Consecutive (first last : ℤ) (integers : List ℤ) : Prop where
  length_eq : integers.length = (last - first).natAbs + 1
  ascending : first ≤ last → ∀ i (inside : i < integers.length), integers[i] = first + i
  descending : last < first → ∀ i (inside : i < integers.length), integers[i] = first - i

namespace Consecutive

variable {first last : ℤ} {integers others : List ℤ}

theorem unique (consecutive : Consecutive first last integers)
    (other : Consecutive first last others) : integers = others := by
  apply List.ext_getElem (consecutive.length_eq.trans other.length_eq.symm)
  intro i inside otherInside
  rcases lt_or_ge last first with down | up
  · rw [consecutive.descending down, other.descending down]
  · rw [consecutive.ascending up, other.ascending up]

theorem reverse (consecutive : Consecutive first last integers) :
    Consecutive last first integers.reverse := by
  have length := consecutive.length_eq
  refine ⟨by rw [List.length_reverse]; omega, ?_, ?_⟩
  · intro up i inside
    rw [List.length_reverse] at inside
    rw [List.getElem_reverse]
    -- From `last` up to `first` means down from `first`, or that there is only one integer.
    rcases Int.lt_or_eq_of_le up with down | same
    · rw [consecutive.descending down]
      omega
    · rw [consecutive.ascending same.ge]
      omega
  · intro down i inside
    rw [List.length_reverse] at inside
    rw [List.getElem_reverse, consecutive.ascending down.le]
    omega

theorem natAbs_le (consecutive : Consecutive first last integers) {bound : Nat}
    (firstSmall : first.natAbs ≤ bound) (lastSmall : last.natAbs ≤ bound) :
    ∀ n ∈ integers, n.natAbs ≤ bound := by
  intro n member
  have length := consecutive.length_eq
  rcases List.mem_iff_getElem.mp member with ⟨i, inside, rfl⟩
  rcases lt_or_ge last first with down | up
  · rw [consecutive.descending down]
    omega
  · rw [consecutive.ascending up]
    omega

end Consecutive

theorem consecutive_integersBetween (first last : ℤ) :
    Consecutive first last (integersBetween first last) := by
  unfold integersBetween
  rcases lt_or_ge last first with down | up
  · rw [if_neg (Int.not_le.mpr down)]
    refine ⟨by rw [List.length_map, List.length_range], fun up => absurd up (by omega), ?_⟩
    intro _ i inside
    rw [List.getElem_map, List.getElem_range]
  · rw [if_pos up]
    refine ⟨by rw [List.length_map, List.length_range], ?_, fun down => absurd down (by omega)⟩
    intro _ i inside
    rw [List.getElem_map, List.getElem_range]

/-- Integers as values. -/
def numbers (integers : List ℤ) : List Value :=
  integers.map fun n => .number (Number.ofInt n)

theorem ofIntOn_of_le {line : Nat} {n : ℤ} (small : n.natAbs ≤ Number.largestWhole) :
    Number.ofIntOn line n = .ok (Number.ofInt n) := by
  unfold Number.ofIntOn Number.ofInt?
  rw [if_pos small]

theorem mapM_ofIntOn_of_le {line : Nat} {integers : List ℤ}
    (small : ∀ n ∈ integers, n.natAbs ≤ Number.largestWhole) :
    (integers.mapM fun n => do
      let x ← Number.ofIntOn line n
      pure (Value.number x)) = .ok (numbers integers) := by
  induction integers with
  | nil => rfl
  | cons n rest inductionHypothesis =>
      rw [List.mapM_cons, ofIntOn_of_le (small n List.mem_cons_self),
        inductionHypothesis fun m member => small m (List.mem_cons_of_mem n member)]
      rfl

/-! ## Ranges -/

section Ranges

variable {heap : Heap} {line : Nat} {first last : Value}

theorem read_of_ok {α : Type} {reader : Heap → Except RuntimeFault α} {result : α}
    (seen : reader heap = .ok result) : Action.read reader heap = .ok result heap := by
  rw [Action.read, seen]

theorem read_of_error {α : Type} {reader : Heap → Except RuntimeFault α} {fault : RuntimeFault}
    (seen : reader heap = .error fault) : Action.read reader heap = .error fault heap := by
  rw [Action.read, seen]

/-- Between two bounds there is nothing that is not converted. -/
theorem range_of_isBound {m n : ℤ} (firstBound : IsBound first m) (lastBound : IsBound last n) :
    range first last line heap = .ok (.list heap.lists.size)
      { heap with lists := heap.lists.push (numbers (integersBetween m n)).toArray } := by
  have small := (consecutive_integersBetween m n).natAbs_le firstBound.natAbs_le
    lastBound.natAbs_le
  unfold range
  rw [bind_of_ok (read_of_ok (rangeBound_of_isBound firstBound)),
    bind_of_ok (read_of_ok (rangeBound_of_isBound lastBound)),
    bind_of_ok (read_of_ok (mapM_ofIntOn_of_le small))]
  rfl

theorem range_of_refuses_first {fault : RuntimeFault} (refuses : Refuses heap line first fault) :
    range first last line heap = .error fault heap :=
  bind_of_error (read_of_error (rangeBound_of_refuses refuses))

theorem range_of_refuses_last {m : ℤ} {fault : RuntimeFault} (bound : IsBound first m)
    (refuses : Refuses heap line last fault) :
    range first last line heap = .error fault heap := by
  unfold range
  rw [bind_of_ok (read_of_ok (rangeBound_of_isBound bound)),
    bind_of_error (read_of_error (rangeBound_of_refuses refuses))]

theorem integersBetween_swap (m n : ℤ) : integersBetween n m = (integersBetween m n).reverse :=
  (consecutive_integersBetween n m).unique (consecutive_integersBetween m n).reverse

/-- Every range is settled by its bounds. -/
theorem range_cases (heap : Heap) (line : Nat) (first last : Value) :
    (∃ m n, IsBound first m ∧ IsBound last n) ∨
      (∃ fault, Refuses heap line first fault) ∨
      (∃ m fault, IsBound first m ∧ Refuses heap line last fault) := by
  rcases isBound_or_refuses heap line first with ⟨m, firstBound⟩ | refuses
  · rcases isBound_or_refuses heap line last with ⟨n, lastBound⟩ | ⟨fault, refuses⟩
    · exact Or.inl ⟨m, n, firstBound, lastBound⟩
    · exact Or.inr (Or.inr ⟨m, fault, firstBound, refuses⟩)
  · exact Or.inr (Or.inl refuses)

theorem range_eq_error {fault : RuntimeFault} {after : Heap} :
    range first last line heap = .error fault after ↔
      after = heap ∧ (Refuses heap line first fault ∨
        (∃ m, IsBound first m) ∧ Refuses heap line last fault) := by
  constructor
  · intro failed
    rcases range_cases heap line first last with
      ⟨m, n, firstBound, lastBound⟩ | ⟨other, refuses⟩ | ⟨m, other, bound, refuses⟩
    · rw [range_of_isBound firstBound lastBound] at failed
      cases failed
    · rw [range_of_refuses_first refuses] at failed
      cases failed
      exact ⟨rfl, Or.inl refuses⟩
    · rw [range_of_refuses_last bound refuses] at failed
      cases failed
      exact ⟨rfl, Or.inr ⟨⟨m, bound⟩, refuses⟩⟩
  · rintro ⟨rfl, refuses | ⟨⟨m, bound⟩, refuses⟩⟩
    · exact range_of_refuses_first refuses
    · exact range_of_refuses_last bound refuses

theorem exists_range_iff :
    (∃ result after, range first last line heap = .ok result after) ↔
      (∃ m, IsBound first m) ∧ ∃ n, IsBound last n := by
  constructor
  · rintro ⟨result, after, made⟩
    rcases range_cases heap line first last with
      ⟨m, n, firstBound, lastBound⟩ | ⟨fault, refuses⟩ | ⟨m, fault, bound, refuses⟩
    · exact ⟨⟨m, firstBound⟩, n, lastBound⟩
    · rw [range_of_refuses_first refuses] at made
      cases made
    · rw [range_of_refuses_last bound refuses] at made
      cases made
  · rintro ⟨⟨m, firstBound⟩, n, lastBound⟩
    exact ⟨_, _, range_of_isBound firstBound lastBound⟩

theorem not_refuses_unrepresentable {value : Value} {k : ℤ} {other : Nat} :
    ¬ Refuses heap line value (.invalidArgument (.unrepresentable k) other) := by
  rintro ⟨⟩

end Ranges

/-- A range is made just when both bounds are there, and it is a new list of the integers between
them, each as the double that stands for it; with the bounds exchanged it is the same list in the
opposite order.  The first bound that is refused is the one reported, the heap is left alone then,
and no integer in between is ever found to have no double. -/
theorem range_consecutive (first last : Value) (line : Nat) (heap : Heap) :
    ((∃ result after, range first last line heap = .ok result after) ↔
      (∃ m, IsBound first m) ∧ ∃ n, IsBound last n) ∧
    (∀ m n, IsBound first m → IsBound last n →
      ∃ integers, Consecutive m n integers ∧
        (∀ i ∈ integers, Number.exactValue? (Number.ofInt i) = some (i : ℚ)) ∧
        range first last line heap = .ok (.list heap.lists.size)
          { heap with lists := heap.lists.push (numbers integers).toArray } ∧
        range last first line heap = .ok (.list heap.lists.size)
          { heap with lists := heap.lists.push (numbers integers.reverse).toArray }) ∧
    (∀ fault after, range first last line heap = .error fault after ↔
      after = heap ∧ (Refuses heap line first fault ∨
        (∃ m, IsBound first m) ∧ Refuses heap line last fault)) ∧
    ∀ k other after,
      range first last line heap ≠ .error (.invalidArgument (.unrepresentable k) other) after := by
  refine ⟨exists_range_iff, ?_, fun _ _ => range_eq_error, ?_⟩
  · intro m n firstBound lastBound
    refine ⟨integersBetween m n, consecutive_integersBetween m n, ?_,
      range_of_isBound firstBound lastBound, ?_⟩
    · intro i member
      exact Number.exactValue?_ofInt ((consecutive_integersBetween m n).natAbs_le
        firstBound.natAbs_le lastBound.natAbs_le i member)
    · rw [← integersBetween_swap]
      exact range_of_isBound lastBound firstBound
  · intro k other after failed
    rcases (range_eq_error.mp failed).2 with refuses | ⟨_, refuses⟩
    · exact not_refuses_unrepresentable refuses
    · exact not_refuses_unrepresentable refuses

/-- A text with blanks and a fraction is cut to the bound 2, from which a range leads down. -/
theorem range_consecutive_down :
    IsBound (.text " 2.9 ") 2 ∧ IsBound (.number (Number.ofInt (-1))) (-1) ∧
      range (.text " 2.9 ") (.number (Number.ofInt (-1))) 1 empty =
        .ok (.list 0) ⟨#[(numbers [2, 1, 0, -1]).toArray], 0⟩ ∧
      range (.number (Number.ofInt (-1))) (.text " 2.9 ") 1 empty =
        .ok (.list 0) ⟨#[(numbers [-1, 0, 1, 2]).toArray], 0⟩ := by
  have firstBound : IsBound (.text " 2.9 ") 2 := by
    have cut : (Number.read? (Text.trim " 2.9 ".toList)).map Number.truncate = some (.ok 2) := by
      decide +kernel
    rcases Option.map_eq_some_iff.mp cut with ⟨x, reads, truncated⟩
    have read : rangeBound (.text " 2.9 ") 1 empty = .ok 2 := by
      rw [rangeBound_of_denotes (.text reads)]
      unfold Number.integerOn
      rw [truncated]
    exact rangeBound_eq_ok.mp read
  have lastBound : IsBound (.number (Number.ofInt (-1))) (-1) :=
    ⟨_, _, .number _, Number.exactValue?_ofInt (by decide), Number.towardZero_intCast (-1),
      by decide⟩
  rcases (range_consecutive (.text " 2.9 ") (.number (Number.ofInt (-1))) 1 empty).2.1 2 (-1)
    firstBound lastBound with ⟨integers, consecutive, _, down, up⟩
  have between : integers = [2, 1, 0, -1] :=
    consecutive.unique (consecutive_integersBetween 2 (-1))
  subst between
  exact ⟨firstBound, lastBound, down, up⟩

end Heap
end Scriptlet
