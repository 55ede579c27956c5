import Scriptlet.Value.Coercion

namespace Scriptlet

/-!
# What can be reached

What a value is made of is reached by following addresses.  Who cannot reach a list cannot see
what it holds, and a list that nobody changes is reached from the same values as before.

Most of what happens to a heap adds lists to it and leaves the others as they are.  A copy is
such a change, and nothing that was there before can be reached from it.
-/

/-- A list of the value is one of the given ones. -/
def Value.Belongs (own : Nat → Prop) : Value → Prop
  | .list address => own address
  | _ => True

instance Value.decidableBelongs (own : Nat → Prop) [DecidablePred own] :
    DecidablePred (Value.Belongs own)
  | .list address => inferInstanceAs (Decidable (own address))
  | .number _ | .text _ | .truth _ | .object _ => isTrue trivial

theorem Value.Belongs.imp {own more : Nat → Prop} {value : Value} (belongs : value.Belongs own)
    (implies : ∀ address, own address → more address) : value.Belongs more := by
  cases value with
  | list address => exact implies address belongs
  | _ => exact trivial

namespace Heap

/-- The second value is the first one or can be got at from it. -/
inductive Reaches (heap : Heap) : Value → Value → Prop
  | self (value : Value) : Reaches heap value value
  | inside {address : Nat} {value part : Value} : value ∈ heap.elements address →
      Reaches heap value part → Reaches heap (.list address) part

theorem Reaches.trans {heap : Heap} {value middle part : Value}
    (first : heap.Reaches value middle) (second : heap.Reaches middle part) :
    heap.Reaches value part := by
  induction first with
  | self value => exact second
  | inside member _ inductionHypothesis => exact .inside member (inductionHypothesis second)

/-- Lists that hold nothing but themselves. -/
def Closed (heap : Heap) (own : Nat → Prop) : Prop :=
  ∀ address, own address → ∀ value ∈ heap.elements address, value.Belongs own

theorem Closed.reaches {heap : Heap} {own : Nat → Prop} (closed : heap.Closed own)
    {value part : Value} (belongs : value.Belongs own) (reaches : heap.Reaches value part) :
    part.Belongs own := by
  induction reaches with
  | self value => exact belongs
  | inside member _ inductionHypothesis => exact inductionHypothesis (closed _ belongs _ member)

/-- The lists that are reached from some values. -/
def ReachedFrom (heap : Heap) (values : Value → Prop) (address : Nat) : Prop :=
  ∃ value, values value ∧ heap.Reaches value (.list address)

theorem belongs_reachedFrom {heap : Heap} {values : Value → Prop} {value part : Value}
    (given : values value) (reaches : heap.Reaches value part) :
    part.Belongs (heap.ReachedFrom values) := by
  cases part with
  | list address => exact ⟨value, given, reaches⟩
  | _ => exact trivial

/-- What is reached from some values holds nothing else. -/
theorem closed_reachedFrom (heap : Heap) (values : Value → Prop) :
    heap.Closed (heap.ReachedFrom values) := by
  rintro address ⟨value, given, reaches⟩ element member
  exact belongs_reachedFrom given (reaches.trans (.inside member (.self element)))

/-! ## Heaps that grow -/

/-- Every list still holds what it held. -/
def Kept (heap after : Heap) : Prop :=
  ∀ ⦃address : Nat⦄ ⦃values : Array Value⦄,
    heap.lists[address]? = some values → after.lists[address]? = some values

section Growth

variable {heap between after : Heap}

theorem Kept.refl (heap : Heap) : heap.Kept heap :=
  fun _ _ found => found

theorem Kept.trans (first : heap.Kept between) (second : between.Kept after) : heap.Kept after :=
  fun _ _ found => second (first found)

theorem Kept.getElem?_eq (kept : heap.Kept after) {address : Nat}
    (stored : address < heap.lists.size) : after.lists[address]? = heap.lists[address]? := by
  rw [Array.getElem?_eq_getElem stored]
  exact kept (Array.getElem?_eq_getElem stored)

theorem elements_congr {address : Nat} (same : after.lists[address]? = heap.lists[address]?) :
    after.elements address = heap.elements address := by
  unfold elements storage
  rw [same]

theorem Kept.elements_eq (kept : heap.Kept after) {address : Nat}
    (stored : address < heap.lists.size) : after.elements address = heap.elements address :=
  elements_congr (kept.getElem?_eq stored)

theorem stored_of_getElem? {address : Nat} {values : Array Value}
    (found : heap.lists[address]? = some values) : address < heap.lists.size :=
  (Array.getElem?_eq_some_iff.mp found).1

theorem Kept.size_le (kept : heap.Kept after) : heap.lists.size ≤ after.lists.size := by
  apply Nat.le_of_not_lt
  intro fewer
  have found := kept (Array.getElem?_eq_getElem fewer)
  exact absurd (stored_of_getElem? found) (Nat.lt_irrefl _)

theorem kept_keep (values : Array Value) (heap : Heap) : heap.Kept (keep values heap).2 := by
  intro address stored found
  have bound := stored_of_getElem? found
  change (heap.lists.push values)[address]? = some stored
  rw [Array.getElem?_push_lt bound, ← found, Array.getElem?_eq_getElem bound]

theorem kept_coerce (value : Value) (kind : Value.Kind) (heap : Heap) :
    heap.Kept (coerce value kind heap).2 := by
  unfold coerce
  cases Coercion.outcome value kind with
  | value result => exact Kept.refl heap
  | list elements => exact kept_keep elements.toArray heap
  | none => exact Kept.refl heap

theorem objects_coerce (value : Value) (kind : Value.Kind) (heap : Heap) :
    (coerce value kind heap).2.objects = heap.objects := by
  unfold coerce
  cases Coercion.outcome value kind <;> rfl

theorem size_update (address : Nat) (change : Array Value → Array Value) (heap : Heap) :
    (update address change heap).2.lists.size = heap.lists.size :=
  Array.size_modify

theorem elements_update_self {heap : Heap} {address : Nat} (stored : address < heap.lists.size)
    (change : Array Value → Array Value) :
    (update address change heap).2.elements address = (change (heap.storage address)).toList := by
  have found : (heap.lists.modify address change)[address]? =
      some (change (heap.storage address)) := by
    rw [Array.getElem?_modify, if_pos rfl, storage, Array.getElem?_eq_getElem stored]
    rfl
  change ((heap.lists.modify address change)[address]?.getD #[]).toList = _
  rw [found]
  rfl

theorem getElem?_update_of_ne {address other : Nat} (different : other ≠ address)
    (change : Array Value → Array Value) (heap : Heap) :
    (update address change heap).2.lists[other]? = heap.lists[other]? := by
  change (heap.lists.modify address change)[other]? = _
  rw [Array.getElem?_modify, if_neg different.symm]

theorem elements_update_of_ne {address other : Nat} (different : other ≠ address)
    (change : Array Value → Array Value) (heap : Heap) :
    (update address change heap).2.elements other = heap.elements other :=
  elements_congr (getElem?_update_of_ne different change heap)

/-- The lists that were made between two heaps. -/
def Between (heap after : Heap) (address : Nat) : Prop :=
  heap.lists.size ≤ address ∧ address < after.lists.size

/-- Lists were made that hold nothing but one another, and nothing else was changed. -/
structure Grows (heap after : Heap) : Prop where
  kept : heap.Kept after
  objects : after.objects = heap.objects
  closed : after.Closed (heap.Between after)

theorem Grows.refl (heap : Heap) : heap.Grows heap where
  kept := Kept.refl heap
  objects := rfl
  closed _ made := absurd (Nat.lt_of_le_of_lt made.1 made.2) (Nat.lt_irrefl _)

theorem Grows.belongs_later (second : between.Grows after) {value : Value}
    (belongs : value.Belongs (heap.Between between)) : value.Belongs (heap.Between after) :=
  belongs.imp fun _ made => ⟨made.1, Nat.lt_of_lt_of_le made.2 second.kept.size_le⟩

theorem Grows.belongs_earlier (first : heap.Grows between) {value : Value}
    (belongs : value.Belongs (between.Between after)) : value.Belongs (heap.Between after) :=
  belongs.imp fun _ made => ⟨Nat.le_trans first.kept.size_le made.1, made.2⟩

theorem Grows.trans (first : heap.Grows between) (second : between.Grows after) :
    heap.Grows after where
  kept := first.kept.trans second.kept
  objects := second.objects.trans first.objects
  closed address made value member := by
    by_cases early : address < between.lists.size
    · rw [second.kept.elements_eq early] at member
      exact second.belongs_later (first.closed address ⟨made.1, early⟩ value member)
    · exact first.belongs_earlier
        (second.closed address ⟨Nat.le_of_not_lt early, made.2⟩ value member)

/-! ## Copies -/

/-- The element lists behind a new address. -/
theorem elements_keep (values : Array Value) (heap : Heap) :
    (keep values heap).2.elements heap.lists.size = values.toList := by
  have found : (heap.lists.push values)[heap.lists.size]? = some values := Array.getElem?_push_size
  change ((heap.lists.push values)[heap.lists.size]?.getD #[]).toList = values.toList
  rw [found]
  rfl

theorem size_keep (values : Array Value) (heap : Heap) :
    (keep values heap).2.lists.size = heap.lists.size + 1 :=
  Array.size_push ..

/-- A list of lists that were made before it. -/
theorem grows_allocate {values : List Value} (grown : heap.Grows between)
    (belong : ∀ value ∈ values, value.Belongs (heap.Between between)) :
    heap.Grows (allocate values between).2 ∧
      (allocate values between).1.Belongs (heap.Between (allocate values between).2) := by
  have longer : between.lists.size < (allocate values between).2.lists.size := by
    rw [allocate, size_keep]
    exact Nat.lt_succ_self _
  have made : heap.Between (allocate values between).2 between.lists.size :=
    ⟨grown.kept.size_le, longer⟩
  refine ⟨⟨grown.kept.trans (kept_keep _ between), grown.objects, ?_⟩, made⟩
  intro address inside value member
  by_cases early : address < between.lists.size
  · rw [allocate, (kept_keep _ between).elements_eq early] at member
    have belongs := grown.closed address ⟨inside.1, early⟩ value member
    exact belongs.imp fun _ made => ⟨made.1, Nat.lt_trans made.2 longer⟩
  · have last : address = between.lists.size := by
      have bound := inside.2
      rw [allocate, size_keep] at bound
      omega
    rw [last, allocate, elements_keep] at member
    have belongs := belong value (by simpa using member)
    exact belongs.imp fun _ made => ⟨made.1, Nat.lt_trans made.2 longer⟩

end Growth

/-- A step that makes lists and results that hold nothing but these. -/
def Makes {α : Type} (step : StateM Heap α) (values : α → List Value) : Prop :=
  ∀ heap, heap.Grows (step heap).2 ∧
    ∀ value ∈ values (step heap).1, value.Belongs (heap.Between (step heap).2)

theorem makes_mapM {copy : Value → StateM Heap Value}
    (makes : ∀ value, Makes (copy value) fun copied => [copied]) (values : List Value) :
    Makes (values.mapM copy) id := by
  induction values with
  | nil =>
      intro heap
      rw [List.mapM_nil]
      exact ⟨Grows.refl heap, List.forall_mem_nil _⟩
  | cons value rest inductionHypothesis =>
      intro heap
      rw [List.mapM_cons]
      have first := makes value heap
      have others := inductionHypothesis (copy value heap).2
      refine ⟨first.1.trans others.1, fun copied member => ?_⟩
      change copied ∈ (copy value heap).1 :: (rest.mapM copy (copy value heap).2).1 at member
      rcases List.mem_cons.mp member with rfl | later
      · exact others.1.belongs_later (first.2 _ (List.mem_singleton_self _))
      · exact first.1.belongs_earlier (others.2 copied later)

theorem makes_allocate_nil : Makes (allocate []) fun copied => [copied] := by
  intro heap
  have grown := grows_allocate (Grows.refl heap) (List.forall_mem_nil _)
  exact ⟨grown.1, List.forall_mem_singleton.mpr grown.2⟩

theorem makes_copyWithin (depth : Nat) (outer : List Nat) (value : Value) :
    Makes (copyWithin depth outer value) fun copied => [copied] := by
  induction depth generalizing outer value with
  | zero =>
      cases value with
      | list address =>
          rw [copyWithin]
          exact makes_allocate_nil
      | _ => exact fun heap => ⟨Grows.refl heap, List.forall_mem_singleton.mpr trivial⟩
  | succ depth inductionHypothesis =>
      cases value with
      | list address =>
          rw [copyWithin]
          by_cases cyclic : address ∈ outer
          · rw [if_pos cyclic]
            exact makes_allocate_nil
          · rw [if_neg cyclic]
            intro heap
            have elements := makes_mapM (inductionHypothesis (address :: outer))
              (heap.elements address) heap
            have grown := grows_allocate elements.1 elements.2
            exact ⟨grown.1, List.forall_mem_singleton.mpr grown.2⟩
      | _ => exact fun heap => ⟨Grows.refl heap, List.forall_mem_singleton.mpr trivial⟩

/-- A copy is made of new lists only. -/
theorem grows_copy (value : Value) (heap : Heap) :
    heap.Grows (copy value heap).2 ∧
      (copy value heap).1.Belongs (heap.Between (copy value heap).2) := by
  have made := makes_copyWithin heap.depthBound [] value heap
  exact ⟨made.1, made.2 _ (List.mem_singleton_self _)⟩

end Heap
end Scriptlet
