import Scriptlet.Proofs.StructuralEquality

namespace Scriptlet
namespace Heap

/-!
# Values that a change does not touch

What a value shows depends on the lists that are reached from it and on no others.  A change of
the heap that leaves all of these alone goes unnoticed: the same parts are reached, the text is
the same, and the comparison with another value that is left alone has the same answer.

The text of a value does not depend on where its lists are stored either.
-/

/-- Every list that is reached from the value holds what it held. -/
def Spared (heap after : Heap) (value : Value) : Prop :=
  ∀ address, heap.Reaches value (.list address) → after.lists[address]? = heap.lists[address]?

section Spared

variable {heap between after : Heap} {value : Value}

theorem Spared.elements_eq {address : Nat} (spared : heap.Spared after (.list address)) :
    after.elements address = heap.elements address :=
  elements_congr (spared address (.self _))

theorem Spared.part {part : Value} (spared : heap.Spared after value)
    (reaches : heap.Reaches value part) : heap.Spared after part :=
  fun address further => spared address (reaches.trans further)

theorem Spared.element {address : Nat} {element : Value}
    (spared : heap.Spared after (.list address)) (member : element ∈ heap.elements address) :
    heap.Spared after element :=
  spared.part (.inside member (.self element))

theorem Kept.spared (kept : heap.Kept after) (grounded : heap.Grounded value) :
    heap.Spared after value :=
  fun address reaches => kept.getElem?_eq (grounded.stored address reaches)

/-- Who cannot get at a list does not notice when it changes. -/
theorem spared_update {address : Nat} (apart : ¬ heap.Reaches value (.list address))
    (change : Array Value → Array Value) :
    heap.Spared (update address change heap).2 value := by
  intro other reaches
  refine getElem?_update_of_ne (fun same => ?_) change heap
  rw [same] at reaches
  exact apart reaches

theorem Spared.reaches_iff {part : Value} (spared : heap.Spared after value) :
    after.Reaches value part ↔ heap.Reaches value part := by
  constructor
  · intro reaches
    induction reaches with
    | self value => exact .self value
    | inside member _ inductionHypothesis =>
        rw [spared.elements_eq] at member
        exact .inside member (inductionHypothesis (spared.element member))
  · intro reaches
    induction reaches with
    | self value => exact .self value
    | inside member _ inductionHypothesis =>
        have further := inductionHypothesis (spared.element member)
        rw [← spared.elements_eq] at member
        exact .inside member further

theorem Spared.trans (first : heap.Spared between value) (second : between.Spared after value) :
    heap.Spared after value :=
  fun address reaches =>
    (second address (first.reaches_iff.mpr reaches)).trans (first address reaches)

theorem Spared.grounded (spared : heap.Spared after value) (grounded : heap.Grounded value) :
    after.Grounded value where
  stored address reaches := by
    have before := spared.reaches_iff.mp reaches
    have found := spared address before
    rw [Array.getElem?_eq_getElem (grounded.stored address before)] at found
    exact stored_of_getElem? found
  acyclic address reaches element member returns := by
    have before := spared.reaches_iff.mp reaches
    have inside := spared.part before
    rw [inside.elements_eq] at member
    exact grounded.acyclic address before element member
      ((inside.element member).reaches_iff.mp returns)

/-- Two values that are left alone compare as they did. -/
theorem Spared.same_eq {other : Value} (grounded : heap.Grounded value)
    (otherGrounded : heap.Grounded other) (spared : heap.Spared after value)
    (otherSpared : heap.Spared after other) : after.same value other = heap.same value other := by
  suffices all : ∀ other, heap.Grounded other → heap.Spared after value →
      heap.Spared after other → (after.same value other = true ↔ heap.same value other = true) from
    Bool.eq_iff_iff.mpr (all other otherGrounded spared otherSpared)
  clear otherGrounded spared otherSpared
  refine grounded.induct ?_ ?_
  · intro value plain other _ _ _
    cases value with
    | list address => cases plain
    | _ => cases other <;> rfl
  · intro x grounded elements other otherGrounded spared otherSpared
    cases other with
    | list y =>
        rw [same_list grounded otherGrounded,
          same_list (spared.grounded grounded) (otherSpared.grounded otherGrounded),
          spared.elements_eq, otherSpared.elements_eq, List.forall₂_iff_zip, List.forall₂_iff_zip]
        refine or_congr_right (and_congr_right fun _ => ?_)
        refine forall_congr' fun u => forall_congr' fun v => forall_congr' fun member => ?_
        have held := List.of_mem_zip member
        exact elements u held.1 v (otherGrounded.element held.2) (spared.element held.1)
          (otherSpared.element held.2)
    | _ => rfl

end Spared

/-! ## Texts -/

/-- The text of a list that ends is made of the texts of its elements. -/
theorem render_list {heap : Heap} {address : Nat} (grounded : heap.Grounded (.list address)) :
    heap.render (.list address) =
      "[" ++ ", ".intercalate ((heap.elements address).map heap.render) ++ "]" := by
  have enough := Nat.lt_succ_self heap.lists.size
  have whole := grounded.plainRender_eq (Nat.lt_succ_of_lt enough)
  have texts := mapM_eq_some fun element (member : element ∈ heap.elements address) =>
    (grounded.element member).plainRender_eq enough
  rw [plainRender, texts] at whole
  exact (Option.some.inj whole).symm

/-- Values that differ in nothing but where their lists are stored have the same text. -/
theorem render_of_alike {heap other : Heap} {value moved : Value}
    (alike : Alike Eq heap other value moved) (grounded : heap.Grounded value)
    (otherGrounded : other.Grounded moved) : other.render moved = heap.render value := by
  induction alike with
  | number same =>
      rw [same]
      rfl
  | text text => rfl
  | truth b => rfl
  | object same => rfl
  | @list x y lengths _ inductionHypothesis =>
      have texts : (other.elements y).map other.render = (heap.elements x).map heap.render := by
        apply Correspondence.map_eq_of_forall₂ (List.forall₂_iff_zip.mpr ⟨lengths, id⟩)
        intro u v member
        exact inductionHypothesis u v member (grounded.element (List.of_mem_zip member).1)
          (otherGrounded.element (List.of_mem_zip member).2)
      rw [render_list grounded, render_list otherGrounded, texts]

theorem Spared.render_eq {heap after : Heap} {value : Value} (spared : heap.Spared after value)
    (grounded : heap.Grounded value) : after.render value = heap.render value := by
  have alike : Alike Eq heap after value value :=
    alike_self grounded (fun _ _ => rfl) fun address reaches =>
      (spared.part reaches).elements_eq
  exact render_of_alike alike grounded (spared.grounded grounded)

end Heap
end Scriptlet
