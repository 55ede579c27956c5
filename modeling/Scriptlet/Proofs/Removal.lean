import Scriptlet.Proofs.Bystanders
import Scriptlet.Proofs.GroundedActions

namespace Scriptlet
namespace Heap

/-!
# Taking elements away

Elements are taken out of a list in two ways.  A difference works on a new list and compares in a
heap that stays as it is.  The method changes the list that it is called on, and what it compares
next may have changed with it: an argument can hold the very list that loses its elements.

Both take away the same.  An argument from which the list can be got at is nested deeper than any
element, so no element is the same as it, neither before elements were taken away nor after.  The
other arguments do not notice what happens to the list.
-/

/-! ## Nesting -/

section Nesting

variable {numbers : Float → Float → Prop} {heap other : Heap} {value : Value}

/-- Every element of a list has its like in a list that is alike. -/
theorem Alike.counterpart {x y : Nat} {element : Value}
    (alike : Alike numbers heap other (.list x) (.list y)) (member : element ∈ other.elements y) :
    ∃ similar ∈ heap.elements x, Alike numbers heap other similar element := by
  cases alike with
  | list lengths elements =>
      obtain ⟨position, bound, found⟩ := List.getElem_of_mem member
      have inside : position < (heap.elements x).length := Nat.lt_of_lt_of_eq bound lengths.symm
      have paired : ((heap.elements x)[position], element) ∈
          (heap.elements x).zip (other.elements y) := by
        rw [List.mem_iff_getElem]
        exact ⟨position, by rw [List.length_zip]; omega, by rw [List.getElem_zip, found]⟩
      exact ⟨_, List.getElem_mem inside, elements _ _ paired⟩

theorem Alike.reaches {u part : Value} (alike : Alike numbers heap other u value)
    (reaches : other.Reaches value part) :
    ∃ similar, heap.Reaches u similar ∧ Alike numbers heap other similar part := by
  induction reaches generalizing u with
  | self value => exact ⟨u, .self u, alike⟩
  | inside member _ inductionHypothesis =>
      cases alike with
      | list lengths elements =>
          obtain ⟨element, held, like⟩ := (Alike.list lengths elements).counterpart member
          obtain ⟨similar, further, whole⟩ := inductionHypothesis like
          exact ⟨similar, .inside held further, whole⟩

/-- No list is alike to something inside of it: the like of that would lie inside again, and a
value that ends does not go on like this. -/
theorem not_alike_inside (grounded : heap.Grounded value) :
    ∀ address, heap.Reaches value (.list address) → ∀ element ∈ heap.elements address,
      ∀ part, heap.Reaches element part → ¬ Alike numbers heap heap part (.list address) := by
  refine grounded.induct ?_ ?_
  · intro value plain address reaches
    rw [← eq_of_reaches plain reaches] at plain
    cases plain
  · intro x _ elements address reaches
    cases reaches with
    | inside member reaches => exact elements _ member address reaches
    | self =>
        intro element member part further alike
        cases part with
        | list y =>
            obtain ⟨similar, held, like⟩ := alike.counterpart member
            obtain ⟨deeper, inside, again⟩ := like.reaches further
            exact elements element member y further similar held deeper inside again
        | _ => cases alike

/-- No element of a list is the same as a value from which the list can be got at. -/
theorem not_same_of_reaches {address : Nat} {element : Value}
    (listed : heap.Grounded (.list address)) (member : element ∈ heap.elements address)
    (grounded : heap.Grounded value) (reaches : heap.Reaches value (.list address)) :
    heap.same element value = false := by
  apply Bool.eq_false_iff.mpr
  intro same
  have alike : Alike (fun _ _ => True) heap heap element value :=
    alike_of_same (fun _ _ _ => trivial) (listed.element member) grounded
      (fun _ _ _ _ _ => trivial) same
  obtain ⟨similar, inside, like⟩ := alike.reaches reaches
  exact not_alike_inside listed address (.self _) element member similar inside like

end Nesting

/-! ## Comparing while elements are taken away -/

section Thinning

variable {heap : Heap} {address : Nat} {kept : Array Value} {value : Value}

/-- A list that changes is still got at from where it was. -/
theorem reaches_updated (change : Array Value → Array Value)
    (reaches : heap.Reaches value (.list address)) :
    (update address change heap).2.Reaches value (.list address) := by
  generalize target : Value.list address = part at reaches
  induction reaches with
  | self value => exact .self value
  | @inside other element part member _ inductionHypothesis =>
      by_cases same : other = address
      · rw [← target, same]
        exact .self _
      · rw [← elements_update_of_ne same change heap] at member
        exact .inside member (inductionHypothesis target)

/-- What is left in a list compares as it did before something else was taken away. -/
theorem same_thinned (listed : heap.Grounded (.list address))
    (fewer : kept.toList ⊆ heap.elements address) {element : Value} (member : element ∈ kept.toList)
    (grounded : heap.Grounded value) :
    (update address (fun _ => kept) heap).2.same element value = heap.same element value := by
  have stored := listed.stored address (.self _)
  have held := fewer member
  by_cases reaches : heap.Reaches value (.list address)
  · have safe : heap.Safe address fun _ => kept := safe_of_subset fewer
    have sustained := sustains_update stored safe
    have still : element ∈ (update address (fun _ => kept) heap).2.elements address := by
      rw [elements_update_self stored]
      exact member
    rw [not_same_of_reaches listed held grounded reaches,
      not_same_of_reaches (sustained _ listed) still (sustained _ grounded)
        (reaches_updated _ reaches)]
  · have apart := listed.acyclic address (.self _) element held
    exact Spared.same_eq (listed.element held) grounded (spared_update apart _)
      (spared_update reaches _)

theorem eraseP_congr {α : Type} {p q : α → Bool} {xs : List α} (agree : ∀ x ∈ xs, p x = q x) :
    xs.eraseP p = xs.eraseP q := by
  induction xs with
  | nil => rfl
  | cons x rest inductionHypothesis =>
      rw [List.eraseP_cons, List.eraseP_cons, agree x List.mem_cons_self,
        inductionHypothesis fun y member => agree y (List.mem_cons_of_mem x member)]

theorem toList_eraseFirst (value : Value) (values : Array Value) :
    (heap.eraseFirst value values).toList =
      values.toList.eraseP fun element => heap.same element value := by
  cases values
  rw [eraseFirst, List.eraseP_toArray]

theorem without_cons (heap : Heap) (values : Array Value) (value : Value) (others : List Value) :
    heap.without values (value :: others).toArray =
      heap.without (heap.eraseFirst value values) others.toArray := by
  simp only [without, List.foldl_toArray, List.foldl_cons]

theorem eraseFirst_thinned (listed : heap.Grounded (.list address))
    (fewer : kept.toList ⊆ heap.elements address) (grounded : heap.Grounded value) :
    (update address (fun _ => kept) heap).2.eraseFirst value kept = heap.eraseFirst value kept := by
  apply Array.toList_inj.mp
  rw [toList_eraseFirst, toList_eraseFirst]
  exact eraseP_congr fun element member => same_thinned listed fewer member grounded

theorem update_update (address : Nat) (first second : Array Value → Array Value) (heap : Heap) :
    (update address second (update address first heap).2).2 =
      (update address (fun values => second (first values)) heap).2 := by
  have lists : (heap.lists.modify address first).modify address second =
      heap.lists.modify address fun values => second (first values) := by
    apply Array.ext_getElem?
    intro other
    rw [Array.getElem?_modify, Array.getElem?_modify, Array.getElem?_modify]
    split
    · rw [Option.map_map]
      rfl
    · rfl
  exact congrArg (fun lists => Heap.mk lists heap.objects) lists

/-- A change that gives back what it is given changes nothing. -/
theorem update_eq_self {change : Array Value → Array Value}
    (same : change (heap.storage address) = heap.storage address) :
    (update address change heap).2 = heap := by
  have lists : heap.lists.modify address (fun values => values) = heap.lists := by
    apply Array.ext_getElem?
    intro other
    rw [Array.getElem?_modify]
    split
    · exact Option.map_id_apply
    · rfl
  have kept : update address change heap = update address (fun values => values) heap :=
    Likeness.update_congr same
  rw [kept]
  exact congrArg (fun lists => Heap.mk lists heap.objects) lists

theorem storage_update_self (stored : address < heap.lists.size)
    (change : Array Value → Array Value) :
    (update address change heap).2.storage address = change (heap.storage address) :=
  Array.toList_inj.mp (elements_update_self stored change)

/-- Taking away from the list itself, one argument after the other, leaves what is left if every
comparison is made in the heap before. -/
theorem removeEach_eq (listed : heap.Grounded (.list address)) {arguments : List Value}
    (given : ∀ argument ∈ arguments, heap.Grounded argument)
    (fewer : kept.toList ⊆ heap.elements address) :
    (arguments.forM (ListMethod.removeFirst address) (update address (fun _ => kept) heap).2).2 =
      (update address (fun _ => heap.without kept arguments.toArray) heap).2 := by
  induction arguments generalizing kept with
  | nil => rfl
  | cons value rest inductionHypothesis =>
      have stored := listed.stored address (.self _)
      have grounded := given value List.mem_cons_self
      have removed : (ListMethod.removeFirst address value
          (update address (fun _ => kept) heap).2).2 =
            (update address (fun _ => heap.eraseFirst value kept) heap).2 := by
        change (update address (fun _ => (update address (fun _ => kept) heap).2.eraseFirst value
          ((update address (fun _ => kept) heap).2.storage address))
            (update address (fun _ => kept) heap).2).2 = _
        rw [storage_update_self stored, eraseFirst_thinned listed fewer grounded, update_update]
      have subset : (heap.eraseFirst value kept).toList ⊆ heap.elements address :=
        List.Subset.trans (eraseFirst_subset value kept) fewer
      have others := inductionHypothesis
        (fun argument member => given argument (List.mem_cons_of_mem value member)) subset
      change (rest.forM (ListMethod.removeFirst address)
        (ListMethod.removeFirst address value (update address (fun _ => kept) heap).2).2).2 = _
      rw [removed, others, without_cons]

/-- The method leaves in the list what the difference puts into a new one. -/
theorem remove_eq (listed : heap.Grounded (.list address)) {arguments : List Value}
    (given : ∀ argument ∈ arguments, heap.Grounded argument) (line : Nat) :
    ListMethod.remove (.list address) arguments line heap =
      .ok none (update address (fun values => heap.without values arguments.toArray) heap).2 := by
  have start : (update address (fun _ => heap.storage address) heap).2 = heap := update_eq_self rfl
  have removed := removeEach_eq listed given (List.Subset.refl (heap.elements address))
  rw [start] at removed
  change EStateM.Result.ok none (arguments.forM (ListMethod.removeFirst address) heap).2 = _
  have planned : update address (fun _ => heap.without (heap.storage address) arguments.toArray)
      heap = update address (fun values => heap.without values arguments.toArray) heap :=
    Likeness.update_congr rfl
  rw [removed, planned]

end Thinning

/-! ## What is taken away -/

/-- For each of some values in turn the first element that is the same is taken away, if there is
one.  The number says how many of the values found such an element. -/
inductive Drops (heap : Heap) : List Value → List Value → Nat → List Value → Prop
  | done (values : List Value) : Drops heap values [] 0 values
  | missing {values others rest : List Value} {value : Value} {found : Nat} :
      (∀ element ∈ values, heap.same element value = false) →
      Drops heap values others found rest → Drops heap values (value :: others) found rest
  | found {front back others rest : List Value} {element value : Value} {found : Nat} :
      (∀ element ∈ front, heap.same element value = false) → heap.same element value = true →
      Drops heap (front ++ back) others found rest →
      Drops heap (front ++ element :: back) (value :: others) (found + 1) rest

section Drops

variable {heap : Heap} {values others rest : List Value} {found : Nat}

theorem Drops.sublist (drops : heap.Drops values others found rest) : rest.Sublist values := by
  induction drops with
  | done values => exact List.Sublist.refl values
  | missing _ _ inductionHypothesis => exact inductionHypothesis
  | @found front back _ _ element _ _ _ _ _ inductionHypothesis =>
      have shorter : (front ++ back).Sublist (front ++ element :: back) :=
        List.Sublist.append_left (List.sublist_cons_self element back) front
      exact inductionHypothesis.trans shorter

theorem Drops.length_eq (drops : heap.Drops values others found rest) :
    rest.length + found = values.length := by
  induction drops with
  | done values => rfl
  | missing _ _ inductionHypothesis => exact inductionHypothesis
  | found _ _ _ inductionHypothesis =>
      rw [List.length_append] at inductionHypothesis ⊢
      rw [List.length_cons]
      omega

/-- The values of a difference are taken away in turn. -/
theorem drops_without (heap : Heap) (values : Array Value) (others : List Value) :
    ∃ found, heap.Drops values.toList others found
      (heap.without values others.toArray).toList := by
  induction others generalizing values with
  | nil => exact ⟨0, .done _⟩
  | cons value others inductionHypothesis =>
      obtain ⟨found, drops⟩ := inductionHypothesis (heap.eraseFirst value values)
      rw [toList_eraseFirst] at drops
      rw [without_cons]
      by_cases matched : ∃ element ∈ values.toList, heap.same element value = true
      · obtain ⟨element, member, same⟩ := matched
        obtain ⟨first, front, back, before, equal, split, erased⟩ :=
          List.exists_of_eraseP (p := fun element => heap.same element value) member same
        rw [erased] at drops
        rw [split]
        exact ⟨found + 1, .found (fun other held => Bool.eq_false_iff.mpr (before other held))
          equal drops⟩
      · have none : ∀ element ∈ values.toList, ¬ heap.same element value = true :=
          fun element member same => matched ⟨element, member, same⟩
        rw [List.eraseP_of_forall_not none] at drops
        exact ⟨found, .missing (fun element member => Bool.eq_false_iff.mpr (none element member))
          drops⟩

/-- Nothing else is left when values are taken away in turn. -/
theorem Drops.eq_without (drops : heap.Drops values others found rest) :
    rest = (heap.without values.toArray others.toArray).toList := by
  induction drops with
  | done values => rfl
  | @missing values others rest value found none _ inductionHypothesis =>
      have unchanged : heap.eraseFirst value values.toArray = values.toArray := by
        apply Array.toList_inj.mp
        rw [toList_eraseFirst]
        exact List.eraseP_of_forall_not fun element member =>
          Bool.eq_false_iff.mp (none element member)
      rw [without_cons, unchanged]
      exact inductionHypothesis
  | @found front back others rest element value found before same _ inductionHypothesis =>
      have erased : heap.eraseFirst value (front ++ element :: back).toArray =
          (front ++ back).toArray := by
        apply Array.toList_inj.mp
        rw [toList_eraseFirst, List.eraseP_append_right _ fun other member =>
          Bool.eq_false_iff.mp (before other member)]
        exact congrArg (front ++ ·) (List.eraseP_cons_of_pos same)
      rw [without_cons, erased]
      exact inductionHypothesis

end Drops

/-! ## Differences and the method -/

/-- The difference of two lists holds what the first one is left with when the elements of the
second are removed from it, and the sum what it has when they are added.  What a difference takes
away it takes away in turn, so that it is a part of the list in the same order, shorter by the
number of elements that were found.  To subtract a value that is no list is to subtract a list
that holds nothing else. -/
theorem difference_agrees_with_removal {heap : Heap} {x y : Nat}
    (grounded : heap.Grounded (.list x)) (otherGrounded : heap.Grounded (.list y)) (line : Nat) :
    (∃ result differing removed,
      binary .subtract (.list x) (.list y) line heap = .ok (.list result) differing ∧
      ListMethod.remove (.list x) (heap.elements y) line heap = .ok none removed ∧
      differing.elements result = removed.elements x ∧
      (differing.elements result).Sublist (heap.elements x) ∧
      ∃ found, heap.Drops (heap.elements x) (heap.elements y) found (differing.elements result) ∧
        (differing.elements result).length + found = (heap.elements x).length) ∧
    (∃ result joined added,
      binary .add (.list x) (.list y) line heap = .ok (.list result) joined ∧
      ListMethod.add (.list x) (heap.elements y) line heap = .ok none added ∧
      joined.elements result = added.elements x ∧
      joined.elements result = heap.elements x ++ heap.elements y) ∧
    ∀ value : Value, value.isList = false → heap.elements y = [value] →
      binary .subtract (.list x) value line heap =
        binary .subtract (.list x) (.list y) line heap := by
  have stored := grounded.stored x (.self _)
  have others : heap.storage y = (heap.elements y).toArray := Array.toArray_toList.symm
  refine ⟨?_, ?_, ?_⟩
  · have left : (keep (heap.without (heap.storage x) (heap.storage y)) heap).2.elements
        heap.lists.size = (heap.without (heap.storage x) (heap.storage y)).toList :=
      elements_keep _ heap
    have removed := remove_eq grounded (fun _ member => otherGrounded.element member) line
    obtain ⟨found, drops⟩ := drops_without heap (heap.storage x) (heap.elements y)
    rw [← others, ← left] at drops
    refine ⟨heap.lists.size, (keep (heap.without (heap.storage x) (heap.storage y)) heap).2, _,
      rfl, removed, ?_, drops.sublist, found, drops, drops.length_eq⟩
    rw [left, elements_update_self stored, ← others]
  · have left : (keep (heap.storage x ++ heap.storage y) heap).2.elements heap.lists.size =
        heap.elements x ++ heap.elements y :=
      (elements_keep _ heap).trans Array.toList_append
    have right : (update x (fun values => values ++ heap.elements y) heap).2.elements x =
        heap.elements x ++ heap.elements y :=
      (elements_update_self stored _).trans Array.toList_appendList
    exact ⟨heap.lists.size, (keep (heap.storage x ++ heap.storage y) heap).2,
      (update x (fun values => values ++ heap.elements y) heap).2, rfl, rfl, left.trans right.symm,
      left⟩
  · intro value plain single
    have removed : heap.without (heap.storage x) (heap.storage y) =
        heap.eraseFirst value (heap.storage x) := by
      rw [others, single, without_cons]
      rfl
    have difference : binary .subtract (.list x) (.list y) line heap =
        Action.sure (keep (heap.eraseFirst value (heap.storage x))) heap := by
      rw [← removed]
      rfl
    rw [difference]
    cases value with
    | list address => cases plain
    | _ => rfl

/-- Of the values to remove the first holds the list that they are removed from, the second is in
it twice, and the last is not in it. -/
theorem difference_agrees_with_removal_around :
    let heap : Heap :=
      ⟨#[#[.number 1], #[.list 0, .text "a", .list 0], #[.list 1],
        #[.list 2, .list 0, .text "b"]], 0⟩
    heap.Grounded (.list 1) ∧ heap.Grounded (.list 3) ∧ heap.Reaches (.list 2) (.list 1) ∧
      ∃ result differing removed,
        binary .subtract (.list 1) (.list 3) 1 heap = .ok (.list result) differing ∧
        ListMethod.remove (.list 1) [.list 2, .list 0, .text "b"] 1 heap = .ok none removed ∧
        differing.elements result = removed.elements 1 ∧
        differing.elements result = [.text "a", .list 0] := by
  intro heap
  have ordered : ∀ address < heap.lists.size, ∀ element ∈ heap.elements address,
      element.Belongs (· < address) := by decide
  have grounded : heap.Grounded (.list 1) := grounded_of_ordered ordered (by decide)
  have otherGrounded : heap.Grounded (.list 3) := grounded_of_ordered ordered (by decide)
  obtain ⟨result, differing, removed, difference, removal, same, _⟩ :=
    (difference_agrees_with_removal grounded otherGrounded 1).1
  refine ⟨grounded, otherGrounded, .inside (List.mem_singleton_self _) (.self _), result,
    differing, removed, difference, removal, same, ?_⟩
  cases difference
  refine (elements_keep _ heap).trans ?_
  change (heap.without (heap.storage 1) [.list 2, .list 0, .text "b"].toArray).toList = _
  rw [without_cons, without_cons, without_cons]
  change (heap.eraseFirst _ (heap.eraseFirst _ (heap.eraseFirst _ (heap.storage 1)))).toList = _
  rw [toList_eraseFirst, toList_eraseFirst, toList_eraseFirst]
  rfl

end Heap
end Scriptlet
