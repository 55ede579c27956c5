import Scriptlet.Proofs.ComparedBothWays
import Scriptlet.Proofs.MethodCalls

namespace Scriptlet
namespace Heap

/-!
# Copies that stand by themselves

A copy shows what the value shows that it is made from, and it shares no list with it.  Nor does
it share lists within itself: where the value holds one list twice, the copy holds two lists.

Two values that share no list do not notice what is done through the other one.  That stays so
however often lists are changed, as long as nothing of the one is put into the other.
-/

/-! ## Places -/

/-- The part of a value that is found by following positions. -/
def part? (heap : Heap) : Value → List Nat → Option Value
  | value, [] => some value
  | .list address, position :: path =>
      (heap.elements address)[position]?.bind fun element => heap.part? element path
  | _, _ :: _ => none

/-- No list is found in two places. -/
def Unshared (heap : Heap) (value : Value) : Prop :=
  ∀ path otherPath address, heap.part? value path = some (.list address) →
    heap.part? value otherPath = some (.list address) → path = otherPath

/-- No list is reached from both values. -/
def Apart (heap : Heap) (value other : Value) : Prop :=
  ∀ address, heap.Reaches value (.list address) → ¬ heap.Reaches other (.list address)

section Places

variable {heap after : Heap} {value other : Value}

theorem Apart.symm (apart : heap.Apart value other) : heap.Apart other value :=
  fun address reaches otherReaches => apart address otherReaches reaches

theorem reaches_of_part? {path : List Nat} {part : Value}
    (found : heap.part? value path = some part) : heap.Reaches value part := by
  induction path generalizing value with
  | nil =>
      cases found
      exact .self part
  | cons position path inductionHypothesis =>
      cases value with
      | list address =>
          obtain ⟨element, held, further⟩ := Option.bind_eq_some_iff.mp found
          exact .inside (List.mem_of_getElem? held) (inductionHypothesis further)
      | _ => cases found

theorem Spared.part?_eq (spared : heap.Spared after value) (path : List Nat) :
    after.part? value path = heap.part? value path := by
  induction path generalizing value with
  | nil => rfl
  | cons position path inductionHypothesis =>
      cases value with
      | list address =>
          rw [part?, part?, spared.elements_eq]
          cases held : (heap.elements address)[position]? with
          | none => rfl
          | some element =>
              exact inductionHypothesis (spared.element (List.mem_of_getElem? held))
      | _ => rfl

theorem Spared.unshared (spared : heap.Spared after value) (unshared : heap.Unshared value) :
    after.Unshared value := by
  intro path otherPath address found otherFound
  rw [spared.part?_eq] at found otherFound
  exact unshared path otherPath address found otherFound

theorem Spared.apart (spared : heap.Spared after value) (otherSpared : heap.Spared after other)
    (apart : heap.Apart value other) : after.Apart value other := by
  intro address reaches otherReaches
  exact apart address (spared.reaches_iff.mp reaches) (otherSpared.reaches_iff.mp otherReaches)

theorem apart_of_positions {values : List Value} (pairwise : values.Pairwise heap.Apart)
    {position otherPosition : Nat} (found : values[position]? = some value)
    (otherFound : values[otherPosition]? = some other) (different : position ≠ otherPosition) :
    heap.Apart value other := by
  obtain ⟨bound, rfl⟩ := List.getElem?_eq_some_iff.mp found
  obtain ⟨otherBound, rfl⟩ := List.getElem?_eq_some_iff.mp otherFound
  have law := List.pairwise_iff_getElem.mp pairwise
  rcases Nat.lt_or_gt_of_ne different with earlier | later
  · exact law position otherPosition bound otherBound earlier
  · exact (law otherPosition position otherBound bound later).symm

/-- Elements that share no list, neither within nor among themselves, make a list that shares
none. -/
theorem unshared_list {address : Nat} (grounded : heap.Grounded (.list address))
    (unshared : ∀ element ∈ heap.elements address, heap.Unshared element)
    (apart : (heap.elements address).Pairwise heap.Apart) : heap.Unshared (.list address) := by
  have outside : ∀ position path element, (heap.elements address)[position]? = some element →
      heap.part? element path ≠ some (.list address) :=
    fun _ _ element held found => grounded.acyclic address (.self _) element
      (List.mem_of_getElem? held) (reaches_of_part? found)
  intro path otherPath target found otherFound
  cases path with
  | nil =>
      cases found
      cases otherPath with
      | nil => rfl
      | cons position rest =>
          obtain ⟨element, held, further⟩ := Option.bind_eq_some_iff.mp otherFound
          exact absurd further (outside position rest element held)
  | cons position rest =>
      obtain ⟨element, held, further⟩ := Option.bind_eq_some_iff.mp found
      cases otherPath with
      | nil =>
          cases otherFound
          exact absurd further (outside position rest element held)
      | cons otherPosition otherRest =>
          obtain ⟨otherElement, otherHeld, otherFurther⟩ := Option.bind_eq_some_iff.mp otherFound
          by_cases same : position = otherPosition
          · cases same
            cases held.symm.trans otherHeld
            rw [unshared element (List.mem_of_getElem? held) rest otherRest target further
              otherFurther]
          · have different := apart_of_positions apart held otherHeld same
            exact absurd (reaches_of_part? otherFurther)
              (different target (reaches_of_part? further))

end Places

/-! ## Copies -/

section Copies

variable {heap : Heap} {value : Value}

theorem unshared_allocate {values : List Value}
    (grounded : ∀ element ∈ values, heap.Grounded element)
    (unshared : ∀ element ∈ values, heap.Unshared element)
    (apart : values.Pairwise heap.Apart) :
    (allocate values heap).2.Unshared (allocate values heap).1 := by
  have holds : (allocate values heap).2.elements heap.lists.size = values :=
    (elements_keep values.toArray heap).trans List.toList_toArray
  have spared : ∀ element ∈ values, heap.Spared (allocate values heap).2 element :=
    fun element member => (kept_keep values.toArray heap).spared (grounded element member)
  apply unshared_list (grounded_allocate grounded).2
  · rw [holds]
    exact fun element member => (spared element member).unshared (unshared element member)
  · rw [holds]
    refine apart.imp_of_mem ?_
    intro element otherElement member otherMember different
    exact (spared element member).apart (spared otherElement otherMember) different

/-- Copies that are made one after the other have nothing to do with one another: each is made of
lists that were not there when the one before was finished. -/
theorem unshared_mapM {copy : Value → StateM Heap Value}
    (makes : ∀ value, Makes (copy value) fun copied => [copied])
    (grounds : ∀ value heap, heap.Sustains (copy value heap).2 ∧
      (copy value heap).2.Grounded (copy value heap).1)
    (unshared : ∀ value heap, (copy value heap).2.Unshared (copy value heap).1)
    (values : List Value) (heap : Heap) :
    (∀ copied ∈ (values.mapM copy heap).1, (values.mapM copy heap).2.Unshared copied) ∧
      (values.mapM copy heap).1.Pairwise (values.mapM copy heap).2.Apart := by
  induction values generalizing heap with
  | nil =>
      rw [List.mapM_nil]
      exact ⟨List.forall_mem_nil _, .nil⟩
  | cons value rest inductionHypothesis =>
      rw [List.mapM_cons]
      have grounded := (grounds value heap).2
      have others := inductionHypothesis (copy value heap).2
      have later := makes_mapM makes rest (copy value heap).2
      have spared := later.1.kept.spared grounded
      constructor
      · intro copied member
        change copied ∈ (copy value heap).1 :: (rest.mapM copy (copy value heap).2).1 at member
        rcases List.mem_cons.mp member with rfl | behind
        · exact spared.unshared (unshared value heap)
        · exact others.1 copied behind
      · refine List.pairwise_cons.mpr ⟨?_, others.2⟩
        intro copied member address reaches otherReaches
        have early := grounded.stored address (spared.reaches_iff.mp reaches)
        have late := later.1.closed.reaches (later.2 copied member) otherReaches
        exact absurd late.1 (Nat.not_le_of_lt early)

theorem unshared_copyWithin (depth : Nat) (outer : List Nat) (value : Value) (heap : Heap) :
    (copyWithin depth outer value heap).2.Unshared (copyWithin depth outer value heap).1 := by
  have empty : ∀ heap : Heap, (allocate [] heap).2.Unshared (allocate [] heap).1 :=
    fun heap => unshared_allocate (List.forall_mem_nil _) (List.forall_mem_nil _) .nil
  have plain : ∀ (heap : Heap) (value : Value), value.isList = false → heap.Unshared value := by
    intro heap value plain path otherPath address found otherFound
    cases eq_of_reaches plain (reaches_of_part? found)
    cases plain
  induction depth generalizing outer value heap with
  | zero =>
      cases value with
      | list address =>
          rw [copyWithin]
          exact empty heap
      | _ => exact plain heap _ rfl
  | succ depth inductionHypothesis =>
      cases value with
      | list address =>
          rw [copyWithin]
          by_cases cyclic : address ∈ outer
          · rw [if_pos cyclic]
            exact empty heap
          · rw [if_neg cyclic]
            have grounds := grounded_copyWithin depth (address :: outer)
            have copies := unshared_mapM (makes_copyWithin depth (address :: outer)) grounds
              (inductionHypothesis (address :: outer)) (heap.elements address) heap
            exact unshared_allocate (sustains_mapM grounds (heap.elements address) heap).2 copies.1
              copies.2
      | _ => exact plain heap _ rfl

/-- A value is equal to itself if every number in it is. -/
theorem equal_self_iff (grounded : heap.Grounded value) :
    heap.Equal value value ↔ heap.Finite value := by
  constructor
  · intro equal x reaches
    generalize target : Value.number x = part at reaches
    induction reaches with
    | self value =>
        cases target
        cases equal with
        | number close =>
            rw [sameNumber_self] at close
            exact close
    | inside member _ inductionHypothesis =>
        have elements := List.forall₂_same.mp (Alike.list_iff.mp equal)
        exact inductionHypothesis (grounded.element member) (elements _ member) target
  · intro finite
    refine alike_self grounded (fun x reaches => ?_) fun _ _ => rfl
    rw [sameNumber_self]
    exact finite x reaches

theorem apart_of_copy (grounded : heap.Grounded value) :
    (copy value heap).2.Apart value (copy value heap).1 :=
  fun _ reaches => apart_copy grounded value reaches

/-- A value and its copy are compared by what they hold. -/
theorem same_copy_iff (grounded : heap.Grounded value) :
    (copy value heap).2.same value (copy value heap).1 = true ↔ heap.Finite value := by
  have kept := (grows_copy value heap).1.kept
  have still := kept.sustains value grounded
  have copied := grounded_copy value heap
  have finite : (copy value heap).2.FiniteTogether value (copy value heap).1 :=
    fun address reaches otherReaches =>
      absurd otherReaches (apart_of_copy grounded address reaches)
  have moved : (copy value heap).2.Equal value (copy value heap).1 ↔ heap.Equal value value :=
    Alike.moved (kept.alike grounded) grounded.alike_copy
  rw [← equal_self_iff grounded, ← moved]
  constructor
  · exact equal_of_same still copied finite
  · exact fun equal => equal.same still copied

end Copies

/-! ## Calls through one of two values -/

open ListMethod

section Through

variable {mine other : Value} {heap : Heap} {sink : Sink} {final : World}

/-- Calls on lists that belonged to one value to begin with are not noticed in the other. -/
theorem spared_of_calls (apart : heap.Apart mine other)
    (calls : Calls (fun _ receiver _ => heap.Reaches mine receiver) ⟨heap, sink⟩ final) :
    heap.Spared final.heap other :=
  fun address reaches => calls.getElem?_eq fun belongs => apart address belongs reaches

/-- A call on a list that belongs to one value by now.  Its arguments have no list in common with
the other value. -/
def Through (mine other : Value) (heap : Heap) (receiver : Value) (arguments : List Value) : Prop :=
  heap.Reaches mine receiver ∧ ∀ argument ∈ arguments, heap.Apart argument other

/-- What a call has put into a list is reached from the value or the arguments. -/
theorem apart_of_edited {after : Heap} {address : Nat} {arguments : List Value}
    (edited : Edited heap after address arguments) (apart : heap.Apart mine other)
    (through : Through mine other heap (.list address) arguments) :
    heap.Spared after other ∧ after.Apart mine other := by
  have spared : heap.Spared after other := by
    intro target reaches
    refine edited.others target fun same => ?_
    rw [same] at reaches
    exact apart address through.1 reaches
  refine ⟨spared, fun target reaches otherReaches => ?_⟩
  -- The lists of the value and of the arguments hold nothing else, neither before nor after.
  have closed : after.Closed
      (heap.ReachedFrom fun value => value = mine ∨ value ∈ arguments) := by
    intro owned belongs element member
    have before := closed_reachedFrom heap (fun value => value = mine ∨ value ∈ arguments) owned
      belongs element
    by_cases same : owned = address
    · rw [same] at member
      rcases edited.holds element member with held | given
      · rw [← same] at held
        exact before held
      · exact belongs_reachedFrom (Or.inr given) (.self element)
    · rw [elements_congr (edited.others owned same)] at member
      exact before member
  have start : mine.Belongs (heap.ReachedFrom fun value => value = mine ∨ value ∈ arguments) :=
    belongs_reachedFrom (Or.inl rfl) (.self mine)
  obtain ⟨value, source, further⟩ := closed.reaches start reaches
  have otherBefore := spared.reaches_iff.mp otherReaches
  rcases source with same | given
  · rw [same] at further
    exact apart target further otherBefore
  · exact through.2 value given target further otherBefore

/-- Calls through one value are not noticed in the other. -/
theorem spared_of_calls_through (apart : heap.Apart mine other)
    (calls : Calls (Through mine other) ⟨heap, sink⟩ final) : heap.Spared final.heap other := by
  have kept : heap.Spared final.heap other ∧ final.heap.Apart mine other := by
    refine calls.preserves
      (fun now => heap.Spared now other ∧ now.Apart mine other) ?_ ⟨fun _ _ => rfl, apart⟩
    intro now after address arguments through edited ⟨spared, different⟩
    obtain ⟨next, still⟩ := apart_of_edited edited different through
    exact ⟨spared.trans next, still⟩
  exact kept.1

end Through

/-- A copy of a value that ends has the same text.  Nothing that was there before has changed, and
the lists of the copy are new, with no list in two places.  Calls through the value or the copy,
on the lists they had to begin with or on those they have come to hold, do not change the text of
the other.  Whether two values are the same does not depend on their order, and a value is the
same as its copy exactly if all numbers in it are finite. -/
theorem copy_equal_and_independent {heap : Heap} {value : Value} (grounded : heap.Grounded value) :
    let copied := (copy value heap).1
    let after := (copy value heap).2
    after.render copied = heap.render value ∧
    heap.Kept after ∧ after.objects = heap.objects ∧
    (∀ address, after.Reaches copied (.list address) → heap.Between after address) ∧
    after.Unshared copied ∧
    (∀ sink final,
      Calls (fun _ receiver _ => after.Reaches copied receiver) ⟨after, sink⟩ final ∨
        Calls (Through copied value) ⟨after, sink⟩ final →
      final.heap.render value = heap.render value) ∧
    (∀ sink final,
      Calls (fun _ receiver _ => after.Reaches value receiver) ⟨after, sink⟩ final ∨
        Calls (Through value copied) ⟨after, sink⟩ final →
      final.heap.render copied = heap.render value) ∧
    (∀ other, heap.Grounded other → heap.same value other = heap.same other value) ∧
    (after.same value copied = true ↔ heap.Finite value) := by
  intro copied after
  obtain ⟨grown, belongs⟩ := grows_copy value heap
  have apart := apart_of_copy grounded
  have still := grown.kept.sustains value grounded
  have copiedGrounded := grounded_copy value heap
  have unchanged := (grown.kept.spared grounded).render_eq grounded
  have text : after.render copied = heap.render value :=
    render_of_alike grounded.alike_copy grounded copiedGrounded
  refine ⟨text, grown.kept, grown.objects, ?_, ?_, ?_, ?_, ?_, same_copy_iff grounded⟩
  · exact fun address reaches => grown.closed.reaches belongs reaches
  · exact unshared_copyWithin heap.depthBound [] value heap
  · intro sink final calls
    have spared : after.Spared final.heap value :=
      calls.elim (spared_of_calls apart.symm) (spared_of_calls_through apart.symm)
    exact (spared.render_eq still).trans unchanged
  · intro sink final calls
    have spared : after.Spared final.heap copied :=
      calls.elim (spared_of_calls apart) (spared_of_calls_through apart)
    exact (spared.render_eq copiedGrounded).trans text
  · exact fun other otherGrounded => same_comm grounded otherGrounded

/-- A list holds another one twice.  Its copy holds two lists, and adding to one of them is not
seen in the list. -/
theorem copy_equal_and_independent_shared :
    let heap : Heap := ⟨#[#[.number 1], #[.list 0, .list 0]], 0⟩
    let after := (copy (.list 1) heap).2
    heap.Grounded (.list 1) ∧ (copy (.list 1) heap).1 = .list 4 ∧
      after.elements 4 = [.list 2, .list 3] ∧
      after.render (.list 4) = heap.render (.list 1) ∧ heap.Finite (.list 1) ∧
      ∃ final, World.onHeap (add (.list 2) [.number 5] 1) ⟨after, {}⟩ = .ok none final ∧
        final.heap.elements 2 = [.number 1, .number 5] ∧
        final.heap.render (.list 1) = heap.render (.list 1) := by
  intro heap after
  have ordered : ∀ address < heap.lists.size, ∀ element ∈ heap.elements address,
      element.Belongs (· < address) := by decide
  have grounded : heap.Grounded (.list 1) := grounded_of_ordered ordered (by decide)
  obtain ⟨text, _, _, _, _, independent, _, _, finite⟩ := copy_equal_and_independent grounded
  have adding : (⟨"add", .atLeast 1, add⟩ : ListMethod) ∈ all := .tail _ (.tail _ (.head _))
  have added : World.onHeap (add (.list 2) [.number 5] 1) ⟨after, {}⟩ =
      .ok none ⟨(update 2 (fun values => values ++ [Value.number 5]) after).2, {}⟩ := rfl
  have inside : after.Reaches (.list 4) (.list 2) := .inside List.mem_cons_self (.self _)
  refine ⟨grounded, rfl, rfl, text, finite.mp (by decide), _, added, rfl, ?_⟩
  exact independent {} _ (Or.inl (.returned adding .itself inside added (.done _)))

end Heap
end Scriptlet
