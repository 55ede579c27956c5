import Mathlib.Data.List.Nodup
import Scriptlet.Proofs.Removal

namespace Scriptlet
namespace ListMethod

/-!
# Calls of list methods

What a method does is said by a table: for each name, which arguments it takes, what it produces,
and what the list that it is called on holds afterwards.  A call returns if the table has an entry
for it, and then it changes what the table says and nothing else.  A call that fails changes
nothing at all.

Scripts reach the methods through the library, which counts the arguments first.  Three of the
methods count them for themselves and fail in the same way, so that nobody can tell which of the
two it was.
-/

open Heap

/-- What a method produces, and the elements of its list afterwards. -/
def Effect (heap : Heap) (address line : Nat) (arguments : List Value) (result : Option Value)
    (elements : List Value) : String → Prop
  | "at" => ∃ argument index, arguments = [argument] ∧ position argument line heap = .ok index ∧
      index < (heap.elements address).length ∧ result = (heap.elements address)[index]? ∧
      elements = heap.elements address
  | "count" => ∃ total, Number.ofIntOn line (heap.elements address).length = .ok total ∧
      result = some (.number total) ∧ elements = heap.elements address
  | "add" => result = none ∧ elements = heap.elements address ++ arguments
  | "remove" => result = none ∧ ∃ found, heap.Drops (heap.elements address) arguments found elements
  | "insert" => ∃ argument value index, arguments = [argument, value] ∧
      position argument line heap = .ok index ∧ index ≤ (heap.elements address).length ∧
      result = none ∧
      elements = (heap.elements address).take index ++ value :: (heap.elements address).drop index
  | "remove_at" => ∃ argument index, arguments = [argument] ∧
      position argument line heap = .ok index ∧ index < (heap.elements address).length ∧
      result = none ∧
      elements = (heap.elements address).take index ++ (heap.elements address).drop (index + 1)
  | "clear" => result = none ∧ elements = []
  | "contains" => elements = heap.elements address ∧
      result = some (.truth (decide (∃ argument ∈ arguments, ∃ element ∈ heap.elements address,
        heap.same element argument = true)))
  | "contains_all" => elements = heap.elements address ∧
      result = some (.truth (decide (∀ argument ∈ arguments, ∃ element ∈ heap.elements address,
        heap.same element argument = true)))
  | _ => False

/-- A method returns what the table says and puts into its list what the table says.  Values have
to end only where they are compared while the list changes. -/
def Meets (name : String) (body : Body) : Prop :=
  ∀ {heap : Heap} {receiver : Value} {arguments : List Value},
    (name = "remove" → heap.Grounded receiver ∧ ∀ argument ∈ arguments, heap.Grounded argument) →
    ∀ line result after, body receiver arguments line heap = .ok result after ↔
      ∃ address elements, receiver = .list address ∧
        Effect heap address line arguments result elements name ∧
        after = (update address (fun _ => elements.toArray) heap).2

section Steps

variable {heap after : Heap} {address : Nat} {α : Type}

theorem read_eq_ok {reader : Heap → Except RuntimeFault α} {result : α} :
    Action.read reader heap = .ok result after ↔ reader heap = .ok result ∧ after = heap := by
  unfold Action.read
  cases reader heap with
  | ok found =>
      constructor
      · intro same
        cases same
        exact ⟨rfl, rfl⟩
      · intro same
        cases same.1
        rw [same.2]
  | error fault =>
      constructor
      · intro same
        cases same
      · intro same
        cases same.1

theorem edit_eq_ok {plan : Heap → Except RuntimeFault Edit} {result : Option Value} :
    edit plan heap = .ok result after ↔ result = none ∧
      ∃ planned, plan heap = .ok planned ∧
        after = (update planned.address planned.change heap).2 := by
  constructor
  · intro ran
    obtain ⟨planned, between, found, changed⟩ := bind_eq_ok ran
    obtain ⟨found, unchanged⟩ := read_eq_ok.mp found
    rw [unchanged] at changed
    cases changed
    exact ⟨rfl, planned, found, rfl⟩
  · intro ⟨nothing, planned, found, changed⟩
    rw [nothing, changed]
    exact bind_of_ok (read_eq_ok.mpr ⟨found, rfl⟩)

/-- A change of what a list holds, by what it holds afterwards. -/
theorem update_eq {change : Array Value → Array Value} {elements : List Value}
    (holds : (change (heap.storage address)).toList = elements) :
    (update address change heap).2 = (update address (fun _ => elements.toArray) heap).2 := by
  have planned : update address change heap = update address (fun _ => elements.toArray) heap := by
    apply Likeness.update_congr
    rw [← holds, Array.toArray_toList]
  rw [planned]

theorem update_elements :
    (update address (fun _ => (heap.elements address).toArray) heap).2 = heap :=
  update_eq_self Array.toArray_toList

theorem length_elements : (heap.elements address).length = heap.count address :=
  Array.length_toList

/-- A change at a position of the list.  It is made only if the position lies within bounds. -/
theorem edit_at_position_eq_ok {within : Nat → Nat → Prop} [DecidableRel within]
    {change : Nat → Array Value → Array Value} {receiver argument : Value} {line : Nat}
    {result : Option Value} {changed : Nat → Nat → List Value}
    (holds : ∀ address index, within index (heap.elements address).length →
      (change index (heap.storage address)).toList = changed address index) :
    edit (fun heap => do
        let address ← heap.asList receiver line
        let index ← position argument line heap
        if within index (heap.count address) then .ok ⟨address, change index⟩
        else .error (.indexOutOfBounds index (heap.count address) line)) heap = .ok result after ↔
      ∃ address index, receiver = .list address ∧ position argument line heap = .ok index ∧
        within index (heap.elements address).length ∧ result = none ∧
        after = (update address (fun _ => (changed address index).toArray) heap).2 := by
  constructor
  · intro ran
    obtain ⟨nothing, planned, found, made⟩ := edit_eq_ok.mp ran
    obtain ⟨address, listed, found⟩ := found_of_bind found
    obtain ⟨index, placed, found⟩ := found_of_bind found
    rw [← length_elements] at found
    split at found
    · next inside =>
        cases found
        exact ⟨address, index, eq_list_of_asList listed, placed, inside, nothing,
          made.trans (update_eq (holds address index inside))⟩
    · cases found
  · intro ⟨address, index, listed, placed, inside, nothing, made⟩
    rw [listed]
    refine edit_eq_ok.mpr ⟨nothing, ⟨address, change index⟩, ?_,
      made.trans (update_eq (holds address index inside)).symm⟩
    change (position argument line heap >>= fun index => _) = _
    rw [placed]
    exact if_pos inside

end Steps

theorem insertIdx_eq {α : Type} {xs : List α} {index : Nat} (value : α)
    (inside : index ≤ xs.length) :
    xs.insertIdx index value = xs.take index ++ value :: xs.drop index := by
  induction xs generalizing index with
  | nil =>
      cases Nat.le_zero.mp inside
      rfl
  | cons x rest inductionHypothesis =>
      cases index with
      | zero => rfl
      | succ index =>
          have inside := Nat.le_of_succ_le_succ inside
          rw [List.insertIdx_succ_cons, inductionHypothesis inside]
          rfl

/-! ## Methods that change their list -/

theorem meets_add : Meets "add" add := by
  intro heap receiver arguments _ line result after
  refine edit_eq_ok.trans ?_
  constructor
  · intro ⟨nothing, planned, found, changed⟩
    obtain ⟨address, listed, found⟩ := found_of_bind found
    cases found
    exact ⟨address, _, eq_list_of_asList listed, ⟨nothing, rfl⟩,
      changed.trans (update_eq Array.toList_appendList)⟩
  · intro ⟨address, elements, listed, ⟨nothing, added⟩, changed⟩
    rw [listed]
    have holds := Array.toList_appendList.trans added.symm
    exact ⟨nothing, _, rfl, changed.trans (update_eq holds).symm⟩

theorem meets_clear : Meets "clear" clear := by
  intro heap receiver arguments _ line result after
  refine edit_eq_ok.trans ?_
  constructor
  · intro ⟨nothing, planned, found, changed⟩
    obtain ⟨address, listed, found⟩ := found_of_bind found
    cases found
    exact ⟨address, _, eq_list_of_asList listed, ⟨nothing, rfl⟩, changed⟩
  · intro ⟨address, elements, listed, ⟨nothing, cleared⟩, changed⟩
    rw [listed]
    rw [cleared] at changed
    exact ⟨nothing, _, rfl, changed⟩

/-- The elements of a list with one more. -/
theorem inserted_toList {heap : Heap} {address index : Nat} (value : Value)
    (inside : index ≤ (heap.elements address).length) :
    ((heap.storage address).insertIdxIfInBounds index value).toList =
      (heap.elements address).take index ++ value :: (heap.elements address).drop index := by
  have bound : index ≤ (heap.storage address).size := inside
  rw [Array.insertIdxIfInBounds, dif_pos bound, Array.toList_insertIdx]
  exact insertIdx_eq value inside

theorem meets_insert : Meets "insert" insert := by
  intro heap receiver arguments _ line result after
  constructor
  · intro ran
    unfold insert at ran
    split at ran
    · next argument value _ =>
        obtain ⟨address, index, listed, placed, inside, nothing, changed⟩ :=
          (edit_at_position_eq_ok fun _ _ => inserted_toList value).mp ran
        exact ⟨address, _, listed, ⟨argument, value, index, rfl, placed, inside, nothing, rfl⟩,
          changed⟩
    · cases ran
  · intro ⟨address, elements, listed, effect, changed⟩
    obtain ⟨argument, value, index, given, placed, inside, nothing, inserted⟩ := effect
    rw [inserted] at changed
    rw [given]
    exact (edit_at_position_eq_ok fun _ _ => inserted_toList value).mpr
      ⟨address, index, listed, placed, inside, nothing, changed⟩

theorem erased_toList {heap : Heap} {address : Nat} (index : Nat) :
    ((heap.storage address).eraseIdxIfInBounds index).toList =
      (heap.elements address).take index ++ (heap.elements address).drop (index + 1) := by
  rw [Array.toList_eraseIdxIfInBounds]
  exact List.eraseIdx_eq_take_drop_succ _ index

theorem meets_removeAt : Meets "remove_at" removeAt := by
  intro heap receiver arguments _ line result after
  constructor
  · intro ran
    unfold removeAt at ran
    split at ran
    · next argument _ =>
        obtain ⟨address, index, listed, placed, inside, nothing, changed⟩ :=
          (edit_at_position_eq_ok fun _ index _ => erased_toList index).mp ran
        exact ⟨address, _, listed, ⟨argument, index, rfl, placed, inside, nothing, rfl⟩, changed⟩
    · cases ran
  · intro ⟨address, elements, listed, effect, changed⟩
    obtain ⟨argument, index, given, placed, inside, nothing, erased⟩ := effect
    rw [erased] at changed
    rw [given]
    exact (edit_at_position_eq_ok fun _ index _ => erased_toList index).mpr
      ⟨address, index, listed, placed, inside, nothing, changed⟩

theorem meets_remove : Meets "remove" remove := by
  intro heap receiver arguments ends line result after
  obtain ⟨receiving, given⟩ := ends rfl
  constructor
  · intro ran
    obtain ⟨address, between, listed, _⟩ := bind_eq_ok ran
    cases eq_list_of_asList (read_eq_ok.mp listed).1
    rw [remove_eq receiving given] at ran
    cases ran
    exact ⟨address, _, rfl, ⟨rfl, drops_without heap (heap.storage address) arguments⟩,
      update_eq rfl⟩
  · intro ⟨address, elements, listed, ⟨nothing, found, drops⟩, changed⟩
    cases listed
    have holds := drops.eq_without
    rw [Heap.elements, Array.toArray_toList] at holds
    rw [remove_eq receiving given, nothing, changed, update_eq holds.symm]

/-! ## Methods that look -/

/-- A reader that finds the list of the receiver first. -/
theorem meets_read {heap : Heap} {receiver : Value} {line : Nat}
    {reader : Heap → Except RuntimeFault (Option Value)}
    {next : Nat → Except RuntimeFault (Option Value)} {result : Option Value} {after : Heap}
    {effect : Nat → List Value → Prop}
    (starts : reader heap = heap.asList receiver line >>= next)
    (reads : ∀ address elements, effect address elements ↔
      next address = .ok result ∧ elements = heap.elements address) :
    Action.read reader heap = .ok result after ↔
      ∃ address elements, receiver = .list address ∧ effect address elements ∧
        after = (update address (fun _ => elements.toArray) heap).2 := by
  rw [read_eq_ok, starts]
  constructor
  · intro ⟨found, unchanged⟩
    obtain ⟨address, listed, found⟩ := found_of_bind found
    exact ⟨address, _, eq_list_of_asList listed, (reads address _).mpr ⟨found, rfl⟩,
      unchanged.trans update_elements.symm⟩
  · intro ⟨address, elements, listed, effect, changed⟩
    obtain ⟨found, same⟩ := (reads address elements).mp effect
    rw [listed]
    rw [same, update_elements] at changed
    exact ⟨found, changed⟩

theorem meets_count : Meets "count" count := by
  intro heap receiver arguments _ line result after
  refine meets_read rfl fun address elements => ?_
  rw [← length_elements]
  constructor
  · intro ⟨total, counted, produced, same⟩
    rw [counted, produced]
    exact ⟨rfl, same⟩
  · intro ⟨found, same⟩
    obtain ⟨total, counted, produced⟩ := found_of_bind found
    cases produced
    exact ⟨total, counted, rfl, same⟩

theorem holds_eq_true {heap : Heap} {address : Nat} {value : Value} :
    heap.holds address value = true ↔
      ∃ element ∈ heap.elements address, heap.same element value = true := by
  rw [holds, ← Array.any_toList, List.any_eq_true]
  rfl

theorem told_iff {told result : Option Value} {unchanged : Prop} :
    (unchanged ∧ result = told) ↔
      (Except.ok told : Except RuntimeFault (Option Value)) = .ok result ∧ unchanged := by
  constructor
  · intro ⟨same, produced⟩
    rw [produced]
    exact ⟨rfl, same⟩
  · intro ⟨produced, same⟩
    cases produced
    exact ⟨same, rfl⟩

theorem meets_contains : Meets "contains" contains := by
  intro heap receiver arguments _ line result after
  refine meets_read rfl fun address elements => ?_
  have found : arguments.any (heap.holds address) = decide (∃ argument ∈ arguments,
      ∃ element ∈ heap.elements address, heap.same element argument = true) := by
    rw [Bool.eq_iff_iff, decide_eq_true_iff, List.any_eq_true]
    exact exists_congr fun argument => and_congr_right fun _ => holds_eq_true
  rw [found]
  exact told_iff

theorem meets_containsAll : Meets "contains_all" containsAll := by
  intro heap receiver arguments _ line result after
  refine meets_read rfl fun address elements => ?_
  have found : arguments.all (heap.holds address) = decide (∀ argument ∈ arguments,
      ∃ element ∈ heap.elements address, heap.same element argument = true) := by
    rw [Bool.eq_iff_iff, decide_eq_true_iff, List.all_eq_true]
    exact forall_congr' fun argument => forall_congr' fun _ => holds_eq_true
  rw [found]
  exact told_iff

theorem element_single {heap : Heap} {receiver argument : Value} (line : Nat)
    (result : Option Value) (after : Heap) :
    element receiver [argument] line heap = .ok result after ↔
      ∃ address elements, receiver = .list address ∧
        Effect heap address line [argument] result elements "at" ∧
        after = (update address (fun _ => elements.toArray) heap).2 := by
  unfold element
  refine meets_read rfl fun address elements => ?_
  constructor
  · intro ⟨other, index, given, placed, inside, produced, same⟩
    cases given
    have found : (heap.storage address)[index]? = some (heap.elements address)[index] := by
      rw [← Array.getElem?_toList]
      exact List.getElem?_eq_getElem inside
    rw [List.getElem?_eq_getElem inside] at produced
    refine ⟨?_, same⟩
    rw [placed, produced]
    simp only [bind, Except.bind, found]
  · intro ⟨found, same⟩
    obtain ⟨index, placed, found⟩ := found_of_bind found
    split at found
    · next value stored =>
        cases found
        rw [← Array.getElem?_toList] at stored
        obtain ⟨inside, _⟩ := List.getElem?_eq_some_iff.mp stored
        exact ⟨argument, index, rfl, placed, inside, stored.symm, same⟩
    · cases found

theorem meets_element : Meets "at" element := by
  intro heap receiver arguments _ line result after
  match arguments with
  | [argument] => exact element_single line result after
  | [] | _ :: _ :: _ =>
      constructor
      · intro ran
        cases ran
      · intro ⟨_, _, _, ⟨_, _, given, _⟩, _⟩
        cases given

theorem meets {method : ListMethod} (member : method ∈ all) : Meets method.name method.body := by
  simp only [all, List.mem_cons, List.not_mem_nil, or_false] at member
  rcases member with rfl | rfl | rfl | rfl | rfl | rfl | rfl | rfl | rfl
  · exact meets_element
  · exact meets_count
  · exact meets_add
  · exact meets_remove
  · exact meets_insert
  · exact meets_removeAt
  · exact meets_clear
  · exact meets_contains
  · exact meets_containsAll

/-- No two methods have the same name. -/
theorem eq_of_name {method other : ListMethod} (member : method ∈ all) (otherMember : other ∈ all)
    (same : method.name = other.name) : method = other :=
  List.inj_on_of_nodup_map (f := ListMethod.name) (by decide) member otherMember same

/-! ## Calls that fail -/

/-- An action that changes nothing if it fails. -/
def Atomic {α : Type} (action : Heap.Action α) : Prop :=
  ∀ heap fault after, action heap = .error fault after → after = heap

section Atomic

variable {α β : Type}

theorem atomic_throw (fault : RuntimeFault) : Atomic (throw fault : Heap.Action α) := by
  intro heap found after failed
  cases failed
  rfl

theorem atomic_read (reader : Heap → Except RuntimeFault α) : Atomic (Action.read reader) := by
  intro heap fault after failed
  unfold Action.read at failed
  split at failed
  · cases failed
  · cases failed
    rfl

/-- Nothing has changed yet when the only step fails that can. -/
theorem Atomic.followed {first : Heap.Action α} (atomic : Atomic first) {next : α → Heap.Action β}
    (returns : ∀ result heap, ∃ final after, next result heap = .ok final after) :
    Atomic (first >>= next) := by
  intro heap fault after failed
  cases ran : first heap with
  | ok result between =>
      obtain ⟨final, last, ended⟩ := returns result between
      rw [bind_of_ok ran, ended] at failed
      cases failed
  | error found between =>
      rw [bind_of_error ran] at failed
      cases failed
      exact atomic heap fault after ran

theorem atomic_edit (plan : Heap → Except RuntimeFault Edit) : Atomic (edit plan) :=
  (atomic_read plan).followed fun _ _ => ⟨_, _, rfl⟩

theorem atomic_element (receiver : Value) (arguments : List Value) (line : Nat) :
    Atomic (element receiver arguments line) := by
  unfold element
  split
  · exact atomic_read _
  · exact atomic_throw _

theorem atomic_insert (receiver : Value) (arguments : List Value) (line : Nat) :
    Atomic (insert receiver arguments line) := by
  unfold insert
  split
  · exact atomic_edit _
  · exact atomic_throw _

theorem atomic_removeAt (receiver : Value) (arguments : List Value) (line : Nat) :
    Atomic (removeAt receiver arguments line) := by
  unfold removeAt
  split
  · exact atomic_edit _
  · exact atomic_throw _

end Atomic

theorem atomic_body {method : ListMethod} (member : method ∈ all) (receiver : Value)
    (arguments : List Value) (line : Nat) : Atomic (method.body receiver arguments line) := by
  simp only [all, List.mem_cons, List.not_mem_nil, or_false] at member
  rcases member with rfl | rfl | rfl | rfl | rfl | rfl | rfl | rfl | rfl
  · exact atomic_element receiver arguments line
  · exact atomic_read _
  · exact atomic_edit _
  · exact (atomic_read _).followed fun _ _ => ⟨_, _, rfl⟩
  · exact atomic_insert receiver arguments line
  · exact atomic_removeAt receiver arguments line
  · exact atomic_edit _
  · exact atomic_read _
  · exact atomic_read _

/-! ## What a call leaves alone -/

/-- At most the list at the address has changed, and what is new in it is one of the arguments. -/
structure Edited (heap after : Heap) (address : Nat) (arguments : List Value) : Prop where
  size : after.lists.size = heap.lists.size
  objects : after.objects = heap.objects
  others : ∀ other, other ≠ address → after.lists[other]? = heap.lists[other]?
  holds : ∀ element ∈ after.elements address,
    element ∈ heap.elements address ∨ element ∈ arguments

section Edited

variable {heap between after : Heap} {address : Nat} {arguments : List Value}

theorem Edited.refl (heap : Heap) (address : Nat) (arguments : List Value) :
    Edited heap heap address arguments where
  size := rfl
  objects := rfl
  others _ _ := rfl
  holds _ := Or.inl

theorem Edited.trans (first : Edited heap between address arguments)
    (second : Edited between after address arguments) : Edited heap after address arguments where
  size := second.size.trans first.size
  objects := second.objects.trans first.objects
  others other different := (second.others other different).trans (first.others other different)
  holds element member := (second.holds element member).elim (first.holds element) Or.inr

/-- A list that was never made stays empty. -/
theorem mem_elements_update {change : Array Value → Array Value} {element : Value}
    (member : element ∈ (update address change heap).2.elements address) :
    element ∈ (change (heap.storage address)).toList := by
  by_cases stored : address < heap.lists.size
  · rw [elements_update_self stored] at member
    exact member
  · have missing : (update address change heap).2.lists[address]? = none := by
      apply Array.getElem?_eq_none
      rw [size_update]
      exact Nat.le_of_not_lt stored
    rw [elements, storage, missing] at member
    cases member

theorem edited_update {change : Array Value → Array Value}
    (within : ∀ element ∈ (change (heap.storage address)).toList,
      element ∈ heap.elements address ∨ element ∈ arguments) :
    Edited heap (update address change heap).2 address arguments where
  size := size_update address change heap
  objects := rfl
  others _ different := getElem?_update_of_ne different change heap
  holds element member := within element (mem_elements_update member)

theorem edited_removeEach (values : List Value) :
    Edited heap (values.forM (removeFirst address) heap).2 address arguments := by
  induction values generalizing heap with
  | nil => exact Edited.refl heap address arguments
  | cons value rest inductionHypothesis =>
      have removed : Edited heap (removeFirst address value heap).2 address arguments :=
        edited_update fun element member => Or.inl (eraseFirst_subset value _ member)
      exact removed.trans inductionHypothesis

/-- What the table puts into a list was there before or was given. -/
theorem Effect.within {name : String} {line : Nat} {result : Option Value} {elements : List Value}
    (effect : Effect heap address line arguments result elements name) :
    ∀ element ∈ elements, element ∈ heap.elements address ∨ element ∈ arguments := by
  unfold Effect at effect
  split at effect
  · obtain ⟨_, _, _, _, _, _, same⟩ := effect
    rw [same]
    exact fun _ => Or.inl
  · obtain ⟨_, _, _, same⟩ := effect
    rw [same]
    exact fun _ => Or.inl
  · rw [effect.2]
    exact fun _ => List.mem_append.mp
  · obtain ⟨_, _, drops⟩ := effect
    exact fun _ member => Or.inl (drops.sublist.subset member)
  · obtain ⟨_, value, index, given, _, _, _, inserted⟩ := effect
    rw [inserted, given]
    intro element member
    rcases List.mem_append.mp member with front | rest
    · exact Or.inl (List.mem_of_mem_take front)
    · rcases List.mem_cons.mp rest with same | back
      · rw [same]
        exact Or.inr (.tail _ (.head _))
      · exact Or.inl (List.mem_of_mem_drop back)
  · obtain ⟨_, index, _, _, _, _, erased⟩ := effect
    rw [erased]
    intro element member
    rcases List.mem_append.mp member with front | back
    · exact Or.inl (List.mem_of_mem_take front)
    · exact Or.inl (List.mem_of_mem_drop back)
  · rw [effect.2]
    exact List.forall_mem_nil _
  · rw [effect.1]
    exact fun _ => Or.inl
  · rw [effect.1]
    exact fun _ => Or.inl
  · exact effect.elim

/-- A method that returns was called on a list and changed no other one. -/
theorem edited_body {method : ListMethod} (member : method ∈ all) {receiver : Value} {line : Nat}
    {result : Option Value} (ran : method.body receiver arguments line heap = .ok result after) :
    ∃ address, receiver = .list address ∧ Edited heap after address arguments := by
  by_cases removal : method.name = "remove"
  · -- The table says what is removed from values that end; this holds of all others, too.
    have itself : method = ⟨"remove", .atLeast 1, remove⟩ :=
      eq_of_name member (.tail _ (.tail _ (.tail _ (.head _)))) removal
    rw [itself] at ran
    obtain ⟨address, between, listed, removed⟩ := bind_eq_ok ran
    obtain ⟨found, unchanged⟩ := read_eq_ok.mp listed
    rw [unchanged] at removed
    cases removed
    exact ⟨address, eq_list_of_asList found, edited_removeEach arguments⟩
  · obtain ⟨address, elements, listed, effect, changed⟩ :=
      (meets member (fun same => absurd same removal) line result after).mp ran
    rw [changed]
    exact ⟨address, listed, edited_update fun element held => effect.within element held⟩

end Edited

/-! ## Insertions that are undone -/

theorem position_elsewhere {argument : Value} {line index : Nat} {heap : Heap}
    (placed : position argument line heap = .ok index) (later : Nat) (after : Heap) :
    position argument later after = .ok index := by
  obtain ⟨x, number, placed⟩ := found_of_bind placed
  cases argument with
  | number y =>
      cases number
      change Number.indexOn line x = .ok index at placed
      change Number.indexOn later x = .ok index
      unfold Number.indexOn at placed ⊢
      split at placed
      · exact placed
      · cases placed
      · cases placed
  | _ => cases number

/-- The element is at the position afterwards, and the others are as before without it. -/
theorem inserted_back {α : Type} {xs : List α} {index : Nat} (value : α)
    (inside : index ≤ xs.length) :
    (xs.take index ++ value :: xs.drop index)[index]? = some value ∧
      (xs.take index ++ value :: xs.drop index).take index ++
        (xs.take index ++ value :: xs.drop index).drop (index + 1) = xs := by
  rw [← List.eraseIdx_eq_take_drop_succ, ← insertIdx_eq value inside]
  constructor
  · rw [List.getElem?_insertIdx_self, if_pos inside]
  · exact List.eraseIdx_insertIdx_self value

theorem insert_undone {heap after : Heap} {address line : Nat} {argument value : Value}
    {result : Option Value} (stored : address < heap.lists.size)
    (inserted : insert (.list address) [argument, value] line heap = .ok result after)
    (later : Nat) :
    element (.list address) [argument] later after = .ok (some value) after ∧
      removeAt (.list address) [argument] later after = .ok none heap := by
  obtain ⟨_, elements, listed, effect, changed⟩ :=
    (meets_insert (fun same => absurd same (by decide)) line result after).mp inserted
  cases listed
  obtain ⟨_, _, index, given, placed, inside, _, holds⟩ := effect
  cases given
  have now : after.elements address = elements := by
    rw [changed, elements_update_self stored]
  obtain ⟨found, back⟩ := inserted_back value inside
  rw [← holds, ← now] at found back
  have bound := (List.getElem?_eq_some_iff.mp found).1
  have again := position_elsewhere placed later after
  constructor
  · exact (element_single later _ after).mpr ⟨address, after.elements address, rfl,
      ⟨argument, index, rfl, again, bound, found.symm, rfl⟩, update_elements.symm⟩
  · refine (meets_removeAt (fun same => absurd same (by decide)) later none heap).mpr
      ⟨address, heap.elements address, rfl, ?_, ?_⟩
    · exact ⟨argument, index, rfl, again, bound, rfl, back.symm⟩
    · rw [changed, update_update, update_elements]

/-! ## Calls through the library -/

/-- The ways to call a method: by itself, or through the library under its name. -/
inductive CalledAs (method : ListMethod) : HostMethod → Prop
  | itself : CalledAs method fun receiver arguments line =>
      World.onHeap (method.body receiver arguments line)
  | listed {call : HostMethod} :
      Standard.library.method? method.name = some call → CalledAs method call

section Calls

variable {method : ListMethod} {call : HostMethod} {world after : World}

theorem onHeap_eq_ok {α : Type} {action : Heap.Action α} {result : α} :
    World.onHeap action world = .ok result after ↔
      action world.heap = .ok result after.heap ∧ after.sink = world.sink := by
  obtain ⟨heap, sink⟩ := world
  cases ran : action heap with
  | ok found between =>
      rw [World.onHeap_of_ok ran]
      constructor
      · intro same
        cases same
        exact ⟨rfl, rfl⟩
      · intro ⟨same, sinks⟩
        cases same
        cases sinks
        rfl
  | error fault between =>
      rw [World.onHeap_of_error ran]
      constructor
      · intro same
        cases same
      · intro ⟨same, _⟩
        cases same

theorem onHeap_of_atomic {α : Type} {action : Heap.Action α} (atomic : Atomic action)
    {fault : RuntimeFault} (failed : World.onHeap action world = .error fault after) :
    after = world := by
  obtain ⟨heap, sink⟩ := world
  cases ran : action heap with
  | ok found between =>
      rw [World.onHeap_of_ok ran] at failed
      cases failed
  | error found between =>
      rw [World.onHeap_of_error ran] at failed
      cases failed
      rw [atomic heap fault between ran]

/-- The library refuses a call with the wrong number of arguments, and hands on every other one. -/
theorem CalledAs.body_or_refused (called : CalledAs method call) (member : method ∈ all)
    (receiver : Value) (arguments : List Value) (line : Nat) :
    call receiver arguments line = World.onHeap (method.body receiver arguments line) ∨
      method.arity.admits arguments.length = false ∧ call receiver arguments line =
        World.onHeap (throw (.argumentCount method.name method.arity arguments.length line)) := by
  cases called with
  | itself => exact Or.inl rfl
  | listed found =>
      obtain ⟨other, otherMember, same, standard⟩ := Likeness.standard_named found
      rw [standard, eq_of_name otherMember member same, Standard.method, checked]
      cases admitted : method.arity.admits arguments.length with
      | true => exact Or.inl rfl
      | false => exact Or.inr ⟨rfl, rfl⟩

/-- The methods with a fixed number of arguments that they use count them in the same way. -/
theorem counts_itself (member : method ∈ all)
    (counting : method.name ∈ ["at", "insert", "remove_at"]) (receiver : Value)
    {arguments : List Value} (refused : method.arity.admits arguments.length = false) (line : Nat) :
    method.body receiver arguments line =
      throw (.argumentCount method.name method.arity arguments.length line) := by
  simp only [List.mem_cons, List.not_mem_nil, or_false] at counting
  rcases counting with name | name | name
  · cases eq_of_name member (.head _) name
    match arguments with
    | [] | _ :: _ :: _ => rfl
    | [_] => cases refused
  · cases eq_of_name member (.tail _ (.tail _ (.tail _ (.tail _ (.head _))))) name
    match arguments with
    | [] | [_] | _ :: _ :: _ :: _ => rfl
    | [_, _] => cases refused
  · cases eq_of_name member (.tail _ (.tail _ (.tail _ (.tail _ (.tail _ (.head _)))))) name
    match arguments with
    | [] | _ :: _ :: _ => rfl
    | [_] => cases refused

theorem CalledAs.eq_body (called : CalledAs method call) (member : method ∈ all)
    (counting : method.name ∈ ["at", "insert", "remove_at"]) (receiver : Value)
    (arguments : List Value) (line : Nat) :
    call receiver arguments line = World.onHeap (method.body receiver arguments line) := by
  rcases called.body_or_refused member receiver arguments line with same | ⟨refused, same⟩
  · exact same
  · rw [same, counts_itself member counting receiver refused line]

theorem atomic_call (called : CalledAs method call) (member : method ∈ all) {receiver : Value}
    {arguments : List Value} {line : Nat} {fault : RuntimeFault}
    (failed : call receiver arguments line world = .error fault after) : after = world := by
  rcases called.body_or_refused member receiver arguments line with same | ⟨_, same⟩
  · rw [same] at failed
    exact onHeap_of_atomic (atomic_body member receiver arguments line) failed
  · rw [same] at failed
    exact onHeap_of_atomic (atomic_throw _) failed

/-- A call that returns went through. -/
theorem body_of_call (called : CalledAs method call) (member : method ∈ all) {receiver : Value}
    {arguments : List Value} {line : Nat} {result : Option Value}
    (returned : call receiver arguments line world = .ok result after) :
    method.body receiver arguments line world.heap = .ok result after.heap ∧
      after.sink = world.sink := by
  rcases called.body_or_refused member receiver arguments line with same | ⟨_, same⟩
  · rw [same] at returned
    exact onHeap_eq_ok.mp returned
  · rw [same] at returned
    cases returned

/-- The methods that look. -/
def looks (name : String) : Bool :=
  name ∈ ["at", "count", "contains", "contains_all"]

theorem Effect.looked {name : String} (looking : looks name = true) {heap : Heap}
    {address line : Nat} {arguments : List Value} {result : Option Value} {elements : List Value}
    (effect : Effect heap address line arguments result elements name) :
    elements = heap.elements address := by
  simp only [looks, List.mem_cons, List.not_mem_nil, or_false, decide_eq_true_eq] at looking
  rcases looking with rfl | rfl | rfl | rfl
  · obtain ⟨_, _, _, _, _, _, same⟩ := effect
    exact same
  · obtain ⟨_, _, _, same⟩ := effect
    exact same
  · exact effect.1
  · exact effect.1

/-- A call that fails leaves the world as it was.  A call that returns was made on a list; it has
the effect that the table says, on what every holder of the list sees, and it changes no other
list and nothing else.  It returns whenever the table has an entry for it and the arguments are as
many as the library asks for.  Insertions can be looked at and taken back.  It makes no difference
whether the methods that count their arguments are called through the library. -/
theorem calls_atomic_and_local (member : method ∈ all) (called : CalledAs method call)
    {receiver : Value} {arguments : List Value} (receiving : world.heap.Grounded receiver)
    (given : ∀ argument ∈ arguments, world.heap.Grounded argument) (line : Nat) :
    (∀ fault after, call receiver arguments line world = .error fault after → after = world) ∧
    (∀ result after, call receiver arguments line world = .ok result after →
      ∃ address, receiver = .list address ∧
        Effect world.heap address line arguments result (after.heap.elements address)
          method.name ∧
        Edited world.heap after.heap address arguments ∧ after.sink = world.sink ∧
        (looks method.name = true → after = world)) ∧
    (∀ address elements result, receiver = .list address →
      method.arity.admits arguments.length = true →
      Effect world.heap address line arguments result elements method.name →
      ∃ after, call receiver arguments line world = .ok result after ∧
        after.heap.elements address = elements) ∧
    (method.name = "insert" → ∀ argument value result after, arguments = [argument, value] →
      call receiver arguments line world = .ok result after →
      ∀ other ∈ all, ∀ again, CalledAs other again → ∀ later,
        (other.name = "at" → again receiver [argument] later after = .ok (some value) after) ∧
        (other.name = "remove_at" → again receiver [argument] later after = .ok none world)) ∧
    (method.name ∈ ["at", "insert", "remove_at"] → ∀ receiver arguments line world,
      call receiver arguments line world =
        World.onHeap (method.body receiver arguments line) world) := by
  have table := meets member fun _ => ⟨receiving, given⟩
  refine ⟨?_, ?_, ?_, ?_, ?_⟩
  · exact fun fault after failed => atomic_call called member failed
  · intro result after returned
    obtain ⟨ran, sinks⟩ := body_of_call called member returned
    obtain ⟨address, elements, listed, effect, changed⟩ :=
      (table line result after.heap).mp ran
    cases listed
    have now : after.heap.elements address = elements := by
      rw [changed, elements_update_self (receiving.stored address (.self _))]
    refine ⟨address, rfl, ?_, ?_, sinks, fun looking => ?_⟩
    · rw [now]
      exact effect
    · rw [changed]
      exact edited_update fun element held => effect.within element held
    · rw [effect.looked looking, update_elements] at changed
      cases world
      cases after
      cases changed
      cases sinks
      rfl
  · intro address elements result listed admitted effect
    rcases called.body_or_refused member receiver arguments line with same | ⟨refused, _⟩
    · have ran := (table line result _).mpr ⟨address, elements, listed, effect, rfl⟩
      rw [listed] at receiving
      refine ⟨⟨(update address (fun _ => elements.toArray) world.heap).2, world.sink⟩, ?_,
        elements_update_self (receiving.stored address (.self _)) _⟩
      rw [same]
      exact onHeap_eq_ok.mpr ⟨ran, rfl⟩
    · rw [admitted] at refused
      cases refused
  · intro name argument value result after pair returned other otherMember again otherCalled later
    obtain ⟨ran, sinks⟩ := body_of_call called member returned
    cases eq_of_name member (.tail _ (.tail _ (.tail _ (.tail _ (.head _))))) name
    obtain ⟨address, _, listed, _⟩ := (table line result after.heap).mp ran
    rw [listed] at receiving ran ⊢
    rw [pair] at ran
    obtain ⟨looked, undone⟩ := insert_undone (receiving.stored address (.self _)) ran later
    constructor
    · intro otherName
      cases eq_of_name otherMember (.head _) otherName
      rw [otherCalled.eq_body otherMember (by decide)]
      exact onHeap_eq_ok.mpr ⟨looked, rfl⟩
    · intro otherName
      cases eq_of_name otherMember
        (.tail _ (.tail _ (.tail _ (.tail _ (.tail _ (.head _)))))) otherName
      rw [otherCalled.eq_body otherMember (by decide)]
      exact onHeap_eq_ok.mpr ⟨undone, sinks.symm⟩
  · intro counting receiver arguments line world
    rw [called.eq_body member counting]

/-- An insertion into a list that another one holds twice.  It is seen in both places, and it is
taken back through the library. -/
theorem calls_atomic_and_local_shared :
    let world : World := ⟨⟨#[#[.number 1, .number 2], #[.list 0, .list 0]], 0⟩, {}⟩
    ∃ insertion removal after,
      Standard.library.method? "insert" = some insertion ∧
      Standard.library.method? "remove_at" = some removal ∧
      insertion (.list 0) [.number 1, .text "b"] 1 world = .ok none after ∧
      after.heap.elements 1 = [.list 0, .list 0] ∧
      after.heap.elements 0 = [.number 1, .text "b", .number 2] ∧
      removal (.list 0) [.number 1] 2 after = .ok none world := by
  intro world
  have ordered : ∀ address < world.heap.lists.size, ∀ element ∈ world.heap.elements address,
      element.Belongs (· < address) := by decide
  have receiving : world.heap.Grounded (.list 0) := grounded_of_ordered ordered (by decide)
  have given : ∀ argument ∈ [.number 1, .text "b"], world.heap.Grounded argument :=
    List.forall_mem_cons.mpr
      ⟨grounded_of_plain rfl, List.forall_mem_singleton.mpr (grounded_of_plain rfl)⟩
  have insertion : (⟨"insert", .exactly 2, insert⟩ : ListMethod) ∈ all :=
    .tail _ (.tail _ (.tail _ (.tail _ (.head _))))
  have removal : (⟨"remove_at", .exactly 1, removeAt⟩ : ListMethod) ∈ all :=
    .tail _ (.tail _ (.tail _ (.tail _ (.tail _ (.head _)))))
  obtain ⟨_, effects, returns, undone, _⟩ :=
    calls_atomic_and_local insertion (.listed rfl) receiving given 1
  obtain ⟨after, returned, holds⟩ := returns 0 _ none rfl rfl
    ⟨.number 1, .text "b", 1, rfl, rfl, by decide, rfl, rfl⟩
  obtain ⟨_, same, _, edited, _⟩ := effects none after returned
  cases same
  have others : after.heap.elements 1 = world.heap.elements 1 :=
    elements_congr (edited.others 1 (by decide))
  exact ⟨_, _, after, rfl, rfl, returned, others, holds,
    (undone rfl _ _ none after rfl returned _ removal _ (.listed rfl) 2).2 rfl⟩

end Calls

/-! ## Sequences of calls -/

/-- A sequence of calls that return or fail.  Which calls are made may depend on the heap that the
calls before have left. -/
inductive Calls (allowed : Heap → Value → List Value → Prop) : World → World → Prop
  | done (world : World) : Calls allowed world world
  | returned {method : ListMethod} {call : HostMethod} {world between after : World}
      {receiver : Value} {arguments : List Value} {line : Nat} {result : Option Value} :
      method ∈ all → CalledAs method call → allowed world.heap receiver arguments →
      call receiver arguments line world = .ok result between →
      Calls allowed between after → Calls allowed world after
  | failed {method : ListMethod} {call : HostMethod} {world between after : World}
      {receiver : Value} {arguments : List Value} {line : Nat} {fault : RuntimeFault} :
      method ∈ all → CalledAs method call → allowed world.heap receiver arguments →
      call receiver arguments line world = .error fault between →
      Calls allowed between after → Calls allowed world after

/-- What every change of an allowed list preserves is preserved by every sequence of calls. -/
theorem Calls.preserves {allowed : Heap → Value → List Value → Prop} {world after : World}
    (calls : Calls allowed world after) (invariant : Heap → Prop)
    (step : ∀ heap after address arguments, allowed heap (.list address) arguments →
      Edited heap after address arguments → invariant heap → invariant after)
    (holds : invariant world.heap) : invariant after.heap := by
  induction calls with
  | done world => exact holds
  | @returned method call world between after receiver arguments line result member called
      permitted returned _ inductionHypothesis =>
      have ran := (body_of_call called member returned).1
      obtain ⟨address, listed, edited⟩ := edited_body member ran
      rw [listed] at permitted
      exact inductionHypothesis (step _ _ address arguments permitted edited holds)
  | failed member called _ failed _ inductionHypothesis =>
      rw [atomic_call called member failed] at inductionHypothesis
      exact inductionHypothesis holds

/-- A list keeps its elements while calls are made on other lists. -/
theorem Calls.getElem?_eq {receivers : Value → Prop} {address : Nat} {world final : World}
    (calls : Calls (fun _ receiver _ => receivers receiver) world final)
    (apart : ¬ receivers (.list address)) :
    final.heap.lists[address]? = world.heap.lists[address]? := by
  refine calls.preserves (fun heap => heap.lists[address]? = world.heap.lists[address]?) ?_ rfl
  intro heap after other arguments permitted edited unchanged
  have different : address ≠ other := by
    intro same
    rw [same] at apart
    exact apart permitted
  rw [edited.others address different]
  exact unchanged

end ListMethod
end Scriptlet
