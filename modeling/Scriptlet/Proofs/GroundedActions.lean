import Scriptlet.Proofs.Groundedness

namespace Scriptlet
namespace Heap

/-!
# Operators and methods on grounded values

Operators and methods that are given grounded values yield grounded values, and what was
grounded before stays so.  Two methods put values into a list that is there already; they ask
for more.
-/

/-- What was grounded stays grounded, whether the action fails or not, and the result is as it
should be. -/
def Settles {α : Type} (results : Heap → α → Prop) (heap : Heap) (action : Action α) : Prop :=
  match action heap with
  | .ok result after => heap.Sustains after ∧ results after result
  | .error _ after => heap.Sustains after

/-- Any result will do. -/
def Anything {α : Type} (_ : Heap) (_ : α) : Prop :=
  True

/-- What is produced, if anything is, is grounded. -/
def GroundedIfAny (heap : Heap) (produced : Option Value) : Prop :=
  ∀ value ∈ produced, heap.Grounded value

/-- A reader that finds something found something in each of its steps. -/
theorem found_of_bind {α β : Type} {first : Except RuntimeFault β}
    {next : β → Except RuntimeFault α} {result : α} (found : (first >>= next) = .ok result) :
    ∃ middle, first = .ok middle ∧ next middle = .ok result := by
  cases first with
  | ok middle => exact ⟨middle, rfl, found⟩
  | error fault => cases found

theorem eq_list_of_asList {heap : Heap} {value : Value} {line address : Nat}
    (found : heap.asList value line = .ok address) : value = .list address := by
  cases value with
  | list other =>
      cases found
      rfl
  | _ => cases found

section Steps

variable {α β : Type} {results : Heap → α → Prop} {middle : Heap → β → Prop} {heap : Heap}

theorem settles_pure {result : α} (holds : results heap result) :
    Settles results heap (pure result) :=
  ⟨Sustains.refl heap, holds⟩

theorem settles_throw (fault : RuntimeFault) : Settles results heap (throw fault) :=
  Sustains.refl heap

theorem Settles.bind {first : Action β} {next : β → Action α}
    (starts : Settles middle heap first)
    (goesOn : ∀ result between, first heap = .ok result between → heap.Sustains between →
      middle between result → Settles results between (next result)) :
    Settles results heap (first >>= next) := by
  unfold Settles at starts ⊢
  cases ran : first heap with
  | ok result between =>
      rw [ran] at starts
      have ends := goesOn result between ran starts.1 starts.2
      unfold Settles at ends
      rw [bind_of_ok ran]
      cases ended : next result between with
      | ok final after =>
          rw [ended] at ends
          exact ⟨starts.1.trans ends.1, ends.2⟩
      | error fault after =>
          rw [ended] at ends
          exact starts.1.trans ends
  | error fault between =>
      rw [ran] at starts
      rw [bind_of_error ran]
      exact starts

/-- Looking changes nothing. -/
theorem settles_read {reader : Heap → Except RuntimeFault α}
    (found : ∀ result, reader heap = .ok result → results heap result) :
    Settles results heap (Action.read reader) := by
  unfold Settles Action.read
  cases seen : reader heap with
  | ok result => exact ⟨Sustains.refl heap, found result seen⟩
  | error fault => exact Sustains.refl heap

theorem settles_sure {step : StateM Heap α}
    (stepped : heap.Sustains (step heap).2 ∧ results (step heap).2 (step heap).1) :
    Settles results heap (Action.sure step) :=
  stepped

theorem settles_get {next : Heap → Action α} (goesOn : Settles results heap (next heap)) :
    Settles results heap (get >>= next) :=
  goesOn

theorem settles_keep {values : Array Value}
    (grounded : ∀ value ∈ values.toList, heap.Grounded value) :
    Settles Grounded heap (Action.sure (keep values)) :=
  settles_sure ⟨(kept_keep values heap).sustains, grounded_keep grounded⟩

end Steps

/-! ## Operators -/

section Operators

variable {heap : Heap} {left right : Value}

theorem grounded_storage {address : Nat} (grounded : heap.Grounded (.list address)) :
    ∀ value ∈ (heap.storage address).toList, heap.Grounded value :=
  fun _ member => grounded.element member

theorem settles_invalidOperands (operator : BinaryOperator) (line : Nat) :
    Settles Grounded heap (invalidOperands operator left right line) := by
  apply settles_read
  intro result found
  cases found

theorem eraseFirst_subset (value : Value) (values : Array Value) :
    (heap.eraseFirst value values).toList ⊆ values.toList := by
  rcases values with ⟨values⟩
  unfold eraseFirst
  rw [List.eraseP_toArray]
  exact List.eraseP_subset

theorem without_subset (values removed : Array Value) :
    (heap.without values removed).toList ⊆ values.toList := by
  unfold without
  rw [← Array.foldl_toList]
  generalize removed.toList = others
  induction others generalizing values with
  | nil => exact List.Subset.refl _
  | cons value rest inductionHypothesis =>
      exact List.Subset.trans (inductionHypothesis _) (eraseFirst_subset value values)

theorem settles_sum (leftGrounded : heap.Grounded left) (rightGrounded : heap.Grounded right)
    (line : Nat) : Settles Grounded heap (sum left right line) := by
  apply settles_get
  have text : Settles Grounded heap
      (if left.isText || right.isText then
        pure (.text (heap.render left ++ heap.render right))
        else invalidOperands .add left right line) := by
    split
    · exact settles_pure (grounded_of_plain rfl)
    · exact settles_invalidOperands .add line
  cases left with
  | number x =>
      cases right with
      | number y => exact settles_pure (grounded_of_plain rfl)
      | _ => exact text
  | list address =>
      have elements := grounded_storage leftGrounded
      cases right with
      | list other =>
          apply settles_keep
          rw [Array.toList_append]
          exact List.forall_mem_append.mpr ⟨elements, grounded_storage rightGrounded⟩
      | _ =>
          apply settles_keep
          rw [Array.toList_push]
          exact List.forall_mem_append.mpr
            ⟨elements, List.forall_mem_singleton.mpr rightGrounded⟩
  | _ => exact text

theorem settles_difference (leftGrounded : heap.Grounded left) (line : Nat) :
    Settles Grounded heap (difference left right line) := by
  apply settles_get
  have text : Settles Grounded heap
      (if left.isText || right.isText then
        pure (.text (erased (heap.render left) (heap.render right)))
        else invalidOperands .subtract left right line) := by
    split
    · exact settles_pure (grounded_of_plain rfl)
    · exact settles_invalidOperands .subtract line
  cases left with
  | number x =>
      cases right with
      | number y => exact settles_pure (grounded_of_plain rfl)
      | _ => exact text
  | list address =>
      have elements := grounded_storage leftGrounded
      cases right with
      | list other =>
          exact settles_keep fun value member => elements value (without_subset _ _ member)
      | _ =>
          exact settles_keep fun value member => elements value (eraseFirst_subset _ _ member)
  | _ => exact text

theorem settles_product (operator : BinaryOperator) (line : Nat) :
    Settles Grounded heap (product operator left right line) := by
  unfold product
  split
  · exact settles_pure (grounded_of_plain rfl)
  · exact settles_invalidOperands operator line

theorem settles_comparison (operator : BinaryOperator) (line : Nat) :
    Settles Grounded heap (comparison operator left right line) := by
  apply settles_get
  split
  · exact settles_pure (grounded_of_plain rfl)
  · exact settles_pure (grounded_of_plain rfl)
  · split
    · exact settles_pure (grounded_of_plain rfl)
    · exact settles_invalidOperands _ line
  · exact settles_invalidOperands _ line

theorem settles_connective (operator : BinaryOperator) (line : Nat) :
    Settles Grounded heap (connective operator left right line) := by
  unfold connective
  split
  · exact settles_pure (grounded_of_plain rfl)
  · exact settles_invalidOperands operator line

theorem settles_binary (leftGrounded : heap.Grounded left) (rightGrounded : heap.Grounded right)
    (operator : BinaryOperator) (line : Nat) :
    Settles Grounded heap (binary operator left right line) := by
  cases operator with
  | add => exact settles_sum leftGrounded rightGrounded line
  | subtract => exact settles_difference leftGrounded line
  | multiply | divide | modulo => exact settles_product _ line
  | greater => exact settles_comparison .greater line
  | less => exact settles_comparison .less line
  | equal => exact settles_comparison .equal line
  | and | or => exact settles_connective _ line

theorem settles_unary (operator : UnaryOperator) (operand : Value) (line : Nat) :
    Settles Grounded heap (unary operator operand line) := by
  unfold unary
  split
  · exact settles_pure (grounded_of_plain rfl)
  · exact settles_pure (grounded_of_plain rfl)
  · apply settles_read
    intro result found
    cases found

theorem plain_integers {line : Nat} {integers : List Int} {values : List Value}
    (found : (integers.mapM fun i => do
      let x ← Number.ofIntOn line i
      pure (Value.number x)) = .ok values) :
    ∀ value ∈ values, value.isList = false := by
  induction integers generalizing values with
  | nil =>
      cases found
      exact List.forall_mem_nil _
  | cons i rest inductionHypothesis =>
      rw [List.mapM_cons] at found
      rcases found_of_bind found with ⟨value, made, others⟩
      rcases found_of_bind made with ⟨x, _, number⟩
      rcases found_of_bind others with ⟨numbers, further, whole⟩
      cases number
      cases whole
      exact List.forall_mem_cons.mpr ⟨rfl, inductionHypothesis further⟩

/-- A range holds numbers only. -/
theorem settles_range (first last : Value) (line : Nat) :
    Settles Grounded heap (range first last line) := by
  have bound : ∀ value heap, Settles Anything heap (Action.read (rangeBound value line)) :=
    fun _ _ => settles_read fun _ _ => trivial
  apply (bound first heap).bind
  intro m between _ _ _
  apply (bound last between).bind
  intro n after _ _ _
  have numbers : Settles (fun _ values => ∀ value ∈ values, value.isList = false) after
      (Action.read fun _ => (integersBetween m n).mapM fun i => do
        let x ← Number.ofIntOn line i
        pure (Value.number x)) := by
    apply settles_read
    exact fun values found => plain_integers found
  apply numbers.bind
  intro values final _ _ plain
  exact settles_sure (grounded_allocate fun value member => grounded_of_plain (plain value member))

end Operators

/-! ## List methods -/

section Methods

variable {heap : Heap} {receiver : Value} {arguments : List Value}

/-- A method that looks and tells a number or a truth value. -/
theorem settles_looking {reader : Heap → Except RuntimeFault (Option Value)}
    (tells : ∀ result, reader heap = .ok result → ∀ value ∈ result, value.isList = false) :
    Settles GroundedIfAny heap (Action.read reader) :=
  settles_read fun result found value produced =>
    grounded_of_plain (tells result found value produced)

theorem settles_count (line : Nat) :
    Settles GroundedIfAny heap (ListMethod.count receiver arguments line) := by
  apply settles_looking
  intro result found value produced
  rcases found_of_bind found with ⟨address, _, found⟩
  rcases found_of_bind found with ⟨total, _, found⟩
  cases found
  cases produced
  rfl

theorem settles_contains (line : Nat) :
    Settles GroundedIfAny heap (ListMethod.contains receiver arguments line) := by
  apply settles_looking
  intro result found value produced
  rcases found_of_bind found with ⟨address, _, found⟩
  cases found
  cases produced
  rfl

theorem settles_containsAll (line : Nat) :
    Settles GroundedIfAny heap (ListMethod.containsAll receiver arguments line) := by
  apply settles_looking
  intro result found value produced
  rcases found_of_bind found with ⟨address, _, found⟩
  cases found
  cases produced
  rfl

/-- A plan whose change is safe. -/
theorem settles_edit {plan : Heap → Except RuntimeFault ListMethod.Edit}
    (safe : ∀ planned, plan heap = .ok planned →
      planned.address < heap.lists.size ∧ heap.Safe planned.address planned.change) :
    Settles GroundedIfAny heap (ListMethod.edit plan) := by
  have found : Settles (fun after planned => planned.address < after.lists.size ∧
      after.Safe planned.address planned.change) heap (Action.read plan) := settles_read safe
  apply found.bind
  rintro planned between _ _ ⟨stored, safely⟩
  have updated : Settles Anything between
      (Action.sure (update planned.address planned.change)) :=
    settles_sure ⟨sustains_update stored safely, trivial⟩
  apply updated.bind
  intro _ after _ _ _
  exact settles_pure fun value produced => nomatch produced

/-- Elements are taken away and none is put in. -/
theorem safe_of_subset {address : Nat} {change : Array Value → Array Value}
    (fewer : (change (heap.storage address)).toList ⊆ heap.elements address) :
    heap.Safe address change :=
  fun _ member => Or.inl (fewer member)

variable (receiving : heap.Grounded receiver)
include receiving

theorem stored_of_asList {line address : Nat} (found : heap.asList receiver line = .ok address) :
    address < heap.lists.size := by
  rw [eq_list_of_asList found] at receiving
  exact receiving.stored address (.self _)

theorem settles_element (line : Nat) :
    Settles GroundedIfAny heap (ListMethod.element receiver arguments line) := by
  unfold ListMethod.element
  split
  · apply settles_read
    intro result found
    rcases found_of_bind found with ⟨address, listed, found⟩
    rcases found_of_bind found with ⟨index, _, found⟩
    split at found
    · next value stored =>
        cases found
        rintro _ ⟨⟩
        rw [eq_list_of_asList listed] at receiving
        exact grounded_storage receiving value
          (Array.mem_toList_iff.mpr (Array.mem_of_getElem? stored))
    · cases found
  · exact settles_throw _

theorem settles_clear (line : Nat) :
    Settles GroundedIfAny heap (ListMethod.clear receiver arguments line) := by
  apply settles_edit
  intro planned found
  rcases found_of_bind found with ⟨address, listed, found⟩
  cases found
  exact ⟨stored_of_asList receiving listed, safe_of_subset (List.nil_subset _)⟩

theorem settles_removeAt (line : Nat) :
    Settles GroundedIfAny heap (ListMethod.removeAt receiver arguments line) := by
  unfold ListMethod.removeAt
  split
  · apply settles_edit
    intro planned found
    rcases found_of_bind found with ⟨address, listed, found⟩
    rcases found_of_bind found with ⟨index, _, found⟩
    split at found
    · cases found
      refine ⟨stored_of_asList receiving listed, safe_of_subset ?_⟩
      rw [Array.toList_eraseIdxIfInBounds]
      exact List.eraseIdx_subset
    · cases found
  · exact settles_throw _

omit receiving in
theorem sustains_removeEach {address : Nat} (stored : address < heap.lists.size)
    (values : List Value) :
    heap.Sustains (values.forM (ListMethod.removeFirst address) heap).2 := by
  induction values generalizing heap with
  | nil => exact Sustains.refl heap
  | cons value rest inductionHypothesis =>
      have removed : heap.Sustains (ListMethod.removeFirst address value heap).2 :=
        sustains_update stored (safe_of_subset (eraseFirst_subset value _))
      have still : address < (ListMethod.removeFirst address value heap).2.lists.size :=
        Nat.lt_of_lt_of_eq stored (size_update address _ heap).symm
      exact removed.trans (inductionHypothesis still)

theorem settles_remove (line : Nat) :
    Settles GroundedIfAny heap (ListMethod.remove receiver arguments line) := by
  have listed : Settles (fun after address => address < after.lists.size) heap
      (Action.read (Heap.asList receiver line)) :=
    settles_read fun _ found => stored_of_asList receiving found
  apply listed.bind
  intro address between _ _ stored
  have removed : Settles Anything between
      (Action.sure (arguments.forM (ListMethod.removeFirst address))) :=
    settles_sure ⟨sustains_removeEach stored arguments, trivial⟩
  apply removed.bind
  intro _ after _ _ _
  exact settles_pure fun value produced => nomatch produced

omit receiving in
theorem eq_or_mem_of_mem_insertIdx {values : Array Value} {index : Nat} {value element : Value}
    (member : element ∈ (values.insertIdxIfInBounds index value).toList) :
    element = value ∨ element ∈ values.toList := by
  unfold Array.insertIdxIfInBounds at member
  split at member
  · rw [Array.toList_insertIdx] at member
    exact List.eq_or_mem_of_mem_insertIdx member
  · exact Or.inr member

section Puts

variable (given : ∀ argument ∈ arguments, heap.Grounded argument)
  (apart : ∀ argument ∈ arguments, ∀ address, receiver = .list address →
    ¬ heap.Reaches argument (.list address))
include given apart

theorem settles_add (line : Nat) :
    Settles GroundedIfAny heap (ListMethod.add receiver arguments line) := by
  apply settles_edit
  intro planned found
  rcases found_of_bind found with ⟨address, listed, found⟩
  cases found
  refine ⟨stored_of_asList receiving listed, fun element member => ?_⟩
  rw [Array.toList_appendList] at member
  rcases List.mem_append.mp member with held | added
  · exact Or.inl held
  · exact Or.inr ⟨given element added, apart element added address (eq_list_of_asList listed)⟩

theorem settles_insert (line : Nat) :
    Settles GroundedIfAny heap (ListMethod.insert receiver arguments line) := by
  unfold ListMethod.insert
  split
  · next argument value =>
      have added : value ∈ [argument, value] := .tail _ (.head _)
      apply settles_edit
      intro planned found
      rcases found_of_bind found with ⟨address, listed, found⟩
      rcases found_of_bind found with ⟨index, _, found⟩
      split at found
      · cases found
        refine ⟨stored_of_asList receiving listed, fun element member => ?_⟩
        rcases eq_or_mem_of_mem_insertIdx member with rfl | held
        · exact Or.inr
            ⟨given element added, apart element added address (eq_list_of_asList listed)⟩
        · exact Or.inl held
      · cases found
  · exact settles_throw _

end Puts

/-- Every list method, called with any number of arguments.  Only what `add` and `insert` are
given matters. -/
theorem settles_checked {method : ListMethod} (member : method ∈ ListMethod.all)
    (given : ∀ argument ∈ arguments, heap.Grounded argument)
    (apart : method.name = "add" ∨ method.name = "insert" → ∀ argument ∈ arguments,
      ∀ address, receiver = .list address → ¬ heap.Reaches argument (.list address))
    (line : Nat) : Settles GroundedIfAny heap (method.checked receiver arguments line) := by
  have body : Settles GroundedIfAny heap (method.body receiver arguments line) := by
    simp only [ListMethod.all, List.mem_cons, List.not_mem_nil, or_false] at member
    rcases member with rfl | rfl | rfl | rfl | rfl | rfl | rfl | rfl | rfl
    · exact settles_element receiving line
    · exact @settles_count heap receiver arguments line
    · exact settles_add receiving given (apart (Or.inl rfl)) line
    · exact settles_remove receiving line
    · exact settles_insert receiving given (apart (Or.inr rfl)) line
    · exact settles_removeAt receiving line
    · exact @settles_clear heap receiver arguments receiving line
    · exact settles_contains line
    · exact settles_containsAll line
  unfold ListMethod.checked
  split
  · exact body
  · exact settles_throw _

end Methods
end Heap
end Scriptlet
