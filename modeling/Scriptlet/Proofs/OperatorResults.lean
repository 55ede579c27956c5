import Scriptlet.Proofs.MethodCalls

namespace Scriptlet
namespace Heap

/-!
# What operators make

An operator changes no list.  If it yields a list, it has made it: nobody else knows of the list,
not even where one operand is empty and the result holds what the other one holds.  Whatever is
done to the result later leaves the operands alone, and whatever is done to an operand leaves the
result alone.
-/

/-- The heap is left as it is, or there is one list more and that is the result. -/
def YieldsNew (heap : Heap) (action : Action Value) : Prop :=
  match action heap with
  | .ok result after => result.isList = false ∧ after = heap ∨
      ∃ values, (result, after) = keep values heap
  | .error _ after => after = heap

/-- The operators applied to their operands, on some line. -/
inductive Applied : List Value → Action Value → Prop
  | binary (operator : BinaryOperator) (left right : Value) (line : Nat) :
      Applied [left, right] (binary operator left right line)
  | unary (operator : UnaryOperator) (operand : Value) (line : Nat) :
      Applied [operand] (unary operator operand line)
  | range (first last : Value) (line : Nat) : Applied [first, last] (range first last line)

section Operators

variable {heap : Heap} {left right : Value}

theorem yieldsNew_pure {result : Value} (plain : result.isList = false) :
    YieldsNew heap (pure result) :=
  Or.inl ⟨plain, rfl⟩

theorem yieldsNew_keep (values : Array Value) : YieldsNew heap (Action.sure (keep values)) :=
  Or.inr ⟨values, rfl⟩

theorem yieldsNew_invalidOperands (operator : BinaryOperator) (line : Nat) :
    YieldsNew heap (invalidOperands operator left right line) :=
  rfl

/-- What is read first makes no difference to the heap. -/
theorem yieldsNew_read {α : Type} {reader : Heap → Except RuntimeFault α} {next : α → Action Value}
    (goesOn : ∀ result, YieldsNew heap (next result)) :
    YieldsNew heap (Action.read reader >>= next) := by
  cases seen : reader heap with
  | ok result =>
      have ran : Action.read reader heap = .ok result heap :=
        ListMethod.read_eq_ok.mpr ⟨seen, rfl⟩
      unfold YieldsNew
      rw [bind_of_ok ran]
      exact goesOn result
  | error fault =>
      have failed : Action.read reader heap = .error fault heap := by
        rw [Action.read, seen]
      unfold YieldsNew
      rw [bind_of_error failed]

theorem yieldsNew_get {next : Heap → Action Value} (goesOn : YieldsNew heap (next heap)) :
    YieldsNew heap (get >>= next) :=
  goesOn

theorem yieldsNew_sum (line : Nat) : YieldsNew heap (sum left right line) := by
  apply yieldsNew_get
  split
  · exact yieldsNew_pure rfl
  · exact yieldsNew_keep _
  · exact yieldsNew_keep _
  · split
    · exact yieldsNew_pure rfl
    · exact yieldsNew_invalidOperands .add line

theorem yieldsNew_difference (line : Nat) : YieldsNew heap (difference left right line) := by
  apply yieldsNew_get
  split
  · exact yieldsNew_pure rfl
  · exact yieldsNew_keep _
  · exact yieldsNew_keep _
  · split
    · exact yieldsNew_pure rfl
    · exact yieldsNew_invalidOperands .subtract line

theorem yieldsNew_product (operator : BinaryOperator) (line : Nat) :
    YieldsNew heap (product operator left right line) := by
  unfold product
  split
  · exact yieldsNew_pure rfl
  · exact yieldsNew_invalidOperands operator line

theorem yieldsNew_comparison (operator : BinaryOperator) (line : Nat) :
    YieldsNew heap (comparison operator left right line) := by
  apply yieldsNew_get
  split
  · exact yieldsNew_pure rfl
  · exact yieldsNew_pure rfl
  · split
    · exact yieldsNew_pure rfl
    · exact yieldsNew_invalidOperands _ line
  · exact yieldsNew_invalidOperands _ line

theorem yieldsNew_connective (operator : BinaryOperator) (line : Nat) :
    YieldsNew heap (connective operator left right line) := by
  unfold connective
  split
  · exact yieldsNew_pure rfl
  · exact yieldsNew_invalidOperands operator line

theorem yieldsNew_binary (operator : BinaryOperator) (line : Nat) :
    YieldsNew heap (binary operator left right line) := by
  cases operator with
  | add => exact yieldsNew_sum line
  | subtract => exact yieldsNew_difference line
  | multiply | divide | modulo => exact yieldsNew_product _ line
  | greater => exact yieldsNew_comparison .greater line
  | less => exact yieldsNew_comparison .less line
  | equal => exact yieldsNew_comparison .equal line
  | and | or => exact yieldsNew_connective _ line

theorem yieldsNew_unary (operator : UnaryOperator) (operand : Value) (line : Nat) :
    YieldsNew heap (unary operator operand line) := by
  unfold unary
  split
  · exact yieldsNew_pure rfl
  · exact yieldsNew_pure rfl
  · rfl

theorem yieldsNew_range (first last : Value) (line : Nat) :
    YieldsNew heap (range first last line) := by
  apply yieldsNew_read
  intro m
  apply yieldsNew_read
  intro n
  apply yieldsNew_read
  intro values
  exact yieldsNew_keep values.toArray

theorem Applied.yieldsNew {operands : List Value} {action : Action Value}
    (applied : Applied operands action) (heap : Heap) : YieldsNew heap action := by
  cases applied with
  | binary operator left right line => exact yieldsNew_binary operator line
  | unary operator operand line => exact yieldsNew_unary operator operand line
  | range first last line => exact yieldsNew_range first last line

end Operators

/-! ## Later changes -/

open ListMethod

/-- An operator that fails leaves the heap as it was.  An operator that yields a result changes
no list and makes no object; if the result is a list, it is a new one.  No sequence of calls on
the result changes a list that was there before, and none on the operands changes the result. -/
theorem operators_make_new_lists {operands : List Value} {action : Action Value}
    (applied : Applied operands action) {heap : Heap}
    (grounded : ∀ operand ∈ operands, heap.Grounded operand) :
    (∀ fault after, action heap = .error fault after → after = heap) ∧
    ∀ result after, action heap = .ok result after →
      heap.Kept after ∧ after.objects = heap.objects ∧
      ∀ made, result = .list made → heap.Between after made ∧ ∀ sink final,
        (Calls (fun _ receiver _ => receiver = .list made) ⟨after, sink⟩ final →
          heap.Kept final.heap) ∧
        (Calls (fun _ receiver _ => receiver ∈ operands) ⟨after, sink⟩ final →
          final.heap.elements made = after.elements made) := by
  have yields := applied.yieldsNew heap
  unfold YieldsNew at yields
  constructor
  · intro fault after failed
    rw [failed] at yields
    exact yields
  · intro result after returned
    rw [returned] at yields
    rcases yields with ⟨plain, unchanged⟩ | ⟨values, stored⟩
    · rw [unchanged]
      refine ⟨Kept.refl heap, rfl, fun made listed => ?_⟩
      rw [listed] at plain
      cases plain
    · cases stored
      refine ⟨kept_keep values heap, rfl, fun made listed => ?_⟩
      cases listed
      refine ⟨⟨Nat.le_refl _, ?_⟩, fun sink final => ⟨fun calls => ?_, fun calls => ?_⟩⟩
      · exact Nat.lt_of_lt_of_eq (Nat.lt_succ_self _) (size_keep values heap).symm
      · intro address elements found
        have different : Value.list address ≠ .list heap.lists.size := by
          intro same
          cases same
          exact Nat.lt_irrefl _ (stored_of_getElem? found)
        exact (calls.getElem?_eq different).trans (kept_keep values heap found)
      · have apart : Value.list heap.lists.size ∉ operands := fun member =>
          Nat.lt_irrefl _ ((grounded _ member).stored _ (.self _))
        exact elements_congr (calls.getElem?_eq apart)

/-- An empty list is joined with itself.  What is added to the result is not in the list. -/
theorem operators_make_new_lists_joined :
    let heap : Heap := ⟨#[#[]], 0⟩
    ∃ made after final, binary .add (.list 0) (.list 0) 1 heap = .ok (.list made) after ∧
      World.onHeap (add (.list made) [.number 1] 2) ⟨after, {}⟩ = .ok none final ∧
      final.heap.elements made = [.number 1] ∧ final.heap.elements 0 = [] := by
  intro heap
  have ordered : ∀ address < heap.lists.size, ∀ element ∈ heap.elements address,
      element.Belongs (· < address) := by decide
  have grounded : heap.Grounded (.list 0) := grounded_of_ordered ordered (by decide)
  have both : ∀ operand ∈ [Value.list 0, .list 0], heap.Grounded operand :=
    List.forall_mem_cons.mpr ⟨grounded, List.forall_mem_singleton.mpr grounded⟩
  have returned : binary .add (.list 0) (.list 0) 1 heap = .ok (.list 1) (keep #[] heap).2 := rfl
  have added : World.onHeap (add (.list 1) [.number 1] 2) ⟨(keep #[] heap).2, {}⟩ =
      .ok none ⟨(update 1 (fun values => values ++ [Value.number 1]) (keep #[] heap).2).2,
        {}⟩ := rfl
  have adding : (⟨"add", .atLeast 1, add⟩ : ListMethod) ∈ all := .tail _ (.tail _ (.head _))
  obtain ⟨_, yields⟩ := operators_make_new_lists (.binary .add (.list 0) (.list 0) 1) both
  obtain ⟨_, _, result⟩ := yields _ _ returned
  have kept := ((result 1 rfl).2 {} _).1 (.returned adding .itself rfl added (.done _))
  exact ⟨1, _, _, returned, added, rfl, kept.elements_eq (by decide)⟩

end Heap
end Scriptlet
