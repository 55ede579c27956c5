import Mathlib.Algebra.GroupWithZero.Nat
import Scriptlet.Proofs.ReferenceCounts

namespace Scriptlet
namespace Store

/-!
# The store under any use

A run only assigns, opens and closes.  A host that holds a store can also add and release
references, in any order and however often: names stay on record in frames whose slot is gone,
counts fall below zero, and a name can be on record more than once.  All that can be asked of
the store is still told by its history alone.

A history has its latest operation in front.  An operation that fails is part of it, and the
next one finds the store as it was.
-/

/-- The operations that can change a store. -/
inductive Operation where
  | allocate (name : String) (value : Value)
  | addReference (name : String)
  | releaseReference (name : String)
  | enter
  | exit

namespace Operation

/-- The value that the operation gives to a name. -/
def assigned? (name : String) : Operation → Option Value
  | .allocate other value => if name = other then some value else none
  | _ => none

def adds (name : String) : Operation → Bool
  | .addReference other => name = other
  | _ => false

def releases (name : String) : Operation → Bool
  | .releaseReference other => name = other
  | _ => false

/-- The number of open frames after the operation. -/
def depthAfter (limit depth : Nat) : Operation → Nat
  | .enter => if depth < limit then depth + 1 else depth
  | .exit => depth - 1
  | _ => depth

theorem eq_allocate_of_assigned {operation : Operation} {name : String} {value : Value}
    (assigned : operation.assigned? name = some value) : operation = .allocate name value := by
  cases operation with
  | allocate other given =>
      by_cases same : name = other
      · subst same
        simp only [assigned?, if_true] at assigned
        cases assigned
        rfl
      · simp only [assigned?, if_neg same] at assigned
        cases assigned
  | addReference other => cases assigned
  | releaseReference other => cases assigned
  | enter => cases assigned
  | exit => cases assigned

end Operation

/-- The changed store, or the fault that is reported instead of a change. -/
def attempt (store : Store) : Operation → Except RuntimeFault Store
  | .allocate name value => .ok (store.allocate name value)
  | .addReference name => store.addReference name
  | .releaseReference name => store.releaseReference name
  | .enter => store.enter
  | .exit => .ok store.exit

/-- The store after an operation, whether it fails or not. -/
def perform (store : Store) (operation : Operation) : Store :=
  match store.attempt operation with
  | .ok changed => changed
  | .error _ => store

/-- The store after a history. -/
def performAll (store : Store) : List Operation → Store
  | [] => store
  | operation :: earlier => (store.performAll earlier).perform operation

/-- The records of a name in the frame that the operation closes. -/
def recordsClosed (store : Store) (name : String) : Operation → Nat
  | .exit => (store.records.headD []).count name
  | _ => 0

/-! ## What a history tells -/

/-- The value of the latest assignment to a name. -/
def latestAssigned? (name : String) (history : List Operation) : Option Value :=
  history.findSome? (Operation.assigned? name)

/-- What was done since the latest assignment to a name, each operation with the history before
it. -/
def since (name : String) : List Operation → List (Operation × List Operation)
  | [] => []
  | operation :: earlier =>
      match operation.assigned? name with
      | some _ => []
      | none => (operation, earlier) :: since name earlier

/-- The references added to a name, less those released and less the records of the name in
the frames that were closed, all since the latest assignment to it. -/
def balance (start : Store) (name : String) (history : List Operation) : Int :=
  (since name history).countP (fun moment => moment.1.adds name) -
    (since name history).countP (fun moment => moment.1.releases name) -
    ((since name history).map fun moment =>
      (start.performAll moment.2).recordsClosed name moment.1).sum

/-- A release since the latest assignment brought the count to zero or below. -/
def ReleasedSince (start : Store) (name : String) (history : List Operation) : Prop :=
  ∃ moment ∈ since name history, moment.1.releases name = true ∧
    ∃ count, (start.performAll moment.2).references? name = some count ∧ count - 1 ≤ 0

/-- A store and the history that a store of some limit has behind it. -/
structure Accounts (limit : Nat) (history : List Operation) (store : Store) : Prop where
  depth_le : store.depth ≤ limit
  enter_fails : ∀ fault, store.enter = .error fault ↔
    store.depth = limit ∧ fault = .scopeDepthExceeded limit
  addReference_fails : ∀ name fault, store.addReference name = .error fault ↔
    store.contains name = false ∧ fault = .unboundSlot name
  releaseReference_fails : ∀ name fault, store.releaseReference name = .error fault ↔
    store.contains name = false ∧ fault = .unboundSlot name
  failed : ∀ operation fault, store.attempt operation = .error fault →
    store.perform operation = store
  get_eq_ok : ∀ name value, store.get name = .ok value ↔
    store.contains name = true ∧ latestAssigned? name history = some value
  unbound : ∀ name, store.contains name = false ↔
    latestAssigned? name history = none ∨ ReleasedSince (ofLimit limit) name history
  references?_eq : ∀ name, store.references? name =
    if store.contains name then some (balance (ofLimit limit) name history) else none
  depth_eq : ∀ operation,
    (store.perform operation).depth = operation.depthAfter limit store.depth
  frames_below : ∀ operation index,
    index + 1 < max store.depth (store.perform operation).depth →
    (store.perform operation).frames[index]? = store.frames[index]?

/-! ## Bound names -/

theorem contains_eq_isSome (store : Store) (name : String) :
    store.contains name = (store.references? name).isSome :=
  Option.isSome_map.symm

theorem contains_eq_true {store : Store} {name : String} :
    store.contains name = true ↔ ∃ value, store.value? name = some value := by
  unfold contains value?
  cases store.slot? name <;> simp

theorem get_eq_ok {store : Store} {name : String} {value : Value} :
    store.get name = .ok value ↔ store.value? name = some value := by
  unfold get value?
  cases store.slot? name <;> simp

/-! ## When an operation fails -/

theorem contains_eq_false {store : Store} {name : String} :
    store.contains name = false ↔ store.slot? name = none := by
  unfold contains
  rw [Option.isSome_eq_false_iff, Option.isNone_iff_eq_none]

theorem addReference_eq_error {store : Store} {name : String} {fault : RuntimeFault} :
    store.addReference name = .error fault ↔
      store.contains name = false ∧ fault = .unboundSlot name := by
  rw [contains_eq_false]
  unfold addReference
  cases store.slot? name with
  | none => simp [eq_comm]
  | some slot => simp

theorem releaseReference_eq_error {store : Store} {name : String} {fault : RuntimeFault} :
    store.releaseReference name = .error fault ↔
      store.contains name = false ∧ fault = .unboundSlot name := by
  rw [contains_eq_false]
  unfold releaseReference
  cases store.slot? name with
  | none => simp [eq_comm]
  | some slot => simp

theorem enter_eq_error {store : Store} {fault : RuntimeFault} :
    store.enter = .error fault ↔
      store.depthLimit ≤ store.depth ∧ fault = .scopeDepthExceeded store.depthLimit := by
  by_cases full : store.depthLimit ≤ store.depth
  · rw [enter_of_full full]
    simp [full, eq_comm]
  · rw [enter_of_room full]
    simp [full]

theorem perform_of_error {store : Store} {operation : Operation} {fault : RuntimeFault}
    (failed : store.attempt operation = .error fault) : store.perform operation = store := by
  unfold perform
  rw [failed]

/-! ## One operation

Adding and releasing do nothing to a name without a slot, so that one equation holds whether
they fail or not. -/

theorem perform_addReference (store : Store) (name : String) :
    store.perform (.addReference name) =
      match store.slot? name with
      | some slot => store.withSlot name { slot with references := slot.references + 1 }
      | none => store := by
  simp only [perform, attempt, addReference]
  cases store.slot? name <;> rfl

theorem perform_releaseReference (store : Store) (name : String) :
    store.perform (.releaseReference name) =
      match store.slot? name with
      | some slot => store.lower name slot
      | none => store := by
  simp only [perform, attempt, releaseReference]
  cases store.slot? name <;> rfl

theorem perform_enter (store : Store) :
    store.perform .enter = if store.depth < store.depthLimit then store.withFrame else store := by
  simp only [perform, attempt]
  by_cases full : store.depthLimit ≤ store.depth
  · rw [enter_of_full full, if_neg (Nat.not_lt_of_le full)]
  · rw [enter_of_room full, if_pos (Nat.lt_of_not_le full)]

theorem depth_perform (store : Store) (operation : Operation) :
    (store.perform operation).depth = operation.depthAfter store.depthLimit store.depth ∧
      (store.perform operation).depthLimit = store.depthLimit := by
  cases operation with
  | allocate name value => exact depth_allocate store name value
  | addReference name =>
      rw [perform_addReference]
      cases store.slot? name <;> exact ⟨rfl, rfl⟩
  | releaseReference name =>
      rw [perform_releaseReference]
      cases store.slot? name with
      | none => exact ⟨rfl, rfl⟩
      | some slot => exact depth_lower store name slot
  | enter =>
      rw [perform_enter]
      unfold Operation.depthAfter
      by_cases room : store.depth < store.depthLimit
      · rw [if_pos room, if_pos room]
        exact ⟨depth_withFrame store, rfl⟩
      · rw [if_neg room, if_neg room]
        exact ⟨rfl, rfl⟩
  | exit => exact depth_exit store

/-- A frame that is not the innermost one, before or after the operation, is not changed by
it. -/
theorem frames_perform_below (store : Store) (operation : Operation) {index : Nat}
    (below : index + 1 < max store.depth (store.perform operation).depth) :
    (store.perform operation).frames[index]? = store.frames[index]? := by
  rw [(depth_perform store operation).1] at below
  cases operation with
  | allocate name value =>
      exact frames_allocate_below store name value (lt_of_lt_of_eq below (Nat.max_self _))
  | addReference name =>
      rw [perform_addReference]
      cases store.slot? name <;> rfl
  | releaseReference name =>
      rw [perform_releaseReference]
      cases store.slot? name with
      | none => rfl
      | some slot =>
          exact frames_lower_below store name slot (lt_of_lt_of_eq below (Nat.max_self _))
  | enter =>
      rw [perform_enter]
      by_cases room : store.depth < store.depthLimit
      · simp only [Operation.depthAfter, if_pos room] at below
        have inside : index ≠ store.frames.size := by
          unfold depth at below
          omega
        rw [if_pos room]
        exact Array.getElem?_push.trans (if_neg inside)
      · rw [if_neg room]
  | exit =>
      have inside : index < store.frames.size - 1 := by
        simp only [Operation.depthAfter, depth] at below
        omega
      change store.exit.frames[index]? = _
      rw [frames_exit, Array.getElem?_pop, if_pos inside]

theorem slot?_withoutSlot_self (store : Store) (name : String) :
    (store.withoutSlot name).slot? name = none := by
  unfold slot? withoutSlot
  rw [List.lookup_eq_none_iff]
  intro entry member
  rw [List.mem_filter, decide_eq_true_eq] at member
  exact bne_iff_ne.mpr (Ne.symm member.2)

theorem references?_lower_self (store : Store) (name : String) (slot : Slot) :
    (store.lower name slot).references? name =
      if slot.references - 1 ≤ 0 then none else some (slot.references - 1) := by
  unfold lower
  split
  · exact congrArg (Option.map Slot.references) (slot?_withoutSlot_self _ name)
  · exact congrArg (Option.map Slot.references) (slot?_withSlot_self store name _)

/-- What an operation that does not assign to a name does to its count. -/
theorem references?_perform {operation : Operation} {name : String} (store : Store)
    (kept : operation.assigned? name = none) :
    (store.perform operation).references? name =
      (store.references? name).bind fun count =>
        if operation.releases name ∧ count - 1 ≤ 0 then none
        else some (count + (operation.adds name).toNat - (operation.releases name).toNat -
          store.recordsClosed name operation) := by
  cases operation with
  | allocate other value =>
      have different : name ≠ other := by
        intro same
        simp [Operation.assigned?, same] at kept
      change (store.allocate other value).references? name = _
      rw [references?_allocate, if_neg different]
      simp [Operation.releases, Operation.adds, recordsClosed]
  | addReference other =>
      rw [perform_addReference]
      cases found : store.slot? other with
      | none =>
          by_cases same : name = other
          · simp [same, references?, found]
          · simp [same, Operation.releases, Operation.adds, recordsClosed]
      | some slot =>
          simp only [references?_withSlot]
          by_cases same : name = other
          · simp [same, references?, found, Operation.releases, Operation.adds, recordsClosed]
          · simp [same, Operation.releases, Operation.adds, recordsClosed]
  | releaseReference other =>
      rw [perform_releaseReference]
      cases found : store.slot? other with
      | none =>
          by_cases same : name = other
          · simp [same, references?, found]
          · simp [same, Operation.releases, Operation.adds, recordsClosed]
      | some slot =>
          by_cases same : name = other
          · subst same
            rw [references?_lower_self]
            simp [references?, found, Operation.releases, Operation.adds, recordsClosed]
          · have unchanged : (store.lower other slot).references? name =
                store.references? name :=
              congrArg (Option.map Slot.references) (slot?_lower_of_ne store same slot)
            simp [unchanged, same, Operation.releases, Operation.adds, recordsClosed]
  | enter =>
      have unchanged : (store.perform .enter).references? name = store.references? name := by
        rw [perform_enter]
        split <;> rfl
      rw [unchanged]
      simp [Operation.releases, Operation.adds, recordsClosed]
  | exit =>
      change store.exit.references? name = _
      rw [references?_exit]
      cases store.references? name <;>
        simp [Operation.releases, Operation.adds, recordsClosed]

theorem references?_perform_eq_none {operation : Operation} {name : String} {store : Store}
    (kept : operation.assigned? name = none) :
    (store.perform operation).references? name = none ↔
      store.references? name = none ∨
      operation.releases name = true ∧
        ∃ count, store.references? name = some count ∧ count - 1 ≤ 0 := by
  rw [references?_perform store kept]
  cases store.references? name with
  | none => simp
  | some count =>
      rw [Option.bind_some]
      split
      · next spent => exact iff_of_true rfl (Or.inr ⟨spent.1, count, rfl, spent.2⟩)
      · next spare =>
          refine iff_of_false (Option.some_ne_none _) ?_
          rintro (missing | ⟨released, _, same, none⟩)
          · cases missing
          · cases same
            exact spare ⟨released, none⟩

theorem references?_perform_of_assigned {operation : Operation} {name : String} {value : Value}
    (store : Store) (assigned : operation.assigned? name = some value) :
    (store.perform operation).references? name = some 0 := by
  rcases Operation.eq_allocate_of_assigned assigned with rfl
  exact (references?_allocate store name name value).trans (if_pos rfl)

/-- Only an assignment changes a value. -/
theorem value?_perform_of_kept {operation : Operation} {name : String} {value : Value}
    {store : Store} (kept : operation.assigned? name = none)
    (shown : (store.perform operation).value? name = some value) :
    store.value? name = some value := by
  cases operation with
  | allocate other given =>
      have different : name ≠ other := by
        intro same
        simp [Operation.assigned?, same] at kept
      rwa [← value?_allocate_of_ne store different given]
  | addReference other =>
      rw [perform_addReference] at shown
      cases found : store.slot? other with
      | none => rwa [found] at shown
      | some slot =>
          simp only [found] at shown
          by_cases same : name = other
          · subst same
            rw [value?, slot?_withSlot_self] at shown
            rwa [value?, found]
          · rwa [value?, slot?_withSlot_of_ne store same] at shown
  | releaseReference other =>
      rw [perform_releaseReference] at shown
      cases found : store.slot? other with
      | none => rwa [found] at shown
      | some slot =>
          simp only [found] at shown
          by_cases same : name = other
          · subst same
            unfold lower at shown
            split at shown
            · have missing : (store.release name).slot? name = none :=
                slot?_withoutSlot_self _ name
              rw [value?, missing] at shown
              cases shown
            · rw [value?, slot?_withSlot_self] at shown
              rwa [value?, found]
          · rwa [value?, slot?_lower_of_ne store same] at shown
  | enter =>
      rw [perform_enter] at shown
      split at shown <;> exact shown
  | exit => rwa [← value?_exit]

theorem value?_perform_of_assigned {operation : Operation} {name : String} {value : Value}
    (store : Store) (assigned : operation.assigned? name = some value) :
    (store.perform operation).value? name = some value := by
  rcases Operation.eq_allocate_of_assigned assigned with rfl
  exact value?_allocate_self store name value

/-! ## All operations -/

theorem depthLimit_performAll (store : Store) (history : List Operation) :
    (store.performAll history).depthLimit = store.depthLimit := by
  induction history with
  | nil => rfl
  | cons operation earlier inductionHypothesis =>
      exact (depth_perform _ operation).2.trans inductionHypothesis

theorem depth_performAll_le (store : Store) (room : store.depth ≤ store.depthLimit)
    (history : List Operation) : (store.performAll history).depth ≤ store.depthLimit := by
  induction history with
  | nil => exact room
  | cons operation earlier inductionHypothesis =>
      have moved := (depth_perform (store.performAll earlier) operation).1
      rw [depthLimit_performAll] at moved
      change (Store.perform _ operation).depth ≤ _
      rw [moved]
      unfold Operation.depthAfter
      split
      · split <;> omega
      · omega
      · exact inductionHypothesis

theorem latestAssigned?_cons (name : String) (operation : Operation) (earlier : List Operation) :
    latestAssigned? name (operation :: earlier) =
      (operation.assigned? name).or (latestAssigned? name earlier) := by
  unfold latestAssigned?
  rw [List.findSome?_cons]
  cases operation.assigned? name <;> rfl

theorem value?_performAll (limit : Nat) {name : String} {value : Value}
    {history : List Operation}
    (shown : ((ofLimit limit).performAll history).value? name = some value) :
    latestAssigned? name history = some value := by
  induction history generalizing value with
  | nil => cases shown
  | cons operation earlier inductionHypothesis =>
      rw [latestAssigned?_cons]
      cases assigned : operation.assigned? name with
      | some given => exact (value?_perform_of_assigned _ assigned).symm.trans shown
      | none => exact inductionHypothesis (value?_perform_of_kept assigned shown)

theorem since_cons_of_assigned {operation : Operation} {name : String} {value : Value}
    (assigned : operation.assigned? name = some value) (earlier : List Operation) :
    since name (operation :: earlier) = [] := by
  simp only [since, assigned]

theorem since_cons_of_kept {operation : Operation} {name : String}
    (kept : operation.assigned? name = none) (earlier : List Operation) :
    since name (operation :: earlier) = (operation, earlier) :: since name earlier := by
  simp only [since, kept]

theorem balance_cons_of_kept (start : Store) {operation : Operation} {name : String}
    (kept : operation.assigned? name = none) (earlier : List Operation) :
    balance start name (operation :: earlier) =
      balance start name earlier + (operation.adds name).toNat -
        (operation.releases name).toNat -
        (start.performAll earlier).recordsClosed name operation := by
  unfold balance
  rw [since_cons_of_kept kept]
  simp only [List.countP_cons, List.map_cons, List.sum_cons]
  cases operation.adds name <;> cases operation.releases name <;> simp <;> omega

theorem releasedSince_cons_of_kept (start : Store) {operation : Operation} {name : String}
    (kept : operation.assigned? name = none) (earlier : List Operation) :
    ReleasedSince start name (operation :: earlier) ↔
      (operation.releases name = true ∧ ∃ count,
        (start.performAll earlier).references? name = some count ∧ count - 1 ≤ 0) ∨
      ReleasedSince start name earlier := by
  unfold ReleasedSince
  rw [since_cons_of_kept kept]
  exact List.exists_mem_cons_iff _ _ _

/-- The count of a bound name is the balance of its history. -/
theorem references?_performAll (limit : Nat) {name : String} {count : Int}
    {history : List Operation}
    (counted : ((ofLimit limit).performAll history).references? name = some count) :
    count = balance (ofLimit limit) name history := by
  induction history generalizing count with
  | nil => cases counted
  | cons operation earlier inductionHypothesis =>
      cases assigned : operation.assigned? name with
      | some value =>
          have fresh := (references?_perform_of_assigned _ assigned).symm.trans counted
          unfold balance
          rw [since_cons_of_assigned assigned, ← Option.some.inj fresh]
          rfl
      | none =>
          have moved := (references?_perform _ assigned).symm.trans counted
          rcases Option.bind_eq_some_iff.mp moved with ⟨before, found, changed⟩
          split at changed
          · cases changed
          · rw [balance_cons_of_kept _ assigned, ← inductionHypothesis found]
            exact (Option.some.inj changed).symm

/-- A name loses its slot with a release that finds no reference to spare, and never had one
before it was assigned. -/
theorem unbound_performAll (limit : Nat) (name : String) (history : List Operation) :
    ((ofLimit limit).performAll history).references? name = none ↔
      latestAssigned? name history = none ∨ ReleasedSince (ofLimit limit) name history := by
  induction history with
  | nil => exact iff_of_true rfl (Or.inl rfl)
  | cons operation earlier inductionHypothesis =>
      rw [latestAssigned?_cons]
      cases assigned : operation.assigned? name with
      | some value =>
          have fresh : ((ofLimit limit).performAll (operation :: earlier)).references? name =
              some 0 := references?_perform_of_assigned _ assigned
          rw [fresh]
          unfold ReleasedSince
          simp [since_cons_of_assigned assigned]
      | none =>
          change (Store.perform _ operation).references? name = none ↔ _
          rw [references?_perform_eq_none assigned, inductionHypothesis,
            releasedSince_cons_of_kept _ assigned, Option.none_or, or_assoc]
          exact or_congr_right or_comm

/-- After every sequence of operations on a store of any limit, the history tells all that the
store answers: how deep it is, which operations fail, which names are bound, to what and with
how many references.  Whatever is done next, a fault changes nothing and no frame is touched
but the innermost one. -/
theorem accounts_of_performAll (limit : Nat) (history : List Operation) :
    Accounts limit history ((ofLimit limit).performAll history) := by
  have limited := depthLimit_performAll (ofLimit limit) history
  have room : ((ofLimit limit).performAll history).depth ≤ limit :=
    depth_performAll_le (ofLimit limit) (Nat.zero_le limit) history
  refine ⟨room, ?_, fun _ _ => addReference_eq_error, fun _ _ => releaseReference_eq_error,
    fun _ _ => perform_of_error, ?_, ?_, ?_, ?_, fun operation _ =>
    frames_perform_below _ operation⟩
  · intro fault
    rw [enter_eq_error, limited]
    exact and_congr_left' ⟨fun full => Nat.le_antisymm room full, fun same => same.ge⟩
  · intro name value
    rw [get_eq_ok]
    constructor
    · intro shown
      exact ⟨contains_eq_true.mpr ⟨value, shown⟩, value?_performAll limit shown⟩
    · rintro ⟨bound, latest⟩
      rcases contains_eq_true.mp bound with ⟨shown, found⟩
      rw [found, ← value?_performAll limit found, latest]
  · intro name
    rw [contains_eq_false, ← references?_eq_none]
    exact unbound_performAll limit name history
  · intro name
    cases counted : ((ofLimit limit).performAll history).references? name with
    | none => rw [contains_eq_isSome, counted]; rfl
    | some count =>
        rw [contains_eq_isSome, counted]
        exact congrArg some (references?_performAll limit counted)
  · intro operation
    rw [(depth_perform _ operation).1, limited]
    rfl

/-- A slot with references to spare is replaced without being released, so that its name is on
record twice. -/
example : ((ofLimit 1).performAll [.exit, .allocate "x" (.truth true), .addReference "x",
    .addReference "x", .allocate "x" (.truth true), .enter]).references? "x" = some (-2) := by
  decide

end Store
end Scriptlet
