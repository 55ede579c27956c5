import Scriptlet.Proofs.StoreAccounts

namespace Scriptlet
namespace Store

/-!
# Names on record in the innermost frame

An assignment puts its name on record before it releases the slot that was there, and the
release takes one record of the name off the same frame.  So the record survives only if
nothing was released, and a frame that had no record of a name that is bound elsewhere has
none after the assignment either.

Closing a frame is what shows the difference.  What happens to other names, and frames that
are opened and closed meanwhile, change neither the record nor the count of the name.
-/

/-- Whether a record made by an assignment stays: the name has no slot to release, or its slot
has references to spare. -/
def keepsRecord (store : Store) (name : String) : Bool :=
  match store.references? name with
  | none => true
  | some count => 1 < count

theorem records_allocate (store : Store) (name : String) (value : Value) :
    (store.allocate name value).records =
      if store.keepsRecord name then store.records.modifyHead fun names => name :: names
      else store.records := by
  unfold keepsRecord
  cases found : store.references? name with
  | none =>
      rw [allocate_of_unbound (references?_eq_none.mp found)]
      exact records_inInnermost store _
  | some count =>
      rcases slot?_of_references? found with ⟨slot, bound, rfl⟩
      by_cases spare : 1 < slot.references
      · have recorded : (store.inInnermost fun names => name :: names).slot? name = some slot :=
          bound
        have unspent : ¬ slot.references - 1 ≤ 0 := by omega
        simp only [allocate, recorded, lower, if_neg unspent, spare, decide_true, if_true]
        exact records_inInnermost store _
      · rw [allocate_of_bound bound (Int.not_lt.mp spare)]
        simp only [spare, decide_false, Bool.false_eq_true, if_false]
        rfl

/-- The innermost frame has the name of an assignment on record if the record stays or if it
was there before. -/
theorem mem_innermost_allocate {store : Store} (opened : 0 < store.depth) (name : String)
    (value : Value) :
    name ∈ (store.allocate name value).records.headD [] ↔
      store.keepsRecord name = true ∨ name ∈ store.records.headD [] := by
  rw [← length_records] at opened
  rw [records_allocate]
  cases listed : store.records with
  | nil =>
      rw [listed] at opened
      cases opened
  | cons names outer => cases store.keepsRecord name <;> simp

/-! ## What is done to other names -/

def Operation.concerns (name : String) (operation : Operation) : Bool :=
  (operation.assigned? name).isSome || operation.adds name || operation.releases name

theorem Operation.concerns_eq_false {name : String} {operation : Operation} :
    operation.concerns name = false ↔
      operation.assigned? name = none ∧ operation.adds name = false ∧
        operation.releases name = false := by
  unfold concerns
  rw [Bool.or_eq_false_iff, Bool.or_eq_false_iff, Option.isSome_eq_false_iff,
    Option.isNone_iff_eq_none, and_assoc]

/-- The operations, of which the first is the last one listed, never leave fewer frames open
than the given number. -/
def StaysOpen (depth : Nat) (store : Store) : List Operation → Prop
  | [] => True
  | operation :: earlier =>
      store.StaysOpen depth earlier ∧
        depth ≤ (store.performAll (operation :: earlier)).depth

theorem records_lower (store : Store) (name : String) (slot : Slot) :
    (store.lower name slot).records = store.records ∨
      (store.lower name slot).records = store.records.modifyHead fun names => names.erase name := by
  unfold lower
  split
  · exact Or.inr (records_inInnermost store _)
  · exact Or.inl rfl

/-- An operation that does not concern a name opens a frame, closes one, or changes the
innermost one without changing how often the name is on record there. -/
theorem records_perform_of_apart {operation : Operation} {name : String} (store : Store)
    (apart : operation.concerns name = false) :
    (store.perform operation).records = [] :: store.records ∨
    (store.perform operation).records = store.records.tail ∨
    ∃ change : List String → List String,
      (∀ names, (change names).count name = names.count name) ∧
      (store.perform operation).records = store.records.modifyHead change := by
  have unchanged : ∀ {after : Store}, after.records = store.records →
      ∃ change : List String → List String,
        (∀ names, (change names).count name = names.count name) ∧
        after.records = store.records.modifyHead change := by
    intro after same
    refine ⟨id, fun _ => rfl, ?_⟩
    rw [List.modifyHead_id]
    exact same
  cases operation with
  | allocate other value =>
      have different : other ≠ name := by
        rintro rfl
        simp [Operation.concerns, Operation.assigned?] at apart
      have records := records_allocate store other value
      refine Or.inr (Or.inr ?_)
      cases kept : store.keepsRecord other with
      | true =>
          rw [kept, if_pos rfl] at records
          exact ⟨_, fun names => List.count_cons_of_ne different, records⟩
      | false =>
          rw [kept, if_neg Bool.false_ne_true] at records
          exact unchanged records
  | addReference other =>
      refine Or.inr (Or.inr (unchanged ?_))
      rw [perform_addReference]
      cases store.slot? other <;> rfl
  | releaseReference other =>
      have different : name ≠ other := by
        rintro rfl
        simp [Operation.concerns, Operation.releases] at apart
      refine Or.inr (Or.inr ?_)
      rw [perform_releaseReference]
      cases store.slot? other with
      | none => exact unchanged rfl
      | some slot =>
          rcases records_lower store other slot with same | erased
          · exact unchanged same
          · exact ⟨_, fun names => List.count_erase_of_ne different, erased⟩
  | enter =>
      rw [perform_enter]
      split
      · exact Or.inl (records_withFrame store)
      · exact Or.inr (Or.inr (unchanged rfl))
  | exit => exact Or.inr (Or.inl (records_exit store))

/-- The frame at a depth has a name on record a number of times, no frame inside it has the
name on record, and the count of the name is as the latest assignment left it. -/
structure Holding (name : String) (depth times : Nat) (store : Store) : Prop where
  fresh : store.references? name = some 0
  divided : ∃ inner names outer, store.records = inner ++ names :: outer ∧
    outer.length + 1 = depth ∧ names.count name = times ∧ ∀ inside ∈ inner, name ∉ inside

namespace Holding

variable {name : String} {depth times : Nat} {store : Store}

theorem perform (holding : Holding name depth times store) {operation : Operation}
    (apart : operation.concerns name = false) (stays : depth ≤ (store.perform operation).depth) :
    Holding name depth times (store.perform operation) := by
  rcases holding.divided with ⟨inner, names, outer, records, level, counted, absent⟩
  rcases Operation.concerns_eq_false.mp apart with ⟨unassigned, unadded, unreleased⟩
  constructor
  · -- Only a closed frame could change the count, and the closed one is inside.
    have unclosed : store.recordsClosed name operation = 0 := by
      cases operation with
      | exit =>
          have below := (depth_perform store .exit).1
          rw [← store.length_records, records, List.length_append, List.length_cons] at below
          cases inner with
          | nil =>
              simp only [Operation.depthAfter, List.length_nil] at below
              omega
          | cons inside rest =>
              simp only [recordsClosed, records, List.cons_append, List.headD_cons]
              exact List.count_eq_zero_of_not_mem (absent inside List.mem_cons_self)
      | allocate other value => rfl
      | addReference other => rfl
      | releaseReference other => rfl
      | enter => rfl
    rw [references?_perform store unassigned, holding.fresh, unclosed, unadded, unreleased]
    rfl
  · rcases records_perform_of_apart store apart with opened | closed | ⟨change, same, changed⟩
    · refine ⟨[] :: inner, names, outer, opened.trans (by rw [records]; rfl), level, counted, ?_⟩
      exact List.forall_mem_cons.mpr ⟨List.not_mem_nil, absent⟩
    · rw [← length_records, closed, records] at stays
      cases inner with
      | nil =>
          simp only [List.nil_append, List.tail_cons] at stays
          omega
      | cons inside rest =>
          refine ⟨rest, names, outer, closed.trans (by rw [records]; rfl), level, counted, ?_⟩
          exact (List.forall_mem_cons.mp absent).2
    · rw [records] at changed
      cases inner with
      | nil => exact ⟨[], change names, outer, changed, level, (same names).trans counted, absent⟩
      | cons inside rest =>
          have still : name ∉ change inside := by
            rw [← List.count_eq_zero, same]
            exact List.count_eq_zero_of_not_mem (absent inside List.mem_cons_self)
          refine ⟨change inside :: rest, names, outer, changed, level, counted, ?_⟩
          exact List.forall_mem_cons.mpr ⟨still, (List.forall_mem_cons.mp absent).2⟩

theorem performAll (holding : Holding name depth times store) {later : List Operation}
    (apart : ∀ operation ∈ later, operation.concerns name = false)
    (stays : store.StaysOpen depth later) :
    Holding name depth times (store.performAll later) := by
  induction later with
  | nil => exact holding
  | cons operation earlier inductionHypothesis =>
      rcases List.forall_mem_cons.mp apart with ⟨first, others⟩
      exact (inductionHypothesis others stays.1).perform first stays.2

/-- Closing the frame costs as many references as it has records. -/
theorem references?_exit (holding : Holding name depth times store)
    (innermost : store.depth = depth) :
    store.exit.references? name = some (-(times : Int)) := by
  rcases holding.divided with ⟨inner, names, outer, records, level, counted, _⟩
  have nothing : inner = [] := by
    rw [← length_records, records, List.length_append, List.length_cons] at innermost
    exact List.eq_nil_of_length_eq_zero (by omega)
  rw [Store.references?_exit, holding.fresh, records, nothing, List.nil_append,
    List.headD_cons, counted]
  simp

end Holding

theorem holding_allocate {store : Store} (opened : 0 < store.depth) (name : String)
    (value : Value) :
    Holding name store.depth (((store.allocate name value).records.headD []).count name)
      (store.allocate name value) := by
  refine ⟨(references?_allocate store name name value).trans (if_pos rfl), ?_⟩
  have size := (store.allocate name value).length_records
  rw [(depth_allocate store name value).1] at size
  rw [← size] at opened ⊢
  cases listed : (store.allocate name value).records with
  | nil =>
      rw [listed] at opened
      cases opened
  | cons names outer => exact ⟨[], names, outer, rfl, rfl, rfl, fun _ member => by cases member⟩

/-- After an assignment the innermost frame has the name on record exactly when the name had
no slot, or its slot had more than one reference, or the frame had the name on record before.
The exit that next closes this frame brings the count of the name below zero exactly then,
whatever is done to other names until that exit and whatever frames are opened and closed. -/
theorem recorded_iff_of_allocate {store : Store} (opened : 0 < store.depth) (name : String)
    (value : Value) :
    (name ∈ (store.allocate name value).records.headD [] ↔
      store.references? name = none ∨ (∃ count, store.references? name = some count ∧ 1 < count) ∨
        name ∈ store.records.headD []) ∧
    ∀ later : List Operation, (∀ operation ∈ later, operation.concerns name = false) →
      (store.allocate name value).StaysOpen store.depth later →
      ((store.allocate name value).performAll later).depth = store.depth →
      ∃ count, ((store.allocate name value).performAll later).exit.references? name =
          some count ∧
        (count < 0 ↔ name ∈ (store.allocate name value).records.headD []) := by
  constructor
  · have kept : store.keepsRecord name = true ↔ store.references? name = none ∨
        ∃ count, store.references? name = some count ∧ 1 < count := by
      unfold keepsRecord
      cases store.references? name <;> simp
    rw [mem_innermost_allocate opened, kept, or_assoc]
  · intro later apart stays innermost
    have held := (holding_allocate opened name value).performAll apart stays
    refine ⟨_, held.references?_exit innermost, ?_⟩
    rw [← List.count_pos_iff]
    omega

/-- A name that is bound outside the frame is assigned in it, and another frame is opened and
closed before the frame is. -/
theorem recorded_iff_of_allocate_nested :
    let store := (ofLimit 2).performAll [.enter, .allocate "x" (.truth true)]
    0 < store.depth ∧ "x" ∉ (store.allocate "x" (.truth false)).records.headD [] ∧
      ∃ count, ((store.allocate "x" (.truth false)).performAll
          [.exit, .allocate "y" (.truth true), .enter]).exit.references? "x" = some count ∧
        ¬ count < 0 := by
  have opened : 0 < ((ofLimit 2).performAll [.enter, .allocate "x" (.truth true)]).depth := by
    decide
  have law := recorded_iff_of_allocate opened "x" (.truth false)
  have absent : "x" ∉ (((ofLimit 2).performAll [.enter, .allocate "x" (.truth true)]).allocate "x"
      (.truth false)).records.headD [] := by decide
  rcases law.2 [.exit, .allocate "y" (.truth true), .enter] (by decide)
    ⟨⟨⟨trivial, by decide⟩, by decide⟩, by decide⟩ (by decide) with ⟨count, closed, negative⟩
  exact ⟨opened, absent, count, closed, fun below => absent (negative.mp below)⟩

/-- A name that is bound outside all frames and assigned in the first frame is not on record
there, and closing the frame leaves its count at zero. -/
theorem unrecorded_after_allocate :
    let store := (ofLimit 2).performAll [.enter, .allocate "x" (.truth true)]
    0 < store.depth ∧ "x" ∉ (store.allocate "x" (.truth false)).records.headD [] ∧
      (store.allocate "x" (.truth false)).exit.references? "x" = some 0 := by
  decide

end Store
end Scriptlet
