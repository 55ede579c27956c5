import Scriptlet.Proofs.FlatStore

namespace Scriptlet
namespace Store

/-!
# Reference counts over a run

Assigning, opening and closing frames are all that a run does to its store.  A name gets its
slot with its first assignment and keeps it; only that assignment puts the name on record, in
the frame that is innermost at the time.  Closing this frame is the one thing that lowers the
count, and assigning again is the one thing that restores it.

Histories say when that happens.  A frame is known by the number of steps that came before
the one that opened it, so that frames opened at different times are different frames.
-/

/-! ## Frames from the inside out -/

/-- The names that the open frames have on record, the innermost frame first. -/
def records (store : Store) : List (List String) :=
  store.frames.toList.reverse

theorem length_records (store : Store) : store.records.length = store.depth := by
  simp only [records, List.length_reverse, Array.length_toList, depth]

theorem records_inInnermost (store : Store) (change : List String → List String) :
    (store.inInnermost change).records = store.records.modifyHead change := by
  rcases store with ⟨slots, ⟨frames⟩, limit⟩
  rcases List.eq_nil_or_concat frames with rfl | ⟨outer, names, rfl⟩
  · rfl
  · simp [records, inInnermost, List.modify_eq_take_drop]

theorem records_withFrame (store : Store) : store.withFrame.records = [] :: store.records := by
  simp only [records, withFrame, Array.toList_push, List.reverse_append, List.reverse_singleton,
    List.singleton_append]

theorem records_exit (store : Store) : store.exit.records = store.records.tail := by
  unfold records
  rw [frames_exit, Array.toList_pop, List.tail_reverse]

/-! ## Counts -/

theorem references?_withSlot (store : Store) (name other : String) (slot : Slot) :
    (store.withSlot name slot).references? other =
      if other = name then some slot.references else store.references? other := by
  unfold references?
  by_cases same : other = name
  · rw [if_pos same, same, slot?_withSlot_self]
    rfl
  · rw [if_neg same, slot?_withSlot_of_ne store same]

theorem references?_eq_none {store : Store} {name : String} :
    store.references? name = none ↔ store.slot? name = none := by
  unfold references?
  exact Option.map_eq_none_iff

theorem slot?_of_references? {store : Store} {name : String} {count : Int}
    (counted : store.references? name = some count) :
    ∃ slot, store.slot? name = some slot ∧ slot.references = count := by
  unfold references? at counted
  exact Option.map_eq_some_iff.mp counted

/-- An assignment starts the count of its name afresh and changes no other. -/
theorem references?_allocate (store : Store) (name other : String) (value : Value) :
    (store.allocate name value).references? other =
      if other = name then some 0 else store.references? other := by
  unfold allocate
  rw [references?_withSlot]
  by_cases same : other = name
  · rw [if_pos same, if_pos same]
  · rw [if_neg same, if_neg same]
    unfold references?
    generalize recorded : (store.inInnermost fun names => name :: names) = after
    have unchanged : after.slot? other = store.slot? other := by
      rw [← recorded]
      rfl
    rw [← unchanged]
    cases after.slot? name with
    | none => rfl
    | some slot => exact congrArg (Option.map Slot.references) (slot?_lower_of_ne after same slot)

theorem references?_dropReference (store : Store) (name other : String) :
    (store.dropReference name).references? other =
      (store.references? other).map fun count => count - ([name].count other : Int) := by
  unfold dropReference
  cases found : store.slot? name with
  | none =>
      by_cases same : other = name
      · have missing : store.references? other = none := by
          rw [same]
          exact references?_eq_none.mpr found
        rw [missing]
        rfl
      · simp [Ne.symm same]
  | some slot =>
      simp only [references?_withSlot]
      by_cases same : other = name
      · have present : store.references? other = some slot.references := by
          rw [same, references?, found]
          rfl
        rw [if_pos same, present, same]
        simp
      · rw [if_neg same]
        simp [Ne.symm same]

/-- Each record of a name costs a reference. -/
theorem references?_foldl_dropReference (names : List String) (store : Store) (other : String) :
    (names.foldl dropReference store).references? other =
      (store.references? other).map fun count => count - (names.count other : Int) := by
  induction names generalizing store with
  | nil => simp
  | cons name rest inductionHypothesis =>
      have counted : ((name :: rest).count other : Int) =
          ([name].count other : Int) + (rest.count other : Int) := by
        rw [← List.singleton_append, List.count_append]
        exact Int.natCast_add _ _
      rw [List.foldl_cons, inductionHypothesis, references?_dropReference, Option.map_map]
      congr 1
      funext count
      simp only [Function.comp_apply, counted]
      omega

theorem references?_exit (store : Store) (name : String) :
    store.exit.references? name =
      (store.references? name).map fun count =>
        count - ((store.records.headD []).count name : Int) := by
  have innermost : store.records.head? = store.frames.back? := by
    unfold records
    rw [List.head?_reverse, ← Array.getLast?_toList]
  unfold exit
  rw [List.headD_eq_head?_getD, innermost]
  cases store.frames.back? with
  | none => simp
  | some names => exact references?_foldl_dropReference names _ name

/-! ## The invariant -/

/-- No name is on record twice, a name on record has no reference missing, and no name has
more than one missing. -/
structure Counted (store : Store) : Prop where
  once : store.records.flatten.Nodup
  recorded : ∀ name ∈ store.records.flatten, store.references? name = some 0
  counts : ∀ name count, store.references? name = some count → count = 0 ∨ count = -1

theorem mem_flatten_record {records : List (List String)} {name other : String}
    (member : other ∈ (records.modifyHead fun names => name :: names).flatten) :
    other = name ∨ other ∈ records.flatten := by
  cases records with
  | nil => exact Or.inr member
  | cons names outer => exact List.mem_cons.mp member

theorem nodup_flatten_record {records : List (List String)} {name : String}
    (once : records.flatten.Nodup) (fresh : name ∉ records.flatten) :
    (records.modifyHead fun names => name :: names).flatten.Nodup := by
  cases records with
  | nil => exact once
  | cons names outer => exact List.nodup_cons.mpr ⟨fresh, once⟩

namespace Counted

/-- A first assignment puts the name on record; a later one changes no record. -/
theorem records_allocate {store : Store} (counted : store.Counted) (name : String)
    (value : Value) :
    (store.allocate name value).records =
      match store.references? name with
      | none => store.records.modifyHead fun names => name :: names
      | some _ => store.records := by
  cases found : store.references? name with
  | none =>
      rw [allocate_of_unbound (references?_eq_none.mp found)]
      exact records_inInnermost store _
  | some count =>
      rcases slot?_of_references? found with ⟨slot, bound, same⟩
      have spare : slot.references ≤ 1 := by
        rcases counted.counts name count found with zero | negative <;> omega
      rw [allocate_of_bound bound spare]
      rfl

theorem allocate {store : Store} (counted : store.Counted) (name : String) (value : Value) :
    (store.allocate name value).Counted := by
  have records := counted.records_allocate name value
  refine ⟨?_, ?_, ?_⟩
  · rw [records]
    cases found : store.references? name with
    | none =>
        apply nodup_flatten_record counted.once
        intro member
        cases found.symm.trans (counted.recorded name member)
    | some count => exact counted.once
  · intro other member
    rw [references?_allocate]
    by_cases same : other = name
    · rw [if_pos same]
    · rw [if_neg same]
      rw [records] at member
      cases found : store.references? name with
      | none =>
          rw [found] at member
          exact counted.recorded other ((mem_flatten_record member).resolve_left same)
      | some count =>
          rw [found] at member
          exact counted.recorded other member
  · intro other count shown
    rw [references?_allocate] at shown
    by_cases same : other = name
    · rw [if_pos same] at shown
      exact Or.inl (Option.some.inj shown).symm
    · rw [if_neg same] at shown
      exact counted.counts other count shown

theorem withFrame {store : Store} (counted : store.Counted) : store.withFrame.Counted := by
  have records : store.withFrame.records.flatten = store.records.flatten := by
    rw [records_withFrame]
    rfl
  refine ⟨?_, ?_, counted.counts⟩
  · rw [records]
    exact counted.once
  · intro name member
    rw [records] at member
    exact counted.recorded name member

/-- What closing a frame does to a count: a name that the frame has on record loses its
reference. -/
theorem references?_exit {store : Store} (counted : store.Counted) (name : String) :
    store.exit.references? name =
      if name ∈ store.records.headD [] then some (-1) else store.references? name := by
  rw [Store.references?_exit]
  by_cases member : name ∈ store.records.headD []
  · have inside : name ∈ store.records.flatten := by
      cases listed : store.records with
      | nil =>
          rw [listed] at member
          cases member
      | cons names outer =>
          rw [listed] at member
          exact List.mem_append_left _ member
    have single : (store.records.headD []).count name = 1 := by
      apply List.count_eq_one_of_mem _ member
      cases listed : store.records with
      | nil => exact List.nodup_nil
      | cons names outer =>
          have once := counted.once
          rw [listed, List.flatten_cons] at once
          exact once.of_append_left
    rw [if_pos member, counted.recorded name inside, single]
    rfl
  · rw [if_neg member, List.count_eq_zero_of_not_mem member]
    simp

theorem exit {store : Store} (counted : store.Counted) : store.exit.Counted := by
  have records := records_exit store
  have once := counted.once
  refine ⟨?_, ?_, ?_⟩
  · rw [records]
    cases listed : store.records with
    | nil => exact List.nodup_nil
    | cons names outer =>
        rw [listed, List.flatten_cons] at once
        exact once.of_append_right
  · intro name member
    rw [counted.references?_exit]
    rw [records] at member
    cases listed : store.records with
    | nil =>
        rw [listed] at member
        cases member
    | cons names outer =>
        rw [listed, List.flatten_cons] at once
        rw [listed] at member
        have elsewhere : name ∉ names := fun inside =>
          List.disjoint_of_nodup_append once inside member
        rw [List.headD_cons, if_neg elsewhere]
        apply counted.recorded
        rw [listed]
        exact List.mem_append_right _ member
  · intro name count shown
    rw [counted.references?_exit] at shown
    by_cases member : name ∈ store.records.headD []
    · rw [if_pos member] at shown
      exact Or.inr (Option.some.inj shown).symm
    · rw [if_neg member] at shown
      exact counted.counts name count shown

theorem after {store : Store} (counted : store.Counted) (step : Step) :
    (store.after step).Counted := by
  cases step with
  | allocate name value => exact counted.allocate name value
  | enter =>
      unfold Store.after
      cases entered : store.enter with
      | ok opened =>
          simp only [(enter_eq_ok entered).1]
          exact counted.withFrame
      | error fault => exact counted
  | exit => exact counted.exit

end Counted

theorem counted_ofLimit (limit : Nat) : (ofLimit limit).Counted where
  once := List.nodup_nil
  recorded _ member := nomatch member
  counts _ _ shown := nomatch shown

theorem counted_replay (limit : Nat) (history : List Step) :
    ((ofLimit limit).replay history).Counted := by
  induction history with
  | nil => exact counted_ofLimit limit
  | cons step earlier inductionHypothesis => exact inductionHypothesis.after step

/-! ## Counts by history -/

def Step.assigns (name : String) : Step → Bool
  | .allocate assigned _ => assigned = name
  | .enter | .exit => false

/-- The frames that are open after a history, the innermost first.  A frame is known by the
number of steps before the one that opened it. -/
def openFrames (limit : Nat) : List Step → List Nat
  | [] => []
  | .allocate _ _ :: earlier => openFrames limit earlier
  | .enter :: earlier =>
      if (openFrames limit earlier).length < limit then earlier.length :: openFrames limit earlier
      else openFrames limit earlier
  | .exit :: earlier => (openFrames limit earlier).tail

/-- The frame that was innermost when a name was assigned for the first time, if a frame was
open.  There is no answer for a name that was never assigned. -/
def firstFrame? (limit : Nat) (name : String) : List Step → Option (Option Nat)
  | [] => none
  | step :: earlier =>
      match firstFrame? limit name earlier with
      | some frame? => some frame?
      | none => if step.assigns name then some (openFrames limit earlier).head? else none

/-- Whether a frame was closed after the latest assignment of a name. -/
def closedSince (limit : Nat) (name : String) (frame : Nat) : List Step → Bool
  | [] => false
  | .allocate assigned _ :: earlier => assigned ≠ name && closedSince limit name frame earlier
  | .enter :: earlier => closedSince limit name frame earlier
  | .exit :: earlier =>
      (openFrames limit earlier).head? = some frame || closedSince limit name frame earlier

theorem lt_of_mem_openFrames {limit frame : Nat} {history : List Step}
    (member : frame ∈ openFrames limit history) : frame < history.length := by
  induction history with
  | nil => cases member
  | cons step earlier inductionHypothesis =>
      have older : frame ∈ openFrames limit earlier → frame < (step :: earlier).length :=
        fun inside => Nat.lt_succ_of_lt (inductionHypothesis inside)
      cases step with
      | allocate name value => exact older member
      | exit => exact older (List.mem_of_mem_tail member)
      | enter =>
          unfold openFrames at member
          split at member
          · rcases List.mem_cons.mp member with rfl | inside
            · exact Nat.lt_succ_self _
            · exact older inside
          · exact older member

theorem nodup_openFrames (limit : Nat) (history : List Step) :
    (openFrames limit history).Nodup := by
  induction history with
  | nil => exact List.nodup_nil
  | cons step earlier inductionHypothesis =>
      cases step with
      | allocate name value => exact inductionHypothesis
      | exit => exact inductionHypothesis.tail
      | enter =>
          unfold openFrames
          split
          · refine List.nodup_cons.mpr ⟨?_, inductionHypothesis⟩
            intro member
            exact Nat.lt_irrefl _ (lt_of_mem_openFrames member)
          · exact inductionHypothesis

theorem firstFrame?_cons_of_some {limit : Nat} {name : String} {earlier : List Step}
    {frame? : Option Nat} (found : firstFrame? limit name earlier = some frame?) (step : Step) :
    firstFrame? limit name (step :: earlier) = some frame? := by
  rw [firstFrame?, found]

theorem firstFrame?_cons_of_none {limit : Nat} {name : String} {earlier : List Step}
    (missing : firstFrame? limit name earlier = none) (step : Step) :
    firstFrame? limit name (step :: earlier) =
      if step.assigns name then some (openFrames limit earlier).head? else none := by
  rw [firstFrame?, missing]

theorem firstFrame?_cons_of_other {limit : Nat} {name : String} (earlier : List Step)
    {step : Step} (other : step.assigns name = false) :
    firstFrame? limit name (step :: earlier) = firstFrame? limit name earlier := by
  cases found : firstFrame? limit name earlier with
  | some frame? => exact firstFrame?_cons_of_some found step
  | none => rw [firstFrame?_cons_of_none found, other, if_neg Bool.false_ne_true]

theorem firstFrame?_lt {limit : Nat} {name : String} {history : List Step} {frame : Nat}
    (first : firstFrame? limit name history = some (some frame)) : frame < history.length := by
  induction history with
  | nil => cases first
  | cons step earlier inductionHypothesis =>
      cases found : firstFrame? limit name earlier with
      | some frame? =>
          rw [firstFrame?_cons_of_some found] at first
          exact Nat.lt_succ_of_lt (inductionHypothesis (found.trans first))
      | none =>
          rw [firstFrame?_cons_of_none found] at first
          split at first
          · have innermost := List.mem_of_mem_head? (Option.some.inj first)
            exact Nat.lt_succ_of_lt (lt_of_mem_openFrames innermost)
          · cases first

/-- What a history tells about the store it leads to: which names have a slot, which frame has
which names on record, and which names have a reference missing. -/
structure Tracked (limit : Nat) (history : List Step) (store : Store) : Prop where
  bound : ∀ name, store.references? name = none ↔ firstFrame? limit name history = none
  recorded : List.Forall₂
    (fun frame names => ∀ name,
      name ∈ names ↔ firstFrame? limit name history = some (some frame))
    (openFrames limit history) store.records
  missing : ∀ name, store.references? name = some (-1) ↔
    ∃ frame, firstFrame? limit name history = some (some frame) ∧
      closedSince limit name frame history = true

namespace Tracked

variable {limit : Nat} {history : List Step} {store : Store}

theorem depth_eq (tracked : Tracked limit history store) :
    (openFrames limit history).length = store.depth :=
  tracked.recorded.length_eq.trans store.length_records

/-- The names of the innermost frame are those first assigned in it. -/
theorem mem_innermost (tracked : Tracked limit history store) (name : String) :
    name ∈ store.records.headD [] ↔
      ∃ frame, (openFrames limit history).head? = some frame ∧
        firstFrame? limit name history = some (some frame) := by
  have recorded := tracked.recorded
  generalize openFrames limit history = frames at recorded ⊢
  generalize store.records = records at recorded ⊢
  cases recorded with
  | nil => simp
  | cons first _ => simpa using first name

theorem allocate (tracked : Tracked limit history store) (counted : store.Counted)
    (name : String) (value : Value) :
    Tracked limit (.allocate name value :: history) (store.allocate name value) := by
  have others : ∀ other, other ≠ name →
      firstFrame? limit other (.allocate name value :: history) =
        firstFrame? limit other history := by
    intro other different
    exact firstFrame?_cons_of_other history (decide_eq_false (Ne.symm different))
  have records := counted.records_allocate name value
  have assigned : Step.assigns name (.allocate name value) = true := decide_eq_true rfl
  refine ⟨?_, ?_, ?_⟩
  · intro other
    rw [references?_allocate]
    by_cases same : other = name
    · rw [if_pos same, same]
      cases found : firstFrame? limit name history with
      | some frame? =>
          rw [firstFrame?_cons_of_some found]
          simp
      | none =>
          rw [firstFrame?_cons_of_none found, if_pos assigned]
          simp
    · rw [if_neg same, others other same]
      exact tracked.bound other
  · rw [records]
    change List.Forall₂ _ (openFrames limit history) _
    cases found : store.references? name with
    | some count =>
        -- The name was assigned before, and nothing new is on record.
        have known : firstFrame? limit name history ≠ none := by
          intro missing
          cases found.symm.trans ((tracked.bound name).mpr missing)
        have unchanged : ∀ other, firstFrame? limit other (.allocate name value :: history) =
            firstFrame? limit other history := by
          intro other
          by_cases same : other = name
          · rw [same]
            rcases Option.ne_none_iff_exists'.mp known with ⟨frame?, first⟩
            rw [firstFrame?_cons_of_some first, first]
          · exact others other same
        simp only [unchanged]
        exact tracked.recorded
    | none =>
        have unknown := (tracked.bound name).mp found
        have first := firstFrame?_cons_of_none unknown (.allocate name value)
        rw [if_pos assigned] at first
        have distinct := nodup_openFrames limit history
        have recorded := tracked.recorded
        generalize openFrames limit history = frames at recorded first distinct ⊢
        generalize store.records = records at recorded ⊢
        cases recorded with
        | nil => exact .nil
        | @cons frame names outerFrames outer innermost rest =>
            refine .cons ?_ ?_
            · intro other
              by_cases same : other = name
              · rw [same, first]
                simp
              · rw [others other same, List.mem_cons, or_iff_right same]
                exact innermost other
            · -- No other frame is the one that has the name on record now.
              have apart : ∀ outerFrame ∈ outerFrames, frame ≠ outerFrame := by
                intro outerFrame member equal
                exact (List.nodup_cons.mp distinct).1 (equal ▸ member)
              refine List.Forall₂.imp ?_ ((List.forall₂_and_left _ _).mpr ⟨apart, rest⟩)
              rintro outerFrame outerNames ⟨different, listed⟩ other
              by_cases same : other = name
              · have absent : name ∉ outerNames := by
                  intro member
                  cases unknown.symm.trans ((listed name).mp member)
                rw [same, first]
                simp [absent, different]
              · rw [others other same]
                exact listed other
  · intro other
    rw [references?_allocate]
    by_cases same : other = name
    · rw [if_pos same, same]
      simp [closedSince]
    · rw [if_neg same, others other same, tracked.missing other]
      simp [closedSince, Ne.symm same]

/-- Opening a frame assigns nothing, so that only the open frames can differ. -/
theorem enter {opened : Store} (tracked : Tracked limit history store)
    (counts : opened.references? = store.references?)
    (recorded : List.Forall₂
      (fun frame names => ∀ name,
        name ∈ names ↔ firstFrame? limit name history = some (some frame))
      (openFrames limit (.enter :: history)) opened.records) :
    Tracked limit (.enter :: history) opened := by
  have unchanged : ∀ name, firstFrame? limit name (.enter :: history) =
      firstFrame? limit name history := fun name => firstFrame?_cons_of_other history rfl
  refine ⟨?_, ?_, ?_⟩
  · intro name
    rw [counts, unchanged]
    exact tracked.bound name
  · simp only [unchanged]
    exact recorded
  · intro name
    rw [counts, unchanged]
    exact tracked.missing name

theorem withFrame (tracked : Tracked limit history store)
    (room : (openFrames limit history).length < limit) :
    Tracked limit (.enter :: history) store.withFrame := by
  have counts : store.withFrame.references? = store.references? := rfl
  apply tracked.enter counts
  rw [records_withFrame, openFrames, if_pos room]
  refine .cons ?_ tracked.recorded
  intro name
  have fresh : firstFrame? limit name history ≠ some (some history.length) := fun first =>
    Nat.lt_irrefl _ (firstFrame?_lt first)
  simp [fresh]

theorem refused (tracked : Tracked limit history store)
    (full : ¬ (openFrames limit history).length < limit) :
    Tracked limit (.enter :: history) store := by
  apply tracked.enter rfl
  rw [openFrames, if_neg full]
  exact tracked.recorded

theorem exit (tracked : Tracked limit history store) (counted : store.Counted) :
    Tracked limit (.exit :: history) store.exit := by
  have unchanged : ∀ name, firstFrame? limit name (.exit :: history) =
      firstFrame? limit name history := fun name => firstFrame?_cons_of_other history rfl
  refine ⟨?_, ?_, ?_⟩
  · intro name
    rw [unchanged, ← tracked.bound name, Store.references?_exit]
    exact Option.map_eq_none_iff
  · rw [records_exit, openFrames]
    simp only [unchanged]
    have recorded := tracked.recorded
    generalize openFrames limit history = frames at recorded ⊢
    generalize store.records = records at recorded ⊢
    cases recorded with
    | nil => exact .nil
    | cons _ rest => exact rest
  · intro name
    rw [unchanged, counted.references?_exit]
    simp only [closedSince, Bool.or_eq_true, decide_eq_true_eq]
    by_cases member : name ∈ store.records.headD []
    · rw [if_pos member]
      rcases (tracked.mem_innermost name).mp member with ⟨frame, closed, first⟩
      exact ⟨fun _ => ⟨frame, first, Or.inl closed⟩, fun _ => rfl⟩
    · rw [if_neg member, tracked.missing name]
      constructor
      · rintro ⟨frame, first, before⟩
        exact ⟨frame, first, Or.inr before⟩
      · rintro ⟨frame, first, closed | before⟩
        · exact absurd ((tracked.mem_innermost name).mpr ⟨frame, closed, first⟩) member
        · exact ⟨frame, first, before⟩

end Tracked

theorem depthLimit_replay (store : Store) (history : List Step) :
    (store.replay history).depthLimit = store.depthLimit := by
  induction history with
  | nil => rfl
  | cons step earlier inductionHypothesis =>
      cases step with
      | allocate name value => exact (depth_allocate _ name value).2.trans inductionHypothesis
      | exit => exact (depth_exit _).2.trans inductionHypothesis
      | enter =>
          unfold replay after
          cases entered : (store.replay earlier).enter with
          | error fault => exact inductionHypothesis
          | ok opened =>
              simp only [(enter_eq_ok entered).1]
              exact inductionHypothesis

theorem tracked_replay (limit : Nat) (history : List Step) :
    Tracked limit history ((ofLimit limit).replay history) := by
  induction history with
  | nil =>
      refine ⟨fun _ => iff_of_true rfl rfl, .nil, ?_⟩
      intro name
      constructor
      · intro shown
        cases shown
      · rintro ⟨frame, first, _⟩
        cases first
  | cons step earlier inductionHypothesis =>
      have counted := counted_replay limit earlier
      cases step with
      | allocate name value => exact inductionHypothesis.allocate counted name value
      | exit => exact inductionHypothesis.exit counted
      | enter =>
          have limits := depthLimit_replay (ofLimit limit) earlier
          have frames := inductionHypothesis.depth_eq
          change Tracked limit _ (((ofLimit limit).replay earlier).after .enter)
          unfold after
          by_cases full : ((ofLimit limit).replay earlier).depthLimit ≤
              ((ofLimit limit).replay earlier).depth
          · rw [enter_of_full full]
            rw [limits, ← frames] at full
            exact inductionHypothesis.refused (Nat.not_lt_of_le full)
          · rw [enter_of_room full]
            rw [limits, ← frames] at full
            exact inductionHypothesis.withFrame (Nat.lt_of_not_le full)

theorem firstFrame?_eq_none_iff {limit : Nat} {name : String} {history : List Step} :
    firstFrame? limit name history = none ↔ ∀ step ∈ history, step.assigns name = false := by
  induction history with
  | nil => simp [firstFrame?]
  | cons step earlier inductionHypothesis =>
      rw [List.forall_mem_cons, ← inductionHypothesis]
      cases found : firstFrame? limit name earlier with
      | some frame? =>
          rw [firstFrame?_cons_of_some found]
          simp
      | none =>
          rw [firstFrame?_cons_of_none found]
          cases step.assigns name <;> simp

/-- A name has a slot from its first assignment on. -/
theorem contains_replay (limit : Nat) (history : List Step) (name : String) :
    ((ofLimit limit).replay history).contains name = true ↔
      ∃ step ∈ history, step.assigns name = true := by
  have unassigned := (tracked_replay limit history).bound name
  rw [firstFrame?_eq_none_iff, references?_eq_none] at unassigned
  unfold contains
  rw [Option.isSome_iff_ne_none, ne_eq, unassigned]
  simp

theorem replay_append (store : Store) (later earlier : List Step) :
    store.replay (later ++ earlier) = (store.replay earlier).replay later := by
  induction later with
  | nil => rfl
  | cons step rest inductionHypothesis =>
      simp only [List.cons_append, replay, inductionHypothesis]

/-- After every history of assignments and of opened and closed frames, each name is on record
at most once over all open frames; every name that was ever assigned has its slot, and its
count is zero or minus one.  It is minus one exactly when the frame of the first assignment
was closed after the latest one, so that it stays zero for a name first assigned outside all
frames.  Whatever is asked of a machine with such a store, its store goes on in the same
way. -/
theorem reference_counts_of_replay (limit : Nat) (history : List Step) :
    ((ofLimit limit).replay history).records.flatten.Nodup ∧
    (∀ name, ((ofLimit limit).replay history).contains name = true ↔
      ∃ step ∈ history, step.assigns name = true) ∧
    (∀ name count, ((ofLimit limit).replay history).references? name = some count →
      count = 0 ∨ count = -1) ∧
    (∀ name, ((ofLimit limit).replay history).references? name = some (-1) ↔
      ∃ frame, firstFrame? limit name history = some (some frame) ∧
        closedSince limit name frame history = true) ∧
    (∀ name, firstFrame? limit name history = some none →
      ((ofLimit limit).replay history).references? name = some 0) ∧
    (∀ environment request (machine : Machine),
      machine.store = (ofLimit limit).replay history →
      ∃ later, (stateAfter (Machine.answer environment request machine)).store =
        (ofLimit limit).replay (later ++ history)) := by
  have counted := counted_replay limit history
  have tracked := tracked_replay limit history
  refine ⟨counted.once, contains_replay limit history, counted.counts, tracked.missing, ?_, ?_⟩
  · intro name outside
    cases shown : ((ofLimit limit).replay history).references? name with
    | none => cases outside.symm.trans ((tracked.bound name).mp shown)
    | some count =>
        rcases counted.counts name count shown with zero | negative
        · rw [zero]
        · rw [negative] at shown
          rcases (tracked.missing name).mp shown with ⟨frame, inside, _⟩
          cases outside.symm.trans inside
  · intro environment request machine same
    rcases Machine.answer_replay environment request machine with ⟨later, replayed⟩
    refine ⟨later, ?_⟩
    rw [replayed, same, replay_append]

/-- One name is assigned outside all frames, another in a frame that is closed. -/
theorem reference_counts_of_replay_closed :
    ((ofLimit 2).replay [.exit, .allocate "x" (.truth true), .enter,
        .allocate "y" (.truth true)]).references? "x" = some (-1) ∧
      ((ofLimit 2).replay [.exit, .allocate "x" (.truth true), .enter,
        .allocate "y" (.truth true)]).references? "y" = some 0 ∧
      ((-1 : Int) = 0 ∨ (-1 : Int) = -1) ∧
      ∃ later, (stateAfter (Machine.answer ⟨{}, {}⟩ (.execute (.flag .halt 1))
        { store := (ofLimit 2).replay [] })).store = (ofLimit 2).replay (later ++ []) := by
  rcases reference_counts_of_replay 2 [.exit, .allocate "x" (.truth true), .enter,
    .allocate "y" (.truth true)] with ⟨_, _, counts, missing, outside, _⟩
  have closed := (missing "x").mpr ⟨1, by decide, by decide⟩
  refine ⟨closed, outside "y" (by decide), counts "x" (-1) closed, ?_⟩
  exact (reference_counts_of_replay 2 []).2.2.2.2.2 ⟨{}, {}⟩ (.execute (.flag .halt 1))
    { store := (ofLimit 2).replay [] } rfl

end Store
end Scriptlet
