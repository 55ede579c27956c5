import Mathlib.Data.Finmap
import Scriptlet.Proofs.Simulation
import Scriptlet.Proofs.StackDiscipline

namespace Scriptlet

/-!
# The store as a flat table

Assignment releases and re-creates slots, frames record names, and leaving a scope lowers
counts below zero.  None of it can be seen: a table of values and a count of open frames give
the same answers.  The table forgets what the store has on record, so the proof is one
statement for each of the four things that evaluation asks of its variables.

A history is a storage too.  A store that only remembers what was done to it shows the value
of the latest assignment, and comparing the machine's store with it says that every run does
nothing but assign, open and close.
-/

namespace Store

/-! ## Slots by name -/

theorem lookup_filter_of_ne {name other : String} (different : other ≠ name)
    (slots : List (String × Slot)) :
    (slots.filter fun entry => entry.1 ≠ name).lookup other = slots.lookup other := by
  induction slots with
  | nil => rfl
  | cons entry rest inductionHypothesis =>
      by_cases same : entry.1 = name
      · rw [List.filter_cons_of_neg (by simpa using same), inductionHypothesis]
        rw [List.lookup_cons, same, beq_false_of_ne different]
      · rw [List.filter_cons_of_pos (by simpa using same)]
        rw [List.lookup_cons, List.lookup_cons, inductionHypothesis]

theorem slot?_withSlot_self (store : Store) (name : String) (slot : Slot) :
    (store.withSlot name slot).slot? name = some slot := by
  simp only [slot?, withSlot, List.lookup_cons_self]

theorem slot?_withSlot_of_ne (store : Store) {name other : String} (different : other ≠ name)
    (slot : Slot) : (store.withSlot name slot).slot? other = store.slot? other := by
  unfold slot? withSlot
  rw [List.lookup_cons, beq_false_of_ne different]
  exact lookup_filter_of_ne different store.slots

theorem slot?_release_of_ne (store : Store) {name other : String} (different : other ≠ name) :
    (store.release name).slot? other = store.slot? other :=
  lookup_filter_of_ne different store.slots

theorem slot?_lower_of_ne (store : Store) {name other : String} (different : other ≠ name)
    (slot : Slot) : (store.lower name slot).slot? other = store.slot? other := by
  unfold lower
  split
  · exact slot?_release_of_ne store different
  · exact slot?_withSlot_of_ne store different _

/-! ## What the steps do to values -/

theorem value?_allocate_self (store : Store) (name : String) (value : Value) :
    (store.allocate name value).value? name = some value := by
  unfold value? allocate
  rw [slot?_withSlot_self]
  rfl

/-- The slot of another name survives the release of the slot that was there. -/
theorem value?_allocate_of_ne (store : Store) {name other : String} (different : other ≠ name)
    (value : Value) : (store.allocate name value).value? other = store.value? other := by
  unfold value? allocate
  rw [slot?_withSlot_of_ne _ different]
  generalize recorded : (store.inInnermost fun names => name :: names) = after
  have unchanged : after.slot? other = store.slot? other := by
    rw [← recorded]
    rfl
  cases after.slot? name with
  | none => exact congrArg (Option.map Slot.value) unchanged
  | some slot =>
      exact congrArg (Option.map Slot.value)
        ((slot?_lower_of_ne after different slot).trans unchanged)

theorem value?_allocate (store : Store) (name other : String) (value : Value) :
    (store.allocate name value).value? other =
      if other = name then some value else store.value? other := by
  by_cases same : other = name
  · rw [if_pos same, same]
    exact value?_allocate_self store name value
  · rw [if_neg same]
    exact value?_allocate_of_ne store same value

/-- Dropping a reference changes a count and no value. -/
theorem value?_dropReference (store : Store) (name other : String) :
    (store.dropReference name).value? other = store.value? other := by
  unfold dropReference
  cases found : store.slot? name with
  | none => rfl
  | some slot =>
      unfold value?
      by_cases same : other = name
      · rw [same, slot?_withSlot_self, found]
        rfl
      · rw [slot?_withSlot_of_ne store same]

theorem value?_foldl_dropReference (names : List String) (store : Store) (other : String) :
    (names.foldl dropReference store).value? other = store.value? other := by
  induction names generalizing store with
  | nil => rfl
  | cons name rest inductionHypothesis =>
      rw [List.foldl_cons, inductionHypothesis]
      exact value?_dropReference store name other

theorem value?_exit (store : Store) (name : String) :
    store.exit.value? name = store.value? name := by
  unfold exit
  cases store.frames.back? with
  | none => rfl
  | some names => exact value?_foldl_dropReference names _ name

/-! ## What the steps do to frames -/

/-- What a step leaves alone besides the values: the limit and, but for entering and leaving,
the number of frames. -/
theorem depth_lower (store : Store) (name : String) (slot : Slot) :
    (store.lower name slot).depth = store.depth ∧
      (store.lower name slot).depthLimit = store.depthLimit := by
  unfold lower
  split
  · exact ⟨Array.size_modify, rfl⟩
  · exact ⟨rfl, rfl⟩

theorem depth_allocate (store : Store) (name : String) (value : Value) :
    (store.allocate name value).depth = store.depth ∧
      (store.allocate name value).depthLimit = store.depthLimit := by
  unfold allocate
  generalize recorded : (store.inInnermost fun names => name :: names) = after
  have unchanged : after.depth = store.depth ∧ after.depthLimit = store.depthLimit := by
    rw [← recorded]
    exact ⟨Array.size_modify, rfl⟩
  cases found : after.slot? name with
  | none =>
      simp only [found]
      exact unchanged
  | some slot =>
      simp only [found]
      have lowered := depth_lower after name slot
      exact ⟨lowered.1.trans unchanged.1, lowered.2.trans unchanged.2⟩

theorem depth_dropReference (store : Store) (name : String) :
    (store.dropReference name).depth = store.depth ∧
      (store.dropReference name).depthLimit = store.depthLimit := by
  unfold dropReference
  cases store.slot? name with
  | none => exact ⟨rfl, rfl⟩
  | some slot => exact ⟨rfl, rfl⟩

theorem depth_foldl_dropReference (names : List String) (store : Store) :
    (names.foldl dropReference store).depth = store.depth ∧
      (names.foldl dropReference store).depthLimit = store.depthLimit := by
  induction names generalizing store with
  | nil => exact ⟨rfl, rfl⟩
  | cons name rest inductionHypothesis =>
      have dropped := depth_dropReference store name
      have others := inductionHypothesis (store.dropReference name)
      exact ⟨others.1.trans dropped.1, others.2.trans dropped.2⟩

theorem depth_exit (store : Store) :
    store.exit.depth = store.depth - 1 ∧ store.exit.depthLimit = store.depthLimit := by
  unfold exit
  cases innermost : store.frames.back? with
  | none =>
      have empty : store.frames = #[] := by simpa using innermost
      refine ⟨?_, rfl⟩
      unfold depth
      rw [empty]
      rfl
  | some names =>
      have folded := depth_foldl_dropReference names { store with frames := store.frames.pop }
      exact ⟨folded.1.trans Array.size_pop, folded.2⟩

theorem frames_dropReference (store : Store) (name : String) :
    (store.dropReference name).frames = store.frames := by
  unfold dropReference
  cases store.slot? name <;> rfl

/-- Closing a frame changes counts and no other frame. -/
theorem frames_exit (store : Store) : store.exit.frames = store.frames.pop := by
  unfold exit
  cases innermost : store.frames.back? with
  | none =>
      have empty : store.frames = #[] := by simpa using innermost
      simp only [empty, Array.pop_empty]
  | some names =>
      have kept : ∀ (others : List String) (start : Store),
          (others.foldl dropReference start).frames = start.frames := by
        intro others
        induction others with
        | nil => exact fun _ => rfl
        | cons name rest inductionHypothesis =>
            intro start
            exact (inductionHypothesis (start.dropReference name)).trans
              (frames_dropReference start name)
      exact kept names _

/-- A name that has no slot yet is recorded by the innermost frame. -/
theorem allocate_of_unbound {store : Store} {name : String} (unbound : store.slot? name = none)
    (value : Value) :
    store.allocate name value =
      (store.inInnermost fun names => name :: names).withSlot name ⟨value, 0⟩ := by
  have missing : (store.inInnermost fun names => name :: names).slot? name = none := unbound
  simp only [allocate, missing]

/-- The record of a name that is assigned again is removed at once by the release of its slot,
unless the slot has references to spare: only the slot is replaced. -/
theorem allocate_of_bound {store : Store} {name : String} {slot : Slot}
    (bound : store.slot? name = some slot) (spare : slot.references ≤ 1) (value : Value) :
    store.allocate name value = store.withSlot name ⟨value, 0⟩ := by
  have found : (store.inInnermost fun names => name :: names).slot? name = some slot := bound
  have released : slot.references - 1 ≤ 0 := by omega
  have unrecorded : ((store.inInnermost fun names => name :: names).inInnermost
      fun names => names.erase name) = store := by
    have frames : (store.frames.modify (store.frames.size - 1) fun names => name :: names).modify
        (store.frames.size - 1) (fun names => names.erase name) = store.frames := by
      apply Array.ext_getElem?
      intro index
      rw [Array.getElem?_modify, Array.getElem?_modify]
      split
      · cases store.frames[index]? with
        | none => rfl
        | some names => simp
      · rfl
    simp only [inInnermost, Array.size_modify, frames]
  simp only [allocate, found, lower, if_pos released, release, unrecorded]
  simp only [withSlot, withoutSlot, List.filter_filter, Bool.and_self]

theorem frames_lower_below (store : Store) (name : String) (slot : Slot) {index : Nat}
    (below : index + 1 < store.depth) :
    (store.lower name slot).frames[index]? = store.frames[index]? := by
  have other : store.frames.size - 1 ≠ index := by
    unfold depth at below
    omega
  unfold lower
  split
  · change (store.frames.modify _ _)[index]? = _
    rw [Array.getElem?_modify, if_neg other]
  · rfl

/-- An assignment changes no frame below the innermost one. -/
theorem frames_allocate_below (store : Store) (name : String) (value : Value) {index : Nat}
    (below : index + 1 < store.depth) :
    (store.allocate name value).frames[index]? = store.frames[index]? := by
  have other : store.frames.size - 1 ≠ index := by
    unfold depth at below
    omega
  generalize recorded : (store.inInnermost fun names => name :: names) = after
  have same : after.frames[index]? = store.frames[index]? := by
    rw [← recorded]
    change (store.frames.modify _ _)[index]? = _
    rw [Array.getElem?_modify, if_neg other]
  have kept : after.depth = store.depth := by
    rw [← recorded]
    exact Array.size_modify
  cases found : after.slot? name with
  | none =>
      simp only [allocate, recorded, found]
      exact same
  | some slot =>
      simp only [allocate, recorded, found]
      exact (frames_lower_below after name slot (kept ▸ below)).trans same

/-! ## Histories -/

/-- What a run does to its store. -/
inductive Step where
  | allocate (name : String) (value : Value)
  | enter
  | exit

/-- The store after a step.  A frame that is refused changes nothing. -/
def after (store : Store) : Step → Store
  | .allocate name value => store.allocate name value
  | .enter =>
      match store.enter with
      | .ok opened => opened
      | .error _ => store
  | .exit => store.exit

/-- The store after a history, which has its last step in front. -/
def replay (store : Store) : List Step → Store
  | [] => store
  | step :: earlier => (store.replay earlier).after step

/-- The value of the latest assignment to a name. -/
def latest? (name : String) : List Step → Option Value
  | [] => none
  | .allocate assigned value :: earlier =>
      if name = assigned then some value else latest? name earlier
  | .enter :: earlier => latest? name earlier
  | .exit :: earlier => latest? name earlier

theorem enter_eq_ok {store opened : Store} (entered : store.enter = .ok opened) :
    opened = store.withFrame ∧ store.depth < store.depthLimit := by
  unfold enter isFull at entered
  by_cases full : store.depthLimit ≤ store.depth
  · simp only [full, decide_true, if_true] at entered
    cases entered
  · simp only [full, decide_false, Bool.false_eq_true, if_false] at entered
    cases entered
    exact ⟨rfl, Nat.lt_of_not_le full⟩

/-- A store shows the latest assignment, or what it showed at the start. -/
theorem value?_replay (store : Store) (name : String) (history : List Step) :
    (store.replay history).value? name = (latest? name history).or (store.value? name) := by
  induction history with
  | nil => rfl
  | cons step earlier inductionHypothesis =>
      cases step with
      | allocate assigned value =>
          simp only [replay, after, latest?]
          rw [value?_allocate]
          by_cases same : name = assigned
          · rw [if_pos same, if_pos same]
            rfl
          · rw [if_neg same, if_neg same]
            exact inductionHypothesis
      | enter =>
          simp only [replay, after, latest?]
          cases entered : (store.replay earlier).enter with
          | error fault => exact inductionHypothesis
          | ok opened =>
              rw [(enter_eq_ok entered).1]
              exact inductionHypothesis
      | exit =>
          simp only [replay, after, latest?]
          rw [value?_exit]
          exact inductionHypothesis

/-- The same read through `get`: a name is unbound only if it was unbound at the start and has
not been assigned since. -/
theorem get_replay (store : Store) (name : String) (history : List Step) :
    (store.replay history).get name =
      match latest? name history with
      | some value => .ok value
      | none => store.get name := by
  have shown := value?_replay store name history
  have get_eq : ∀ (store : Store), store.get name =
      match store.value? name with
      | some value => .ok value
      | none => .error (.unboundSlot name) := by
    intro store
    unfold get value?
    cases store.slot? name <;> rfl
  rw [get_eq, shown, get_eq]
  cases latest? name history <;> rfl

end Store

/-- A storage that only remembers what was done since a store was as given. -/
def Variables.history (config : Config) (start : Store) : Variables (List Store.Step) where
  value? history name := (Store.latest? name history).or (start.value? name)
  assign history name value := .allocate name value :: history
  enter history :=
    match (start.replay history).enter with
    | .ok _ => .ok (.enter :: history)
    | .error fault => .error fault
  leave early history := if early && !config.closesEarly then history else .exit :: history

theorem Variables.history_alike (config : Config) (start : Store) :
    Variables.Alike (fun store history => store = start.replay history) (.ofStore config)
      (.history config start) where
  value := by
    rintro _ history rfl name
    exact Store.value?_replay start name history
  assign := by
    rintro _ history rfl name value
    rfl
  enter := by
    rintro _ history rfl
    simp only [Variables.ofStore, Variables.history]
    cases entered : (start.replay history).enter with
    | ok opened =>
        apply Variables.EnterAlike.ok
        simp only [Store.replay, Store.after, entered]
    | error fault => exact .error
  leave := by
    rintro _ history rfl early
    simp only [Variables.ofStore, Variables.history]
    split <;> rfl

/-- Whatever is asked of a machine, all that happens to its variables is a sequence of
assignments, opened frames and closed frames. -/
theorem Machine.answer_replay (environment : Environment) (request : Machine.Request)
    (machine : Machine) :
    ∃ history, (stateAfter (Machine.answer environment request machine)).store =
      machine.store.replay history := by
  rcases environment with ⟨library, config⟩
  have forgotten := Machine.answer_withoutStack library config request machine
  have compared := Direct.answer_respects
    (Variables.history_alike config machine.store) library request machine.store []
    machine.world rfl
  rw [← forgotten] at compared
  generalize Machine.answer ⟨library, config⟩ request machine = result at compared
  generalize Direct.answer (.history config machine.store) library request ⟨[], machine.world⟩ =
    other at compared
  cases result <;> cases compared
  · exact ⟨_, ‹_›⟩
  · exact ⟨_, ‹_›⟩

/-! ## The flat table -/

/-- Values by name, and how many frames are open. -/
structure FlatStore where
  values : Finmap fun _ : String => Value := ∅
  frames : Nat := 0

/-- Assignment overwrites, and frames are only counted. -/
def Variables.flat (config : Config) : Variables FlatStore where
  value? flat name := flat.values.lookup name
  assign flat name value := { flat with values := flat.values.insert name value }
  enter flat :=
    if config.depthLimit ≤ flat.frames then .error (.scopeDepthExceeded config.depthLimit)
    else .ok { flat with frames := flat.frames + 1 }
  leave early flat :=
    if early && !config.closesEarly then flat else { flat with frames := flat.frames - 1 }

/-- A store and a flat table show the same values and have as many frames open. -/
structure Store.ShownBy (config : Config) (store : Store) (flat : FlatStore) : Prop where
  values : ∀ name, store.value? name = flat.values.lookup name
  frames : store.depth = flat.frames
  limit : store.depthLimit = config.depthLimit

/-- Two stores that differ at most in counts and in the names on record. -/
structure Store.Looks (first second : Store) : Prop where
  values : ∀ name, first.value? name = second.value? name
  frames : first.depth = second.depth
  limit : first.depthLimit = second.depthLimit

namespace Store

theorem enter_of_full {store : Store} (full : store.depthLimit ≤ store.depth) :
    store.enter = .error (.scopeDepthExceeded store.depthLimit) := by
  simp only [enter, isFull, full, decide_true, if_true]

theorem enter_of_room {store : Store} (room : ¬ store.depthLimit ≤ store.depth) :
    store.enter = .ok store.withFrame := by
  simp only [enter, isFull, room, decide_false, Bool.false_eq_true, if_false]

theorem depth_withFrame (store : Store) : store.withFrame.depth = store.depth + 1 :=
  Array.size_push _

end Store

theorem Variables.flat_alike (config : Config) :
    Variables.Alike (Store.ShownBy config) (.ofStore config) (.flat config) where
  value store flat shown name := shown.values name
  assign store flat shown name value := by
    have kept := Store.depth_allocate store name value
    refine ⟨?_, kept.1.trans shown.frames, kept.2.trans shown.limit⟩
    intro other
    change (store.allocate name value).value? other = (flat.values.insert name value).lookup other
    rw [Store.value?_allocate]
    by_cases same : other = name
    · rw [if_pos same, same, Finmap.lookup_insert]
    · rw [if_neg same, Finmap.lookup_insert_of_ne _ same]
      exact shown.values other
  enter store flat shown := by
    have compared : store.depthLimit ≤ store.depth ↔ config.depthLimit ≤ flat.frames := by
      rw [shown.limit, shown.frames]
    simp only [Variables.ofStore, Variables.flat]
    by_cases full : store.depthLimit ≤ store.depth
    · rw [Store.enter_of_full full, if_pos (compared.mp full), shown.limit]
      exact .error
    · rw [Store.enter_of_room full, if_neg (fun bound => full (compared.mpr bound))]
      refine .ok ⟨shown.values, ?_, shown.limit⟩
      rw [Store.depth_withFrame, shown.frames]
  leave store flat shown early := by
    have left := Store.depth_exit store
    simp only [Variables.ofStore, Variables.flat]
    split
    · exact shown
    · refine ⟨?_, ?_, left.2.trans shown.limit⟩
      · intro name
        rw [Store.value?_exit]
        exact shown.values name
      · rw [left.1, shown.frames]

theorem Variables.looks_alike (config : Config) :
    Variables.Alike Store.Looks (.ofStore config) (.ofStore config) where
  value first second same name := same.values name
  assign first second same name value := by
    have kept := Store.depth_allocate first name value
    have others := Store.depth_allocate second name value
    refine ⟨?_, kept.1.trans (same.frames.trans others.1.symm),
      kept.2.trans (same.limit.trans others.2.symm)⟩
    intro other
    change (first.allocate name value).value? other = (second.allocate name value).value? other
    rw [Store.value?_allocate, Store.value?_allocate, same.values other]
  enter first second same := by
    have compared : first.depthLimit ≤ first.depth ↔ second.depthLimit ≤ second.depth := by
      rw [same.limit, same.frames]
    simp only [Variables.ofStore]
    by_cases full : first.depthLimit ≤ first.depth
    · rw [Store.enter_of_full full, Store.enter_of_full (compared.mp full), same.limit]
      exact .error
    · rw [Store.enter_of_room full, Store.enter_of_room (fun bound => full (compared.mpr bound))]
      refine .ok ⟨same.values, ?_, same.limit⟩
      rw [Store.depth_withFrame, Store.depth_withFrame, same.frames]
  leave first second same early := by
    have left := Store.depth_exit first
    have right := Store.depth_exit second
    simp only [Variables.ofStore]
    split
    · exact same
    · refine ⟨?_, ?_, left.2.trans (same.limit.trans right.2.symm)⟩
      · intro name
        rw [Store.value?_exit, Store.value?_exit]
        exact same.values name
      · rw [left.1, right.1, same.frames]

/-! ## Sessions -/

namespace Machine

theorem stateAfter_withoutStack {α : Type} (result : EStateM.Result RuntimeFault Machine α) :
    stateAfter (withoutStack result) = ⟨(stateAfter result).store, (stateAfter result).world⟩ := by
  cases result <;> rfl

/-- A session on a machine, stacks left out, is a session without a stack. -/
theorem session_withoutStack (library : Library) (config : Config) (requests : List Request)
    (machine : Machine) :
    (session (answer ⟨library, config⟩) requests machine).map withoutStack =
      session (Direct.answer (.ofStore config) library) requests
        ⟨machine.store, machine.world⟩ := by
  induction requests generalizing machine with
  | nil => rfl
  | cons request rest inductionHypothesis =>
      have first := answer_withoutStack library config request machine
      simp only [session, List.map_cons]
      rw [inductionHypothesis, ← first, stateAfter_withoutStack]

/-- For every library, policy and sequence of requests to a new machine, each answer, each
world and each table of values is that of an interpreter on a flat table.  Counts and records
of names cannot be seen in any run; and a variable has the value of its latest assignment,
whatever a run does between and however it ends. -/
theorem flat_store_refinement (library : Library) (config : Config) :
    (∀ requests world,
      List.Forall₂
        (fun result flat => Direct.Agree (Store.ShownBy config) (withoutStack result) flat)
        (session (answer ⟨library, config⟩) requests (start config world))
        (session (Direct.answer (.flat config) library) requests ⟨{}, world⟩)) ∧
    (∀ requests (first second : Machine), first.store.Looks second.store →
      first.world = second.world →
      List.Forall₂
        (fun result other => Direct.Agree Store.Looks (withoutStack result) (withoutStack other))
        (session (answer ⟨library, config⟩) requests first)
        (session (answer ⟨library, config⟩) requests second)) ∧
    (∀ request machine, ∃ history,
      (stateAfter (answer ⟨library, config⟩ request machine)).store =
        machine.store.replay history ∧
      ∀ name, (stateAfter (answer ⟨library, config⟩ request machine)).store.get name =
        match Store.latest? name history with
        | some value => .ok value
        | none => machine.store.get name) := by
  refine ⟨?_, ?_, ?_⟩
  · intro requests world
    have shown : Store.ShownBy config (Store.ofLimit config.depthLimit) {} :=
      ⟨fun _ => rfl, rfl, rfl⟩
    have compared := Direct.session_agree (Variables.flat_alike config) library requests world shown
    have machines := session_withoutStack library config requests (start config world)
    rw [show (start config world).store = Store.ofLimit config.depthLimit from rfl,
      show (start config world).world = world from rfl] at machines
    rw [← machines] at compared
    exact List.forall₂_map_left_iff.mp compared
  · intro requests first second looks sameWorld
    have compared := Direct.session_agree (Variables.looks_alike config) library requests
      first.world looks
    rw [← session_withoutStack library config requests first, sameWorld,
      ← session_withoutStack library config requests second] at compared
    exact List.forall₂_map_right_iff.mp (List.forall₂_map_left_iff.mp compared)
  · intro request machine
    rcases answer_replay ⟨library, config⟩ request machine with ⟨history, replayed⟩
    refine ⟨history, replayed, ?_⟩
    intro name
    rw [replayed]
    exact Store.get_replay machine.store name history

/-- Two machines whose stores differ only in the count of a slot. -/
theorem flat_store_refinement_counts :
    List.Forall₂
      (fun result other => Direct.Agree Store.Looks (withoutStack result) (withoutStack other))
      (session (answer ⟨{}, {}⟩) [.evaluate (.variable "x" 1)]
        { store := ⟨[("x", ⟨.truth true, 3⟩)], #[], 8⟩, world := {} })
      (session (answer ⟨{}, {}⟩) [.evaluate (.variable "x" 1)]
        { store := ⟨[("x", ⟨.truth true, -1⟩)], #[], 8⟩, world := {} }) := by
  rcases flat_store_refinement {} {} with ⟨_, unseen, _⟩
  refine unseen _ _ _ ⟨?_, rfl, rfl⟩ rfl
  intro name
  simp only [Store.value?, Store.slot?, List.lookup_cons, List.lookup_nil]
  cases name == "x" <;> rfl

end Machine
end Scriptlet
