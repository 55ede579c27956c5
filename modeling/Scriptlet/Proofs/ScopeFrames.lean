import Scriptlet.Proofs.FlatStore

namespace Scriptlet

/-!
# Scope frames over a run

Frames are opened and closed by number.  A block that leaves its frame open makes the block
around it close the wrong one, so that no block can be seen to be balanced by looking at the
store.  A trace tells them apart: it has an entry for each block that is entered and each
block that is left, and says whether the block was left early.  Every moment of a run is the
end of some beginning of its trace.

The one thing proved about evaluation is that its traces are well nested.  The number of open
frames, the frames that are never touched and the depth limit are then facts about traces.
-/

namespace Trace

/-- What a run does to its variables.  A block is left either early, with statements left out,
or at its end. -/
inductive Event where
  | assigned (name : String) (value : Value)
  | entered
  | left (early : Bool)

def Event.isEarly : Event → Bool
  | .left early => early
  | _ => false

/-- The number of framed blocks that were left early. -/
def earlyExits (trace : List Event) : Nat :=
  trace.countP Event.isEarly

/-- The store after a trace, which has its last event in front. -/
def store (config : Config) (start : Store) : List Event → Store
  | [] => start
  | .assigned name value :: earlier => (store config start earlier).allocate name value
  | .entered :: earlier => (store config start earlier).withFrame
  | .left early :: earlier => (Variables.ofStore config).leave early (store config start earlier)

end Trace

/-- A storage that only remembers what was done since a store was as given. -/
def Variables.traced (config : Config) (start : Store) : Variables (List Trace.Event) where
  value? trace name := (Trace.store config start trace).value? name
  assign trace name value := .assigned name value :: trace
  enter trace :=
    match (Trace.store config start trace).enter with
    | .ok _ => .ok (.entered :: trace)
    | .error fault => .error fault
  leave early trace := .left early :: trace

theorem Variables.traced_alike (config : Config) (start : Store) :
    Variables.Alike (fun store trace => store = Trace.store config start trace)
      (.ofStore config) (.traced config start) where
  value := by
    rintro _ trace rfl name
    rfl
  assign := by
    rintro _ trace rfl name value
    rfl
  enter := by
    rintro _ trace rfl
    simp only [Variables.ofStore, Variables.traced]
    cases entered : (Trace.store config start trace).enter with
    | ok opened => exact .ok (Store.enter_eq_ok entered).1
    | error fault => exact .error
  leave := by
    rintro _ trace rfl early
    rfl

namespace Trace

/-! ## Well-nested traces -/

/-- A trace that goes on from an earlier one.  Blocks are entered where there is room for a
frame, and a block is left only after it was entered.  The number counts the blocks that were
entered since and are not left yet. -/
inductive Extends (config : Config) (start : Store) (base : List Event) :
    Nat → List Event → Prop
  | refl : Extends config start base 0 base
  | assigned {running : Nat} {trace : List Event} (name : String) (value : Value) :
      Extends config start base running trace →
      Extends config start base running (.assigned name value :: trace)
  | entered {running : Nat} {trace : List Event} :
      (store config start trace).depth < (store config start trace).depthLimit →
      Extends config start base running trace →
      Extends config start base (running + 1) (.entered :: trace)
  | left {running : Nat} {trace : List Event} (early : Bool) :
      Extends config start base (running + 1) trace →
      Extends config start base running (.left early :: trace)

variable {config : Config} {start : Store}

theorem Extends.trans {base middle trace : List Event} {running more : Nat}
    (first : Extends config start base running middle)
    (second : Extends config start middle more trace) :
    Extends config start base (running + more) trace := by
  induction second with
  | refl => exact first
  | assigned name value _ inductionHypothesis => exact .assigned name value inductionHypothesis
  | entered room _ inductionHypothesis => exact .entered room inductionHypothesis
  | left early _ inductionHypothesis => exact .left early inductionHypothesis

/-- Every earlier moment of a well-nested trace is well nested. -/
theorem Extends.earlier {trace moment : List Event} {running : Nat}
    (extended : Extends config start [] running trace) (before : moment <:+ trace) :
    ∃ less, Extends config start [] less moment := by
  induction extended with
  | refl =>
      cases List.suffix_nil.mp before
      exact ⟨0, .refl⟩
  | assigned name value extended inductionHypothesis =>
      rcases List.suffix_cons_iff.mp before with rfl | before
      · exact ⟨_, .assigned name value extended⟩
      · exact inductionHypothesis before
  | entered room extended inductionHypothesis =>
      rcases List.suffix_cons_iff.mp before with rfl | before
      · exact ⟨_, .entered room extended⟩
      · exact inductionHypothesis before
  | left early extended inductionHypothesis =>
      rcases List.suffix_cons_iff.mp before with rfl | before
      · exact ⟨_, .left early extended⟩
      · exact inductionHypothesis before

/-! ## What a trace does to frames -/

/-- The frames that blocks have left open for good: one for each block left early, under the
policy that keeps such frames. -/
def leaked (config : Config) (trace : List Event) : Nat :=
  if config.closesEarly then 0 else earlyExits trace

theorem leaked_cons (event : Event) (trace : List Event) :
    leaked config (event :: trace) =
      leaked config trace + (event.isEarly && !config.closesEarly).toNat := by
  unfold leaked earlyExits
  rw [List.countP_cons]
  cases config.closesEarly <;> cases event.isEarly <;> rfl

/-- One frame is open for each block that runs and each frame that was left open, besides
those of the start. -/
theorem Extends.depth_eq {trace : List Event} {running : Nat}
    (extended : Extends config start [] running trace) :
    (store config start trace).depth = start.depth + running + leaked config trace := by
  induction extended with
  | refl =>
      have none : leaked config [] = 0 := by
        unfold leaked
        split <;> rfl
      rw [none]
      rfl
  | assigned name value _ inductionHypothesis =>
      rw [leaked_cons]
      exact (Store.depth_allocate _ name value).1.trans inductionHypothesis
  | @entered running trace _ _ inductionHypothesis =>
      have opened : (store config start (.entered :: trace)).depth =
          (store config start trace).depth + 1 := Store.depth_withFrame _
      have same : leaked config (.entered :: trace) = leaked config trace := leaked_cons _ _
      rw [opened, inductionHypothesis, same]
      omega
  | @left running trace early _ inductionHypothesis =>
      rw [leaked_cons]
      simp only [store, Variables.ofStore, Event.isEarly]
      cases early && !config.closesEarly with
      | true =>
          rw [if_pos rfl, inductionHypothesis, Bool.toNat_true]
          omega
      | false =>
          rw [if_neg Bool.false_ne_true, (Store.depth_exit _).1, inductionHypothesis,
            Bool.toNat_false]
          omega

theorem Extends.depth_le {trace : List Event} {running : Nat}
    (extended : Extends config start [] running trace) :
    start.depth ≤ (store config start trace).depth := by
  rw [extended.depth_eq]
  omega

/-- The frames of the start stay as they were, but for the innermost of them. -/
theorem Extends.frames_below {trace : List Event} {running : Nat}
    (extended : Extends config start [] running trace) {index : Nat}
    (below : index + 1 < start.depth) :
    (store config start trace).frames[index]? = start.frames[index]? := by
  induction extended with
  | refl => rfl
  | assigned name value extended inductionHypothesis =>
      have deep := extended.depth_le
      exact (Store.frames_allocate_below _ name value (by omega)).trans inductionHypothesis
  | @entered running trace _ extended inductionHypothesis =>
      have deep := extended.depth_le
      have older : index ≠ (store config start trace).frames.size := by
        unfold Store.depth at below deep
        omega
      change ((store config start trace).frames.push [])[index]? = _
      rw [Array.getElem?_push, if_neg older]
      exact inductionHypothesis
  | @left running trace early extended inductionHypothesis =>
      have deep := extended.depth_eq
      simp only [store, Variables.ofStore]
      split
      · exact inductionHypothesis
      · have inside : index < (store config start trace).frames.size - 1 := by
          unfold Store.depth at below deep
          omega
        rw [Store.frames_exit, Array.getElem?_pop, if_pos inside]
        exact inductionHypothesis

theorem depthLimit_store (trace : List Event) :
    (store config start trace).depthLimit = start.depthLimit := by
  induction trace with
  | nil => rfl
  | cons event earlier inductionHypothesis =>
      cases event with
      | assigned name value => exact (Store.depth_allocate _ name value).2.trans inductionHypothesis
      | entered => exact inductionHypothesis
      | left early =>
          simp only [store, Variables.ofStore]
          split
          · exact inductionHypothesis
          · exact (Store.depth_exit _).2.trans inductionHypothesis

/-- A store within its limit stays within it. -/
theorem Extends.within_limit {trace : List Event} {running : Nat}
    (extended : Extends config start [] running trace) (within : start.depth ≤ start.depthLimit) :
    (store config start trace).depth ≤ start.depthLimit := by
  induction extended with
  | refl => exact within
  | assigned name value _ inductionHypothesis =>
      exact (Store.depth_allocate _ name value).1.trans_le inductionHypothesis
  | @entered running trace room _ _ =>
      rw [depthLimit_store] at room
      exact (Store.depth_withFrame _).trans_le room
  | left early _ inductionHypothesis =>
      simp only [store, Variables.ofStore]
      split
      · exact inductionHypothesis
      · rw [(Store.depth_exit _).1]
        omega

/-! ## Traces of evaluation -/

/-- A result whose trace goes on from an earlier one.  If a computation returns, all blocks
that it entered are left again; a fault may leave some of them running. -/
inductive Nested (config : Config) (start : Store) (base : List Event) {α : Type} :
    EStateM.Result RuntimeFault (Direct.State (List Event)) α → Prop
  | ok {result : α} {after : Direct.State (List Event)} :
      Extends config start base 0 after.bindings → Nested config start base (.ok result after)
  | error {fault : RuntimeFault} {after : Direct.State (List Event)} {running : Nat} :
      Extends config start base running after.bindings →
      Nested config start base (.error fault after)

/-- The computation adds a well-nested trace. -/
def Nests (config : Config) (start : Store) {α : Type} (run : Direct.Run (List Event) α) : Prop :=
  ∀ trace world, Nested config start trace (run ⟨trace, world⟩)

theorem Nested.after {base middle : List Event} {α : Type}
    {result : EStateM.Result RuntimeFault (Direct.State (List Event)) α}
    (nested : Nested config start middle result)
    (balanced : Extends config start base 0 middle) : Nested config start base result := by
  cases nested with
  | ok extended => exact .ok (balanced.trans extended)
  | error extended => exact .error (balanced.trans extended)

section Steps

variable {α β : Type}

theorem nests_pure (result : α) : Nests config start (pure result) :=
  fun _ _ => .ok .refl

theorem nests_throw (fault : RuntimeFault) : Nests config start (throw fault : Direct.Run _ α) :=
  fun _ _ => .error .refl

theorem Nests.bind {first : Direct.Run (List Event) β} {next : β → Direct.Run (List Event) α}
    (before : Nests config start first) (after : ∀ result, Nests config start (next result)) :
    Nests config start (first >>= next) := by
  intro trace world
  have started := before trace world
  generalize ran : first ⟨trace, world⟩ = result at started
  cases started with
  | error extended =>
      rw [bind_of_error ran]
      exact .error extended
  | @ok result between balanced =>
      rw [bind_of_ok ran]
      exact (after result between.bindings between.world).after balanced

theorem nests_onWorld (action : World.Action α) :
    Nests config start (Direct.onWorld action) := by
  intro trace world
  unfold Direct.onWorld
  cases acted : action world with
  | ok result after =>
      simp only [acted]
      exact .ok .refl
  | error fault after =>
      simp only [acted]
      exact .error .refl

theorem nests_lookup (name : String) (line : Nat) :
    Nests config start (Direct.lookup (.traced config start) name line) := by
  intro trace world
  simp only [Direct.lookup]
  cases (Variables.traced config start).value? trace name with
  | none => exact .error .refl
  | some value => exact .ok .refl

theorem nests_assign (name : String) (value : Value) :
    Nests config start (Direct.assign (.traced config start) name value) :=
  fun _ _ => .ok (.assigned name value .refl)

/-- A frame that is refused is no event; a block that is entered is left after its
statements, unless one of them fails. -/
theorem Nests.inFrame {body : Direct.Run (List Event) Ending} (nests : Nests config start body) :
    Nests config start (Direct.inFrame (.traced config start) body) := by
  intro trace world
  unfold Direct.inFrame
  cases entered : (store config start trace).enter with
  | error fault =>
      have refused : Direct.enter (.traced config start) ⟨trace, world⟩ =
          .error fault ⟨trace, world⟩ := by
        simp only [Direct.enter, Variables.traced, entered]
      rw [bind_of_error refused]
      exact .error .refl
  | ok opened =>
      have opens : Direct.enter (.traced config start) ⟨trace, world⟩ =
          .ok () ⟨.entered :: trace, world⟩ := by
        simp only [Direct.enter, Variables.traced, entered]
      have inside : Extends config start trace 1 (.entered :: trace) :=
        .entered (Store.enter_eq_ok entered).2 .refl
      rw [bind_of_ok opens]
      have ended := nests (.entered :: trace) world
      generalize ran : body ⟨.entered :: trace, world⟩ = result at ended
      cases ended with
      | error extended =>
          rw [bind_of_error ran]
          exact .error (inside.trans extended)
      | @ok ending after balanced =>
          rw [bind_of_ok ran]
          exact .ok (.left ending.early (inside.trans balanced))

end Steps

theorem nests_congruence (config : Config) (start : Store) (library : Library) :
    Direct.Congruence (.traced config start) (.traced config start) library
      fun _ run _ => Nests config start run where
  returns := nests_pure
  fails := nests_throw
  follows := Nests.bind
  heap _ := nests_onWorld _
  function _ _ _ := nests_onWorld _
  method _ _ _ _ := nests_onWorld _
  lookups := nests_lookup
  assigns := nests_assign
  frame := Nests.inFrame

end Trace

/-! ## Runs of the machine -/

namespace Machine

/-- The run that records what it does to the variables. -/
def traced (environment : Environment) (request : Request) (machine : Machine) :
    EStateM.Result RuntimeFault (Direct.State (List Trace.Event)) Answer :=
  Direct.answer (.traced environment.config machine.store) environment.library request
    ⟨[], machine.world⟩

/-- What a request does to the variables of a machine, the last event in front. -/
def trace (environment : Environment) (request : Request) (machine : Machine) :
    List Trace.Event :=
  (stateAfter (traced environment request machine)).bindings

/-- The recording run ends as the run of the machine does, and its trace leads to the store
that the machine ends with. -/
theorem traced_agree (library : Library) (config : Config) (request : Request)
    (machine : Machine) :
    Direct.Agree (fun store trace => store = Trace.store config machine.store trace)
      (withoutStack (answer ⟨library, config⟩ request machine))
      (traced ⟨library, config⟩ request machine) := by
  rw [answer_withoutStack]
  exact Direct.answer_respects (Variables.traced_alike config machine.store) library request
    machine.store [] machine.world rfl

theorem traced_nested (library : Library) (config : Config) (request : Request)
    (machine : Machine) :
    Trace.Nested config machine.store [] (traced ⟨library, config⟩ request machine) :=
  (Trace.nests_congruence config machine.store library).answer request [] machine.world

/-- The trace of every run is well nested, however the run ends. -/
theorem trace_extends (library : Library) (config : Config) (request : Request)
    (machine : Machine) :
    ∃ running, Trace.Extends config machine.store [] running
      (trace ⟨library, config⟩ request machine) := by
  have nested := traced_nested library config request machine
  unfold trace
  generalize traced ⟨library, config⟩ request machine = recorded at nested ⊢
  cases nested with
  | ok extended => exact ⟨0, extended⟩
  | error extended => exact ⟨_, extended⟩

/-- The trace of a request leads to the store that the request ends with. -/
theorem store_trace (library : Library) (config : Config) (request : Request)
    (machine : Machine) :
    (stateAfter (answer ⟨library, config⟩ request machine)).store =
      Trace.store config machine.store (trace ⟨library, config⟩ request machine) := by
  have agreed := traced_agree library config request machine
  have states := stateAfter_withoutStack (answer ⟨library, config⟩ request machine)
  unfold trace
  generalize traced ⟨library, config⟩ request machine = recorded at agreed ⊢
  generalize withoutStack (answer ⟨library, config⟩ request machine) = result at agreed states
  cases agreed with
  | ok _ _ led =>
      cases states
      exact led
  | error _ _ led =>
      cases states
      exact led

/-- A run that returns has left every block that it entered. -/
theorem trace_extends_of_ok {library : Library} {config : Config} {request : Request}
    {machine after : Machine} {answered : Answer}
    (ran : answer ⟨library, config⟩ request machine = .ok answered after) :
    Trace.Extends config machine.store [] 0 (trace ⟨library, config⟩ request machine) := by
  have agreed := traced_agree library config request machine
  have nested := traced_nested library config request machine
  rw [ran] at agreed
  unfold trace
  generalize traced ⟨library, config⟩ request machine = recorded at agreed nested ⊢
  cases agreed with
  | ok _ _ _ =>
      cases nested with
      | ok extended => exact extended

/-- The trace of a request is that of its run.  At every moment of it the frames that were
open at the start are open, all but the innermost of them are as they were, and the depth
limit is kept.  A run that returns has as many frames open as at the start, and under the
policy that keeps the frames of blocks left early one more for each such block.  A loop body
has no frame of its own, so that leaving one early leaves no frame behind. -/
theorem scope_frames_balanced (library : Library) (config : Config) (request : Request)
    (machine : Machine) :
    Direct.Agree (fun store trace => store = Trace.store config machine.store trace)
      (withoutStack (answer ⟨library, config⟩ request machine))
      (traced ⟨library, config⟩ request machine) ∧
    (∀ moment, moment <:+ trace ⟨library, config⟩ request machine →
      machine.store.depth ≤ (Trace.store config machine.store moment).depth ∧
      (∀ index, index + 1 < machine.store.depth →
        (Trace.store config machine.store moment).frames[index]? =
          machine.store.frames[index]?) ∧
      (machine.store.depth ≤ machine.store.depthLimit →
        (Trace.store config machine.store moment).depth ≤ machine.store.depthLimit)) ∧
    (∀ answered after, answer ⟨library, config⟩ request machine = .ok answered after →
      (config.closesEarly = true → after.store.depth = machine.store.depth) ∧
      (config.closesEarly = false →
        after.store.depth = machine.store.depth +
          Trace.earlyExits (trace ⟨library, config⟩ request machine))) := by
  refine ⟨traced_agree library config request machine, ?_, ?_⟩
  · intro moment before
    rcases trace_extends library config request machine with ⟨running, extended⟩
    rcases extended.earlier before with ⟨less, nested⟩
    exact ⟨nested.depth_le, fun _ below => nested.frames_below below, nested.within_limit⟩
  · intro answered after ran
    have depth := (trace_extends_of_ok ran).depth_eq
    rw [← store_trace, ran, Trace.leaked] at depth
    constructor
    · intro closes
      rw [closes] at depth
      exact depth
    · intro keeps
      rw [keeps] at depth
      exact depth

/-- A conditional whose block halts before its last statement. -/
theorem scope_frames_balanced_halting :
    ∃ after, answer ⟨{}, {}⟩ (.execute (.conditional (.literal (.truth true) 1)
        (.mk true [.flag .halt 2, .flag .halt 3] 1) none 1)) (start {}) =
          .ok (.signal .halt) after ∧
      after.store.depth = (start {}).store.depth + 1 ∧
      after.store.depth ≤ (start {}).store.depthLimit := by
  have balanced := scope_frames_balanced {} {} (.execute (.conditional (.literal (.truth true) 1)
    (.mk true [.flag .halt 2, .flag .halt 3] 1) none 1)) (start {})
  refine ⟨_, rfl, ?_, ?_⟩
  · exact (balanced.2.2 _ _ rfl).2 rfl
  · exact (balanced.2.1 _ (List.suffix_refl _)).2.2 (Nat.zero_le _)

end Machine
end Scriptlet
