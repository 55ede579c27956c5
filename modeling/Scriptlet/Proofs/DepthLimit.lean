import Scriptlet.Host.Standard
import Scriptlet.Proofs.FlatStore

namespace Scriptlet

/-!
# More room for frames

Two runs of one program may differ in how many frames they have room for: one has the higher
limit, or one closes frames that the other leaves open.  The run with less room can be refused
a frame and ends there.  Until then nothing tells the two runs apart.

A simulation cannot say this, since it has to answer a refused frame with a refused frame.
The relation here lets the first run end at its limit and asks of the second run, which may go
on for long, only that it does not take back what happened in the world before.
-/

namespace Variables

/-- Both storages open a frame and stay related, or the first has reached its limit. -/
inductive EnterOutlasted {σ τ : Type} (related : σ → τ → Prop) :
    Except RuntimeFault σ → Except RuntimeFault τ → Prop
  | ok {store : σ} {other : τ} :
      related store other → EnterOutlasted related (.ok store) (.ok other)
  | refused (limit : Nat) (other : Except RuntimeFault τ) :
      EnterOutlasted related (.error (.scopeDepthExceeded limit)) other

/-- The second storage cannot be told from the first until the first has no room left. -/
structure Outlasted {σ τ : Type} (related : σ → τ → Prop) (first : Variables σ)
    (second : Variables τ) : Prop where
  value : ∀ store other, related store other → ∀ name,
    first.value? store name = second.value? other name
  assign : ∀ store other, related store other → ∀ name value,
    related (first.assign store name value) (second.assign other name value)
  enter : ∀ store other, related store other →
    EnterOutlasted related (first.enter store) (second.enter other)
  leave : ∀ store other, related store other → ∀ early,
    related (first.leave early store) (second.leave early other)

end Variables

/-- A relation from worlds to later worlds that covers all that the library and the heap can
do. -/
structure Library.Advances (library : Library) (reaches : World → World → Prop) : Prop where
  refl : ∀ world, reaches world world
  trans : ∀ {first second third}, reaches first second → reaches second third →
    reaches first third
  heap : ∀ {α : Type} (action : Heap.Action α) (world : World),
    reaches world (stateAfter (World.onHeap action world))
  function : ∀ {name : String} {body : HostFunction}, library.function? name = some body →
    ∀ values line world, reaches world (stateAfter (body values line world))
  method : ∀ {name : String} {body : HostMethod}, library.method? name = some body →
    ∀ target values line world, reaches world (stateAfter (body target values line world))

namespace Direct

/-- The runs end alike, or the first ends at its limit in a world from which the second has
gone on. -/
inductive EndsOutlasted {σ τ α : Type} (related : σ → τ → Prop)
    (reaches : World → World → Prop) :
    EStateM.Result RuntimeFault (State σ) α → EStateM.Result RuntimeFault (State τ) α → Prop
  | alike {result : EStateM.Result RuntimeFault (State σ) α}
      {other : EStateM.Result RuntimeFault (State τ) α} :
      Agree related result other → EndsOutlasted related reaches result other
  | cut (limit : Nat) {state : State σ} {other : EStateM.Result RuntimeFault (State τ) α} :
      reaches state.world (stateAfter other).world →
      EndsOutlasted related reaches (.error (.scopeDepthExceeded limit) state) other

/-- The second computation takes nothing back, and from related variables in one world it ends
like the first unless the first is cut short. -/
structure Outlasts {σ τ α : Type} (related : σ → τ → Prop) (reaches : World → World → Prop)
    (first : Run σ α) (second : Run τ α) : Prop where
  reached : ∀ state, reaches state.world (stateAfter (second state)).world
  ends : ∀ store other world, related store other →
    EndsOutlasted related reaches (first ⟨store, world⟩) (second ⟨other, world⟩)

section Steps

variable {σ τ α β : Type} {related : σ → τ → Prop} {reaches : World → World → Prop}

theorem outlasts_onWorld {action : World.Action α}
    (advanced : ∀ world, reaches world (stateAfter (action world))) :
    Outlasts related reaches (onWorld action : Run σ α) (onWorld action : Run τ α) where
  reached state := by
    have acted := advanced state.world
    unfold onWorld
    cases ran : action state.world with
    | ok result after =>
        rw [ran] at acted
        simp only [ran]
        exact acted
    | error fault after =>
        rw [ran] at acted
        simp only [ran]
        exact acted
  ends store other world start := .alike (respects_onWorld action store other world start)

variable {library : Library} (advances : library.Advances reaches)
include advances

/-- A computation that ends like the first from related variables, and leaves the world
alone. -/
theorem outlasts_of_respects {first : Run σ α} {second : Run τ α}
    (same : ∀ state, (stateAfter (second state)).world = state.world)
    (respects : Respects related first second) : Outlasts related reaches first second where
  reached state := by
    rw [same]
    exact advances.refl state.world
  ends store other world start := .alike (respects store other world start)

theorem outlasts_pure (result : α) :
    Outlasts related reaches (pure result : Run σ α) (pure result : Run τ α) :=
  outlasts_of_respects advances (fun _ => rfl) (respects_pure result)

theorem Outlasts.bind {first : Run σ β} {second : Run τ β} {firstNext : β → Run σ α}
    {secondNext : β → Run τ α} (before : Outlasts related reaches first second)
    (after : ∀ result, Outlasts related reaches (firstNext result) (secondNext result)) :
    Outlasts related reaches (first >>= firstNext) (second >>= secondNext) := by
  -- Wherever the second computation stands, what follows in it only goes further.
  have further : ∀ state, reaches (stateAfter (second state)).world
      (stateAfter ((second >>= secondNext) state)).world := by
    intro state
    cases ran : second state with
    | ok result between =>
        rw [bind_of_ok ran]
        exact (after result).reached between
    | error fault between =>
        rw [bind_of_error ran]
        exact advances.refl between.world
  refine ⟨fun state => advances.trans (before.reached state) (further state), ?_⟩
  intro store other world start
  have started := before.ends store other world start
  have continued := further ⟨other, world⟩
  generalize firstRan : first ⟨store, world⟩ = firstResult at started
  generalize secondRan : second ⟨other, world⟩ = secondResult at started continued
  cases started with
  | cut limit reached =>
      rw [bind_of_error firstRan]
      exact .cut limit (advances.trans reached continued)
  | alike agreed =>
      cases agreed with
      | ok result between kept =>
          rw [bind_of_ok firstRan, bind_of_ok secondRan]
          exact (after result).ends _ _ between kept
      | error fault between kept =>
          rw [bind_of_error firstRan, bind_of_error secondRan]
          exact .alike (.error fault between kept)

variable {first : Variables σ} {second : Variables τ}
  (outlasted : Variables.Outlasted related first second)
include outlasted

theorem outlasts_lookup (name : String) (line : Nat) :
    Outlasts related reaches (lookup first name line) (lookup second name line) := by
  apply outlasts_of_respects advances
  · intro state
    unfold lookup
    cases second.value? state.bindings name <;> rfl
  · intro store other world start
    have shown := outlasted.value store other start name
    simp only [lookup, shown]
    cases second.value? other name with
    | none => exact .error _ world start
    | some value => exact .ok value world start

theorem outlasts_assign (name : String) (value : Value) :
    Outlasts related reaches (assign first name value) (assign second name value) :=
  outlasts_of_respects advances (fun _ => rfl) fun store other world start =>
    .ok () world (outlasted.assign store other start name value)

theorem outlasts_enter : Outlasts related reaches (enter first) (enter second) where
  reached := by
    rintro ⟨store, world⟩
    simp only [enter]
    cases second.enter store <;> exact advances.refl world
  ends store other world start := by
    have entered := outlasted.enter store other start
    simp only [enter]
    generalize first.enter store = firstResult at entered ⊢
    generalize second.enter other = secondResult at entered ⊢
    cases entered with
    | ok kept => exact .alike (.ok () world kept)
    | refused limit =>
        refine .cut limit ?_
        cases secondResult <;> exact advances.refl world

theorem outlasts_leave (early : Bool) :
    Outlasts related reaches (leave first early) (leave second early) :=
  outlasts_of_respects advances (fun _ => rfl) fun store other world start =>
    .ok () world (outlasted.leave store other start early)

theorem outlasts_inFrame {body : Run σ Ending} {otherBody : Run τ Ending}
    (bodies : Outlasts related reaches body otherBody) :
    Outlasts related reaches (inFrame first body) (inFrame second otherBody) := by
  apply Outlasts.bind advances (outlasts_enter advances outlasted)
  intro _
  apply Outlasts.bind advances bodies
  intro ending
  apply Outlasts.bind advances (outlasts_leave advances outlasted ending.early)
  exact fun _ => outlasts_pure advances ending.signal

theorem outlasts_congruence :
    Congruence first second library fun _ => Outlasts related reaches where
  returns := outlasts_pure advances
  fails fault := outlasts_of_respects advances (fun _ => rfl) (respects_throw fault)
  follows := Outlasts.bind advances
  heap action := outlasts_onWorld (advances.heap action)
  function found values line := outlasts_onWorld (advances.function found values line)
  method found target values line :=
    outlasts_onWorld (advances.method found target values line)
  lookups := outlasts_lookup advances outlasted
  assigns := outlasts_assign advances outlasted
  frame := outlasts_inFrame advances outlasted

end Steps

end Direct

/-! ## Output -/

/-- All that was printed in the earlier world stands first in the later one. -/
def World.Continues (before after : World) : Prop :=
  before.sink.output.toList <+: after.sink.output.toList

/-- No callable takes back what was printed before, whether it fails or not. -/
structure Library.KeepsOutput (library : Library) : Prop where
  function : ∀ {name : String} {body : HostFunction}, library.function? name = some body →
    ∀ values line (world : World), world.Continues (stateAfter (body values line world))
  method : ∀ {name : String} {body : HostMethod}, library.method? name = some body →
    ∀ target values line (world : World),
      world.Continues (stateAfter (body target values line world))

theorem World.sink_onHeap {α : Type} (action : Heap.Action α) (world : World) :
    (stateAfter (World.onHeap action world)).sink = world.sink := by
  rcases world with ⟨heap, sink⟩
  simp only [World.onHeap]
  cases action heap <;> rfl

theorem World.continues_onHeap {α : Type} (action : Heap.Action α) (world : World) :
    world.Continues (stateAfter (World.onHeap action world)) := by
  unfold World.Continues
  rw [World.sink_onHeap]

theorem Library.KeepsOutput.advances {library : Library} (keeps : library.KeepsOutput) :
    library.Advances World.Continues where
  refl _ := List.prefix_refl _
  trans := List.IsPrefix.trans
  heap := World.continues_onHeap
  function := keeps.function
  method := keeps.method

theorem Library.advances_anywhere (library : Library) : library.Advances fun _ _ => True where
  refl _ := trivial
  trans _ _ := trivial
  heap _ _ := trivial
  function _ _ _ _ := trivial
  method _ _ _ _ _ := trivial

theorem Sink.output_accept {sink after : Sink} {text : String}
    (accepted : sink.accept text = .ok after) : after.output = sink.output ++ text := by
  have prints : after.prints = text :: sink.prints := by
    unfold Sink.accept at accepted
    split at accepted <;> cases accepted <;> rfl
  unfold Sink.output
  rw [prints, List.reverse_cons, String.join_append]
  simp

theorem Standard.library_keepsOutput : Standard.library.KeepsOutput where
  function := by
    intro name body found values line world
    have print : body = Standard.print := by
      simp only [Library.function?, Standard.library, List.lookup_cons] at found
      split at found
      · exact (Option.some.inj found).symm
      · cases found
    rw [print]
    unfold Standard.print
    cases accepted : world.sink.accept (Standard.printed world.heap values) with
    | ok sink =>
        unfold World.Continues
        simp only [stateAfter, Sink.output_accept accepted, String.toList_append]
        exact List.prefix_append _ _
    | error reason => exact List.prefix_refl _
  method := by
    intro name body found target values line world
    have listed : ∃ listMethod, body = Standard.method listMethod := by
      rcases List.lookup_eq_some_iff.mp found with ⟨front, back, same, _⟩
      have member : (name, body) ∈ Standard.library.methods := by
        rw [same]
        exact List.mem_append_right _ List.mem_cons_self
      rcases List.mem_map.mp member with ⟨listMethod, _, paired⟩
      exact ⟨listMethod, (Prod.mk.inj paired).2.symm⟩
    rcases listed with ⟨listMethod, rfl⟩
    exact World.continues_onHeap _ world

/-! ## The limit -/

namespace Store

/-- The store with another limit. -/
def limited (store : Store) (limit : Nat) : Store :=
  { store with depthLimit := limit }

theorem lower_limited (store : Store) (limit : Nat) (name : String) (slot : Slot) :
    (store.limited limit).lower name slot = (store.lower name slot).limited limit := by
  unfold lower
  split <;> rfl

/-- Assignment does not look at the limit. -/
theorem allocate_limited (store : Store) (limit : Nat) (name : String) (value : Value) :
    (store.limited limit).allocate name value = (store.allocate name value).limited limit := by
  generalize recorded : (store.inInnermost fun names => name :: names) = after
  have other : ((store.limited limit).inInnermost fun names => name :: names) =
      after.limited limit := by
    rw [← recorded]
    rfl
  cases found : after.slot? name with
  | none =>
      have missing : (after.limited limit).slot? name = none := found
      simp only [allocate, other, recorded, found, missing]
      rfl
  | some slot =>
      have present : (after.limited limit).slot? name = some slot := found
      simp only [allocate, other, recorded, found, present, lower_limited]
      rfl

theorem foldl_dropReference_limited (names : List String) (store : Store) (limit : Nat) :
    names.foldl dropReference (store.limited limit) =
      (names.foldl dropReference store).limited limit := by
  induction names generalizing store with
  | nil => rfl
  | cons name rest inductionHypothesis =>
      have dropped : (store.limited limit).dropReference name =
          (store.dropReference name).limited limit := by
        unfold dropReference
        rw [show (store.limited limit).slot? name = store.slot? name from rfl]
        cases store.slot? name <;> rfl
      rw [List.foldl_cons, List.foldl_cons, dropped]
      exact inductionHypothesis (store.dropReference name)

theorem exit_limited (store : Store) (limit : Nat) :
    (store.limited limit).exit = store.exit.limited limit := by
  cases innermost : store.frames.back? with
  | none =>
      have empty : (store.limited limit).frames.back? = none := innermost
      simp only [exit, innermost, empty]
  | some names =>
      have last : (store.limited limit).frames.back? = some names := innermost
      simp only [exit, innermost, last]
      exact foldl_dropReference_limited names { store with frames := store.frames.pop } limit

/-- A store with the lower limit, and the same store with the higher one. -/
structure Raised (low high : Nat) (store other : Store) : Prop where
  limit : store.depthLimit = low
  same : other = store.limited high

/-- Two stores that show the same values, the second with no more frames open. -/
structure Deeper (store other : Store) : Prop where
  values : ∀ name, store.value? name = other.value? name
  frames : other.depth ≤ store.depth
  limit : store.depthLimit = other.depthLimit

end Store

theorem Variables.raised_outlasted (config : Config) (other : Config)
    (policy : config.closesEarly = other.closesEarly)
    (below : config.depthLimit ≤ other.depthLimit) :
    Variables.Outlasted (Store.Raised config.depthLimit other.depthLimit) (.ofStore config)
      (.ofStore other) where
  value := by
    rintro store _ ⟨limit, rfl⟩ name
    rfl
  assign := by
    rintro store _ ⟨limit, rfl⟩ name value
    exact ⟨(Store.depth_allocate store name value).2.trans limit,
      Store.allocate_limited store _ name value⟩
  enter := by
    rintro store _ ⟨limit, rfl⟩
    simp only [Variables.ofStore]
    by_cases full : store.depthLimit ≤ store.depth
    · rw [Store.enter_of_full full]
      exact .refused _ _
    · have room : ¬ (store.limited other.depthLimit).depthLimit ≤
          (store.limited other.depthLimit).depth := by
        intro bound
        rw [limit] at full
        exact full (below.trans bound)
      rw [Store.enter_of_room full, Store.enter_of_room room]
      exact .ok ⟨limit, rfl⟩
  leave := by
    rintro store _ ⟨limit, rfl⟩ early
    simp only [Variables.ofStore, policy]
    split
    · exact ⟨limit, rfl⟩
    · exact ⟨(Store.depth_exit store).2.trans limit, Store.exit_limited store _⟩

theorem Variables.deeper_outlasted (limit : Nat) :
    Variables.Outlasted Store.Deeper (.ofStore ⟨limit, false⟩) (.ofStore ⟨limit, true⟩) where
  value store other deeper name := deeper.values name
  assign store other deeper name value := by
    have kept := Store.depth_allocate store name value
    have others := Store.depth_allocate other name value
    refine ⟨?_, ?_, kept.2.trans (deeper.limit.trans others.2.symm)⟩
    · intro shown
      change (store.allocate name value).value? shown = (other.allocate name value).value? shown
      rw [Store.value?_allocate, Store.value?_allocate, deeper.values shown]
    · exact others.1.trans_le (deeper.frames.trans_eq kept.1.symm)
  enter store other deeper := by
    simp only [Variables.ofStore]
    by_cases full : store.depthLimit ≤ store.depth
    · rw [Store.enter_of_full full]
      exact .refused _ _
    · have room : ¬ other.depthLimit ≤ other.depth := by
        intro bound
        rw [← deeper.limit] at bound
        exact full (bound.trans deeper.frames)
      rw [Store.enter_of_room full, Store.enter_of_room room]
      refine .ok ⟨deeper.values, ?_, deeper.limit⟩
      rw [Store.depth_withFrame, Store.depth_withFrame]
      exact Nat.succ_le_succ deeper.frames
  leave store other deeper early := by
    have left := Store.depth_exit store
    have right := Store.depth_exit other
    have closed : Store.Deeper store other.exit := by
      refine ⟨?_, ?_, deeper.limit.trans right.2.symm⟩
      · intro name
        rw [Store.value?_exit]
        exact deeper.values name
      · rw [right.1]
        exact (Nat.sub_le _ _).trans deeper.frames
    cases early with
    | true => exact closed
    | false =>
        refine ⟨?_, ?_, left.2.trans closed.limit⟩
        · intro name
          change store.exit.value? name = other.exit.value? name
          rw [Store.value?_exit, closed.values]
        · change other.exit.depth ≤ store.exit.depth
          rw [left.1, right.1]
          exact Nat.sub_le_sub_right deeper.frames 1

/-! ## Runs of the machine -/

namespace Machine

/-- A result that is owed to the limit on open frames. -/
def EndsAtLimit {σ α : Type} (result : EStateM.Result RuntimeFault σ α) : Prop :=
  ∃ limit state, result = .error (.scopeDepthExceeded limit) state

/-- The machine with another limit. -/
def limited (machine : Machine) (limit : Nat) : Machine :=
  { machine with store := machine.store.limited limit }

/-- What is answered if the machine has the limit that the configuration says. -/
def answerUnder (library : Library) (config : Config) (request : Request) (machine : Machine) :
    EStateM.Result RuntimeFault Machine Answer :=
  answer ⟨library, config⟩ request (machine.limited config.depthLimit)

theorem endsAtLimit_of_withoutStack {α : Type} {result : EStateM.Result RuntimeFault Machine α}
    (ended : EndsAtLimit (withoutStack result)) : EndsAtLimit result := by
  rcases ended with ⟨limit, state, same⟩
  cases result with
  | ok answered after => cases same
  | error fault after =>
      cases same
      exact ⟨limit, after, rfl⟩

section Comparison

variable {related : Store → Store → Prop} {reaches : World → World → Prop} {library : Library}
  {config other : Config}

theorem answerUnder_outlasted (advances : library.Advances reaches)
    (outlasted : Variables.Outlasted related (.ofStore config) (.ofStore other))
    (request : Request) (machine : Machine)
    (start : related (machine.store.limited config.depthLimit)
      (machine.store.limited other.depthLimit)) :
    Direct.EndsOutlasted related reaches
      (withoutStack (answerUnder library config request machine))
      (withoutStack (answerUnder library other request machine)) := by
  unfold answerUnder
  rw [answer_withoutStack, answer_withoutStack]
  exact ((Direct.outlasts_congruence advances outlasted).answer request).ends _ _ machine.world
    start

/-- A run that does not end at its limit is answered the same where there is more room. -/
theorem answerUnder_agree (outlasted : Variables.Outlasted related (.ofStore config) (.ofStore other))
    {request : Request} {machine : Machine}
    (start : related (machine.store.limited config.depthLimit)
      (machine.store.limited other.depthLimit))
    (enough : ¬ EndsAtLimit (answerUnder library config request machine)) :
    Direct.Agree related (withoutStack (answerUnder library config request machine))
      (withoutStack (answerUnder library other request machine)) := by
  have ended := answerUnder_outlasted library.advances_anywhere outlasted request machine start
  generalize ran : withoutStack (answerUnder library config request machine) = result at ended ⊢
  cases ended with
  | alike agreed => exact agreed
  | @cut limit state _ _ => exact absurd (endsAtLimit_of_withoutStack ⟨limit, state, ran⟩) enough

/-- The world that a run ends in is one that the run with more room goes through. -/
theorem answerUnder_reaches (advances : library.Advances reaches)
    (outlasted : Variables.Outlasted related (.ofStore config) (.ofStore other))
    (request : Request) (machine : Machine)
    (start : related (machine.store.limited config.depthLimit)
      (machine.store.limited other.depthLimit)) :
    reaches (stateAfter (answerUnder library config request machine)).world
      (stateAfter (answerUnder library other request machine)).world := by
  have ended := answerUnder_outlasted advances outlasted request machine start
  have first := stateAfter_withoutStack (answerUnder library config request machine)
  have second := stateAfter_withoutStack (answerUnder library other request machine)
  have worlds : reaches (stateAfter (withoutStack (answerUnder library config request machine))).world
      (stateAfter (withoutStack (answerUnder library other request machine))).world := by
    generalize withoutStack (answerUnder library config request machine) = result at ended ⊢
    generalize withoutStack (answerUnder library other request machine) = otherResult at ended ⊢
    cases ended with
    | cut limit reached => exact reached
    | alike agreed =>
        cases agreed with
        | ok answered world => exact advances.refl world
        | error fault world => exact advances.refl world
  rw [first, second] at worlds
  exact worlds

end Comparison

theorem deeper_refl (store : Store) : store.Deeper store :=
  ⟨fun _ => rfl, Nat.le_refl _, rfl⟩

/-- A request that is not stopped by the depth limit is answered the same under every higher
limit, and leaves the same world, slots, counts and frames.  If it is stopped, what it printed
stands first in what is printed under the higher limit, provided that no callable takes back
output.  Where frames are left open and the limit does not stop the request, closing them
leads to the same answer, the same world and the same values, with no more frames open.  A
callable may itself raise the fault that reports the limit. -/
theorem limit_and_policy_keep_meaning (library : Library) (request : Request)
    (machine : Machine) :
    (∀ closesEarly low high, low ≤ high →
      (¬ EndsAtLimit (answerUnder library ⟨low, closesEarly⟩ request machine) →
        Direct.Agree (fun store other => other = store.limited high)
          (withoutStack (answerUnder library ⟨low, closesEarly⟩ request machine))
          (withoutStack (answerUnder library ⟨high, closesEarly⟩ request machine))) ∧
      (library.KeepsOutput →
        (stateAfter (answerUnder library ⟨low, closesEarly⟩ request machine)).world.Continues
          (stateAfter (answerUnder library ⟨high, closesEarly⟩ request machine)).world)) ∧
    (∀ limit, ¬ EndsAtLimit (answerUnder library ⟨limit, false⟩ request machine) →
      Direct.Agree Store.Deeper
        (withoutStack (answerUnder library ⟨limit, false⟩ request machine))
        (withoutStack (answerUnder library ⟨limit, true⟩ request machine))) := by
  refine ⟨?_, ?_⟩
  · intro closesEarly low high below
    have outlasted := Variables.raised_outlasted ⟨low, closesEarly⟩ ⟨high, closesEarly⟩ rfl below
    have start : Store.Raised low high (machine.store.limited low) (machine.store.limited high) :=
      ⟨rfl, rfl⟩
    refine ⟨?_, ?_⟩
    · intro enough
      exact (answerUnder_agree outlasted start enough).imp fun _ _ raised => raised.same
    · intro keeps
      exact answerUnder_reaches keeps.advances outlasted request machine start
  · intro limit enough
    exact answerUnder_agree (Variables.deeper_outlasted limit) (deeper_refl _) enough

/-- A block in a block, the inner one left early: two frames are enough, and one is not. -/
theorem limit_and_policy_keep_meaning_nested :
    ∃ request,
      Direct.Agree (fun store other => other = store.limited 3)
        (withoutStack (answerUnder Standard.library ⟨2, false⟩ request (start {})))
        (withoutStack (answerUnder Standard.library ⟨3, false⟩ request (start {}))) ∧
      EndsAtLimit (answerUnder Standard.library ⟨1, false⟩ request (start {})) ∧
      (stateAfter (answerUnder Standard.library ⟨1, false⟩ request (start {}))).world.Continues
        (stateAfter (answerUnder Standard.library ⟨2, false⟩ request (start {}))).world ∧
      Direct.Agree Store.Deeper
        (withoutStack (answerUnder Standard.library ⟨2, false⟩ request (start {})))
        (withoutStack (answerUnder Standard.library ⟨2, true⟩ request (start {}))) := by
  refine ⟨.execute (.conditional (.literal (.truth true) 1) (.mk true
    [.conditional (.literal (.truth true) 2) (.mk true [.flag .halt 3, .flag .halt 4] 2) none 2]
      1) none 1), ?_⟩
  rcases limit_and_policy_keep_meaning Standard.library (.execute
    (.conditional (.literal (.truth true) 1) (.mk true
      [.conditional (.literal (.truth true) 2) (.mk true [.flag .halt 3, .flag .halt 4] 2) none 2]
        1) none 1)) (start {}) with ⟨raised, closed⟩
  refine ⟨(raised false 2 3 (by decide)).1 ?_, ⟨1, _, rfl⟩,
    (raised false 1 2 (by decide)).2 Standard.library_keepsOutput, closed 2 ?_⟩
  · rintro ⟨limit, state, ended⟩
    cases ended
  · rintro ⟨limit, state, ended⟩
    cases ended

end Machine
end Scriptlet
