import Mathlib.Data.List.Infix
import Scriptlet.Host.Standard
import Scriptlet.Proofs.Moments

namespace Scriptlet

/-!
# A limit on prints

A run on a sink with room for only so many prints is compared with the same run on a sink that
takes them all.  Up to the limit the two runs cannot be told apart.  A run that stays within the
limit is the same run, and a run that goes beyond it is cut off by the first print that there is no
room for.

What is said of a computation is said of all limits at once, for one machine to start from, so that
it follows for a composed computation from what is known of its parts on the machines that they are
really begun on.  The print that a run is cut off by is described by the call that makes it, and
the calls in question are a parameter: they are the calls that a part of a program makes, and what
a part makes is made by the whole.
-/

namespace Sink

/-- The sink that stops at a number of prints, those it has already included. -/
def upTo (total : Nat) (sink : Sink) : Sink :=
  { sink with room := some (total - sink.prints.length) }

/-- The second sink has no limit, and has kept what the first one had. -/
structure Precedes (earlier later : Sink) : Prop where
  prints : earlier.prints <:+ later.prints
  room : later.room = none
  refusal : later.refusal = earlier.refusal

theorem Precedes.refl {sink : Sink} (unlimited : sink.room = none) : sink.Precedes sink :=
  ⟨List.suffix_refl _, unlimited, rfl⟩

theorem Precedes.trans {first second third : Sink} (earlier : first.Precedes second)
    (later : second.Precedes third) : first.Precedes third :=
  ⟨earlier.prints.trans later.prints, later.room, later.refusal.trans earlier.refusal⟩

theorem Precedes.length_le {earlier later : Sink} (precedes : earlier.Precedes later) :
    earlier.prints.length ≤ later.prints.length :=
  precedes.prints.length_le

end Sink

namespace Machine

variable {α β : Type} {machine : Machine}

/-- The machine with another sink. -/
def withSink (machine : Machine) (sink : Sink) : Machine :=
  { machine with world := { machine.world with sink } }

/-- The machine whose sink stops at a number of prints. -/
def upTo (total : Nat) (machine : Machine) : Machine :=
  machine.withSink (machine.world.sink.upTo total)

/-- The machine at an end is changed, and the outcome is left. -/
def changing (change : Machine → Machine) :
    EStateM.Result RuntimeFault Machine α → EStateM.Result RuntimeFault Machine α
  | .ok result after => .ok result (change after)
  | .error fault after => .error fault (change after)

/-- A call of the function that prints, with its arguments computed, on the machine that it is
about to print on. -/
structure PrintCall where
  name : String
  nodes : List Node
  line : Nat
  values : List Value
  before : Machine

namespace PrintCall

def text (call : PrintCall) : String :=
  Standard.printed call.before.world.heap call.values

/-- What the call fails with where there is no room for its text. -/
def refusal (call : PrintCall) : RuntimeFault :=
  .hostFailure "print" call.before.world.sink.refusal call.line

end PrintCall

/-- Without a limit the run takes back no print, and with one it either stays within the limit and
ends alike, or is cut off by one of the calls. -/
structure Heeds (calls : PrintCall → Prop) (run : Run α) (machine : Machine) : Prop where
  precedes : machine.world.sink.Precedes (stateAfter (run machine)).world.sink
  within : ∀ total, (stateAfter (run machine)).world.sink.prints.length ≤ total →
    run (machine.upTo total) = changing (upTo total) (run machine)
  beyond : ∀ total, machine.world.sink.prints.length ≤ total →
    total < (stateAfter (run machine)).world.sink.prints.length →
    ∃ call, calls call ∧ call.before.world.sink.prints.length = total ∧
      machine.world.sink.Precedes call.before.world.sink ∧
      call.text :: call.before.world.sink.prints <:+
        (stateAfter (run machine)).world.sink.prints ∧
      run (machine.upTo total) = .error call.refusal (call.before.upTo total)

/-! ## Steps that do not print -/

/-- The run neither changes the sink nor depends on it. -/
def IsSilent (run : Run α) : Prop :=
  ∀ machine sink, run (machine.withSink sink) = changing (·.withSink sink) (run machine)

theorem withSink_self (machine : Machine) : machine.withSink machine.world.sink = machine :=
  rfl

theorem IsSilent.sink_after {run : Run α} (silent : IsSilent run) (machine : Machine) :
    (stateAfter (run machine)).world.sink = machine.world.sink := by
  have same := silent machine machine.world.sink
  rw [withSink_self] at same
  rw [same]
  cases run machine <;> rfl

section Silent

variable {calls : PrintCall → Prop} {run : Run α}

theorem IsSilent.heeds (silent : IsSilent run) (unlimited : machine.world.sink.room = none) :
    Heeds calls run machine where
  precedes := by
    rw [silent.sink_after]
    exact .refl unlimited
  within total _ := by
    have sink := silent.sink_after machine
    unfold upTo
    rw [silent machine]
    cases ran : run machine with
    | ok result after =>
        rw [ran] at sink
        change after.world.sink = machine.world.sink at sink
        simp only [changing, sink]
    | error fault after =>
        rw [ran] at sink
        change after.world.sink = machine.world.sink at sink
        simp only [changing, sink]
  beyond total start finish := by
    rw [silent.sink_after] at finish
    omega

theorem IsSilent.bind {next : α → Run β} (first : IsSilent run)
    (others : ∀ result, IsSilent (next result)) : IsSilent (run >>= next) := by
  intro machine sink
  have same := first machine sink
  cases ran : run machine with
  | ok result between =>
      rw [ran] at same
      rw [bind_of_ok ran, bind_of_ok same]
      exact others result between sink
  | error fault between =>
      rw [ran] at same
      rw [bind_of_error ran, bind_of_error same]
      rfl

theorem isSilent_pure (result : α) : IsSilent (pure result : Run α) :=
  fun _ _ => rfl

theorem isSilent_throw (fault : RuntimeFault) : IsSilent (throw fault : Run α) :=
  fun _ _ => rfl

theorem isSilent_push (value : Value) : IsSilent (push value) :=
  fun _ _ => rfl

theorem isSilent_pushResult (value? : Option Value) : IsSilent (pushResult value?) := by
  cases value? with
  | none => exact isSilent_pure ()
  | some value => exact isSilent_push value

theorem isSilent_lookup (name : String) (line : Nat) : IsSilent (lookup name line) := by
  intro machine sink
  have same : (machine.withSink sink).store.slot? name = machine.store.slot? name := rfl
  unfold lookup
  rw [same]
  cases machine.store.slot? name <;> rfl

theorem isSilent_assign (name : String) (value : Value) : IsSilent (assign name value) :=
  fun _ _ => rfl

theorem isSilent_enter : IsSilent enter := by
  intro machine sink
  unfold enter
  change (if machine.store.isFull = true then _ else _) = _
  split <;> rfl

theorem isSilent_exit : IsSilent exit :=
  fun _ _ => rfl

theorem isSilent_onHeap (action : Heap.Action α) : IsSilent (onHeap action) := by
  rintro ⟨stack, store, ⟨heap, old⟩⟩ sink
  simp only [onHeap, onWorld, World.onHeap, withSink]
  cases action heap <;> rfl

/-- The last step of most expressions: what the heap gives is pushed. -/
theorem isSilent_pushed (action : Heap.Action Value) :
    IsSilent (do push (← onHeap action); pure Signal.proceed) :=
  (isSilent_onHeap action).bind fun value => (isSilent_push value).bind fun _ => isSilent_pure _

end Silent

/-! ## Steps that print -/

section Heeding

variable {calls : PrintCall → Prop} {run : Run α}

/-- A print is within the limit, or it is the call that the run is cut off by. -/
theorem heeds_print (call : PrintCall) (unlimited : call.before.world.sink.room = none)
    (made : calls call) :
    Heeds calls (onWorld (Standard.print call.values call.line)) call.before := by
  rcases call with ⟨name, nodes, line, values, ⟨stack, store, ⟨heap, ⟨prints, room, refusal⟩⟩⟩⟩
  change room = none at unlimited
  subst unlimited
  refine ⟨⟨List.suffix_cons _ _, rfl, rfl⟩, ?_, ?_⟩
  · intro total room
    change prints.length + 1 ≤ total at room
    have left : total - prints.length = total - (prints.length + 1) + 1 := by omega
    simp only [upTo, withSink, Sink.upTo, onWorld, Standard.print, left]
    rfl
  · intro total start finish
    change prints.length ≤ total at start
    change total < prints.length + 1 at finish
    have count : prints.length = total := by omega
    have full : total - prints.length = 0 := by omega
    refine ⟨_, made, count, .refl rfl, List.suffix_refl _, ?_⟩
    simp only [upTo, withSink, Sink.upTo, onWorld, Standard.print, full]
    rfl

/-! ## Composed steps -/

theorem Heeds.weaken {more : PrintCall → Prop} (heeds : Heeds calls run machine)
    (implies : ∀ call, calls call → more call) : Heeds more run machine where
  precedes := heeds.precedes
  within := heeds.within
  beyond total start finish := by
    rcases heeds.beyond total start finish with ⟨call, made, rest⟩
    exact ⟨call, implies call made, rest⟩

theorem Heeds.precedes_of_ok (heeds : Heeds calls run machine) {result : α}
    {after : Machine} (ran : run machine = .ok result after) :
    machine.world.sink.Precedes after.world.sink := by
  have precedes := heeds.precedes
  rwa [ran] at precedes

/-- A run that returns within the limit returns the same with the limit. -/
theorem Heeds.upTo_of_ok (heeds : Heeds calls run machine) {result : α} {after : Machine}
    (ran : run machine = .ok result after) {total : Nat}
    (room : after.world.sink.prints.length ≤ total) :
    run (machine.upTo total) = .ok result (after.upTo total) := by
  have same := heeds.within total
  rw [ran] at same
  exact same room

/-- A run that returns with the limit has stayed within it. -/
theorem Heeds.of_upTo_ok (heeds : Heeds calls run machine) {total : Nat}
    (start : machine.world.sink.prints.length ≤ total) {result : α} {limited : Machine}
    (ran : run (machine.upTo total) = .ok result limited) :
    ∃ after, run machine = .ok result after ∧ limited = after.upTo total ∧
      after.world.sink.prints.length ≤ total := by
  rcases Nat.lt_or_ge total (stateAfter (run machine)).world.sink.prints.length with finish | room
  · rcases heeds.beyond total start finish with ⟨call, _, _, _, _, cut⟩
    rw [ran] at cut
    cases cut
  · have same := heeds.within total room
    rw [ran] at same
    cases unlimited : run machine with
    | ok other after =>
        rw [unlimited] at same room
        cases same
        exact ⟨after, rfl, rfl, room⟩
    | error fault after =>
        rw [unlimited] at same
        cases same

theorem Heeds.bind {next : α → Run β} (first : Heeds calls run machine)
    (others : ∀ result between, run machine = .ok result between →
      between.world.sink.room = none → Heeds calls (next result) between) :
    Heeds calls (run >>= next) machine := by
  cases ran : run machine with
  | ok result between =>
      have precedes := first.precedes_of_ok ran
      have second := others result between ran precedes.room
      refine ⟨?_, ?_, ?_⟩
      · rw [bind_of_ok ran]
        exact precedes.trans second.precedes
      · intro total room
        rw [bind_of_ok ran] at room ⊢
        have early := Nat.le_trans second.precedes.length_le room
        rw [bind_of_ok (first.upTo_of_ok ran early)]
        exact second.within total room
      · intro total start finish
        rw [bind_of_ok ran] at finish ⊢
        rcases Nat.lt_or_ge total between.world.sink.prints.length with early | late
        · -- The limit is passed before the second computation begins, which takes nothing back.
          have passed : total < (stateAfter (run machine)).world.sink.prints.length := by
            rw [ran]
            exact early
          rcases first.beyond total start passed with ⟨call, made, count, since, printed, cut⟩
          rw [ran] at printed
          exact ⟨call, made, count, since, printed.trans second.precedes.prints,
            bind_of_error cut⟩
        · rcases second.beyond total late finish with ⟨call, made, count, since, printed, cut⟩
          refine ⟨call, made, count, precedes.trans since, printed, ?_⟩
          rw [bind_of_ok (first.upTo_of_ok ran late)]
          exact cut
  | error fault between =>
      refine ⟨?_, ?_, ?_⟩
      · have precedes := first.precedes
        rw [ran] at precedes
        rw [bind_of_error ran]
        exact precedes
      · intro total room
        have same := first.within total
        rw [ran] at same
        rw [bind_of_error ran] at room ⊢
        exact bind_of_error (same room)
      · intro total start finish
        have cuts := first.beyond total start
        rw [ran] at cuts
        rw [bind_of_error ran] at finish ⊢
        rcases cuts finish with ⟨call, made, count, since, printed, cut⟩
        exact ⟨call, made, count, since, printed, bind_of_error cut⟩

theorem Heeds.then_silent {next : α → Run β} (first : Heeds calls run machine)
    (others : ∀ result, IsSilent (next result)) : Heeds calls (run >>= next) machine :=
  first.bind fun result _ _ unlimited => (others result).heeds unlimited

/-- What is done to the end of a run, the faults apart, and has nothing to do with the sink. -/
theorem Heeds.ending (heeds : Heeds calls run machine) {ended : Run β}
    {ending : EStateM.Result RuntimeFault Machine α → EStateM.Result RuntimeFault Machine β}
    (here : ended machine = ending (run machine))
    (limited : ∀ total, ended (machine.upTo total) = ending (run (machine.upTo total)))
    (sink : ∀ result, (stateAfter (ending result)).world.sink = (stateAfter result).world.sink)
    (commutes : ∀ total result,
      ending (changing (upTo total) result) = changing (upTo total) (ending result))
    (faults : ∀ fault after, ending (.error fault after) = .error fault after) :
    Heeds calls ended machine where
  precedes := by
    rw [here, sink]
    exact heeds.precedes
  within total room := by
    rw [here, sink] at room
    rw [limited, heeds.within total room, commutes, here]
  beyond total start finish := by
    rw [here, sink] at finish ⊢
    rcases heeds.beyond total start finish with ⟨call, made, count, since, printed, cut⟩
    refine ⟨call, made, count, since, printed, ?_⟩
    rw [limited, cut, faults]

/-- What becomes of the end of an expression whose value is taken. -/
def taken (line height : Nat) : EStateM.Result RuntimeFault Machine Signal →
    EStateM.Result RuntimeFault Machine Value
  | .ok _ after =>
      if after.stack.height = height then .error (.missingValue line) after
      else
        match after.stack.pop? with
        | some (value, rest) => .ok value { after with stack := rest }
        | none => .error (.missingValue line) after
  | .error fault after => .error fault after

theorem taking_eq (line : Nat) (expression : Run Signal) (machine : Machine) :
    taking line expression machine = taken line machine.stack.height (expression machine) := by
  unfold taking taken
  cases expression machine <;> rfl

theorem Heeds.taking {expression : Run Signal} (heeds : Heeds calls expression machine)
    (line : Nat) : Heeds calls (taking line expression) machine := by
  refine heeds.ending (taking_eq line expression machine)
    (fun total => taking_eq line expression (machine.upTo total)) ?_ ?_ (fun _ _ => rfl)
  · rintro (⟨signal, after⟩ | ⟨fault, after⟩)
    · unfold taken
      dsimp only
      split
      · rfl
      · split <;> rfl
    · rfl
  · rintro total (⟨signal, after⟩ | ⟨fault, after⟩)
    · change (if after.stack.height = _ then _ else _) = _
      unfold taken
      dsimp only
      split
      · rfl
      · have same : (after.upTo total).stack.pop? = after.stack.pop? := rfl
        rw [same]
        cases after.stack.pop? <;> rfl
    · rfl

/-- What becomes of the end of an expression that is run for its effects. -/
def discarded (height : Nat) : EStateM.Result RuntimeFault Machine Signal →
    EStateM.Result RuntimeFault Machine Signal
  | .ok _ after => .ok .proceed { after with stack := after.stack.cut height }
  | .error fault after => .error fault after

theorem discarding_eq (expression : Run Signal) (machine : Machine) :
    discarding expression machine = discarded machine.stack.height (expression machine) := by
  unfold discarding discarded
  cases expression machine <;> rfl

theorem Heeds.discarding {expression : Run Signal} (heeds : Heeds calls expression machine) :
    Heeds calls (discarding expression) machine := by
  refine heeds.ending (discarding_eq expression machine)
    (fun total => discarding_eq expression (machine.upTo total)) ?_ ?_ (fun _ _ => rfl)
  · rintro (⟨signal, after⟩ | ⟨fault, after⟩) <;> rfl
  · rintro total (⟨signal, after⟩ | ⟨fault, after⟩) <;> rfl

theorem Heeds.asStatement {node : Node} {statement : Run Signal}
    (heeds : Heeds calls statement machine) :
    Heeds calls (asStatement node statement) machine := by
  unfold Machine.asStatement
  split
  · exact heeds.discarding
  · exact heeds

/-- What becomes of the end of elements that are gathered in a list. -/
def gathered (height : Nat) : EStateM.Result RuntimeFault Machine Unit →
    EStateM.Result RuntimeFault Machine Unit
  | .ok _ ⟨stack, store, world⟩ =>
      match Heap.allocate (stack.above height) world.heap with
      | (list, heap) => .ok () ⟨(stack.cut height).push list, store, { world with heap }⟩
  | .error fault after => .error fault after

theorem gathering_eq (elements : Run Unit) (machine : Machine) :
    gathering elements machine = gathered machine.stack.height (elements machine) := by
  unfold gathering gathered
  cases elements machine <;> rfl

theorem Heeds.gathering {elements : Run Unit} (heeds : Heeds calls elements machine) :
    Heeds calls (gathering elements) machine := by
  refine heeds.ending (gathering_eq elements machine)
    (fun total => gathering_eq elements (machine.upTo total)) ?_ ?_ (fun _ _ => rfl)
  · rintro (⟨signal, after⟩ | ⟨fault, after⟩) <;> rfl
  · rintro total (⟨signal, after⟩ | ⟨fault, after⟩) <;> rfl

theorem Heeds.get {next : Machine → Run β}
    (unseen : ∀ total, next (machine.upTo total) = next machine)
    (heeds : Heeds calls (next machine) machine) : Heeds calls (get >>= next) machine where
  precedes := heeds.precedes
  within total room := by
    change next (machine.upTo total) (machine.upTo total) = _
    rw [unseen]
    exact heeds.within total room
  beyond total start finish := by
    rcases heeds.beyond total start finish with ⟨call, made, count, since, printed, cut⟩
    refine ⟨call, made, count, since, printed, ?_⟩
    change next (machine.upTo total) (machine.upTo total) = _
    rw [unseen]
    exact cut

end Heeding

end Machine

/-! ## Libraries -/

/-- One function prints, under whatever name, and no other callable has to do with the sink. -/
structure Library.OnlyPrintPrints (library : Library) : Prop where
  functions : ∀ {name : String} {body : HostFunction}, library.function? name = some body →
    body = Standard.print ∨
      ∀ values line, ∃ action, body values line = World.onHeap action
  methods : ∀ {name : String} {body : HostMethod}, library.method? name = some body →
    ∀ target values line, ∃ action, body target values line = World.onHeap action

theorem Standard.library_onlyPrintPrints : Standard.library.OnlyPrintPrints where
  functions found := Or.inl (Likeness.standard_function found)
  methods found target values line := by
    rcases Likeness.standard_method found with ⟨listMethod, _, rfl⟩
    exact ⟨_, rfl⟩

end Scriptlet
