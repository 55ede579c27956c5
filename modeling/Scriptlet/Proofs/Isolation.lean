import Scriptlet.Proofs.Moments
import Scriptlet.Proofs.Renaming
import Scriptlet.Proofs.Seclusion

namespace Scriptlet

/-!
# Literals are left alone

A program holds the values of its literals, and a list among them may hold further lists or be
shared with the host.  Every run works on copies.  None of these lists is changed by a run, and
from no machine that it passes can one of them be got at.

So a program can be run again, and on a fresh machine it does what it did the first time.  The
lists that it makes stand at other addresses then, which nobody sees.  This takes callables that do
not remember the first run: a host may offer some that keep a state of their own.
-/

/-- The program has the value as a literal. -/
def Program.HasLiteral (program : Program) (value : Value) : Prop :=
  ∃ node ∈ program.root.statements, ∃ line, Node.Within (.literal value line) node

/-- The list was made in this heap, or the object. -/
def Heap.Knows (heap : Heap) : Value → Prop
  | .list address => address < heap.lists.size
  | .object object => object.identity < heap.objects
  | _ => True

/-- Where every list holds only what was made, only what was made can be reached. -/
theorem Heap.knows_reached {heap : Heap} {value part : Value}
    (sound : ∀ address, ∀ element ∈ heap.elements address, heap.Knows element)
    (knows : heap.Knows value) (reaches : heap.Reaches value part) : heap.Knows part := by
  induction reaches with
  | self value => exact knows
  | inside member _ inductionHypothesis => exact inductionHypothesis (sound _ _ member)

/-- The lists of the program's literals, nested ones included. -/
def Program.LiteralList (program : Program) (heap : Heap) (address : Nat) : Prop :=
  heap.ReachedFrom program.HasLiteral address

/-- All that the program's literals are made of was made in this heap. -/
def Program.LiteralsIn (program : Program) (heap : Heap) : Prop :=
  ∀ value, program.HasLiteral value → ∀ part, heap.Reaches value part → heap.Knows part

/-- The lists of the program's literals hold what they held, and no identity is given out again. -/
structure Program.LiteralsKept (program : Program) (heap after : Heap) : Prop where
  lists : ∀ address, program.LiteralList heap address → after.lists[address]? = heap.lists[address]?
  objects : heap.objects ≤ after.objects

namespace Machine

/-- The values on the stack and those of the variables. -/
def values (machine : Machine) : List Value :=
  machine.stack.values ++ machine.store.slots.map fun entry => entry.2.value

/-- The list can be got at from the stack or from a variable. -/
def Holds (machine : Machine) (address : Nat) : Prop :=
  machine.world.heap.ReachedFrom (fun value => value ∈ machine.values) address

/-- The literals of the program are as they were in some heap, and none of their lists can be
got at from the machine. -/
structure Isolates (program : Program) (original : Heap) (machine : Machine) : Prop where
  kept : program.LiteralsKept original machine.world.heap
  stored : ∀ address, machine.Holds address → address < machine.world.heap.lists.size
  apart : ∀ address, machine.Holds address → ¬ program.LiteralList original address

end Machine

section Isolation

variable {program : Program} {original : Heap} (literals : program.LiteralsIn original)

/-- The lists of the literals are set apart. -/
def Program.LiteralsIn.region : original.Region where
  holds := program.LiteralList original
  stored address inside := by
    rcases inside with ⟨value, given, reaches⟩
    exact literals value given _ reaches
  closed := original.closed_reachedFrom program.HasLiteral

theorem Machine.Isolates.alike {machine : Machine} (isolates : machine.Isolates program original) :
    (Likeness.secluded literals.region).machines machine.Holds machine machine := by
  have belongs : ∀ value ∈ machine.values, value.Belongs machine.Holds :=
    fun value member => Heap.belongs_reachedFrom member (.self value)
  constructor
  · exact Likeness.forall₂_owned.mpr
      ⟨rfl, fun value member => belongs value (List.mem_append_left _ member)⟩
  · refine ⟨List.forall₂_same.mpr fun entry member => ⟨rfl, rfl, rfl, ?_⟩, rfl, rfl⟩
    exact belongs _ (List.mem_append_right _ (List.mem_map_of_mem member))
  · refine ⟨⟨rfl, ?_⟩, rfl⟩
    exact ⟨isolates.kept.lists, isolates.kept.objects, isolates.apart, isolates.stored,
      Heap.closed_reachedFrom _ _⟩

theorem Machine.isolates_of_alike {machine : Machine} {own : Nat → Prop}
    (alike : (Likeness.secluded literals.region).machines own machine machine) :
    machine.Isolates program original := by
  have secludes := alike.world.1.2
  have belongs : ∀ value ∈ machine.values, value.Belongs own := by
    intro value member
    rcases List.mem_append.mp member with onStack | inStore
    · exact (Likeness.forall₂_owned.mp alike.stack).2 value onStack
    · rcases List.mem_map.mp inStore with ⟨entry, listed, rfl⟩
      exact (List.forall₂_same.mp alike.store.slots entry listed).2.2.2
  have inside : ∀ address, machine.Holds address → own address := by
    rintro address ⟨value, member, reaches⟩
    exact secludes.closed.reaches (belongs value member) reaches
  exact ⟨⟨secludes.frozen, secludes.objects⟩,
    fun address holds => secludes.stored address (inside address holds),
    fun address holds => secludes.apart address (inside address holds)⟩

include literals

/-- A run that begins with its literals isolated passes no machine from which one can be got
at. -/
theorem Machine.Isolates.passes {library : Library} (spares : library.SparesLists)
    {config : Config} {machine passed : Machine} (isolates : machine.Isolates program original)
    (passes : Machine.Passes ⟨library, config⟩ (.block program.root) machine passed) :
    passed.Isolates program original := by
  have fits : ∀ node ∈ program.root.statements,
      node.All ((Likeness.secluded literals.region).Fits library library) :=
    fun _ _ part _ => Likeness.fits_secluded spares part
  have ready : (Likeness.secluded literals.region).Ready machine.Holds (.block program.root)
      machine := ⟨isolates.alike literals, .nil⟩
  rcases ready.passes rfl fits passes with ⟨own, _, alike⟩
  exact Machine.isolates_of_alike literals alike

end Isolation

/-- A machine without variables cannot get at anything. -/
theorem Machine.isolates_start {program : Program} {original heap : Heap}
    (kept : program.LiteralsKept original heap) (config : Config) (sink : Sink) :
    (Machine.start config ⟨heap, sink⟩).Isolates program original where
  kept := kept
  stored := by
    rintro address ⟨value, member, _⟩
    exact absurd member List.not_mem_nil
  apart := by
    rintro address ⟨value, member, _⟩
    exact absurd member List.not_mem_nil

/-- The machine that a run ends with is passed. -/
theorem Machine.passes_run (environment : Environment) (program : Program) (machine : Machine) :
    Machine.Passes environment (.block program.root) machine
      (stateAfter (Machine.run environment program machine)) := by
  have same : stateAfter (Machine.run environment program machine) =
      Machine.Piece.final environment (.block program.root) machine := by
    change stateAfter ((Machine.performBlock environment program.root >>= fun _ => pure ())
      machine) = stateAfter (Machine.performBlock environment program.root machine)
    cases ran : Machine.performBlock environment program.root machine with
    | ok signal after =>
        rw [bind_of_ok ran]
        rfl
    | error fault after =>
        rw [bind_of_error ran]
        rfl
  rw [same]
  exact .final _ _

/-! ## Runs that are repeated -/

/-- What a callable does is settled by the line, by the values it is given with all that can be
reached from them, and by the sink.  It has no state of its own, which an earlier call could have
changed, and it does not look at addresses, at identities or at what else the host has made. -/
def Library.Uniform (library : Library) : Prop :=
  ∀ name, Likeness.Answers Likeness.renaming.Functions (library.function? name)
      (library.function? name) ∧
    Likeness.Answers Likeness.renaming.Methods (library.method? name) (library.method? name)

theorem Standard.library_uniform : Standard.library.Uniform :=
  Likeness.answers_standard

/-- What can be seen of a machine: its values as texts, the variables with their names and
numbers of references, the open frames, and the output. -/
@[ext] structure Machine.View where
  stack : List String
  slots : List (String × Int × String)
  frames : Array (List String)
  sink : Sink

def Machine.view (machine : Machine) : View where
  stack := machine.stack.values.map machine.world.heap.render
  slots := machine.store.slots.map fun entry =>
    (entry.1, entry.2.references, machine.world.heap.render entry.2.value)
  frames := machine.store.frames
  sink := machine.world.sink

/-- What can be seen of a run that has ended: its fault, if there is one, and the machine. -/
def Machine.outcome : EStateM.Result RuntimeFault Machine Unit → Option RuntimeFault × View
  | .ok _ after => (none, after.view)
  | .error fault after => (some fault, after.view)

namespace Likeness

variable {base : Correspondence} {known : (renaming.since base).Knowledge}

theorem view_eq {machine other : Machine}
    (alike : (renaming.since base).machines known machine other) : other.view = machine.view := by
  have texts := fun {x y : Value} (related : known.1.Relates x y) =>
    Correspondence.render_eq alike.world.1 related
  apply Machine.View.ext
  · exact Correspondence.map_eq_of_forall₂ alike.stack fun _ _ => texts
  · refine Correspondence.map_eq_of_forall₂ alike.store.slots ?_
    rintro ⟨name, slot⟩ ⟨otherName, otherSlot⟩ ⟨names, references, related⟩
    exact Prod.ext names (Prod.ext references (texts related))
  · exact alike.store.frames
  · exact alike.world.2

/-- Runs that end alike are seen to end in the same way. -/
theorem outcome_eq {run other : Machine.Run Unit}
    (goes : (renaming.since base).Goes (renaming.since base).machines
      (renaming.since base).Equal known run other) {machine otherMachine : Machine}
    (alike : (renaming.since base).machines known machine otherMachine) :
    Machine.outcome (other otherMachine) = Machine.outcome (run machine) := by
  rcases (goes known (.refl _) machine otherMachine alike).returns_or_fails id with
    ⟨_, _, _, _, ran, otherRan, _, _, _, reached⟩ |
    ⟨fault, _, _, _, ran, otherRan, faults, _, _, reached⟩
  · rw [ran, otherRan]
    exact congrArg (Prod.mk none) (view_eq reached)
  · rw [ran, otherRan]
    exact Prod.ext (congrArg some (faults.trans fault.renumbered_id)) (view_eq reached)

end Likeness

section Repetition

variable {program : Program} {original : Heap}

/-- The literals belong together with themselves. -/
def Program.literals (program : Program) (heap : Heap) : Correspondence where
  lists a b := a = b ∧ program.LiteralList heap a
  objects i j := i = j ∧ i < heap.objects
  lists_unique := ⟨fun _ _ _ left right => left.1.trans right.1.symm,
    fun _ _ _ left right => left.1.symm.trans right.1⟩
  objects_unique := ⟨fun _ _ _ left right => left.1.trans right.1.symm,
    fun _ _ _ left right => left.1.symm.trans right.1⟩

variable (literals : program.LiteralsIn original)
include literals

/-- Whatever a literal is made of belongs together with itself. -/
theorem Program.LiteralsIn.relates {value part : Value} (given : program.HasLiteral value)
    (reaches : original.Reaches value part) : (program.literals original).Relates part part := by
  have knows := literals value given part reaches
  cases part with
  | number x => exact .number x
  | text s => exact .text s
  | truth b => exact .truth b
  | list address => exact .list ⟨rfl, value, given, reaches⟩
  | object object => exact .object object.label ⟨rfl, knows⟩

theorem Program.LiteralsIn.heaps {later : Heap} (kept : program.LiteralsKept original later) :
    (program.literals original).Heaps original later where
  stored := by
    rintro a _ ⟨rfl, inside⟩
    have bound := literals.region.stored a inside
    have found := kept.lists a inside
    rw [Array.getElem?_eq_getElem bound] at found
    exact ⟨bound, Heap.stored_of_getElem? found⟩
  elements := by
    rintro a _ ⟨rfl, inside⟩
    have same : later.elements a = original.elements a := by
      unfold Heap.elements Heap.storage
      rw [kept.lists a inside]
    rw [same]
    rcases inside with ⟨value, given, reaches⟩
    exact List.forall₂_same.mpr fun element member =>
      literals.relates given (reaches.trans (.inside member (.self element)))
  made := by
    rintro i _ ⟨rfl, made⟩
    exact ⟨made, Nat.lt_of_lt_of_le made kept.objects⟩

theorem Program.LiteralsIn.fits {library : Library} (uniform : library.Uniform) :
    ∀ node ∈ program.root.statements,
      node.All ((Likeness.renaming.since (program.literals original)).Fits library library) := by
  intro node member part inside
  cases part with
  | literal value line =>
      intro known
      have related := literals.relates ⟨node, member, line, inside⟩ (.self value)
      apply Likeness.goes_sure
      intro now first second later heaps
      have relatedNow := related.later now.2
      rcases Correspondence.copy_related heaps relatedNow with ⟨after, more, copied, grown⟩
      exact ⟨⟨after, now.2.trans more⟩, more, copied, grown⟩
  | call function arguments line =>
      exact (uniform function).1.imp fun _ _ => Likeness.functions_since
  | methodCall receiver method arguments line =>
      exact (uniform method).2.imp fun _ _ => Likeness.methods_since
  | _ => exact trivial

/-- On a fresh machine the program does the same wherever its literals are as they were. -/
theorem Program.LiteralsIn.outcome_eq {library : Library} (uniform : library.Uniform)
    (config : Config) (sink : Sink) {later : Heap} (kept : program.LiteralsKept original later) :
    Machine.outcome (Machine.run ⟨library, config⟩ program (.start config ⟨later, sink⟩)) =
      Machine.outcome (Machine.run ⟨library, config⟩ program (.start config ⟨original, sink⟩)) := by
  have start : (Likeness.renaming.since (program.literals original)).machines
      ⟨program.literals original, .refl _⟩ (.start config ⟨original, sink⟩)
      (.start config ⟨later, sink⟩) :=
    ⟨.nil, ⟨.nil, rfl, rfl⟩, literals.heaps kept, rfl⟩
  have performed := @Likeness.goes_performBlock
    (Likeness.renaming.since (program.literals original)) library library config program.root
    (literals.fits uniform) ⟨_, .refl _⟩
  have unmoved : (Likeness.renaming.since (program.literals original)).place = id := rfl
  rw [unmoved, Block.renumbered_id] at performed
  refine Likeness.outcome_eq (Likeness.Goes.bind performed ?_) start
  intro _ _ _ _ _
  exact Likeness.goes_pure fun _ _ => rfl

end Repetition

/-- While a program runs, nothing changes the lists of its literals and nothing hands one of them
out: from no machine that is passed can one be got at, neither from the stack nor from a
variable.  All that is asked of the library is that its callables, list methods apart, neither
change lists nor hold on to them.

Hence a program can be run again.  If, further, the callables have no state of their own and do not
look at addresses, then on a fresh machine with the same sink the run ends alike, with the same
output and with variables that look the same, wherever the literals are still as they were, as they
are after any number of runs. -/
theorem literals_isolated {library : Library} (spares : library.SparesLists) (config : Config)
    {program : Program} {original : Heap} (literals : program.LiteralsIn original) :
    (∀ machine passed, machine.Isolates program original →
      Machine.Passes ⟨library, config⟩ (.block program.root) machine passed →
        passed.Isolates program original) ∧
    (library.Uniform → ∀ later sink, program.LiteralsKept original later →
      Machine.outcome (Machine.run ⟨library, config⟩ program (.start config ⟨later, sink⟩)) =
        Machine.outcome
          (Machine.run ⟨library, config⟩ program (.start config ⟨original, sink⟩))) := by
  constructor
  · intro machine passed isolates passes
    exact isolates.passes literals spares passes
  · intro uniform later sink kept
    exact literals.outcome_eq uniform config sink kept

/-- A list that holds another one twice. -/
def Heap.nested : Heap where
  lists := #[#[.text "a"], #[.list 0, .list 0]]

/-- Changes copies of two literals, one of which is a part of the other. -/
def Program.clearing : Program where
  root := .mk false
    [.compound (.mk false [.assignment "outer" (.literal (.list 1) 1) 1] 1),
      .compound (.mk false [.assignment "inner" (.literal (.list 0) 2) 2] 2),
      .methodCall "inner" "add" [.variable "outer" 3] 3,
      .methodCall "outer" "clear" [] 4,
      .call "print" [.variable "inner" 5] 5] 1

/-- A literal has a value of the kind. -/
def Node.LiteralOf (values : Value → Prop) : Node → Prop
  | .literal value _ => values value
  | _ => True

theorem Program.literalsIn_nested : Program.clearing.LiteralsIn Heap.nested := by
  have sound : ∀ address, ∀ element ∈ Heap.nested.elements address,
      Heap.nested.Knows element := by
    intro address element member
    match address with
    | 0 => simp_all [Heap.elements, Heap.storage, Heap.nested, Heap.Knows]
    | 1 => simp_all [Heap.elements, Heap.storage, Heap.nested, Heap.Knows]
    | address + 2 => simp_all [Heap.elements, Heap.storage, Heap.nested]
  have bare (name : String) (line : Nat) :
      (Node.variable name line).All (Node.LiteralOf Heap.nested.Knows) :=
    Node.all_iff.mpr ⟨trivial, List.forall_mem_nil _⟩
  have bound (name : String) {address : Nat} (made : address < 2) (line : Nat) :
      (Node.compound (.mk false [.assignment name (.literal (.list address) line) line] line)).All
        (Node.LiteralOf Heap.nested.Knows) := by
    have literal : (Node.literal (.list address) line).All (Node.LiteralOf Heap.nested.Knows) :=
      Node.all_iff.mpr ⟨made, List.forall_mem_nil _⟩
    have assignment : (Node.assignment name (.literal (.list address) line) line).All
        (Node.LiteralOf Heap.nested.Knows) :=
      Node.all_iff.mpr ⟨trivial, List.forall_mem_singleton.mpr literal⟩
    exact Node.all_iff.mpr ⟨trivial, List.forall_mem_singleton.mpr assignment⟩
  have known : ∀ node ∈ Program.clearing.root.statements,
      node.All (Node.LiteralOf Heap.nested.Knows) := by
    simp only [Program.clearing, Block.statements, List.forall_mem_cons]
    refine ⟨bound "outer" (by decide) 1, bound "inner" (by decide) 2, ?_, ?_, ?_,
      List.forall_mem_nil _⟩
    · exact Node.all_iff.mpr ⟨trivial, List.forall_mem_singleton.mpr (bare "outer" 3)⟩
    · exact Node.all_iff.mpr ⟨trivial, List.forall_mem_nil _⟩
    · exact Node.all_iff.mpr ⟨trivial, List.forall_mem_singleton.mpr (bare "inner" 5)⟩
  rintro value ⟨node, member, line, inside⟩ part reaches
  exact Heap.knows_reached sound (known node member _ inside) reaches

theorem literals_isolated_nested :
    Standard.library.SparesLists ∧ Program.clearing.LiteralsIn .nested ∧
    (Machine.start {} ⟨.nested, {}⟩).Isolates Program.clearing .nested ∧
    Standard.library.Uniform ∧
    (∀ passed, Machine.Passes ⟨Standard.library, {}⟩ (.block Program.clearing.root)
      (.start {} ⟨.nested, {}⟩) passed → passed.Isolates Program.clearing .nested) ∧
    ∀ after, stateAfter (Machine.run ⟨Standard.library, {}⟩ Program.clearing
        (.start {} ⟨.nested, {}⟩)) = after →
      Machine.outcome (Machine.run ⟨Standard.library, {}⟩ Program.clearing
          (.start {} ⟨after.world.heap, {}⟩)) =
        Machine.outcome (Machine.run ⟨Standard.library, {}⟩ Program.clearing
          (.start {} ⟨.nested, {}⟩)) := by
  have isolated := literals_isolated Standard.library_sparesLists {} Program.literalsIn_nested
  have fresh : (Machine.start {} ⟨.nested, {}⟩).Isolates Program.clearing .nested :=
    Machine.isolates_start ⟨fun _ _ => rfl, Nat.le_refl _⟩ {} {}
  refine ⟨Standard.library_sparesLists, Program.literalsIn_nested, fresh,
    Standard.library_uniform, fun passed => isolated.1 _ passed fresh, ?_⟩
  rintro after rfl
  have last := isolated.1 _ _ fresh (Machine.passes_run _ _ _)
  exact isolated.2 Standard.library_uniform _ {} last.kept

/-! ## Callables that remember -/

/-- Tells how often it was called before.  The count is the function's own: each call uses up an
identity of the host's. -/
def countCalls : HostFunction := fun _ _ ⟨⟨lists, objects⟩, sink⟩ =>
  .ok (some (.text (toString objects))) ⟨⟨lists, objects + 1⟩, sink⟩

/-- The standard library with a function that counts its calls. -/
def Library.counting : Library where
  functions := Standard.library.functions ++ [("calls", countCalls)]
  methods := Standard.library.methods

theorem Library.counting_sparesLists : Library.counting.SparesLists := by
  have added : Standard.library.addFunction "calls" countCalls = .ok .counting := rfl
  refine Standard.library_sparesLists.addFunction ?_ added
  intro arguments line world
  exact ⟨Heap.Kept.refl _, Nat.le_succ _, by rintro _ ⟨⟩ address ⟨⟩⟩

/-- Prints what the counting function gives. -/
def Program.counted : Program where
  root := .mk false [.call "print" [.call "calls" [] 1] 1] 1

theorem Program.not_hasLiteral_counted (value : Value) : ¬ Program.counted.HasLiteral value := by
  rintro ⟨node, member, line, inside⟩
  cases List.mem_singleton.mp member
  cases inside with
  | child member inside =>
      cases List.mem_singleton.mp member
      cases inside with
      | child member inside => cases member

theorem Program.literalsIn_counted (heap : Heap) : Program.counted.LiteralsIn heap :=
  fun value given => absurd given (not_hasLiteral_counted value)

theorem Program.literalsKept_counted {heap after : Heap} (objects : heap.objects ≤ after.objects) :
    Program.counted.LiteralsKept heap after where
  lists _ inside := by
    rcases inside with ⟨value, given, _⟩
    exact absurd given (not_hasLiteral_counted value)
  objects := objects

/-- Where an identity has been used up, the count is another one. -/
theorem Library.counting_not_uniform : ¬ Library.counting.Uniform := by
  intro uniform
  have kept : Program.counted.LiteralsKept {} { objects := 1 } :=
    Program.literalsKept_counted (Nat.zero_le 1)
  have same := (Program.literalsIn_counted {}).outcome_eq uniform {} {} kept
  have outputs : "1\n" = "0\n" := congrArg (fun outcome => outcome.2.sink.output) same
  exact absurd outputs (by decide)

/-- Prints an empty line. -/
def Program.printing : Program where
  root := .mk false [.call "print" [] 1] 1

/-- It is not enough that callables spare lists.  One that counts its calls gives something else
when the program is run again.  Even `print` does, at a sink that the first run has filled, although
that run leaves the machine as fresh as it was. -/
theorem counted_run_not_repeated :
    (Library.counting.SparesLists ∧ ¬ Library.counting.Uniform ∧
      Program.counted.LiteralsIn {} ∧ ∃ first second,
        Machine.run ⟨.counting, {}⟩ .counted (.start {}) = .ok () first ∧
        Program.counted.LiteralsKept {} first.world.heap ∧
        Machine.run ⟨.counting, {}⟩ .counted (.start {} ⟨first.world.heap, {}⟩) = .ok () second ∧
        first.world.sink.output = "0\n" ∧ second.world.sink.output = "1\n") ∧
    ∃ first second,
      Machine.run ⟨Standard.library, {}⟩ .printing (.start {} ⟨{}, { room := some 1 }⟩) =
        .ok () first ∧
      first = .start {} first.world ∧
      Machine.run ⟨Standard.library, {}⟩ .printing (.start {} first.world) =
        .error (.hostFailure "print" "sink full" 1) second := by
  constructor
  · exact ⟨Library.counting_sparesLists, Library.counting_not_uniform,
      Program.literalsIn_counted {}, _, _, rfl, Program.literalsKept_counted (Nat.zero_le _), rfl,
      rfl, rfl⟩
  · exact ⟨_, _, rfl, rfl, rfl⟩

end Scriptlet
