import Mathlib
import Scriptlet.Proofs.Declarations
import Scriptlet.Proofs.Reachability
import Scriptlet.Proofs.RunningAlike
import Scriptlet.Proofs.Shape

namespace Scriptlet

/-!
# Hosts that offer more

A host may register callables that a script never mentions.  Reading asks for the names of
functions, and running looks callables up, but only under names that are written in the source.
So the script is read as the same program, or refused with the same fault, and its program runs
alike from every machine.

Reading asks for nothing else: not for methods, and of the host's values only for those at the
front of the queue.
-/

/-- One library has what the other one has, and more under names that a source does not
mention. -/
structure Library.Extends (larger library : Library) (source : String) : Prop where
  functions : ∀ name, larger.function? name = library.function? name ∨
    library.function? name = none ∧ ¬ Reader.Mentions source name
  methods : ∀ name, larger.method? name = library.method? name ∨
    library.method? name = none ∧ ¬ Reader.Mentions source name

namespace Library.Extends

variable {larger library : Library} {source name : String}

theorem refl (library : Library) (source : String) : library.Extends library source :=
  ⟨fun _ => Or.inl rfl, fun _ => Or.inl rfl⟩

/-- What is registered under a name that the source does not mention. -/
theorem lookup_added {Callable : Type} {callables : List (String × Callable)}
    {found : Option Callable} {added other : String}
    (before : callables.lookup other = found ∨ found = none ∧ ¬ Reader.Mentions source other)
    (absent : ¬ Reader.Mentions source added) (callable : Callable) :
    (callables ++ [(added, callable)]).lookup other = found ∨
      found = none ∧ ¬ Reader.Mentions source other := by
  by_cases same : other = added
  · cases found with
    | none => exact Or.inr ⟨rfl, same ▸ absent⟩
    | some callable =>
        left
        rw [List.lookup_append, before.resolve_right (by rintro ⟨⟨⟩, _⟩), Option.some_or]
  · have unaffected : [(added, callable)].lookup other = none := by
      rw [List.lookup_cons, beq_eq_false_iff_ne.mpr same]
      rfl
    rwa [List.lookup_append, unaffected, Option.or_none]

/-- Registering a function makes a library that offers more. -/
theorem addFunction (extension : larger.Extends library source) {function : HostFunction}
    {largest : Library} (added : larger.addFunction name function = .ok largest)
    (absent : ¬ Reader.Mentions source name) : largest.Extends library source := by
  unfold Library.addFunction at added
  split at added
  · cases added
  · cases added
    exact ⟨fun other => lookup_added (extension.functions other) absent function, extension.methods⟩

theorem addMethod (extension : larger.Extends library source) {method : HostMethod}
    {largest : Library} (added : larger.addMethod name method = .ok largest)
    (absent : ¬ Reader.Mentions source name) : largest.Extends library source := by
  unfold Library.addMethod at added
  split at added
  · cases added
  · cases added
    exact ⟨extension.functions, fun other => lookup_added (extension.methods other) absent method⟩

theorem function?_eq (extension : larger.Extends library source)
    (mentioned : Reader.Mentions source name) :
    larger.function? name = library.function? name :=
  (extension.functions name).resolve_right fun added => added.2 mentioned

theorem method?_eq (extension : larger.Extends library source)
    (mentioned : Reader.Mentions source name) :
    larger.method? name = library.method? name :=
  (extension.methods name).resolve_right fun added => added.2 mentioned

theorem hasFunction_eq (extension : larger.Extends library source)
    (mentioned : Reader.Mentions source name) :
    larger.hasFunction name = library.hasFunction name := by
  unfold Library.hasFunction
  rw [extension.function?_eq mentioned]

end Library.Extends

/-! ## Reading -/

/-- Reading is decided by which of the names in the source are functions. -/
theorem compile_eq {library other : Library} {source : String}
    (agree : ∀ name, Reader.Mentions source name →
      other.hasFunction name = library.hasFunction name) (arguments : Arguments) :
    compile other source arguments = compile library source arguments := by
  have alike := Reader.program_ofSource source arguments agree
  unfold compile
  rcases alike.returns_or_fails (absurd trivial) with
    ⟨_, _, _, _, ran, otherRan, rfl, rfl, _⟩ | ⟨_, _, _, _, ran, otherRan, rfl, rfl, _⟩ <;>
    rw [ran, otherRan]

/-- A program calls nothing that its source does not mention. -/
theorem calls_mentioned {library : Library} {source : String} {arguments rest : Arguments}
    {program : Program} (compiled : compile library source arguments = .ok program rest) :
    ∀ node ∈ program.root.statements, node.All (Node.CallsOnly (Reader.Mentions source)) := by
  have alike := Reader.program_ofSource source arguments
    fun name _ => Eq.refl (library.hasFunction name)
  obtain ⟨reader, ran, _⟩ := compile_iff_program.mp compiled
  rw [ran] at alike
  exact alike.2.2.1

/-! ## Effects on the host's values -/

theorem Declaration.Binds.kept {declarations : List Declaration} {values : List Value}
    {heap after : Heap} {nodes : List Node} (binds : Binds declarations values heap nodes after) :
    heap.Kept after ∧ after.objects = heap.objects := by
  induction binds with
  | nothing => exact ⟨Heap.Kept.refl _, rfl⟩
  | @next declaration _ value _ _ heap between _ _ coerced _ inductionHypothesis =>
      have keeps := Heap.kept_coerce value declaration.kind heap
      have objects := Heap.objects_coerce value declaration.kind heap
      rw [coerced] at keeps objects
      exact ⟨keeps.trans inductionHypothesis.1, inductionHypothesis.2.trans objects⟩

theorem Arguments.TakenBy.kept {declarations : List Declaration} {before after : Arguments}
    {fault : Fault} (takenBy : TakenBy declarations before after fault) :
    before.heap.Kept after.heap ∧ after.heap.objects = before.heap.objects := by
  unfold TakenBy at takenBy
  split at takenBy
  · rcases takenBy with ⟨_, _, _, _, _, binds⟩
    exact binds.kept
  · next kind _ =>
    rcases takenBy with ⟨_, _, value, _, between, _, _, binds, coerced, _⟩
    have keeps := Heap.kept_coerce value kind between
    have objects := Heap.objects_coerce value kind between
    rw [coerced] at keeps objects
    exact ⟨binds.kept.1.trans keeps, objects.trans binds.kept.2⟩
  · rcases takenBy with ⟨_, _, _, binds⟩
    exact binds.kept

/-- What is left of the host's values: the end of the queue, with every list as it was. -/
structure Arguments.LeftOf (rest arguments : Arguments) : Prop where
  queue : rest.queue <:+ arguments.queue
  lists : arguments.heap.Kept rest.heap
  objects : rest.heap.objects = arguments.heap.objects

theorem compile_leaves (library : Library) (source : String) (arguments : Arguments) :
    match compile library source arguments with
    | .ok _ rest | .error _ rest => rest.LeftOf arguments := by
  have alike := Reader.program_ofSource source arguments
    fun name _ => Eq.refl (library.hasFunction name)
  unfold compile
  generalize Reader.program library.hasFunction ⟨.ofSource source, arguments⟩ = ending at alike ⊢
  cases ending with
  | ok program reader =>
      rcases alike with ⟨_, _, _, taken, queue, binds⟩
      exact ⟨⟨taken, queue.symm⟩, binds.kept.1, binds.kept.2⟩
  | error fault reader =>
      rcases alike with loose | ⟨_, _, _, _, takenBy⟩
      · exact absurd trivial loose
      · exact ⟨takenBy.suffix, takenBy.kept.1, takenBy.kept.2⟩

/-! ## Running -/

theorem Library.Extends.fits {larger library : Library} {source : String}
    (extension : larger.Extends library source) {node : Node}
    (calls : node.CallsOnly (Reader.Mentions source)) :
    (Likeness.same id).Fits library larger node := by
  cases node with
  | literal value line => exact Likeness.goes_copy value
  | call function arguments line =>
      change Likeness.Answers _ (library.function? function) (larger.function? function)
      rw [extension.function?_eq calls]
      cases library.function? function with
      | none => exact trivial
      | some body => exact Likeness.functions_again body
  | methodCall receiver method arguments line =>
      change Likeness.Answers _ (library.method? method) (larger.method? method)
      rw [extension.method?_eq calls]
      cases library.method? method with
      | none => exact trivial
      | some body => exact Likeness.methods_again body
  | _ => exact trivial

/-- The larger library runs a program that mentions nothing new as the other one does. -/
theorem Library.Extends.run_eq {larger library : Library} {source : String}
    (extension : larger.Extends library source) {program : Program}
    (calls : ∀ node ∈ program.root.statements,
      node.All (Node.CallsOnly (Reader.Mentions source))) (config : Config) :
    Machine.run ⟨larger, config⟩ program = Machine.run ⟨library, config⟩ program := by
  have fits : ∀ node ∈ program.root.statements,
      node.All ((Likeness.same id).Fits library larger) :=
    fun node member => (calls node member).imp fun _ => extension.fits
  have goes : (Likeness.same id).Goes (Likeness.same id).machines (Likeness.same id).Equal ()
      (Machine.performBlock ⟨library, config⟩ program.root)
      (Machine.performBlock ⟨larger, config⟩ (program.root.renumbered id)) :=
    Likeness.goes_performBlock program.root fits ()
  have blocks : Machine.performBlock ⟨larger, config⟩ program.root =
      Machine.performBlock ⟨library, config⟩ program.root := by
    funext machine
    have ending := goes.ending_eq machine
    rwa [Block.renumbered_id, Likeness.renumberedEnding_id] at ending
  unfold Machine.run
  rw [blocks]

/-- A host that offers more changes nothing for a source that does not mention it: the source is
read as the same program, or refused with the same fault, with the same values left; and the
program does the same from every machine, variables, open frames and output included.

Methods play no part in reading at all, and all that reading changes is the queue, which loses
values at its front. -/
theorem host_extension_conservative (larger library : Library) (source : String)
    (extension : larger.Extends library source) (arguments : Arguments) :
    compile larger source arguments = compile library source arguments ∧
    (∀ program rest, compile library source arguments = .ok program rest → ∀ config machine,
      Machine.run ⟨larger, config⟩ program machine =
        Machine.run ⟨library, config⟩ program machine) ∧
    (∀ methods, compile { library with methods } source arguments =
      compile library source arguments) ∧
    match compile library source arguments with
    | .ok _ rest | .error _ rest => rest.LeftOf arguments := by
  refine ⟨compile_eq (fun _ => extension.hasFunction_eq) arguments, ?_, ?_, ?_⟩
  · intro program rest compiled config machine
    rw [extension.run_eq (calls_mentioned compiled) config]
  · intro methods
    rfl
  · exact compile_leaves library source arguments

/-- The standard library with a function and a method more. -/
def Library.greeting : Library where
  functions := Standard.library.functions ++
    [("greet", fun _ _ => pure (some (.text "hello")))]
  methods := Standard.library.methods ++ [("shout", fun _ _ line => throw (.missingValue line))]

theorem host_extension_conservative_greeting :
    Library.greeting.Extends Standard.library "with a: string\nprint(a)" ∧
      ∃ program, compile Library.greeting "with a: string\nprint(a)" ⟨[.text "x", .text "y"], {}⟩ =
          .ok program ⟨[.text "y"], {}⟩ ∧
        ∀ config machine, Machine.run ⟨.greeting, config⟩ program machine =
          Machine.run ⟨Standard.library, config⟩ program machine := by
  have absent : ∀ name ∈ ["greet", "shout"],
      ¬ Reader.Mentions "with a: string\nprint(a)" name := by
    unfold Reader.Mentions
    decide
  have extension : Library.greeting.Extends Standard.library "with a: string\nprint(a)" :=
    ((Library.Extends.refl _ _).addFunction rfl (absent "greet" (by decide))).addMethod rfl
      (absent "shout" (by decide))
  have compiled : compile Standard.library "with a: string\nprint(a)"
      ⟨[.text "x", .text "y"], {}⟩ =
        .ok ⟨.mk false
          [.compound (.mk false [.assignment "a" (.literal (.text "x") 1) 1] 1),
            .call "print" [.variable "a" 2] 2] 1⟩ ⟨[.text "y"], {}⟩ := by
    cbv
  have conservative := host_extension_conservative Library.greeting Standard.library
    "with a: string\nprint(a)" extension ⟨[.text "x", .text "y"], {}⟩
  exact ⟨extension, _, conservative.1.trans compiled, conservative.2.1 _ _ compiled⟩

end Scriptlet
