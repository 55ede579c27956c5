import Scriptlet.Proofs.DirectEvaluation

namespace Scriptlet
namespace Direct

/-!
# Relations that evaluation keeps

Evaluation without a stack is put together from a few steps: results and faults, sequencing,
actions on the heap, calls of the host, and the four things it asks of its variables.  A
relation between computations that holds of each step and is kept by sequencing holds of the
evaluation of every tree.  What is said of one computation alone is the special case of a
relation that ignores its second side.

A frame is opened and left around a whole block, so the relation is asked about the block and
not about the two ends: what holds at the end of a block need not hold in between.
-/

/-- Runs statements in a frame of their own. -/
def inFrame {σ : Type} (bindings : Variables σ) (body : Run σ Ending) : Run σ Signal := do
  enter bindings
  let ending ← body
  leave bindings ending.early
  pure ending.signal

/-- The elements at an address, as an action on the heap. -/
def elementsAt {σ : Type} (address : Nat) : Run σ (List Value) :=
  onHeap (Heap.Action.read fun heap => .ok (heap.elements address))

/-- A relation between computations that holds of every step of evaluation and is kept when
steps follow one another. -/
structure Congruence {σ τ : Type} (first : Variables σ) (second : Variables τ)
    (library : Library) (related : (α : Type) → Run σ α → Run τ α → Prop) : Prop where
  returns : ∀ {α : Type} (result : α), related α (pure result) (pure result)
  fails : ∀ {α : Type} (fault : RuntimeFault), related α (throw fault) (throw fault)
  follows : ∀ {α β : Type} {start : Run σ β} {other : Run τ β} {next : β → Run σ α}
    {otherNext : β → Run τ α}, related β start other →
    (∀ result, related α (next result) (otherNext result)) →
    related α (start >>= next) (other >>= otherNext)
  heap : ∀ {α : Type} (action : Heap.Action α), related α (onHeap action) (onHeap action)
  function : ∀ {name : String} {body : HostFunction}, library.function? name = some body →
    ∀ values line, related (Option Value) (onWorld (body values line)) (onWorld (body values line))
  method : ∀ {name : String} {body : HostMethod}, library.method? name = some body →
    ∀ target values line,
      related (Option Value) (onWorld (body target values line)) (onWorld (body target values line))
  lookups : ∀ name line, related Value (lookup first name line) (lookup second name line)
  assigns : ∀ name value, related Unit (assign first name value) (assign second name value)
  frame : ∀ {body : Run σ Ending} {other : Run τ Ending}, related Ending body other →
    related Signal (inFrame first body) (inFrame second other)

namespace Congruence

variable {σ τ : Type} {first : Variables σ} {second : Variables τ} {library : Library}
  {related : (α : Type) → Run σ α → Run τ α → Prop}

section Steps

variable (congruence : Congruence first second library related)
include congruence

theorem valueOf {start : Run σ Outcome} {other : Run τ Outcome}
    (performed : related Outcome start other) (line : Nat) :
    related Value (Direct.valueOf line start) (Direct.valueOf line other) := by
  apply congruence.follows performed
  intro outcome
  unfold required
  cases outcome.value? with
  | none => exact congruence.fails (.missingValue line)
  | some value => exact congruence.returns value

theorem signalOf {start : Run σ Outcome} {other : Run τ Outcome}
    (performed : related Outcome start other) :
    related Signal (Direct.signalOf start) (Direct.signalOf other) :=
  congruence.follows performed fun outcome => congruence.returns outcome.signal

/-- An expression ends with a value that was computed. -/
theorem ofValue {α : Type} {start : Run σ α} {other : Run τ α} (computed : related α start other)
    (make : α → Outcome) :
    related Outcome (do let result ← start; pure (make result))
      (do let result ← other; pure (make result)) :=
  congruence.follows computed fun result => congruence.returns (make result)

theorem iterate {bind : Value → Run σ Unit} {otherBind : Value → Run τ Unit}
    {body : Run σ Signal} {otherBody : Run τ Signal}
    (binding : ∀ item, related Unit (bind item) (otherBind item))
    (bodies : related Signal body otherBody) (items : List Value) :
    related Signal (Direct.iterate bind body items) (Direct.iterate otherBind otherBody items) := by
  induction items with
  | nil => exact congruence.returns Signal.proceed
  | cons item rest inductionHypothesis =>
      apply congruence.follows (binding item)
      intro _
      apply congruence.follows bodies
      intro signal
      cases signal with
      | proceed => exact inductionHypothesis
      | «break» => exact congruence.returns Signal.proceed
      | halt => exact congruence.returns Signal.halt

/-- A block without a frame only passes the signal of its statements on. -/
theorem block {body : Run σ Ending} {other : Run τ Ending} (framed : Bool)
    (bodies : related Ending body other) :
    related Signal
      (do enterIf first framed
          let ending ← body
          leaveIf first framed ending.early
          pure ending.signal)
      (do enterIf second framed
          let ending ← other
          leaveIf second framed ending.early
          pure ending.signal) := by
  cases framed with
  | true => exact congruence.frame bodies
  | false =>
      apply congruence.follows (congruence.returns ())
      intro _
      apply congruence.follows bodies
      intro ending
      exact congruence.follows (congruence.returns ()) fun _ => congruence.returns ending.signal

end Steps

/-! ## Whole trees -/

mutual

/-- A relation that every step keeps holds between the evaluations of every node. -/
theorem perform (congruence : Congruence first second library related) : ∀ node : Node,
    related Outcome (Direct.perform first library node) (Direct.perform second library node)
  | .literal value _ => by
      rw [Direct.perform, Direct.perform]
      exact congruence.ofValue (congruence.heap _) _
  | .array elements line => by
      rw [Direct.perform, Direct.perform]
      apply congruence.follows (congruence.valuesOf line elements)
      intro values
      exact congruence.ofValue (congruence.heap _) _
  | .variable name line => by
      rw [Direct.perform, Direct.perform]
      exact congruence.ofValue (congruence.lookups name line) _
  | .binary operator left right line => by
      rw [Direct.perform, Direct.perform]
      apply congruence.follows (congruence.valueOf (congruence.perform left) line)
      intro x
      apply congruence.follows (congruence.valueOf (congruence.perform right) line)
      intro y
      exact congruence.ofValue (congruence.heap _) _
  | .unary operator operand line => by
      rw [Direct.perform, Direct.perform]
      apply congruence.follows (congruence.valueOf (congruence.perform operand) line)
      intro x
      exact congruence.ofValue (congruence.heap _) _
  | .call function arguments line => by
      rw [Direct.perform, Direct.perform]
      cases found : library.function? function with
      | none => exact congruence.fails _
      | some body =>
          apply congruence.follows (congruence.valuesOf line arguments)
          intro values
          exact congruence.ofValue (congruence.function found values line) _
  | .methodCall receiver method arguments line => by
      rw [Direct.perform, Direct.perform]
      cases found : library.method? method with
      | none => exact congruence.fails _
      | some body =>
          apply congruence.follows (congruence.lookups receiver line)
          intro target
          apply congruence.follows (congruence.valuesOf line arguments)
          intro values
          exact congruence.ofValue (congruence.method found target values line) _
  | .range start last line => by
      rw [Direct.perform, Direct.perform]
      apply congruence.follows (congruence.valueOf (congruence.perform start) line)
      intro x
      apply congruence.follows (congruence.valueOf (congruence.perform last) line)
      intro y
      exact congruence.ofValue (congruence.heap _) _
  | .assignment name value line => by
      rw [Direct.perform, Direct.perform]
      apply congruence.follows (congruence.valueOf (congruence.perform value) line)
      intro x
      exact congruence.ofValue (congruence.assigns name x) _
  | .conditional condition thenBranch elseBranch line => by
      rw [Direct.perform, Direct.perform]
      apply congruence.follows (congruence.valueOf (congruence.perform condition) line)
      intro x
      apply congruence.follows (congruence.heap _)
      intro holds
      cases holds with
      | true => exact congruence.ofValue (congruence.performBlock thenBranch) _
      | false => exact congruence.ofValue (congruence.performBranch elseBranch) _
  | .compound block => by
      rw [Direct.perform, Direct.perform]
      exact congruence.ofValue (congruence.performBlock block) _
  | .loop iterator iterable body line => by
      rw [Direct.perform, Direct.perform]
      apply congruence.follows (congruence.valueOf (congruence.perform iterable) line)
      intro x
      apply congruence.follows (congruence.heap _)
      intro address
      -- The items are read off the state; reading them is an action on the heap as well.
      have looped : ∀ items, related Outcome
          (do let signal ← Direct.iterate (assign first iterator)
                (Direct.performBody first library body) items
              pure (.ofSignal signal))
          (do let signal ← Direct.iterate (assign second iterator)
                (Direct.performBody second library body) items
              pure (.ofSignal signal)) := fun items =>
        congruence.ofValue
          (congruence.iterate (congruence.assigns iterator) (congruence.performBody body) items) _
      have items : related (List Value) (elementsAt address) (elementsAt address) :=
        congruence.heap _
      exact congruence.follows items looped
  | .flag flag _ => by
      rw [Direct.perform, Direct.perform]
      exact congruence.returns _

theorem valuesOf (congruence : Congruence first second library related) (line : Nat) :
    ∀ nodes : List Node,
    related (List Value) (Direct.valuesOf first library line nodes)
      (Direct.valuesOf second library line nodes)
  | [] => by
      rw [Direct.valuesOf, Direct.valuesOf]
      exact congruence.returns []
  | node :: rest => by
      rw [Direct.valuesOf, Direct.valuesOf]
      apply congruence.follows (congruence.valueOf (congruence.perform node) line)
      intro value
      exact congruence.follows (congruence.valuesOf line rest) fun _ => congruence.returns _

theorem performEach (congruence : Congruence first second library related) :
    ∀ nodes : List Node,
    related Ending (Direct.performEach first library nodes)
      (Direct.performEach second library nodes)
  | [] => by
      rw [Direct.performEach, Direct.performEach]
      exact congruence.returns _
  | node :: rest => by
      rw [Direct.performEach, Direct.performEach]
      apply congruence.follows (congruence.signalOf (congruence.perform node))
      intro signal
      cases signal with
      | proceed => exact congruence.performEach rest
      | «break» => exact congruence.returns _
      | halt => exact congruence.returns _

theorem performBlock (congruence : Congruence first second library related) :
    ∀ block : Block,
    related Signal (Direct.performBlock first library block)
      (Direct.performBlock second library block)
  | .mk framed statements line => by
      rw [Direct.performBlock, Direct.performBlock]
      exact congruence.block framed (congruence.performEach statements)

theorem performBranch (congruence : Congruence first second library related) :
    ∀ branch : Option Block,
    related Signal (Direct.performBranch first library branch)
      (Direct.performBranch second library branch)
  | none => by
      rw [Direct.performBranch, Direct.performBranch]
      exact congruence.returns _
  | some block => by
      rw [Direct.performBranch, Direct.performBranch]
      exact congruence.performBlock block

theorem performBody (congruence : Congruence first second library related) :
    ∀ block : Block,
    related Signal (Direct.performBody first library block)
      (Direct.performBody second library block)
  | .mk framed statements line => by
      rw [Direct.performBody, Direct.performBody]
      exact congruence.follows (congruence.performEach statements) fun ending =>
        congruence.returns ending.signal

end

/-- The relation holds between the answers to every request. -/
theorem answer (congruence : Congruence first second library related)
    (request : Machine.Request) :
    related Machine.Answer (Direct.answer first library request)
      (Direct.answer second library request) := by
  cases request with
  | run program =>
      exact congruence.follows (congruence.performBlock program.root) fun _ =>
        congruence.returns _
  | execute node =>
      exact congruence.follows (congruence.signalOf (congruence.perform node)) fun _ =>
        congruence.returns _
  | executeBlock block =>
      exact congruence.follows (congruence.performBlock block) fun _ => congruence.returns _
  | evaluate node =>
      exact congruence.follows (congruence.perform node) fun _ => congruence.returns _
  | evaluateValue node line =>
      exact congruence.follows (congruence.valueOf (congruence.perform node) line) fun _ =>
        congruence.returns _

end Congruence
end Direct
end Scriptlet
