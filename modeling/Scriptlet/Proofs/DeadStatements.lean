import Scriptlet.Proofs.DepthLimit

namespace Scriptlet

/-!
# Statements that are never reached

Nothing behind a break or a return in its list of statements is ever run.  Leaving such
statements out makes the break or the return the last statement of its block, and a block that
ends with its last statement closes its frame whatever the policy.  So the two programs open
frames alike and leave them differently: not at all under the policy that closes frames early,
and otherwise the program without dead statements has no more of them open.

The proof goes along the tree once, for any relation that evaluation keeps and in which a frame
may be left early on the first side and at its end on the second.
-/

/-- The statements that nothing is run behind. -/
def Node.isFlag : Node → Bool
  | .flag .. => true
  | _ => false

mutual

/-- The tree without the statements behind a break or a return, at any depth. -/
def Node.trimmed : Node → Node
  | .literal value line => .literal value line
  | .array elements line => .array (Node.eachTrimmed elements) line
  | .variable name line => .variable name line
  | .binary operator left right line => .binary operator left.trimmed right.trimmed line
  | .unary operator operand line => .unary operator operand.trimmed line
  | .assignment name value line => .assignment name value.trimmed line
  | .call function arguments line => .call function (Node.eachTrimmed arguments) line
  | .methodCall receiver method arguments line =>
      .methodCall receiver method (Node.eachTrimmed arguments) line
  | .conditional condition thenBranch elseBranch line =>
      .conditional condition.trimmed thenBranch.trimmed (Block.anyTrimmed elseBranch) line
  | .compound block => .compound block.trimmed
  | .loop iterator iterable body line => .loop iterator iterable.trimmed body.trimmed line
  | .range first last line => .range first.trimmed last.trimmed line
  | .flag flag line => .flag flag line

/-- Operands keep their places. -/
def Node.eachTrimmed : List Node → List Node
  | [] => []
  | node :: rest => node.trimmed :: Node.eachTrimmed rest

/-- Statements up to the first break or return among them. -/
def Node.liveTrimmed : List Node → List Node
  | [] => []
  | node :: rest => node.trimmed :: (if node.isFlag then [] else Node.liveTrimmed rest)

def Block.trimmed : Block → Block
  | .mk framed statements line => .mk framed (Node.liveTrimmed statements) line

def Block.anyTrimmed : Option Block → Option Block
  | none => none
  | some block => some block.trimmed

end

def Program.trimmed (program : Program) : Program :=
  ⟨program.root.trimmed⟩

def Machine.Request.trimmed : Machine.Request → Machine.Request
  | .run program => .run program.trimmed
  | .execute node => .execute node.trimmed
  | .executeBlock block => .executeBlock block.trimmed
  | .evaluate node => .evaluate node.trimmed
  | .evaluateValue node line => .evaluateValue node.trimmed line

theorem Node.isEmpty_liveTrimmed (nodes : List Node) :
    (Node.liveTrimmed nodes).isEmpty = nodes.isEmpty := by
  cases nodes with
  | nil => rw [Node.liveTrimmed]
  | cons node rest => rw [Node.liveTrimmed, List.isEmpty_cons, List.isEmpty_cons]

theorem Node.liveTrimmed_of_flag {node : Node} (flag : node.isFlag = true) (rest : List Node) :
    Node.liveTrimmed (node :: rest) = [node.trimmed] := by
  rw [Node.liveTrimmed, if_pos flag]

theorem Node.liveTrimmed_of_other {node : Node} (other : node.isFlag = false) (rest : List Node) :
    Node.liveTrimmed (node :: rest) = node.trimmed :: Node.liveTrimmed rest := by
  rw [Node.liveTrimmed, other]
  rfl

namespace Direct

/-- Runs statements and leaves the frame they were run in, if there is one. -/
def leaving {σ : Type} (bindings : Variables σ) (framed : Bool) (body : Run σ Ending) :
    Run σ Signal := do
  let ending ← body
  leaveIf bindings framed ending.early
  pure ending.signal

section Leaving

variable {σ : Type} (bindings : Variables σ) (library : Library) (framed : Bool)

/-- After its first statement a list of statements is left, or the others follow. -/
theorem leaving_cons (node : Node) (rest : List Node) :
    leaving bindings framed (performEach bindings library (node :: rest)) = (do
      match ← signalOf (perform bindings library node) with
      | .proceed => leaving bindings framed (performEach bindings library rest)
      | signal => leaving bindings framed (pure ⟨signal, !rest.isEmpty⟩)) := by
  unfold leaving
  rw [performEach, bind_assoc]
  congr 1
  funext signal
  cases signal <;> rfl

theorem performBlock_eq (statements : List Node) (line : Nat) :
    performBlock bindings library (.mk framed statements line) = (do
      enterIf bindings framed
      leaving bindings framed (performEach bindings library statements)) := by
  rw [performBlock]
  rfl

/-- A loop body has no frame to leave. -/
theorem performBody_eq (statements : List Node) (line : Nat) :
    performBody bindings library (.mk framed statements line) =
      leaving bindings false (performEach bindings library statements) := by
  rw [performBody]
  rfl

end Leaving

/-- A relation that evaluation keeps, also where the first run leaves a block early that the
second one leaves at its end. -/
structure Trims {σ τ : Type} (first : Variables σ) (second : Variables τ) (library : Library)
    (related : (α : Type) → Run σ α → Run τ α → Prop) : Prop extends
    Congruence first second library related where
  enters : related Unit (enter first) (enter second)
  leaves : ∀ early, related Unit (leave first early) (leave second early)
  dead : related Unit (leave first true) (leave second false)

namespace Trims

variable {σ τ : Type} {first : Variables σ} {second : Variables τ} {library : Library}
  {related : (α : Type) → Run σ α → Run τ α → Prop}

section Steps

variable (trims : Trims first second library related)
include trims

theorem enterIf (framed : Bool) :
    related Unit (Direct.enterIf first framed) (Direct.enterIf second framed) := by
  cases framed with
  | true => exact trims.enters
  | false => exact trims.returns ()

/-- Both runs have stopped with the same signal, and the first one may have left statements out
that the second one does not have. -/
theorem leaving (framed : Bool) (signal : Signal) {early otherEarly : Bool}
    (fewer : otherEarly = early ∨ early = true ∧ otherEarly = false) :
    related Signal (Direct.leaving first framed (pure ⟨signal, early⟩))
      (Direct.leaving second framed (pure ⟨signal, otherEarly⟩)) := by
  have left : related Unit (leaveIf first framed early) (leaveIf second framed otherEarly) := by
    cases framed with
    | false => exact trims.returns ()
    | true =>
        rcases fewer with same | ⟨isEarly, isLast⟩
        · rw [same]
          exact trims.leaves early
        · rw [isEarly, isLast]
          exact trims.dead
  change related Signal
    (do leaveIf first framed early; pure signal) (do leaveIf second framed otherEarly; pure signal)
  exact trims.follows left fun _ => trims.returns signal

end Steps

mutual

/-- The relation holds between the evaluation of a tree and that of the trimmed tree. -/
theorem perform (trims : Trims first second library related) : ∀ node : Node,
    related Outcome (Direct.perform first library node)
      (Direct.perform second library node.trimmed)
  | .literal value line => by
      rw [Node.trimmed, Direct.perform, Direct.perform]
      exact trims.ofValue (trims.heap _) _
  | .array elements line => by
      rw [Node.trimmed, Direct.perform, Direct.perform]
      apply trims.follows (trims.valuesOf line elements)
      intro values
      exact trims.ofValue (trims.heap _) _
  | .variable name line => by
      rw [Node.trimmed, Direct.perform, Direct.perform]
      exact trims.ofValue (trims.lookups name line) _
  | .binary operator left right line => by
      rw [Node.trimmed, Direct.perform, Direct.perform]
      apply trims.follows (trims.valueOf (trims.perform left) line)
      intro x
      apply trims.follows (trims.valueOf (trims.perform right) line)
      intro y
      exact trims.ofValue (trims.heap _) _
  | .unary operator operand line => by
      rw [Node.trimmed, Direct.perform, Direct.perform]
      apply trims.follows (trims.valueOf (trims.perform operand) line)
      intro x
      exact trims.ofValue (trims.heap _) _
  | .call function arguments line => by
      rw [Node.trimmed, Direct.perform, Direct.perform]
      cases found : library.function? function with
      | none => exact trims.fails _
      | some body =>
          apply trims.follows (trims.valuesOf line arguments)
          intro values
          exact trims.ofValue (trims.function found values line) _
  | .methodCall receiver method arguments line => by
      rw [Node.trimmed, Direct.perform, Direct.perform]
      cases found : library.method? method with
      | none => exact trims.fails _
      | some body =>
          apply trims.follows (trims.lookups receiver line)
          intro target
          apply trims.follows (trims.valuesOf line arguments)
          intro values
          exact trims.ofValue (trims.method found target values line) _
  | .range start last line => by
      rw [Node.trimmed, Direct.perform, Direct.perform]
      apply trims.follows (trims.valueOf (trims.perform start) line)
      intro x
      apply trims.follows (trims.valueOf (trims.perform last) line)
      intro y
      exact trims.ofValue (trims.heap _) _
  | .assignment name value line => by
      rw [Node.trimmed, Direct.perform, Direct.perform]
      apply trims.follows (trims.valueOf (trims.perform value) line)
      intro x
      exact trims.ofValue (trims.assigns name x) _
  | .conditional condition thenBranch elseBranch line => by
      rw [Node.trimmed, Direct.perform, Direct.perform]
      apply trims.follows (trims.valueOf (trims.perform condition) line)
      intro x
      apply trims.follows (trims.heap _)
      intro holds
      cases holds with
      | true => exact trims.ofValue (trims.performBlock thenBranch) _
      | false => exact trims.ofValue (trims.performBranch elseBranch) _
  | .compound block => by
      rw [Node.trimmed, Direct.perform, Direct.perform]
      exact trims.ofValue (trims.performBlock block) _
  | .loop iterator iterable body line => by
      rw [Node.trimmed, Direct.perform, Direct.perform]
      apply trims.follows (trims.valueOf (trims.perform iterable) line)
      intro x
      apply trims.follows (trims.heap _)
      intro address
      have looped : ∀ items, related Outcome
          (do let signal ← Direct.iterate (assign first iterator)
                (Direct.performBody first library body) items
              pure (.ofSignal signal))
          (do let signal ← Direct.iterate (assign second iterator)
                (Direct.performBody second library body.trimmed) items
              pure (.ofSignal signal)) := by
        intro items
        exact trims.ofValue
          (trims.iterate (trims.assigns iterator) (trims.performBody body) items) _
      have items : related (List Value) (elementsAt address) (elementsAt address) :=
        trims.heap _
      exact trims.follows items looped
  | .flag flag line => by
      rw [Node.trimmed, Direct.perform, Direct.perform]
      exact trims.returns _

theorem valuesOf (trims : Trims first second library related) (line : Nat) :
    ∀ nodes : List Node,
    related (List Value) (Direct.valuesOf first library line nodes)
      (Direct.valuesOf second library line (Node.eachTrimmed nodes))
  | [] => by
      rw [Node.eachTrimmed, Direct.valuesOf, Direct.valuesOf]
      exact trims.returns []
  | node :: rest => by
      rw [Node.eachTrimmed, Direct.valuesOf, Direct.valuesOf]
      apply trims.follows (trims.valueOf (trims.perform node) line)
      intro value
      exact trims.follows (trims.valuesOf line rest) fun _ => trims.returns _

/-- Whether a block was left early is not the same for both lists, so the leaving is part of what
is related. -/
theorem performEach (trims : Trims first second library related) (framed : Bool) :
    ∀ nodes : List Node,
    related Signal (Direct.leaving first framed (Direct.performEach first library nodes))
      (Direct.leaving second framed
        (Direct.performEach second library (Node.liveTrimmed nodes)))
  | [] => by
      rw [Node.liveTrimmed, Direct.performEach, Direct.performEach]
      exact trims.leaving framed .proceed (Or.inl rfl)
  | node :: rest => by
      have performed := trims.signalOf (trims.perform node)
      cases stops : node.isFlag with
      | true =>
          cases node with
          | flag flag line =>
              rw [Node.liveTrimmed_of_flag rfl, leaving_cons, leaving_cons]
              have fewer : (!([] : List Node).isEmpty) = !rest.isEmpty ∨
                  (!rest.isEmpty) = true ∧ (!([] : List Node).isEmpty) = false := by
                cases rest with
                | nil => exact Or.inl rfl
                | cons next more => exact Or.inr ⟨rfl, rfl⟩
              rw [Node.trimmed, Direct.perform, Direct.perform]
              cases flag with
              | «break» => exact trims.leaving framed .break fewer
              | halt => exact trims.leaving framed .halt fewer
          | _ => cases stops
      | false =>
          rw [Node.liveTrimmed_of_other stops, leaving_cons, leaving_cons,
            Node.isEmpty_liveTrimmed]
          apply trims.follows performed
          intro signal
          cases signal with
          | proceed => exact trims.performEach framed rest
          | «break» => exact trims.leaving framed .break (Or.inl rfl)
          | halt => exact trims.leaving framed .halt (Or.inl rfl)

theorem performBlock (trims : Trims first second library related) : ∀ block : Block,
    related Signal (Direct.performBlock first library block)
      (Direct.performBlock second library block.trimmed)
  | .mk framed statements line => by
      rw [Block.trimmed, performBlock_eq, performBlock_eq]
      exact trims.follows (trims.enterIf framed) fun _ => trims.performEach framed statements

theorem performBranch (trims : Trims first second library related) :
    ∀ branch : Option Block,
    related Signal (Direct.performBranch first library branch)
      (Direct.performBranch second library (Block.anyTrimmed branch))
  | none => by
      rw [Block.anyTrimmed, Direct.performBranch, Direct.performBranch]
      exact trims.returns _
  | some block => by
      rw [Block.anyTrimmed, Direct.performBranch, Direct.performBranch]
      exact trims.performBlock block

theorem performBody (trims : Trims first second library related) : ∀ block : Block,
    related Signal (Direct.performBody first library block)
      (Direct.performBody second library block.trimmed)
  | .mk framed statements line => by
      rw [Block.trimmed, performBody_eq, performBody_eq]
      exact trims.performEach false statements

end

/-- The relation holds between the answers to a request and to the trimmed request. -/
theorem answer (trims : Trims first second library related) (request : Machine.Request) :
    related Machine.Answer (Direct.answer first library request)
      (Direct.answer second library request.trimmed) := by
  cases request with
  | run program =>
      exact trims.follows (trims.performBlock program.root) fun _ => trims.returns _
  | execute node =>
      exact trims.follows (trims.signalOf (trims.perform node)) fun _ => trims.returns _
  | executeBlock block =>
      exact trims.follows (trims.performBlock block) fun _ => trims.returns _
  | evaluate node =>
      exact trims.follows (trims.perform node) fun _ => trims.returns _
  | evaluateValue node line =>
      exact trims.follows (trims.valueOf (trims.perform node) line) fun _ => trims.returns _

end Trims

/-- Under the policy that closes frames early it makes no difference how a block is left, and
evaluation is the very same. -/
theorem trims_closing (library : Library) {config : Config} (closes : config.closesEarly = true) :
    Trims (.ofStore config) (.ofStore config) library fun _ run other => run = other where
  returns _ := rfl
  fails _ := rfl
  follows start next := by
    rw [start, funext next]
  heap _ := rfl
  function _ _ _ := rfl
  method _ _ _ _ := rfl
  lookups _ _ := rfl
  assigns _ _ := rfl
  frame body := congrArg _ body
  enters := rfl
  leaves _ := rfl
  dead := by
    funext state
    simp only [leave, Variables.ofStore, closes, Bool.not_true, Bool.and_false]

/-- Under the policy that keeps frames open both runs keep them open together, except where the
second one comes to the end of a block. -/
theorem deeper_outlasted_self {config : Config} (opens : config.closesEarly = false) :
    Variables.Outlasted Store.Deeper (.ofStore config) (.ofStore config) where
  value := (Variables.deeper_outlasted config.depthLimit).value
  assign := (Variables.deeper_outlasted config.depthLimit).assign
  enter := (Variables.deeper_outlasted config.depthLimit).enter
  leave store other deeper early := by
    cases early with
    | true =>
        simp only [Variables.ofStore, opens, Bool.not_false, Bool.and_true, if_true]
        exact deeper
    | false => exact (Variables.deeper_outlasted config.depthLimit).leave store other deeper false

theorem trims_opening {library : Library} {reaches : World → World → Prop}
    (advances : library.Advances reaches) {config : Config}
    (opens : config.closesEarly = false) :
    Trims (.ofStore config) (.ofStore config) library
      fun _ => Outlasts Store.Deeper reaches where
  toCongruence := outlasts_congruence advances (deeper_outlasted_self opens)
  enters := outlasts_enter advances (deeper_outlasted_self opens)
  leaves := outlasts_leave advances (deeper_outlasted_self opens)
  dead := by
    apply outlasts_of_respects advances fun _ => rfl
    intro store other world deeper
    have left := (Variables.deeper_outlasted config.depthLimit).leave store other deeper true
    simp only [leave, Variables.ofStore, opens]
    exact .ok () world left

end Direct

namespace Machine

/-- Without the statements behind a break or a return, at any depth, every request is answered
the same.  Under the policy that closes frames early the same variables, counts and frames are
left as well.  Under the other policy, if the request is not stopped by the depth limit, all
variables have the same values and no more frames are left open. -/
theorem dead_statements_unnoticed (library : Library) (config : Config) (request : Request)
    (machine : Machine) :
    (config.closesEarly = true →
      withoutStack (answer ⟨library, config⟩ request.trimmed machine) =
        withoutStack (answer ⟨library, config⟩ request machine)) ∧
    (config.closesEarly = false → ¬ EndsAtLimit (answer ⟨library, config⟩ request machine) →
      Direct.Agree Store.Deeper (withoutStack (answer ⟨library, config⟩ request machine))
        (withoutStack (answer ⟨library, config⟩ request.trimmed machine))) := by
  constructor
  · intro closes
    rw [answer_withoutStack, answer_withoutStack,
      ← (Direct.trims_closing library closes).answer request]
  · intro opens enough
    have outlasts := (Direct.trims_opening library.advances_anywhere opens).answer request
    have ended := outlasts.ends machine.store machine.store machine.world
      (deeper_refl machine.store)
    rw [← answer_withoutStack, ← answer_withoutStack] at ended
    generalize ran : withoutStack (answer ⟨library, config⟩ request machine) = result at ended ⊢
    cases ended with
    | alike agreed => exact agreed
    | @cut limit state _ _ => exact absurd (endsAtLimit_of_withoutStack ⟨limit, state, ran⟩) enough

/-- A return in a block in a block, with a statement behind it in both of them. -/
theorem dead_statements_unnoticed_nested :
    ∃ request : Request, request.trimmed ≠ request ∧
      withoutStack (answer ⟨Standard.library, ⟨2, true⟩⟩ request.trimmed (start ⟨2, true⟩)) =
        withoutStack (answer ⟨Standard.library, ⟨2, true⟩⟩ request (start ⟨2, true⟩)) ∧
      Direct.Agree Store.Deeper
        (withoutStack (answer ⟨Standard.library, ⟨2, false⟩⟩ request (start ⟨2, false⟩)))
        (withoutStack
          (answer ⟨Standard.library, ⟨2, false⟩⟩ request.trimmed (start ⟨2, false⟩))) := by
  have both := fun closes => dead_statements_unnoticed Standard.library ⟨2, closes⟩ (.execute
    (.conditional (.literal (.truth true) 1) (.mk true
      [.conditional (.literal (.truth true) 2) (.mk true
        [.flag .halt 3, .assignment "x" (.literal (.truth true) 4) 4] 2) none 2, .flag .halt 6] 1)
      none 1)) (start ⟨2, closes⟩)
  refine ⟨_, ?_, (both true).1 rfl, (both false).2 rfl ?_⟩
  · intro same
    simp [Request.trimmed, Node.trimmed, Block.trimmed, Node.liveTrimmed, Node.isFlag] at same
  · intro atLimit
    rcases atLimit with ⟨limit, state, ended⟩
    cases ended

end Machine
end Scriptlet
