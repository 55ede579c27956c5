import Scriptlet.Proofs.PrintLimits

namespace Scriptlet
namespace Machine

/-!
# The print that is refused

A run on a sink with room for `n` more prints goes like the run on a sink without a limit, until
that one makes its print number `n + 1`.  There it fails: the fault comes out of everything that
the call stands in, however deep, and the machine is left as it was when the arguments of the call
had been computed.  So nothing is begun any more, and of the texts that the other run prints the
first `n` have been printed and no part of the next one.
-/

variable {environment : Environment}

/-- While the part is run from the machine, the inner part is begun on the inner machine. -/
inductive Begins (environment : Environment) : Piece → Machine → Piece → Machine → Prop
  | here (piece : Piece) (machine : Machine) : Begins environment piece machine piece machine
  | inside {piece part inner : Piece} {machine between innerMachine : Machine} :
      Leads environment piece machine part between →
      Begins environment part between inner innerMachine →
      Begins environment piece machine inner innerMachine

/-- The call is begun while the part is run, it calls the function that prints, and its arguments
are computed. -/
def Makes (environment : Environment) (piece : Piece) (machine : Machine) (call : PrintCall) :
    Prop :=
  ∃ start,
    Begins environment piece machine (.tree (.call call.name call.nodes call.line)) start ∧
      environment.library.function? call.name = some Standard.print ∧
      valuesOf environment call.line call.nodes start = .ok call.values call.before

theorem Leads.makes {piece part : Piece} {machine next : Machine}
    (leads : Leads environment piece machine part next) (call : PrintCall)
    (made : Makes environment part next call) : Makes environment piece machine call := by
  rcases made with ⟨start, begins, prints, computed⟩
  exact ⟨start, .inside leads begins, prints, computed⟩

/-- The calls that the branch of a conditional makes. -/
def BranchMakes (environment : Environment) (branch : Option Block) (machine : Machine)
    (call : PrintCall) : Prop :=
  ∃ block, branch = some block ∧ Makes environment (.block block) machine call

/-! ## Runs heed limits -/

section Trees

variable {machine : Machine}

theorem heeds_iterate {iterator : String} {body : Block}
    (bodies : ∀ machine : Machine, machine.world.sink.room = none →
      Heeds (Makes environment (.statements body.statements) machine)
        (performBody environment body) machine) :
    ∀ (items : List Value) (machine : Machine), machine.world.sink.room = none →
      Heeds (Makes environment (.rounds iterator body items) machine)
        (iterate (assign iterator) (performBody environment body) items) machine := by
  intro items
  induction items with
  | nil => exact fun machine unlimited => (isSilent_pure _).heeds unlimited
  | cons item rest inductionHypothesis =>
      intro machine unlimited
      apply ((isSilent_assign iterator item).heeds unlimited).bind
      intro _ bound assigned unlimited
      apply ((bodies bound unlimited).weaken (Leads.round body rest assigned).makes).bind
      intro signal after proceeded unlimited
      cases signal with
      | proceed =>
          exact (inductionHypothesis after unlimited).weaken
            (Leads.laterRounds rest assigned proceeded).makes
      | «break» => exact (isSilent_pure _).heeds unlimited
      | halt => exact (isSilent_pure _).heeds unlimited

theorem isSilent_leave (framed : Bool) (ending : Ending) :
    IsSilent (leave environment framed ending) := by
  unfold leave
  dsimp only
  split
  · exact isSilent_exit.bind fun _ => isSilent_pure _
  · exact isSilent_pure _

mutual

theorem heeds_perform (only : environment.library.OnlyPrintPrints) : ∀ (node : Node)
    (machine : Machine), machine.world.sink.room = none →
    Heeds (Makes environment (.tree node) machine) (perform environment node) machine
  | .literal value _, machine, unlimited => by
      rw [perform]
      exact (isSilent_pushed _).heeds unlimited
  | .array elements line, machine, unlimited => by
      rw [perform]
      exact (((heeds_pushEach only line elements machine unlimited).weaken
        (Leads.elements elements line).makes).gathering).then_silent fun _ => isSilent_pure _
  | .variable name line, machine, unlimited => by
      rw [perform]
      exact ((isSilent_lookup name line).bind fun value =>
        (isSilent_push value).bind fun _ => isSilent_pure _).heeds unlimited
  | .binary operator left right line, machine, unlimited => by
      rw [perform]
      apply (((heeds_perform only left machine unlimited).taking line).weaken
        (Leads.left operator left right line).makes).bind
      intro x between taken unlimited
      exact (((heeds_perform only right between unlimited).taking line).weaken
        (Leads.right operator right taken).makes).then_silent fun y => isSilent_pushed _
  | .unary operator operand line, machine, unlimited => by
      rw [perform]
      exact (((heeds_perform only operand machine unlimited).taking line).weaken
        (Leads.operand operator operand line).makes).then_silent fun x => isSilent_pushed _
  | .call function arguments line, machine, unlimited => by
      rw [perform]
      cases found : environment.library.function? function with
      | none => exact (isSilent_throw _).heeds unlimited
      | some body =>
          apply ((heeds_valuesOf only line arguments machine unlimited).weaken
            (Leads.callArguments arguments line found).makes).bind
          intro values between computed unlimited
          refine Heeds.then_silent ?_ fun result =>
            (isSilent_pushResult result).bind fun _ => isSilent_pure _
          rcases only.functions found with rfl | silent
          · exact heeds_print ⟨function, arguments, line, values, between⟩ unlimited
              ⟨machine, .here _ _, found, computed⟩
          · rcases silent values line with ⟨action, same⟩
            rw [same]
            exact (isSilent_onHeap action).heeds unlimited
  | .methodCall receiver method arguments line, machine, unlimited => by
      rw [perform]
      cases found : environment.library.method? method with
      | none => exact (isSilent_throw _).heeds unlimited
      | some body =>
          apply ((isSilent_lookup receiver line).heeds unlimited).bind
          intro target between bound unlimited
          apply ((heeds_valuesOf only line arguments between unlimited).weaken
            (Leads.methodArguments arguments found bound).makes).then_silent
          intro values
          rcases only.methods found target values line with ⟨action, same⟩
          rw [same]
          exact (isSilent_onHeap action).bind fun result =>
            (isSilent_pushResult result).bind fun _ => isSilent_pure _
  | .range first last line, machine, unlimited => by
      rw [perform]
      apply (((heeds_perform only first machine unlimited).taking line).weaken
        (Leads.first first last line).makes).bind
      intro x between taken unlimited
      exact (((heeds_perform only last between unlimited).taking line).weaken
        (Leads.last last taken).makes).then_silent fun y => isSilent_pushed _
  | .assignment name value line, machine, unlimited => by
      rw [perform]
      exact (((heeds_perform only value machine unlimited).taking line).weaken
        (Leads.assigned name value line).makes).then_silent fun x =>
          (isSilent_assign name x).bind fun _ => isSilent_pure _
  | .conditional condition thenBranch elseBranch line, machine, unlimited => by
      rw [perform]
      apply (((heeds_perform only condition machine unlimited).taking line).weaken
        (Leads.condition condition thenBranch elseBranch line).makes).bind
      intro x between taken unlimited
      apply ((isSilent_onHeap _).heeds unlimited).bind
      intro holds after tested unlimited
      cases holds with
      | true =>
          exact (heeds_performBlock only thenBranch after unlimited).weaken
            (Leads.thenBranch thenBranch elseBranch taken tested).makes
      | false =>
          apply (heeds_performBranch only elseBranch after unlimited).weaken
          rintro call ⟨block, rfl, made⟩
          exact (Leads.elseBranch thenBranch block taken tested).makes call made
  | .compound block, machine, unlimited => by
      rw [perform]
      exact (heeds_performBlock only block machine unlimited).weaken (Leads.compound block).makes
  | .loop iterator iterable body line, machine, unlimited => by
      rw [perform]
      apply (((heeds_perform only iterable machine unlimited).taking line).weaken
        (Leads.iterable iterator iterable body line).makes).bind
      intro x between taken unlimited
      apply ((isSilent_onHeap _).heeds unlimited).bind
      intro address after listed unlimited
      apply Heeds.get (fun _ => rfl)
      exact (heeds_iterate (heeds_performBody only body) _ after unlimited).weaken
        (Leads.rounds iterator body taken listed).makes
  | .flag flag _, machine, unlimited => by
      rw [perform]
      exact (isSilent_pure _).heeds unlimited

theorem heeds_pushEach (only : environment.library.OnlyPrintPrints) (line : Nat) :
    ∀ (nodes : List Node) (machine : Machine), machine.world.sink.room = none →
    Heeds (Makes environment (.elements line nodes) machine) (pushEach environment line nodes)
      machine
  | [], machine, unlimited => by
      rw [pushEach]
      exact (isSilent_pure _).heeds unlimited
  | node :: rest, machine, unlimited => by
      rw [pushEach]
      apply (((heeds_perform only node machine unlimited).taking line).weaken
        (Leads.element line node rest).makes).bind
      intro value between taken unlimited
      apply ((isSilent_push value).heeds unlimited).bind
      intro _ after pushed unlimited
      exact (heeds_pushEach only line rest after unlimited).weaken
        (Leads.laterElements rest taken pushed).makes

theorem heeds_valuesOf (only : environment.library.OnlyPrintPrints) (line : Nat) :
    ∀ (nodes : List Node) (machine : Machine), machine.world.sink.room = none →
    Heeds (Makes environment (.arguments line nodes) machine) (valuesOf environment line nodes)
      machine
  | [], machine, unlimited => by
      rw [valuesOf]
      exact (isSilent_pure _).heeds unlimited
  | node :: rest, machine, unlimited => by
      rw [valuesOf]
      apply (((heeds_perform only node machine unlimited).taking line).weaken
        (Leads.argument line node rest).makes).bind
      intro value between taken unlimited
      exact ((heeds_valuesOf only line rest between unlimited).weaken
        (Leads.laterArguments rest taken).makes).then_silent fun _ => isSilent_pure _

theorem heeds_performEach (only : environment.library.OnlyPrintPrints) :
    ∀ (nodes : List Node) (machine : Machine), machine.world.sink.room = none →
    Heeds (Makes environment (.statements nodes) machine) (performEach environment nodes) machine
  | [], machine, unlimited => by
      rw [performEach]
      exact (isSilent_pure _).heeds unlimited
  | node :: rest, machine, unlimited => by
      rw [performEach]
      apply (((heeds_perform only node machine unlimited).weaken
        (Leads.statement node rest).makes).asStatement).bind
      intro signal after proceeded unlimited
      cases signal with
      | proceed =>
          exact (heeds_performEach only rest after unlimited).weaken
            (Leads.laterStatements rest proceeded).makes
      | «break» => exact (isSilent_pure _).heeds unlimited
      | halt => exact (isSilent_pure _).heeds unlimited

theorem heeds_performBlock (only : environment.library.OnlyPrintPrints) :
    ∀ (block : Block) (machine : Machine), machine.world.sink.room = none →
    Heeds (Makes environment (.block block) machine) (performBlock environment block) machine
  | .mk false statements line, machine, unlimited => by
      rw [performBlock]
      change Heeds _ (performEach environment statements >>= leave environment false) machine
      exact ((heeds_performEach only statements machine unlimited).weaken
        (Leads.unframed statements line).makes).then_silent (isSilent_leave false)
  | .mk true statements line, machine, unlimited => by
      rw [performBlock]
      apply (isSilent_enter.heeds unlimited).bind
      intro _ entered opened unlimited
      exact ((heeds_performEach only statements entered unlimited).weaken
        (Leads.framed statements line opened).makes).then_silent (isSilent_leave true)

theorem heeds_performBranch (only : environment.library.OnlyPrintPrints) :
    ∀ (branch : Option Block) (machine : Machine), machine.world.sink.room = none →
    Heeds (BranchMakes environment branch machine) (performBranch environment branch) machine
  | none, machine, unlimited => by
      rw [performBranch]
      exact (isSilent_pure _).heeds unlimited
  | some block, machine, unlimited => by
      rw [performBranch]
      exact (heeds_performBlock only block machine unlimited).weaken
        fun _ made => ⟨block, rfl, made⟩

theorem heeds_performBody (only : environment.library.OnlyPrintPrints) :
    ∀ (body : Block) (machine : Machine), machine.world.sink.room = none →
    Heeds (Makes environment (.statements body.statements) machine)
      (performBody environment body) machine
  | .mk framed statements line, machine, unlimited => by
      rw [performBody]
      exact (heeds_performEach only statements machine unlimited).then_silent fun _ =>
        isSilent_pure _

end

/-! ## What is begun -/

/-- The run heeds limits wherever it is begun, whatever calls it is cut off by. -/
def AlwaysHeeds {α : Type} (run : Run α) : Prop :=
  ∀ machine : Machine, machine.world.sink.room = none → Heeds (fun _ => True) run machine

theorem IsSilent.alwaysHeeds {α : Type} {run : Run α} (silent : IsSilent run) : AlwaysHeeds run :=
  fun _ unlimited => silent.heeds unlimited

theorem AlwaysHeeds.bind {α β : Type} {run : Run α} {next : α → Run β} (first : AlwaysHeeds run)
    (others : ∀ result, AlwaysHeeds (next result)) : AlwaysHeeds (run >>= next) :=
  fun machine unlimited =>
    (first machine unlimited).bind fun result between _ room => others result between room

theorem alwaysHeeds_taking (only : environment.library.OnlyPrintPrints) (line : Nat) (node : Node) :
    AlwaysHeeds (taking line (perform environment node)) := fun machine unlimited =>
  ((heeds_perform only node machine unlimited).taking line).weaken fun _ _ => trivial

theorem alwaysHeeds_asStatement (only : environment.library.OnlyPrintPrints) (node : Node) :
    AlwaysHeeds (asStatement node (perform environment node)) := fun machine unlimited =>
  (heeds_perform only node machine unlimited).asStatement.weaken fun _ _ => trivial

theorem alwaysHeeds_performBody (only : environment.library.OnlyPrintPrints) (body : Block) :
    AlwaysHeeds (performBody environment body) := fun machine unlimited =>
  (heeds_performBody only body machine unlimited).weaken fun _ _ => trivial

/-- What has to be done in a part before the next one is begun is a run of its own, which gives the
next part if there is one. -/
structure Opens (environment : Environment) (piece : Piece) (opening : Run (Option Piece)) :
    Prop where
  leads : ∀ {machine part next}, opening machine = .ok (some part) next →
    Leads environment piece machine part next
  heeds : AlwaysHeeds opening

section Opening

variable {piece part : Piece} {next : Machine}

theorem opened_at_once (leads : ∀ machine, Leads environment piece machine part machine)
    (machine : Machine) :
    ∃ opening, Opens environment piece opening ∧ opening machine = .ok (some part) machine := by
  refine ⟨pure (some part), ⟨?_, (isSilent_pure _).alwaysHeeds⟩, rfl⟩
  rintro machine _ _ ⟨⟩
  exact leads machine

theorem opened_after {α : Type} {run : Run α} {result : α} (part? : α → Option Piece)
    (heeds : AlwaysHeeds run)
    (leads : ∀ {machine result between part}, run machine = .ok result between →
      part? result = some part → Leads environment piece machine part between)
    (ran : run machine = .ok result next) (given : part? result = some part) :
    ∃ opening, Opens environment piece opening ∧ opening machine = .ok (some part) next := by
  refine ⟨run >>= fun result => pure (part? result), ⟨?_, ?_⟩, ?_⟩
  · intro machine part next opened
    rcases bind_eq_ok opened with ⟨result, between, ran, given⟩
    injection given with found same
    subst same
    exact leads ran found
  · exact heeds.bind fun result => (isSilent_pure _).alwaysHeeds
  · rw [bind_of_ok ran, given]
    rfl

/-- The items of a list, as they are before the rounds of a loop. -/
def itemsAt (address : Nat) : Run (List Value) :=
  onHeap (Heap.Action.read fun heap => .ok (heap.elements address))

theorem Leads.opened (only : environment.library.OnlyPrintPrints)
    (leads : Leads environment piece machine part next) :
    ∃ opening, Opens environment piece opening ∧ opening machine = .ok (some part) next := by
  cases leads with
  | elements nodes line => exact opened_at_once (fun _ => .elements nodes line) _
  | element line node rest => exact opened_at_once (fun _ => .element line node rest) _
  | left operator left right line =>
      exact opened_at_once (fun _ => .left operator left right line) _
  | operand operator operand line =>
      exact opened_at_once (fun _ => .operand operator operand line) _
  | callArguments nodes line found =>
      exact opened_at_once (fun _ => .callArguments nodes line found) _
  | argument line node rest => exact opened_at_once (fun _ => .argument line node rest) _
  | first first last line => exact opened_at_once (fun _ => .first first last line) _
  | assigned name value line => exact opened_at_once (fun _ => .assigned name value line) _
  | condition condition thenBranch elseBranch line =>
      exact opened_at_once (fun _ => .condition condition thenBranch elseBranch line) _
  | compound block => exact opened_at_once (fun _ => .compound block) _
  | unframed statements line => exact opened_at_once (fun _ => .unframed statements line) _
  | statement node rest => exact opened_at_once (fun _ => .statement node rest) _
  | iterable iterator iterable body line =>
      exact opened_at_once (fun _ => .iterable iterator iterable body line) _
  | @laterElements _ _ _ line node _ rest taken pushed =>
      refine opened_after (fun _ => some (.elements line rest))
        ((alwaysHeeds_taking only line node).bind fun value => (isSilent_push value).alwaysHeeds) ?_
        ((bind_of_ok taken).trans pushed) rfl
      rintro _ _ _ _ ran ⟨⟩
      rcases bind_eq_ok ran with ⟨value, between, taken, pushed⟩
      exact .laterElements rest taken pushed
  | @right _ _ left line _ operator right taken =>
      refine opened_after (fun _ => some (.tree right)) (alwaysHeeds_taking only line left) ?_ taken
        rfl
      rintro _ _ _ _ taken ⟨⟩
      exact .right operator right taken
  | @methodArguments _ _ receiver method _ line _ nodes found bound =>
      refine opened_after (fun _ => some (.arguments line nodes))
        (isSilent_lookup receiver line).alwaysHeeds ?_ bound rfl
      rintro _ _ _ _ bound ⟨⟩
      exact .methodArguments nodes found bound
  | @laterArguments _ _ line node _ rest taken =>
      refine opened_after (fun _ => some (.arguments line rest)) (alwaysHeeds_taking only line node)
        ?_ taken rfl
      rintro _ _ _ _ taken ⟨⟩
      exact .laterArguments rest taken
  | @last _ _ first line _ last taken =>
      refine opened_after (fun _ => some (.tree last)) (alwaysHeeds_taking only line first) ?_ taken
        rfl
      rintro _ _ _ _ taken ⟨⟩
      exact .last last taken
  | @thenBranch _ _ _ condition line _ thenBranch elseBranch taken holds =>
      refine opened_after (fun holds => if holds then some (.block thenBranch) else none)
        ((alwaysHeeds_taking only line condition).bind fun value =>
          (isSilent_onHeap (Heap.Action.read (Heap.asTruth value line))).alwaysHeeds) ?_
        ((bind_of_ok taken).trans holds) rfl
      rintro _ (_ | _) _ _ ran ⟨⟩
      rcases bind_eq_ok ran with ⟨value, between, taken, holds⟩
      exact .thenBranch thenBranch elseBranch taken holds
  | @elseBranch _ _ _ condition line _ thenBranch elseBranch taken fails =>
      refine opened_after (fun holds => if holds then none else some (.block elseBranch))
        ((alwaysHeeds_taking only line condition).bind fun value =>
          (isSilent_onHeap (Heap.Action.read (Heap.asTruth value line))).alwaysHeeds) ?_
        ((bind_of_ok taken).trans fails) rfl
      rintro _ (_ | _) _ _ ran ⟨⟩
      rcases bind_eq_ok ran with ⟨value, between, taken, fails⟩
      exact .elseBranch thenBranch elseBranch taken fails
  | framed statements line opened =>
      refine opened_after (fun _ => some (.statements statements)) isSilent_enter.alwaysHeeds ?_
        opened rfl
      rintro _ _ _ _ opened ⟨⟩
      exact .framed statements line opened
  | @laterStatements _ _ node rest proceeded =>
      refine opened_after
        (fun signal => if signal = .proceed then some (.statements rest) else none)
        (alwaysHeeds_asStatement only node) ?_ proceeded rfl
      rintro _ (_ | _ | _) _ _ proceeded ⟨⟩
      exact .laterStatements rest proceeded
  | @rounds _ _ _ iterable line _ _ iterator body taken listed =>
      refine opened_after (fun items => some (.rounds iterator body items))
        ((alwaysHeeds_taking only line iterable).bind fun value =>
          (isSilent_onHeap (Heap.Action.read (Heap.asList value line))).alwaysHeeds.bind
            fun address => (isSilent_onHeap _ : IsSilent (itemsAt address)).alwaysHeeds) ?_
        ((bind_of_ok taken).trans ((bind_of_ok listed).trans rfl)) rfl
      rintro _ _ _ _ ran ⟨⟩
      rcases bind_eq_ok ran with ⟨value, between, taken, ran⟩
      rcases bind_eq_ok ran with ⟨address, after, listed, items⟩
      cases items
      exact .rounds iterator body taken listed
  | @round _ _ iterator item body rest assigned =>
      refine opened_after (fun _ => some (.statements body.statements))
        (isSilent_assign iterator item).alwaysHeeds ?_ assigned rfl
      rintro _ _ _ _ assigned ⟨⟩
      exact .round body rest assigned
  | @laterRounds _ _ _ iterator item body rest assigned proceeded =>
      refine opened_after
        (fun signal => if signal = .proceed then some (.rounds iterator body rest) else none)
        ((isSilent_assign iterator item).alwaysHeeds.bind fun _ =>
          alwaysHeeds_performBody only body) ?_ ((bind_of_ok assigned).trans proceeded) rfl
      rintro _ (_ | _ | _) _ _ ran ⟨⟩
      rcases bind_eq_ok ran with ⟨_, bound, assigned, proceeded⟩
      exact .laterRounds rest assigned proceeded

theorem Leads.precedes (only : environment.library.OnlyPrintPrints)
    (leads : Leads environment piece machine part next)
    (unlimited : machine.world.sink.room = none) :
    machine.world.sink.Precedes next.world.sink := by
  rcases leads.opened only with ⟨opening, opens, ran⟩
  exact (opens.heeds machine unlimited).precedes_of_ok ran

theorem Leads.upTo (only : environment.library.OnlyPrintPrints)
    (leads : Leads environment piece machine part next)
    (unlimited : machine.world.sink.room = none) {total : Nat}
    (room : next.world.sink.prints.length ≤ total) :
    Leads environment piece (machine.upTo total) part (next.upTo total) := by
  rcases leads.opened only with ⟨opening, opens, ran⟩
  exact opens.leads ((opens.heeds machine unlimited).upTo_of_ok ran room)

theorem Leads.of_upTo (only : environment.library.OnlyPrintPrints) {total : Nat}
    {limited : Machine} (leads : Leads environment piece (machine.upTo total) part limited)
    (unlimited : machine.world.sink.room = none)
    (start : machine.world.sink.prints.length ≤ total) :
    ∃ next, Leads environment piece machine part next ∧ limited = next.upTo total ∧
      next.world.sink.prints.length ≤ total := by
  rcases leads.opened only with ⟨opening, opens, ran⟩
  rcases (opens.heeds machine unlimited).of_upTo_ok start ran with ⟨next, ran, same, room⟩
  exact ⟨next, opens.leads ran, same, room⟩

end Opening

section Beginning

variable {piece inner : Piece} {innerMachine : Machine}

theorem Begins.precedes (only : environment.library.OnlyPrintPrints)
    (begins : Begins environment piece machine inner innerMachine)
    (unlimited : machine.world.sink.room = none) :
    machine.world.sink.Precedes innerMachine.world.sink := by
  induction begins with
  | here piece machine => exact .refl unlimited
  | inside leads _ inductionHypothesis =>
      have precedes := leads.precedes only unlimited
      exact precedes.trans (inductionHypothesis precedes.room)

/-- What is begun within the limit is begun with the limit as well. -/
theorem Begins.upTo (only : environment.library.OnlyPrintPrints)
    (begins : Begins environment piece machine inner innerMachine)
    (unlimited : machine.world.sink.room = none) {total : Nat}
    (room : innerMachine.world.sink.prints.length ≤ total) :
    Begins environment piece (machine.upTo total) inner (innerMachine.upTo total) := by
  induction begins with
  | here piece machine => exact .here _ _
  | inside leads further inductionHypothesis =>
      have precedes := leads.precedes only unlimited
      have early := Nat.le_trans (further.precedes only precedes.room).length_le room
      exact .inside (leads.upTo only unlimited early) (inductionHypothesis precedes.room room)

/-- Nothing is begun with the limit but what is begun within the limit. -/
theorem Begins.of_upTo (only : environment.library.OnlyPrintPrints) {total : Nat}
    {limited : Machine} (begins : Begins environment piece (machine.upTo total) inner limited)
    (unlimited : machine.world.sink.room = none)
    (start : machine.world.sink.prints.length ≤ total) :
    ∃ innerMachine, Begins environment piece machine inner innerMachine ∧
      limited = innerMachine.upTo total ∧ innerMachine.world.sink.prints.length ≤ total := by
  generalize origin : machine.upTo total = limitedStart at begins
  induction begins generalizing machine with
  | here piece limitedStart => exact ⟨machine, .here piece machine, origin.symm, start⟩
  | inside leads _ inductionHypothesis =>
      subst origin
      rcases leads.of_upTo only unlimited start with ⟨next, unlimitedLeads, same, room⟩
      have precedes := unlimitedLeads.precedes only unlimited
      rcases inductionHypothesis precedes.room room same.symm with ⟨last, further, ends, final⟩
      exact ⟨last, .inside unlimitedLeads further, ends, final⟩

end Beginning

theorem heeds_run (only : environment.library.OnlyPrintPrints) (program : Program)
    (unlimited : machine.world.sink.room = none) :
    Heeds (Makes environment (.block program.root) machine) (run environment program)
      machine :=
  (heeds_performBlock only program.root machine unlimited).then_silent fun _ => isSilent_pure _

end Trees

/-! ## Whole runs -/

/-- The machine whose sink has room for so many prints more. -/
def withRoom (room : Nat) (machine : Machine) : Machine :=
  machine.withSink { machine.world.sink with room := some room }

theorem upTo_eq_withRoom {machine : Machine} {later prints : List String}
    (printed : machine.world.sink.prints = later ++ prints) (n : Nat) :
    machine.upTo (prints.length + n) = machine.withRoom (n - later.length) := by
  have left : prints.length + n - machine.world.sink.prints.length = n - later.length := by
    rw [printed, List.length_append]
    omega
  unfold upTo withRoom Sink.upTo
  rw [left]

section Room

variable {machine : Machine} {n : Nat}

theorem upTo_start (machine : Machine) (n : Nat) :
    machine.upTo (machine.world.sink.prints.length + n) = machine.withRoom n :=
  @upTo_eq_withRoom machine [] machine.world.sink.prints rfl n

section Runs

variable {α : Type} {calls : PrintCall → Prop} {run : Run α} {later : List String}
  (heeds : Heeds calls run machine)
  (printed : (stateAfter (run machine)).world.sink.prints = later ++ machine.world.sink.prints)
include heeds printed

/-- With room for all that it prints, a run ends alike. -/
theorem Heeds.withRoom_of_few (few : later.length ≤ n) :
    run (machine.withRoom n) = changing (withRoom (n - later.length)) (run machine) := by
  have within : (stateAfter (run machine)).world.sink.prints.length ≤
      machine.world.sink.prints.length + n := by
    rw [printed, List.length_append]
    omega
  rw [← upTo_start, heeds.within _ within]
  cases ran : run machine with
  | ok result after =>
      rw [ran] at printed
      exact congrArg _ (upTo_eq_withRoom printed n)
  | error fault after =>
      rw [ran] at printed
      exact congrArg _ (upTo_eq_withRoom printed n)

/-- Without room for all that it prints, a run fails at the call whose text comes after those that
there is room for. -/
theorem Heeds.withRoom_of_many (many : n < later.length) :
    ∃ call last earlier, calls call ∧ later = last ++ call.text :: earlier ∧ earlier.length = n ∧
      call.before.world.sink.prints = earlier ++ machine.world.sink.prints ∧
      run (machine.withRoom n) =
        .error (.hostFailure "print" machine.world.sink.refusal call.line)
          (call.before.withRoom 0) := by
  have passed : machine.world.sink.prints.length + n <
      (stateAfter (run machine)).world.sink.prints.length := by
    rw [printed, List.length_append]
    omega
  rcases heeds.beyond _ (Nat.le_add_right _ n) passed with ⟨call, made, count, since, shown, cut⟩
  rcases since.prints with ⟨earlier, before⟩
  rw [printed, ← before] at shown
  rcases shown with ⟨last, split⟩
  have position : earlier.length = n := by
    rw [← before, List.length_append] at count
    omega
  have texts : later = last ++ call.text :: earlier := by
    rw [← List.cons_append, ← List.append_assoc] at split
    exact (List.append_cancel_right split).symm
  have full : call.before.upTo (machine.world.sink.prints.length + n) = call.before.withRoom 0 := by
    rw [upTo_eq_withRoom before.symm n, position, Nat.sub_self]
  refine ⟨call, last, earlier, made, texts, position, before.symm, ?_⟩
  rw [← upTo_start, cut, full, PrintCall.refusal, since.refusal]

end Runs

/-- With room for some texts just that is begun which is begun before more texts are printed. -/
theorem begins_withRoom_iff (only : environment.library.OnlyPrintPrints)
    (unlimited : machine.world.sink.room = none) {piece part : Piece} {limited : Machine} :
    Begins environment piece (machine.withRoom n) part limited ↔
      ∃ inner later, Begins environment piece machine part inner ∧
        inner.world.sink.prints = later ++ machine.world.sink.prints ∧ later.length ≤ n ∧
        limited = inner.withRoom (n - later.length) := by
  rw [← upTo_start]
  constructor
  · intro begins
    rcases begins.of_upTo only unlimited (Nat.le_add_right _ n) with ⟨inner, begun, rfl, room⟩
    rcases (begun.precedes only unlimited).prints with ⟨later, printed⟩
    have few : later.length ≤ n := by
      rw [← printed, List.length_append] at room
      omega
    exact ⟨inner, later, begun, printed.symm, few, upTo_eq_withRoom printed.symm n⟩
  · rintro ⟨inner, later, begun, printed, few, rfl⟩
    rw [← upTo_eq_withRoom printed n]
    apply begun.upTo only unlimited
    rw [printed, List.length_append]
    omega

end Room

/-- Of a run without a limit on prints, and the same run on a sink with room for `n` of them: if no
more than `n` texts are printed, the runs end alike, on machines that differ in the room only.
Otherwise the run with the limit fails at the call that prints the text number `n + 1`, with a fault
that names the function and the line of the call, on the machine that the call was about to print
on.  In both cases, what is begun with the limit is just what is begun without one before more than
`n` texts have been printed: no statement and no argument that comes after that call. -/
theorem print_limit_cuts_off (only : environment.library.OnlyPrintPrints) (program : Program)
    (machine : Machine) (unlimited : machine.world.sink.room = none) (n : Nat) :
    ∃ texts : List String,
      (stateAfter (run environment program machine)).world.sink.prints =
        texts.reverse ++ machine.world.sink.prints ∧
      (texts.length ≤ n → run environment program (machine.withRoom n) =
        changing (withRoom (n - texts.length)) (run environment program machine)) ∧
      (n < texts.length → ∃ call, Makes environment (.block program.root) machine call ∧
        call.before.world.sink.prints = (texts.take n).reverse ++ machine.world.sink.prints ∧
        texts[n]? = some call.text ∧
        run environment program (machine.withRoom n) =
          .error (.hostFailure "print" machine.world.sink.refusal call.line)
            (call.before.withRoom 0)) ∧
      ∀ part limited, Begins environment (.block program.root) (machine.withRoom n) part limited ↔
        ∃ inner later, Begins environment (.block program.root) machine part inner ∧
          inner.world.sink.prints = later ++ machine.world.sink.prints ∧ later.length ≤ n ∧
          limited = inner.withRoom (n - later.length) := by
  have heeds := heeds_run only program unlimited
  rcases heeds.precedes.prints with ⟨later, printed⟩
  refine ⟨later.reverse, by rw [List.reverse_reverse, printed], ?_, ?_,
    fun _ _ => begins_withRoom_iff only unlimited⟩
  · rw [List.length_reverse]
    exact heeds.withRoom_of_few printed.symm
  · intro many
    rw [List.length_reverse] at many
    rcases heeds.withRoom_of_many printed.symm many with
      ⟨call, last, earlier, made, texts, position, before, cut⟩
    -- The sink has the last text in front, the list of texts has it at the end.
    have order : later.reverse = earlier.reverse ++ call.text :: last.reverse := by
      rw [texts]
      simp
    have length : earlier.reverse.length = n := by rw [List.length_reverse, position]
    refine ⟨call, made, ?_, ?_, cut⟩
    · rw [order, List.take_left' length, List.reverse_reverse, before]
    · rw [order, List.getElem?_append_right (Nat.le_of_eq length), length, Nat.sub_self]
      rfl

end Machine

/-- Prints two texts, one in each round of a loop. -/
def Program.echoing : Program :=
  ⟨.mk false
    [.loop "x" (.array [.literal (.text "a") 1, .literal (.text "b") 1] 1)
      (.mk true [.call "print" [.variable "x" 2] 2] 1) 1] 1⟩

/-- With room for one text, the loop ends with a fault in its second round. -/
theorem Machine.print_limit_cuts_off_echoing :
    Standard.library.OnlyPrintPrints ∧ (start {}).world.sink.room = none ∧
      ∃ call : PrintCall,
        Makes ⟨Standard.library, {}⟩ (.block Program.echoing.root) (start {}) call ∧
        call.text = "b\n" ∧ call.before.world.sink.prints = ["a\n"] ∧
        run ⟨Standard.library, {}⟩ .echoing ((start {}).withRoom 1) =
          .error (.hostFailure "print" "sink full" 2) (call.before.withRoom 0) := by
  rcases @print_limit_cuts_off ⟨Standard.library, {}⟩ Standard.library_onlyPrintPrints .echoing
    (start {}) rfl 1 with ⟨texts, printed, _, beyond, _⟩
  have all : (stateAfter (run ⟨Standard.library, {}⟩ .echoing (start {}))).world.sink.prints =
      ["b\n", "a\n"] := by
    decide +kernel
  have two : texts = ["a\n", "b\n"] := by
    rw [all] at printed
    have reversed : ["b\n", "a\n"] = texts.reverse := printed.trans (List.append_nil _)
    rw [← texts.reverse_reverse, ← reversed]
    rfl
  subst two
  rcases beyond (by decide) with ⟨call, made, before, text, cut⟩
  have line : (match run ⟨Standard.library, {}⟩ .echoing ((start {}).withRoom 1) with
      | .error (.hostFailure _ _ line) _ => line
      | _ => 0) = 2 := by
    decide +kernel
  rw [cut] at line
  have second : call.line = 2 := line
  refine ⟨Standard.library_onlyPrintPrints, rfl, call, made, (Option.some.inj text).symm, before,
    ?_⟩
  rw [cut, second]
  rfl

end Scriptlet
