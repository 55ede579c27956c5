import Scriptlet.Proofs.ReadingAlike
import Scriptlet.Script

namespace Scriptlet

/-!
# Declarations take the host's values in order

A declaration is written as a name, a colon and a type.  Each one that is written takes one
value from the front of the host's queue when it is read, wherever it stands: in branches that
never run, in loops that run many times, and in a source that turns out to be faulty later.

The declarations are found here in the tokens of a source, without reading it.  Along a reading
the tokens that have been taken tell how many values are gone.
-/

/-- A parameter that a script asks its host for. -/
structure Declaration where
  name : String
  kind : Value.Kind
  line : Nat
  deriving DecidableEq

namespace Declaration

/-- The declaration that three tokens in a row write. -/
def ofTokens? (name colon tag : Token) : Option Declaration :=
  if name.kind = .identifier ∧ colon.kind = .colon ∧ tag.kind = .typeTag then
    (Value.Kind.ofName? tag.text).map fun kind => ⟨name.text, kind, name.line⟩
  else none

/-- The declarations among some tokens, in the order they are written. -/
def among : List Token → List Declaration
  | name :: colon :: tag :: rest =>
      (ofTokens? name colon tag).toList ++ among (colon :: tag :: rest)
  | _ => []

/-- The node that assigns the declared parameter its value. -/
def assigns (declaration : Declaration) (value : Value) : Node :=
  .assignment declaration.name (.literal value declaration.line) declaration.line

/-- The declarations take the values one by one, and each one assigns what its value becomes
when it is converted to the declared type. -/
inductive Binds : List Declaration → List Value → Heap → List Node → Heap → Prop
  | nothing {heap : Heap} : Binds [] [] heap [] heap
  | next {declaration : Declaration} {declarations : List Declaration} {value result : Value}
      {values : List Value} {heap between after : Heap} {nodes : List Node} :
      Heap.coerce value declaration.kind heap = (some result, between) →
      Binds declarations values between nodes after →
      Binds (declaration :: declarations) (value :: values) heap
        (declaration.assigns result :: nodes) after

/-! ## Declarations among tokens -/

theorem among_concat_three (tokens : List Token) (name colon tag : Token) :
    among (tokens ++ [name, colon, tag]) =
      among (tokens ++ [name, colon]) ++ (ofTokens? name colon tag).toList := by
  induction tokens with
  | nil => simp [among]
  | cons first rest inductionHypothesis =>
      match rest with
      | [] => simp [among]
      | [second] => simp [among]
      | second :: third :: others =>
          simp only [List.cons_append, among, List.append_assoc] at inductionHypothesis ⊢
          rw [inductionHypothesis]

theorem ofTokens?_of_colon {name colon tag : Token} (other : colon.kind ≠ .colon) :
    ofTokens? name colon tag = none :=
  if_neg fun written => other written.2.1

/-- A token that no colon stands in front of completes no declaration. -/
theorem among_concat {tokens : List Token} (token : Token)
    (plain : ∀ last ∈ tokens.getLast?, last.kind ≠ .colon) :
    among (tokens ++ [token]) = among tokens := by
  rcases List.eq_nil_or_concat tokens with rfl | ⟨others, colon, rfl⟩
  · rfl
  · rcases List.eq_nil_or_concat others with rfl | ⟨others, name, rfl⟩
    · rfl
    · have notColon := plain colon (by simp)
      have three := among_concat_three others name colon token
      rw [ofTokens?_of_colon notColon, Option.toList_none, List.append_nil] at three
      simpa using three

/-- What three tokens in a row add to the declarations in front of them. -/
theorem among_written {tokens : List Token} {name : Token} (colon tag : Token)
    (plain : ∀ last ∈ tokens.getLast?, last.kind ≠ .colon) (identifier : name.kind = .identifier) :
    among (tokens ++ [name] ++ [colon] ++ [tag]) =
      among tokens ++ (ofTokens? name colon tag).toList := by
  have three := among_concat_three tokens name colon tag
  have named : ∀ last ∈ (tokens ++ [name]).getLast?, last.kind ≠ .colon := by
    intro last is
    rw [List.getLast?_concat, Option.mem_some_iff] at is
    rw [← is, identifier]
    decide
  have two : among (tokens ++ [name] ++ [colon]) = among tokens := by
    rw [among_concat colon named, among_concat name plain]
  simp only [List.append_assoc, List.cons_append, List.nil_append] at three two ⊢
  rw [three, two]

/-! ## Values that were taken -/

namespace Binds

variable {declarations : List Declaration} {values : List Value} {heap after : Heap}
  {nodes : List Node}

theorem concat (binds : Binds declarations values heap nodes after) (declaration : Declaration)
    {value result : Value} {final : Heap}
    (coerced : Heap.coerce value declaration.kind after = (some result, final)) :
    Binds (declarations ++ [declaration]) (values ++ [value]) heap
      (nodes ++ [declaration.assigns result]) final := by
  induction binds with
  | nothing => exact .next coerced .nothing
  | next earlier _ inductionHypothesis => exact .next earlier (inductionHypothesis coerced)

theorem length_eq (binds : Binds declarations values heap nodes after) :
    values.length = declarations.length ∧ nodes.length = declarations.length := by
  induction binds with
  | nothing => exact ⟨rfl, rfl⟩
  | next _ _ inductionHypothesis =>
      simp only [List.length_cons, inductionHypothesis.1, inductionHypothesis.2, and_self]

end Binds
end Declaration

/-- What a reading that failed has taken from the queue, by the declarations that were written
where it stopped. -/
def Arguments.TakenBy (declarations : List Declaration) (before after : Arguments) :
    Fault → Prop
  | .setup (.argumentsExhausted name line) =>
      after.queue = [] ∧ ∃ earlier kind nodes,
        declarations = earlier ++ [⟨name, kind, line⟩] ∧
        Declaration.Binds earlier before.queue before.heap nodes after.heap
  | .setup (.coercion name raw kind line) =>
      ∃ earlier taken value nodes between, declarations = earlier ++ [⟨name, kind, line⟩] ∧
        before.queue = taken ++ value :: after.queue ∧
        Declaration.Binds earlier taken before.heap nodes between ∧
        Heap.coerce value kind between = (none, after.heap) ∧ raw = after.heap.render value
  | _ => ∃ taken nodes, before.queue = taken ++ after.queue ∧
      Declaration.Binds declarations taken before.heap nodes after.heap

theorem Arguments.TakenBy.suffix {declarations : List Declaration} {before after : Arguments}
    {fault : Fault} (takenBy : Arguments.TakenBy declarations before after fault) :
    after.queue <:+ before.queue := by
  unfold Arguments.TakenBy at takenBy
  split at takenBy
  · rw [takenBy.1]
    exact List.nil_suffix
  · rcases takenBy with ⟨_, taken, value, _, _, _, queue, _⟩
    exact ⟨taken ++ [value], by rw [queue, List.append_assoc]; rfl⟩
  · rcases takenBy with ⟨taken, _, queue, _⟩
    exact ⟨taken, queue.symm⟩

namespace Reader

/-- The tokens taken so far have the declarations that were read, and these have taken their
values. -/
structure History (source : String) (before : Arguments) (read : List Node) (reader : Reader)
    (tokens : List Token) (taken : List Value) : Prop where
  lexed : reader.lexer.HasTaken source tokens
  inside : ∀ token ∈ tokens, token.kind ≠ .endOfFile
  complete : ∀ last ∈ tokens.getLast?, last.kind ≠ .colon
  queue : before.queue = taken ++ reader.arguments.queue
  bound : Declaration.Binds (Declaration.among tokens) taken before.heap read reader.arguments.heap

/-- After a fault the tokens that were taken tell what is gone from the queue. -/
def Explains (source : String) (before : Arguments) (fault : Fault) (reader : Reader) : Prop :=
  ∃ tokens, reader.lexer.HasTaken source tokens ∧
    Arguments.TakenBy (Declaration.among tokens) before reader.arguments fault

/-- The names that occur in a source. -/
def Mentions (source : String) (name : String) : Prop :=
  ∃ token ∈ Token.ofSource source, token.kind = .identifier ∧ token.text = name

/-- Two readings of one source, which tell functions from variables each in its own way. -/
def Pairing.ofSource (source : String) (before : Arguments) : Pairing where
  strict := True
  joined := False
  place := id
  spare := 0
  known := Mentions source
  readers read reader other := other = reader ∧ ∃ tokens taken,
    History source before read reader tokens taken
  past _ _ _ := False
  lagging _ _ _ := False
  failed fault reader other := other = reader ∧ Explains source before fault reader

/-- Two readings of one source fail with the same fault, and it is explained. -/
def explained (source : String) (before : Arguments) : FaultRule Fault Reader where
  excused _ := ¬ (Pairing.ofSource source before).strict
  alike fault other reader otherReader :=
    other = fault ∧ otherReader = reader ∧ Explains source before fault reader

section OneSource

variable {source : String} {before : Arguments} {read : List Node} {reader : Reader}
  {tokens : List Token} {taken : List Value}

theorem takenBy_of_binds {declarations : List Declaration} {after : Arguments} {fault : Fault}
    (plain : ∀ setup, fault ≠ .setup setup) (queue : before.queue = taken ++ after.queue)
    (bound : Declaration.Binds declarations taken before.heap read after.heap) :
    Arguments.TakenBy declarations before after fault := by
  cases fault with
  | setup fault => exact absurd rfl (plain fault)
  | source fault => exact ⟨taken, read, queue, bound⟩
  | runtime fault => exact ⟨taken, read, queue, bound⟩
  | exhausted => exact ⟨taken, read, queue, bound⟩

/-- A token that completes no declaration takes no value. -/
theorem History.take (history : History source before read reader tokens taken) {token : Token}
    {after : Lexer} (ran : Lexer.next reader.lexer = .ok token after) :
    (Pairing.ofSource source before).Refuses ⟨after, reader.arguments⟩
        ⟨after, reader.arguments⟩ ∧
      (token.kind ≠ .endOfFile → token.kind ≠ .colon →
        History source before read ⟨after, reader.arguments⟩ (tokens ++ [token]) taken) := by
  have same := Declaration.among_concat token history.complete
  constructor
  · intro fault plain
    refine ⟨rfl, tokens ++ [token], history.lexed.next ran, ?_⟩
    rw [same]
    exact takenBy_of_binds plain history.queue history.bound
  · intro inside plain
    refine ⟨history.lexed.next ran, ?_, ?_, history.queue, ?_⟩
    · intro found member
      rcases List.mem_append.mp member with earlier | last
      · exact history.inside found earlier
      · rw [List.mem_singleton.mp last]
        exact inside
    · intro last is
      rw [List.getLast?_concat, Option.mem_some_iff] at is
      rw [← is]
      exact plain
    · rw [same]
      exact history.bound

/-- A fault of the lexer takes no value. -/
theorem History.fault (history : History source before read reader tokens taken)
    {fault : SyntaxFault} {after : Lexer} (ran : Lexer.next reader.lexer = .error fault after) :
    Explains source before (.source fault) ⟨after, reader.arguments⟩ :=
  ⟨tokens, history.lexed.next_fault ran, taken, read, history.queue, history.bound⟩

theorem History.refuses (history : History source before read reader tokens taken) :
    (Pairing.ofSource source before).Refuses reader reader :=
  fun _ plain => ⟨rfl, tokens, history.lexed, takenBy_of_binds plain history.queue history.bound⟩

/-- Looking ahead takes nothing. -/
theorem History.look (history : History source before read reader tokens taken) {token : Token}
    {after : Lexer} (ran : Lexer.next reader.lexer = .ok token after) :
    History source before read ⟨{ after with ahead := some token }, reader.arguments⟩ tokens
      taken where
  lexed := (history.lexed.next ran).keep (Lexer.ahead_of_next ran)
  inside := history.inside
  complete := history.complete
  queue := history.queue
  bound := history.bound

/-- What is known when a declaration was read, or when that failed. -/
def Declares (source : String) (before : Arguments) (read : List Node) :
    EStateM.Result Fault Reader Node → Prop
  | .ok node after => (∃ name value line, node = .assignment name (.literal value line) line) ∧
      ∃ tokens taken, History source before (read ++ [node]) after tokens taken
  | .error fault after => Explains source before fault after

/-- A declaration that is written takes the next value, unless there is none; and a value that
cannot be converted is gone. -/
theorem History.bind (history : History source before read reader tokens taken)
    (declaration : Declaration) {written : List Token} {after : Lexer}
    (lexed : after.HasTaken source written)
    (adds : Declaration.among written = Declaration.among tokens ++ [declaration])
    (inside : ∀ token ∈ written, token.kind ≠ .endOfFile)
    (complete : ∀ last ∈ written.getLast?, last.kind ≠ .colon) :
    Declares source before read
      ((do
        let value ← onArguments
          (Arguments.bind declaration.name declaration.kind declaration.line)
        pure (declaration.assigns value)) ⟨after, reader.arguments⟩) := by
  rcases reader with ⟨lexer, ⟨queue, heap⟩⟩
  rcases declaration with ⟨name, kind, line⟩
  have whole := history.queue
  cases queue with
  | nil =>
      have ran : onArguments (Arguments.bind name kind line) ⟨after, [], heap⟩ =
          .error (.setup (.argumentsExhausted name line)) ⟨after, [], heap⟩ := rfl
      rw [bind_of_error ran]
      refine ⟨written, lexed, rfl, Declaration.among tokens, kind, read, adds, ?_⟩
      rw [whole, List.append_nil]
      exact history.bound
  | cons value rest =>
      rcases coerced : Heap.coerce value kind heap with ⟨result, final⟩
      cases result with
      | some result =>
          have ran : onArguments (Arguments.bind name kind line) ⟨after, value :: rest, heap⟩ =
              .ok result ⟨after, rest, final⟩ := by
            simp only [onArguments, Arguments.bind, coerced]
          rw [bind_of_ok ran]
          refine ⟨⟨name, result, line, rfl⟩, written, taken ++ [value], lexed, inside, complete,
            ?_, ?_⟩
          · rw [whole, List.append_assoc]
            rfl
          · rw [adds]
            exact history.bound.concat ⟨name, kind, line⟩ coerced
      | none =>
          have ran : onArguments (Arguments.bind name kind line) ⟨after, value :: rest, heap⟩ =
              .error (.setup (.coercion name (final.render value) kind line))
                ⟨after, rest, final⟩ := by
            simp only [onArguments, Arguments.bind, coerced]
          rw [bind_of_error ran]
          exact ⟨written, lexed, Declaration.among tokens, taken, value, read, heap, adds, whole,
            history.bound, coerced, rfl⟩

/-- Behind its name and its colon, a declaration is completed by a type. -/
theorem History.type (history : History source before read reader tokens taken)
    {name colon : Token} (identifier : name.kind = .identifier) (isColon : colon.kind = .colon)
    {after : Lexer} (lexed : after.HasTaken source (tokens ++ [name] ++ [colon])) :
    Declares source before read
      ((do
        let tag ← next
        let kind? := if tag.kind = .typeTag then Value.Kind.ofName? tag.text else none
        match kind? with
        | some kind => do
            let value ← onArguments (Arguments.bind name.text kind name.line)
            pure (.assignment name.text (.literal value name.line) name.line)
        | none => fail (.malformedDeclaration (.noType name.text tag)) : Read Node)
        ⟨after, reader.arguments⟩) := by
  cases ran : Lexer.next after with
  | error fault final =>
      rw [bind_of_error (next_of_error ⟨after, reader.arguments⟩ ran)]
      refine ⟨_, lexed.next_fault ran, taken, read, history.queue, ?_⟩
      rw [Declaration.among_concat, Declaration.among_concat name history.complete]
      · exact history.bound
      · intro last is
        rw [List.getLast?_concat, Option.mem_some_iff] at is
        rw [← is, identifier]
        decide
  | ok tag final =>
      rw [bind_of_ok (next_of_ok ⟨after, reader.arguments⟩ ran)]
      have among := Declaration.among_written colon tag history.complete identifier
      simp only
      by_cases isType : tag.kind = .typeTag
      · rw [if_pos isType]
        have written : Declaration.ofTokens? name colon tag =
            (Value.Kind.ofName? tag.text).map fun kind => ⟨name.text, kind, name.line⟩ :=
          if_pos ⟨identifier, isColon, isType⟩
        cases kind? : Value.Kind.ofName? tag.text with
        | some kind =>
            rw [written, kind?] at among
            apply history.bind ⟨name.text, kind, name.line⟩ (lexed.next ran) among
            · intro token member
              simp only [List.mem_append, List.mem_singleton] at member
              rcases member with ((earlier | rfl) | rfl) | rfl
              · exact history.inside token earlier
              · rw [identifier]
                decide
              · rw [isColon]
                decide
              · rw [isType]
                decide
            · intro last is
              rw [List.getLast?_concat, Option.mem_some_iff] at is
              rw [← is, isType]
              decide
        | none =>
            rw [written, kind?, Option.map_none, Option.toList_none, List.append_nil] at among
            refine ⟨_, lexed.next ran, taken, read, history.queue, ?_⟩
            rw [among]
            exact history.bound
      · rw [if_neg isType]
        have unwritten : Declaration.ofTokens? name colon tag = none :=
          if_neg fun written => isType written.2.2
        rw [unwritten, Option.toList_none, List.append_nil] at among
        refine ⟨_, lexed.next ran, taken, read, history.queue, ?_⟩
        rw [among]
        exact history.bound

theorem History.declares (history : History source before read reader tokens taken) :
    Declares source before read (declaration reader) := by
  unfold declaration
  cases first : Lexer.next reader.lexer with
  | error fault after =>
      rw [bind_of_error (next_of_error reader first)]
      exact history.fault first
  | ok name after =>
      rw [bind_of_ok (next_of_ok reader first)]
      by_cases identifier : name.kind = .identifier
      · rw [if_pos identifier]
        have named := (history.take first).2 (by rw [identifier]; decide)
          (by rw [identifier]; decide)
        cases second : Lexer.next after with
        | error fault final =>
            rw [bind_of_error (next_of_error ⟨after, reader.arguments⟩ second)]
            exact named.fault second
        | ok colon final =>
            rw [bind_of_ok (next_of_ok ⟨after, reader.arguments⟩ second)]
            by_cases isColon : colon.kind = .colon
            · rw [if_pos isColon]
              exact history.type identifier isColon (named.lexed.next second)
            · rw [if_neg isColon]
              exact ((named.take second).1 _ fun _ => by rintro ⟨⟩).2
      · rw [if_neg identifier]
        exact ((history.take first).1 _ fun _ => by rintro ⟨⟩).2

theorem complete_ofSource : (Pairing.ofSource source before).Complete where
  alike alike := alike.elim id fun ⟨joined, _⟩ => joined.elim
  past := id

/-- One source is read alike whichever way the names that occur in it are told apart. -/
theorem lawful_ofSource (source : String) (before : Arguments) {names otherNames : Names}
    (agree : ∀ name, Mentions source name → otherNames name = names name) :
    (Pairing.ofSource source before).LawfulStatements names otherNames := by
  have lawful : (Pairing.ofSource source before).Lawful names otherNames := by
    refine ⟨False.elim, agree, ?_, ?_, ?_, ?_⟩
    · rintro read _ reader _ ⟨rfl, tokens, taken, history⟩
      exact history.refuses
    · rintro read _ reader ⟨rfl, tokens, taken, history⟩
      cases ran : Lexer.next reader.lexer with
      | error fault after =>
          rw [next_of_error reader ran]
          exact Or.inr ⟨(Fault.renumbered_id _).symm, rfl, history.fault ran⟩
      | ok token after =>
          have took := history.take ran
          rw [next_of_ok reader ran]
          refine ⟨Or.inl rfl, ?_, fun goesOn => ⟨rfl, _, _, took.2 ?_ ?_⟩, fun _ => took.1⟩
          · intro identifier
            have member := (history.lexed.next ran).mem_ofSource token (by simp)
            exact ⟨token, member, identifier, rfl⟩
          · exact fun ended => goesOn (Or.inl ended)
          · exact fun colon => goesOn (Or.inr (Or.inl colon))
    · rintro read _ reader ⟨rfl, tokens, taken, history⟩
      cases ran : Lexer.next reader.lexer with
      | error fault after =>
          rw [peek_of_error reader ran]
          exact Or.inr ⟨(Fault.renumbered_id _).symm, rfl, history.fault ran⟩
      | ok token after =>
          rw [peek_of_ok reader ran]
          exact ⟨Or.inl rfl, ⟨rfl, tokens, taken, history.look ran⟩, rfl, rfl⟩
    · rintro read token broken _ reader ⟨⟨rfl, tokens, taken, history⟩, ahead, _⟩
      have ran : Lexer.next reader.lexer = .ok token { reader.lexer with ahead := none } := by
        simp only [Lexer.next, ahead]
      rw [skip_of_ahead ahead]
      exact Or.inl ⟨rfl, _, _, (history.take ran).2 (by rw [broken]; decide)
        (by rw [broken]; decide)⟩
  refine ⟨lawful, False.elim, ?_, ?_, fun past => past.elim, fun past => past.elim⟩
  · rintro read _ reader ⟨rfl, tokens, taken, history⟩
    have declares := history.declares
    cases ran : declaration reader with
    | error fault after =>
        rw [ran] at declares
        exact Or.inr ⟨(Fault.renumbered_id _).symm, rfl, declares⟩
    | ok node after =>
        rw [ran] at declares
        rcases declares with ⟨⟨name, value, line, rfl⟩, later⟩
        refine ⟨nodes_assignment name line (nodes_literal value line), rfl, later⟩
  · intro read steps
    exact (skips_of_complete lawful False.elim complete_ofSource steps 0 fun _ => rfl).weaken
      (fun _ _ => Or.inl) fun _ _ _ _ => id

/-- The declarations of the whole source have taken their values. -/
def Completed (source : String) (before : Arguments) (read : List Node) (reader : Reader) : Prop :=
  ∃ taken, before.queue = taken ++ reader.arguments.queue ∧
    Declaration.Binds (Declaration.among (Token.ofSource source)) taken before.heap read
      reader.arguments.heap

theorem History.completed (history : History source before read reader tokens taken)
    {token : Token} (ahead : reader.lexer.ahead = some token) (ends : token.kind = .endOfFile) :
    Completed source before read
      { reader with lexer := { reader.lexer with ahead := none } } := by
  refine ⟨taken, history.queue, ?_⟩
  rw [history.lexed.ofSource_eq ahead ends history.inside,
    Declaration.among_concat token history.complete]
  exact history.bound

/-- Two readings of one source end with the same program, or with the same fault. -/
theorem program_ofSource (source : String) (before : Arguments) {names otherNames : Names}
    (agree : ∀ name, Mentions source name → otherNames name = names name) :
    EndAlike
      (fun program other reader otherReader => other = program ∧ otherReader = reader ∧
        (∀ node ∈ program.root.statements, node.All (Node.CallsOnly (Mentions source))) ∧
        Completed source before program.root.declared reader)
      (explained source before)
      (program names ⟨.ofSource source, before⟩)
      (program otherNames ⟨.ofSource source, before⟩) := by
  have lawful := lawful_ofSource source before agree
  generalize start : (⟨.ofSource source, before⟩ : Reader) = reader
  have closes : ∀ read token, token.kind = .endOfFile →
      (Pairing.ofSource source before).Follows
        ((Pairing.ofSource source before).Faces read token (token.renumbered id)) skip skip
        fun _ _ first other => other = first ∧ Completed source before read first := by
    rintro read token ends _ first ⟨⟨rfl, tokens, taken, history⟩, ahead, _⟩
    rw [skip_of_ahead ahead]
    exact ⟨rfl, history.completed ahead ends⟩
  have statements := follows_statementsUntil lawful
    (follows_statements lawful reader.allowance).1 (Or.inr complete_ofSource) closes (by decide)
    reader.allowance 0 (fun _ => rfl) []
  have read : (Pairing.ofSource source before).Follows
      ((Pairing.ofSource source before).Between [])
      (do
        let statements ← statementsUntil (statementWithin names reader.allowance) .endOfFile
          reader.allowance
        pure (Program.mk (.mk false statements 1)))
      (do
        let statements ← statementsUntil (statementWithin otherNames reader.allowance) .endOfFile
          reader.allowance
        pure (Program.mk (.mk false statements 1)))
      fun program other first otherFirst => other = program ∧ otherFirst = first ∧
        (∀ node ∈ program.root.statements, node.All (Node.CallsOnly (Mentions source))) ∧
        Completed source before program.root.declared first := by
    apply Tracks.bind (statements.weaken (fun _ _ => Or.inr) fun _ _ _ _ => id)
    intro nodes others
    apply Tracks.pure
    rintro _ first ⟨⟨same, known⟩, rfl, completed⟩
    refine ⟨?_, rfl, known, ?_⟩
    · rw [same]
      exact congrArg (fun nodes => Program.mk (.mk false nodes 1)) (Node.eachRenumbered_id nodes)
    · rw [Block.declared]
      exact completed
  have began : History source before [] reader [] [] := by
    rw [← start]
    exact ⟨Lexer.hasTaken_ofSource source, List.forall_mem_nil _, (fun _ none => by cases none),
      rfl, .nothing⟩
  rw [program_eq, program_eq]
  refine (read reader reader (Or.inl ⟨rfl, [], [], began⟩)).weakenFaults ?_ ?_
  · rintro fault (loose | ⟨_, more⟩ | spared)
    · exact loose
    · exact absurd more (Nat.lt_irrefl 0)
    · exact spared.elim
  · rintro fault other _ _ ⟨same, alike⟩
    exact ⟨same.trans fault.renumbered_id, alike⟩

end OneSource

end Reader

/-- Values are bound first in, first out, once for each declaration that is written.  If the
source can be read, its declarations have taken as many values, and the tree assigns to each one
what its value became.  If not, the values of the declarations written up to the fault are gone;
for the last of them there was no value left, or its value could not be converted, if the fault
says so. -/
theorem compile_binds_declarations (library : Library) (source : String) (arguments : Arguments) :
    match compile library source arguments with
    | .ok program rest => ∃ taken, arguments.queue = taken ++ rest.queue ∧
        taken.length = (Declaration.among (Token.ofSource source)).length ∧
        Declaration.Binds (Declaration.among (Token.ofSource source)) taken arguments.heap
          program.root.declared rest.heap
    | .error fault rest => rest.queue <:+ arguments.queue ∧ ∃ reader tokens,
        Reader.program library.hasFunction ⟨.ofSource source, arguments⟩ = .error fault reader ∧
        reader.arguments = rest ∧ reader.lexer.HasTaken source tokens ∧
        Arguments.TakenBy (Declaration.among tokens) arguments rest fault := by
  have alike := Reader.program_ofSource source arguments
    fun name _ => Eq.refl (library.hasFunction name)
  unfold compile
  cases ran : Reader.program library.hasFunction ⟨.ofSource source, arguments⟩ with
  | ok program reader =>
      rw [ran] at alike
      rcases alike with ⟨_, _, _, taken, queue, bound⟩
      exact ⟨taken, queue, bound.length_eq.1, bound⟩
  | error fault reader =>
      rw [ran] at alike
      rcases alike with loose | ⟨_, _, tokens, lexed, takenBy⟩
      · exact absurd trivial loose
      · exact ⟨takenBy.suffix, reader, tokens, rfl, rfl, lexed, takenBy⟩

end Scriptlet
