import Scriptlet.Proofs.Renumbering
import Scriptlet.Proofs.SideBySide
import Scriptlet.Proofs.SourceTokens
import Scriptlet.Reading.Statement

namespace Scriptlet

/-!
# Two readings side by side

Two readers that stand in front of the same tokens read the same tree.  The tokens may lie on
other lines, the readers may tell functions from variables in different ways as long as they
agree on the names that occur, and one text may go on where the other ends.  What has to be
known about the readers is collected in one structure; that every construct is then read alike
follows from it once, construct by construct.

Declarations are counted on the way.  The relation between the readers knows the declarations
that have been read, and every statement adds its own.
-/

mutual

/-- The parameters that a tree declares, in the order they are written. -/
def Node.declared : Node → List Node
  | .compound (.mk _ statements _) => statements
  | .conditional _ thenBranch elseBranch _ =>
      thenBranch.declared ++ Block.anyDeclared elseBranch
  | .loop _ _ body _ => body.declared
  | .literal .. | .array .. | .variable .. | .binary .. | .unary .. | .range .. => []
  | .assignment .. | .call .. | .methodCall .. | .flag .. => []

def Node.eachDeclared : List Node → List Node
  | [] => []
  | node :: rest => node.declared ++ Node.eachDeclared rest

def Block.declared : Block → List Node
  | .mk _ statements _ => Node.eachDeclared statements

def Block.anyDeclared : Option Block → List Node
  | none => []
  | some block => block.declared

end

/-- The names that a node calls by itself are among the given ones. -/
def Node.CallsOnly (known : String → Prop) : Node → Prop
  | .call function _ _ => known function
  | .methodCall _ method _ _ => known method
  | _ => True

namespace Reader

/-- What two readings have to do with one another. -/
structure Pairing where
  /-- The second reading has to fail as the first one does.  Otherwise only a first reading that
  succeeds matters. -/
  strict : Prop
  /-- The second text goes on with a line break where the first one ends. -/
  joined : Prop
  /-- Where the second text has a line of the first one. -/
  place : Nat → Nat
  /-- The steps that the second reading is given on top.  If there are any, the first reading may
  run out of steps where the second one does not. -/
  spare : Nat
  /-- The names that occur as identifiers. -/
  known : String → Prop
  /-- The readers stand in front of the same tokens, with these declarations behind them. -/
  readers : List Node → Reader → Reader → Prop
  /-- The first reader has come to its end, and the second one has gone on beyond it. -/
  past : List Node → Reader → Reader → Prop
  /-- The first reader stands in front of line breaks that the second one does not have. -/
  lagging : List Node → Reader → Reader → Prop
  /-- What is known about the readers after a fault of the first reading. -/
  failed : Fault → Reader → Reader → Prop
  /-- The faults of the first reading that the second one need not have. -/
  spared : Fault → Prop := fun _ => False

namespace Pairing

variable (pairing : Pairing)

def rule : FaultRule Fault Reader where
  excused fault :=
    ¬ pairing.strict ∨ fault = .exhausted ∧ 0 < pairing.spare ∨ pairing.spared fault
  alike fault other reader otherReader :=
    other = fault.renumbered pairing.place ∧ pairing.failed fault reader otherReader

/-- The two readings of one step. -/
abbrev Follows {α : Type} (pre : Reader → Reader → Prop) (step other : Read α)
    (post : α → α → Reader → Reader → Prop) : Prop :=
  Tracks pre step other post pairing.rule

/-- The same token on its other line; or a line break where the first text ends. -/
def Alike (token other : Token) : Prop :=
  other = token.renumbered pairing.place ∨
    pairing.joined ∧ token.kind = .endOfFile ∧ other.kind = .newLine

/-- Both readers have looked at their next tokens. -/
def Faces (read : List Node) (token other : Token) (reader otherReader : Reader) : Prop :=
  pairing.readers read reader otherReader ∧ reader.lexer.ahead = some token ∧
    otherReader.lexer.ahead = some other

/-- Between statements the second reader may have gone on beyond the end of the first text. -/
def Between (read : List Node) (reader otherReader : Reader) : Prop :=
  pairing.readers read reader otherReader ∨ pairing.past read reader otherReader

/-- Where a line break has been taken, the first reader may have more of them in front. -/
def Behind (read : List Node) (reader otherReader : Reader) : Prop :=
  pairing.readers read reader otherReader ∨ pairing.lagging read reader otherReader

/-- Any fault may arise here but one of the host's arguments. -/
def Refuses (reader otherReader : Reader) : Prop :=
  ∀ fault : Fault, (∀ setup, fault ≠ .setup setup) → pairing.failed fault reader otherReader

/-- The tokens that no step gets past, but for a declaration, for line breaks between statements,
and for a whole program. -/
def Stops (token : Token) : Prop :=
  token.kind = .endOfFile ∨ token.kind = .colon ∨ token.kind = .newLine

theorem not_stops {token : Token} {kind : Token.Kind} (same : token.kind = kind)
    (goesOn : kind ≠ .endOfFile ∧ kind ≠ .colon ∧ kind ≠ .newLine) : ¬ Stops token := by
  rintro (ended | colon | broken)
  · exact goesOn.1 (same.symm.trans ended)
  · exact goesOn.2.1 (same.symm.trans colon)
  · exact goesOn.2.2 (same.symm.trans broken)

theorem not_stops_operator {token : Token} {operator : BinaryOperator}
    (writes : operator? token = some operator) : ¬ Stops token := by
  rintro (ended | colon | broken)
  · simp only [operator?, ended, reduceCtorEq] at writes
  · simp only [operator?, colon, reduceCtorEq] at writes
  · simp only [operator?, broken, reduceCtorEq] at writes

/-- Where nothing is excused the second reading gets no more steps. -/
theorem spare_eq (asked : ¬ pairing.rule.excused .exhausted) : pairing.spare = 0 :=
  Nat.eq_zero_of_not_pos fun more => asked (Or.inr (Or.inl ⟨rfl, more⟩))

def Nodes (node other : Node) : Prop :=
  other = node.renumbered pairing.place ∧ node.All (Node.CallsOnly pairing.known)

def NodeLists (nodes others : List Node) : Prop :=
  others = Node.eachRenumbered pairing.place nodes ∧
    ∀ node ∈ nodes, node.All (Node.CallsOnly pairing.known)

def Blocks (block other : Block) : Prop :=
  other = block.renumbered pairing.place ∧
    ∀ node ∈ block.statements, node.All (Node.CallsOnly pairing.known)

/-- The results are related, and nothing was declared. -/
def Keeps {α : Type} (read : List Node) (related : α → α → Prop) (result other : α)
    (reader otherReader : Reader) : Prop :=
  related result other ∧ pairing.readers read reader otherReader

/-- The results are related, and the declarations in them have been read. -/
def Adds {α : Type} (read : List Node) (declared : α → List Node) (related : α → α → Prop)
    (result other : α) (reader otherReader : Reader) : Prop :=
  related result other ∧ pairing.readers (read ++ declared result) reader otherReader

/-- The statements are related, and the readers stand behind them. -/
def Finishes (read : List Node) (node other : Node) (reader otherReader : Reader) : Prop :=
  pairing.Nodes node other ∧ pairing.Between (read ++ node.declared) reader otherReader

/-- The second text ends where the first one does. -/
structure Complete : Prop where
  alike : ∀ {token other}, pairing.Alike token other → other = token.renumbered pairing.place
  past : ∀ {read reader otherReader}, ¬ pairing.past read reader otherReader

/-- A first reader that lags may run out of steps, and the next token is a line break of its
own. -/
def CatchesUp : Prop :=
  ∀ {read reader otherReader}, pairing.lagging read reader otherReader →
    pairing.rule.excused .exhausted ∧ ∃ token after, Lexer.next reader.lexer = .ok token after ∧
      token.kind = .newLine ∧ pairing.Behind read ⟨after, reader.arguments⟩ otherReader

/-- The laws that make two readings of an expression go alike. -/
structure Lawful (names otherNames : Names) : Prop where
  loose : pairing.joined → ¬ pairing.strict
  names_eq : ∀ name, pairing.known name → otherNames name = names name
  refuses : ∀ {read reader otherReader}, pairing.strict →
    pairing.readers read reader otherReader → pairing.Refuses reader otherReader
  nexts : ∀ read, pairing.Follows (pairing.readers read) next next
    fun token other reader otherReader => pairing.Alike token other ∧
      (token.kind = .identifier → pairing.known token.text) ∧
      (¬ Stops token → pairing.readers read reader otherReader) ∧
      (pairing.strict → pairing.Refuses reader otherReader)
  peeks : ∀ read, pairing.Follows (pairing.readers read) peek peek
    fun token other reader otherReader => pairing.Alike token other ∧
      pairing.Faces read token other reader otherReader
  breaks : ∀ read token, token.kind = .newLine →
    pairing.Follows (pairing.Faces read token (token.renumbered pairing.place)) skip skip
      fun _ _ => pairing.Behind read

/-- The laws that make two readings of a statement go alike. -/
structure LawfulStatements (names otherNames : Names) : Prop extends
    pairing.Lawful names otherNames where
  catchesUp : pairing.CatchesUp
  declares : ∀ read, pairing.Follows (pairing.readers read) declaration declaration
    (pairing.Adds read (fun node => [node]) pairing.Nodes)
  skips : ∀ read steps, pairing.Follows (pairing.readers read) (skipNewLines steps)
    (skipNewLines (steps + pairing.spare)) fun _ _ => pairing.Between read
  past_first : ∀ {read reader otherReader}, pairing.past read reader otherReader →
    ¬ pairing.strict ∧ ∃ token, reader.lexer.ahead = some token ∧ token.kind = .endOfFile
  past_second : ∀ {read reader otherReader}, pairing.past read reader otherReader →
    ∃ token, otherReader.lexer.ahead = some token ∧ token.isKeyword "else" = false

end Pairing

/-! ## Nodes that are related -/

section Relations

variable {pairing : Pairing}

theorem nodes_of {node other : Node} (same : other = node.renumbered pairing.place)
    (here : Node.CallsOnly pairing.known node)
    (below : ∀ child ∈ node.children, child.All (Node.CallsOnly pairing.known)) :
    pairing.Nodes node other :=
  ⟨same, Node.all_iff.mpr ⟨here, below⟩⟩

theorem nodeLists_nil : pairing.NodeLists [] [] := by
  constructor
  · rw [Node.eachRenumbered]
  · exact List.forall_mem_nil _

theorem nodeLists_cons {node other : Node} {nodes others : List Node}
    (first : pairing.Nodes node other) (rest : pairing.NodeLists nodes others) :
    pairing.NodeLists (node :: nodes) (other :: others) := by
  constructor
  · rw [Node.eachRenumbered, first.1, rest.1]
  · exact List.forall_mem_cons.mpr ⟨first.2, rest.2⟩

theorem blocks_mk {nodes others : List Node} (framed : Bool) (line : Nat)
    (statements : pairing.NodeLists nodes others) :
    pairing.Blocks (.mk framed nodes line) (.mk framed others (pairing.place line)) := by
  constructor
  · rw [Block.renumbered, statements.1]
  · exact statements.2

theorem nodes_literal (value : Value) (line : Nat) :
    pairing.Nodes (.literal value line) (.literal value (pairing.place line)) :=
  nodes_of (by rw [Node.renumbered]) trivial (List.forall_mem_nil _)

theorem nodes_variable (name : String) (line : Nat) :
    pairing.Nodes (.variable name line) (.variable name (pairing.place line)) :=
  nodes_of (by rw [Node.renumbered]) trivial (List.forall_mem_nil _)

theorem nodes_range {first otherFirst last otherLast : Node} (line : Nat)
    (firsts : pairing.Nodes first otherFirst) (lasts : pairing.Nodes last otherLast) :
    pairing.Nodes (.range first last line) (.range otherFirst otherLast (pairing.place line)) := by
  apply nodes_of
  · rw [Node.renumbered, firsts.1, lasts.1]
  · exact trivial
  · exact List.forall_mem_cons.mpr ⟨firsts.2, List.forall_mem_singleton.mpr lasts.2⟩

theorem nodes_unary {operand other : Node} (operator : UnaryOperator) (line : Nat)
    (operands : pairing.Nodes operand other) :
    pairing.Nodes (.unary operator operand line) (.unary operator other (pairing.place line)) := by
  apply nodes_of
  · rw [Node.renumbered, operands.1]
  · exact trivial
  · exact List.forall_mem_singleton.mpr operands.2

theorem nodes_assignment {value other : Node} (name : String) (line : Nat)
    (values : pairing.Nodes value other) :
    pairing.Nodes (.assignment name value line)
      (.assignment name other (pairing.place line)) := by
  apply nodes_of
  · rw [Node.renumbered, values.1]
  · exact trivial
  · exact List.forall_mem_singleton.mpr values.2

theorem nodes_array {nodes others : List Node} (line : Nat)
    (elements : pairing.NodeLists nodes others) :
    pairing.Nodes (.array nodes line) (.array others (pairing.place line)) :=
  nodes_of (by rw [Node.renumbered, elements.1]) trivial elements.2

theorem nodes_call {function : String} {nodes others : List Node} (line : Nat)
    (known : pairing.known function) (arguments : pairing.NodeLists nodes others) :
    pairing.Nodes (.call function nodes line) (.call function others (pairing.place line)) :=
  nodes_of (by rw [Node.renumbered, arguments.1]) known arguments.2

theorem nodes_methodCall {receiver method : String} {nodes others : List Node} (line : Nat)
    (known : pairing.known method) (arguments : pairing.NodeLists nodes others) :
    pairing.Nodes (.methodCall receiver method nodes line)
      (.methodCall receiver method others (pairing.place line)) :=
  nodes_of (by rw [Node.renumbered, arguments.1]) known arguments.2

theorem nodes_loop {iterable otherIterable : Node} {body otherBody : Block} (iterator : String)
    (line : Nat) (iterables : pairing.Nodes iterable otherIterable)
    (bodies : pairing.Blocks body otherBody) :
    pairing.Nodes (.loop iterator iterable body line)
      (.loop iterator otherIterable otherBody (pairing.place line)) := by
  apply nodes_of
  · rw [Node.renumbered, iterables.1, bodies.1]
  · exact trivial
  · exact List.forall_mem_cons.mpr ⟨iterables.2, bodies.2⟩

theorem nodes_conditional {condition otherCondition : Node} {thenBranch otherThen : Block}
    {elseBranch otherElse : Option Block} (line : Nat)
    (conditions : pairing.Nodes condition otherCondition)
    (thens : pairing.Blocks thenBranch otherThen)
    (elses : otherElse = Block.anyRenumbered pairing.place elseBranch)
    (known : ∀ block ∈ elseBranch, ∀ node ∈ block.statements,
      node.All (Node.CallsOnly pairing.known)) :
    pairing.Nodes (.conditional condition thenBranch elseBranch line)
      (.conditional otherCondition otherThen otherElse (pairing.place line)) := by
  apply nodes_of
  · rw [Node.renumbered, conditions.1, thens.1, elses]
  · exact trivial
  · refine List.forall_mem_cons.mpr ⟨conditions.2, ?_⟩
    intro child member
    rcases List.mem_append.mp member with inThen | inElse
    · exact thens.2 child inThen
    · cases elseBranch with
      | none => cases inElse
      | some block => exact known block rfl child inElse

theorem Pairing.Alike.kind_iff {token other : Token} (alike : pairing.Alike token other)
    {kind : Token.Kind} (notEnd : kind ≠ .endOfFile) (notLine : kind ≠ .newLine) :
    other.kind = kind ↔ token.kind = kind := by
  rcases alike with rfl | ⟨_, ended, broken⟩
  · exact Iff.rfl
  · rw [ended, broken]
    exact ⟨fun same => absurd same.symm notLine, fun same => absurd same.symm notEnd⟩

/-- A test that does not tell the end of a line from the end of the text. -/
theorem Pairing.Alike.test {token other : Token} (alike : pairing.Alike token other)
    (test : Token.Kind → Bool) (same : test .newLine = test .endOfFile) :
    test other.kind = test token.kind := by
  rcases alike with rfl | ⟨_, ended, broken⟩
  · rfl
  · rw [ended, broken, same]

theorem kind_of_isKeyword {token : Token} {word : String} (is : token.isKeyword word = true) :
    token.kind = .keyword := by
  simp only [Token.isKeyword, Bool.and_eq_true, decide_eq_true_eq] at is
  exact is.1

theorem Pairing.Alike.isKeyword {token other : Token} (alike : pairing.Alike token other)
    (word : String) : other.isKeyword word = token.isKeyword word := by
  rcases alike with rfl | ⟨_, ended, broken⟩
  · rfl
  · simp [Token.isKeyword, ended, broken]

theorem Pairing.Alike.operator? {token other : Token} (alike : pairing.Alike token other) :
    operator? other = operator? token := by
  rcases alike with rfl | ⟨_, ended, broken⟩
  · rfl
  · simp only [Reader.operator?, ended, broken]

theorem Pairing.Alike.of_kind {token other : Token} (alike : pairing.Alike token other)
    (goesOn : token.kind ≠ .endOfFile) : other = token.renumbered pairing.place := by
  rcases alike with same | ⟨_, ended, _⟩
  · exact same
  · exact absurd ended goesOn

theorem Pairing.Alike.of_strict (loose : pairing.joined → ¬ pairing.strict)
    (strict : pairing.strict) {token other : Token} (alike : pairing.Alike token other) :
    other = token.renumbered pairing.place :=
  alike.resolve_right fun ⟨joined, _⟩ => loose joined strict

end Relations

/-! ## Single steps -/

theorem next_of_ok (reader : Reader) {token : Token} {after : Lexer}
    (ran : Lexer.next reader.lexer = .ok token after) :
    next reader = .ok token ⟨after, reader.arguments⟩ := by
  simp only [next, onLexer, ran]

theorem next_of_error (reader : Reader) {fault : SyntaxFault} {after : Lexer}
    (ran : Lexer.next reader.lexer = .error fault after) :
    next reader = .error (.source fault) ⟨after, reader.arguments⟩ := by
  simp only [next, onLexer, ran]

theorem peek_of_ok (reader : Reader) {token : Token} {after : Lexer}
    (ran : Lexer.next reader.lexer = .ok token after) :
    peek reader = .ok token ⟨{ after with ahead := some token }, reader.arguments⟩ := by
  simp only [peek, onLexer, Lexer.peek_eq, ran]

theorem peek_of_error (reader : Reader) {fault : SyntaxFault} {after : Lexer}
    (ran : Lexer.next reader.lexer = .error fault after) :
    peek reader = .error (.source fault) ⟨after, reader.arguments⟩ := by
  simp only [peek, onLexer, Lexer.peek_eq, ran]

/-- A token that is taken is the one the lexer gives. -/
theorem lexer_of_next {reader after : Reader} {token : Token}
    (took : next reader = .ok token after) :
    ∃ lexer, Lexer.next reader.lexer = .ok token lexer ∧ after = ⟨lexer, reader.arguments⟩ := by
  cases ran : Lexer.next reader.lexer with
  | error fault lexer =>
      rw [next_of_error reader ran] at took
      cases took
  | ok found lexer =>
      rw [next_of_ok reader ran] at took
      cases took
      exact ⟨lexer, rfl, rfl⟩

/-- A token that is looked at is the one the lexer would give, and the lexer keeps it. -/
theorem lexer_of_peek {reader after : Reader} {token : Token}
    (looked : peek reader = .ok token after) :
    ∃ lexer, Lexer.next reader.lexer = .ok token lexer ∧
      after = ⟨{ lexer with ahead := some token }, reader.arguments⟩ := by
  cases ran : Lexer.next reader.lexer with
  | error fault lexer =>
      rw [peek_of_error reader ran] at looked
      cases looked
  | ok found lexer =>
      rw [peek_of_ok reader ran] at looked
      cases looked
      exact ⟨lexer, rfl, rfl⟩

theorem next_of_ahead {reader : Reader} {token : Token} (ahead : reader.lexer.ahead = some token) :
    next reader = .ok token { reader with lexer := { reader.lexer with ahead := none } } := by
  simp only [next, onLexer, Lexer.next, ahead]

theorem peek_of_ahead {reader : Reader} {token : Token} (ahead : reader.lexer.ahead = some token) :
    peek reader = .ok token reader := by
  simp only [peek, onLexer, Lexer.peek, ahead]

theorem skip_of_ahead {reader : Reader} {token : Token} (ahead : reader.lexer.ahead = some token) :
    skip reader = .ok () { reader with lexer := { reader.lexer with ahead := none } } :=
  bind_of_ok (next_of_ahead ahead)

theorem peekKind_of_ok {lexer after : Lexer} {token : Token}
    (ran : Lexer.next lexer = .ok token after) (arguments : Arguments) :
    peekKind ⟨lexer, arguments⟩ =
      .ok token.kind ⟨{ after with ahead := some token }, arguments⟩ :=
  bind_of_ok (peek_of_ok ⟨lexer, arguments⟩ ran)

theorem skip_ahead {lexer after : Lexer} {token : Token}
    (ran : Lexer.next lexer = .ok token after) (arguments : Arguments) :
    skip ⟨{ after with ahead := some token }, arguments⟩ = .ok () ⟨after, arguments⟩ := by
  have none := Lexer.ahead_of_next ran
  rcases after with ⟨scanner, ahead⟩
  cases none
  exact skip_of_ahead rfl

section Steps

variable {pairing : Pairing} {names otherNames : Names} {α β : Type} {read : List Node}
  {pre : Reader → Reader → Prop} {post : α → α → Reader → Reader → Prop}

/-- A step that declares nothing, and what follows it. -/
theorem Pairing.Keeps.bind {related : β → β → Prop} {first otherFirst : Read β}
    {next otherNext : β → Read α}
    (before : pairing.Follows pre first otherFirst (pairing.Keeps read related))
    (after : ∀ result other, related result other →
      pairing.Follows (pairing.readers read) (next result) (otherNext other) post) :
    pairing.Follows pre (first >>= next) (otherFirst >>= otherNext) post := by
  apply Tracks.bind before
  rintro result other reader otherReader ⟨holds, related⟩
  exact after result other holds reader otherReader related

theorem Pairing.Adds.bind {related : β → β → Prop} {declared : β → List Node}
    {first otherFirst : Read β} {next otherNext : β → Read α}
    (before : pairing.Follows pre first otherFirst (pairing.Adds read declared related))
    (after : ∀ result other, related result other →
      pairing.Follows (pairing.readers (read ++ declared result)) (next result) (otherNext other)
        post) :
    pairing.Follows pre (first >>= next) (otherFirst >>= otherNext) post := by
  apply Tracks.bind before
  rintro result other reader otherReader ⟨holds, related⟩
  exact after result other holds reader otherReader related

theorem Pairing.Finishes.bind {first otherFirst : Read Node} {next otherNext : Node → Read α}
    (before : pairing.Follows pre first otherFirst (pairing.Finishes read))
    (after : ∀ node other, pairing.Nodes node other →
      pairing.Follows (pairing.Between (read ++ node.declared)) (next node) (otherNext other)
        post) :
    pairing.Follows pre (first >>= next) (otherFirst >>= otherNext) post := by
  apply Tracks.bind before
  rintro node other reader otherReader ⟨nodes, between⟩
  exact after node other nodes reader otherReader between

theorem keeps_pure {related : α → α → Prop} {result other : α} (holds : related result other) :
    pairing.Follows (pairing.readers read) (pure result) (pure other)
      (pairing.Keeps read related) :=
  Tracks.pure fun _ _ readers => ⟨holds, readers⟩

/-- What goes alike from wherever the readers are related does so when they have looked
ahead. -/
theorem follows_faced {token other : Token} {step otherStep : Read α}
    (follows : pairing.Follows (pairing.readers read) step otherStep post) :
    pairing.Follows (pairing.Faces read token other) step otherStep post :=
  follows.weaken (fun _ _ faces => faces.1) (fun _ _ _ _ holds => holds)

variable (lawful : pairing.Lawful names otherNames)
include lawful

theorem follows_throw {fault : Fault} (plain : ∀ setup, fault ≠ .setup setup) :
    pairing.Follows (pairing.readers read) (throw fault : Read α)
      (throw (fault.renumbered pairing.place)) post := by
  apply Tracks.throw
  intro reader otherReader related
  by_cases strict : pairing.strict
  · exact Or.inr ⟨rfl, lawful.refuses strict related fault plain⟩
  · exact Or.inl (Or.inl strict)

theorem follows_fail (fault : SyntaxFault) :
    pairing.Follows (pairing.readers read) (fail fault : Read α)
      (fail (fault.renumbered pairing.place)) post :=
  follows_throw lawful fun _ => by rintro ⟨⟩

theorem follows_unexpected (token : Token) (expected : Expected) :
    pairing.Follows (pairing.readers read) (unexpected token expected : Read α)
      (unexpected (token.renumbered pairing.place) expected) post :=
  follows_fail lawful (.unexpectedToken token expected)

/-- The first reading has run out of steps.  The second one has more of them only if nothing is
asked of it. -/
theorem follows_exhausted_of (step otherStep : Nat → Read α) (none : step 0 = exhausted)
    (otherNone : otherStep 0 = exhausted) {more : Nat}
    (equal : ¬ pairing.rule.excused .exhausted → more = 0) :
    pairing.Follows (pairing.readers read) (step 0) (otherStep (0 + more)) post := by
  by_cases excused : pairing.rule.excused .exhausted
  · intro reader otherReader _
    rw [none]
    exact EndAlike.excuse excused _
  · rw [equal excused, none, otherNone]
    exact follows_throw lawful fun _ => by rintro ⟨⟩

theorem follows_exhausted (step otherStep : Nat → Read α) (none : step 0 = exhausted)
    (otherNone : otherStep 0 = exhausted) :
    pairing.Follows (pairing.readers read) (step 0) (otherStep (0 + pairing.spare)) post :=
  follows_exhausted_of lawful step otherStep none otherNone pairing.spare_eq

theorem follows_next {next otherNext : Token → Read α}
    (stops : ∀ token, Pairing.Stops token → ∃ fault, next token = fail fault ∧
      otherNext (token.renumbered pairing.place) = fail (fault.renumbered pairing.place))
    (goes : ∀ token, ¬ Pairing.Stops token →
      (token.kind = .identifier → pairing.known token.text) →
      pairing.Follows (pairing.readers read) (next token)
        (otherNext (token.renumbered pairing.place)) post) :
    pairing.Follows (pairing.readers read) (Reader.next >>= next) (Reader.next >>= otherNext)
      post := by
  apply Tracks.bind (lawful.nexts read)
  rintro token other reader otherReader ⟨alike, known, on, refuses⟩
  by_cases stop : Pairing.Stops token
  · obtain ⟨fault, first, second⟩ := stops token stop
    rw [first]
    by_cases strict : pairing.strict
    · rw [alike.of_strict lawful.loose strict, second]
      exact Or.inr ⟨rfl, refuses strict _ fun _ => by rintro ⟨⟩⟩
    · exact EndAlike.excuse (Or.inl strict) _
  · rw [alike.of_kind fun ended => stop (Or.inl ended)]
    exact goes token stop known reader otherReader (on stop)

theorem follows_peek {next otherNext : Token → Read α}
    (goes : ∀ token other, pairing.Alike token other →
      pairing.Follows (pairing.Faces read token other) (next token) (otherNext other) post) :
    pairing.Follows (pairing.readers read) (peek >>= next) (peek >>= otherNext) post := by
  apply Tracks.bind (lawful.peeks read)
  rintro token other reader otherReader ⟨alike, faces⟩
  exact goes token other alike reader otherReader faces

theorem follows_peekKind {next otherNext : Token.Kind → Read α}
    (goes : ∀ token other, pairing.Alike token other →
      pairing.Follows (pairing.Faces read token other) (next token.kind) (otherNext other.kind)
        post) :
    pairing.Follows (pairing.readers read) (peekKind >>= next) (peekKind >>= otherNext) post := by
  have looked : pairing.Follows (pairing.readers read) peekKind peekKind
      fun kind otherKind reader otherReader => ∃ token other, pairing.Alike token other ∧
        kind = token.kind ∧ otherKind = other.kind ∧
        pairing.Faces read token other reader otherReader := by
    apply follows_peek lawful
    intro token other alike
    exact Tracks.pure fun _ _ faces => ⟨token, other, alike, rfl, rfl, faces⟩
  apply Tracks.bind looked
  rintro _ _ reader otherReader ⟨token, other, alike, rfl, rfl, faces⟩
  exact goes token other alike reader otherReader faces

theorem follows_taken {token other : Token} (goesOn : ¬ Pairing.Stops token) :
    pairing.Follows (pairing.Faces read token other) skip skip fun _ _ => pairing.readers read := by
  rintro reader otherReader ⟨related, ahead, otherAhead⟩
  have taken := lawful.nexts read reader otherReader related
  rw [next_of_ahead ahead, next_of_ahead otherAhead] at taken
  rw [skip_of_ahead ahead, skip_of_ahead otherAhead]
  exact taken.2.2.1 goesOn

theorem follows_skip {token other : Token} {next otherNext : Unit → Read α}
    (goesOn : ¬ Pairing.Stops token)
    (goes : pairing.Follows (pairing.readers read) (next ()) (otherNext ()) post) :
    pairing.Follows (pairing.Faces read token other) (skip >>= next) (skip >>= otherNext) post :=
  Tracks.bind (follows_taken lawful goesOn) fun _ _ => goes

theorem follows_consume {kind : Token.Kind}
    (goesOn : kind ≠ .endOfFile ∧ kind ≠ .colon ∧ kind ≠ .newLine) :
    pairing.Follows (pairing.readers read) (consume kind) (consume kind)
      (pairing.Keeps read fun token other => other = token.renumbered pairing.place ∧
        (kind = .identifier → pairing.known token.text)) := by
  apply follows_next lawful
  · intro token stop
    have other : token.kind ≠ kind := fun same => Pairing.not_stops same goesOn stop
    exact ⟨_, if_neg other, if_neg other⟩
  · intro token _ known
    apply Tracks.ite Iff.rfl
    · intro same
      exact keeps_pure ⟨rfl, fun identifier => known (same.trans identifier)⟩
    · intro _
      exact follows_unexpected lawful token _

theorem follows_consumeKeyword (word : String) :
    pairing.Follows (pairing.readers read) (consumeKeyword word) (consumeKeyword word)
      (pairing.Keeps read fun _ _ => True) := by
  apply follows_next lawful
  · intro token stop
    have other : ¬ token.isKeyword word = true := fun is =>
      Pairing.not_stops (kind_of_isKeyword is) (by decide) stop
    exact ⟨_, if_neg other, if_neg other⟩
  · intro token _ _
    apply Tracks.ite Iff.rfl
    · intro _
      exact keeps_pure trivial
    · intro _
      exact follows_unexpected lawful token _

theorem follows_consumeIdentifier :
    pairing.Follows (pairing.readers read) consumeIdentifier consumeIdentifier
      (pairing.Keeps read fun name other => other = name ∧ pairing.known name) := by
  apply Pairing.Keeps.bind (follows_consume lawful (by decide))
  rintro token _ ⟨rfl, known⟩
  exact keeps_pure ⟨rfl, known rfl⟩

theorem follows_expectStatementEnd :
    pairing.Follows (pairing.readers read) expectStatementEnd expectStatementEnd
      (pairing.Keeps read fun _ _ => True) := by
  apply follows_peekKind lawful
  intro token other alike
  apply follows_faced
  apply Tracks.ite (by rw [alike.test endsStatement rfl])
  · intro _
    exact keeps_pure trivial
  · intro _
    apply follows_next lawful
    · intro found _
      exact ⟨_, rfl, rfl⟩
    · intro found _ _
      exact follows_unexpected lawful found _

end Steps

/-! ## Lists of expressions -/

section Lists

variable {pairing : Pairing} {names otherNames : Names} {read : List Node}
  (lawful : pairing.Lawful names otherNames) {item otherItem : Read Node}
include lawful

section Expressions

variable (items : ∀ read, pairing.Follows (pairing.readers read) item otherItem
  (pairing.Keeps read pairing.Nodes))
include items

theorem follows_parenthesized (steps : Nat) :
    pairing.Follows (pairing.readers read) (parenthesized item steps)
      (parenthesized otherItem (steps + pairing.spare))
      (pairing.Keeps read pairing.NodeLists) := by
  induction steps with
  | zero => exact follows_exhausted lawful _ _ rfl rfl
  | succ steps inductionHypothesis =>
      rw [Nat.add_right_comm]
      apply Pairing.Keeps.bind (items read)
      intro argument other nodes
      apply follows_next lawful
      · rintro token (stop | stop | stop) <;>
          exact ⟨.unexpectedToken token (.either .comma .closeParen), by simp only [stop]; rfl,
            by simp only [Token.renumbered_kind, stop]; rfl⟩
      · intro token _ _
        rw [Token.renumbered_kind]
        cases token.kind with
        | comma =>
            apply Pairing.Keeps.bind inductionHypothesis
            intro others otherOthers rest
            exact keeps_pure (nodeLists_cons nodes rest)
        | closeParen => exact keeps_pure (nodeLists_cons nodes nodeLists_nil)
        | _ => exact follows_unexpected lawful token _

theorem follows_callArguments (steps : Nat) :
    pairing.Follows (pairing.readers read) (callArguments item steps)
      (callArguments otherItem (steps + pairing.spare))
      (pairing.Keeps read pairing.NodeLists) := by
  apply Pairing.Keeps.bind (follows_consume lawful (by decide))
  intro _ _ _
  apply follows_peekKind lawful
  intro token other alike
  apply Tracks.ite (alike.kind_iff (by decide) (by decide))
  · intro closes
    apply follows_skip lawful (Pairing.not_stops closes (by decide))
    exact keeps_pure nodeLists_nil
  · intro _
    exact follows_faced (follows_parenthesized lawful items steps)

end Expressions

/-- The items may declare something, as the parameters of a script do. -/
theorem follows_separated {declared : Node → List Node}
    (items : ∀ read, pairing.Follows (pairing.readers read) item otherItem
      (pairing.Adds read declared pairing.Nodes)) (steps : Nat) :
    pairing.Follows (pairing.readers read) (separated item steps)
      (separated otherItem (steps + pairing.spare))
      (pairing.Adds read (List.flatMap declared) pairing.NodeLists) := by
  induction steps generalizing read with
  | zero => exact follows_exhausted lawful _ _ rfl rfl
  | succ steps inductionHypothesis =>
      rw [Nat.add_right_comm]
      apply Pairing.Adds.bind (items read)
      intro argument otherArgument nodes
      apply follows_peekKind lawful
      intro token other alike
      apply Tracks.ite (alike.kind_iff (by decide) (by decide))
      · intro comma
        apply follows_skip lawful (Pairing.not_stops comma (by decide))
        apply Pairing.Adds.bind inductionHypothesis
        intro others otherOthers rest
        apply Tracks.pure
        intro reader otherReader related
        rw [List.append_assoc] at related
        exact ⟨nodeLists_cons nodes rest, related⟩
      · intro _
        apply Tracks.pure
        rintro reader otherReader ⟨related, _⟩
        refine ⟨nodeLists_cons nodes nodeLists_nil, ?_⟩
        rw [List.flatMap_singleton]
        exact related

section Expressions

variable (items : ∀ read, pairing.Follows (pairing.readers read) item otherItem
  (pairing.Keeps read pairing.Nodes))
include items

theorem follows_bareArguments (steps : Nat) :
    pairing.Follows (pairing.readers read) (bareArguments item steps)
      (bareArguments otherItem (steps + pairing.spare))
      (pairing.Keeps read pairing.NodeLists) := by
  apply follows_peekKind lawful
  intro token other alike
  apply follows_faced
  apply Tracks.ite (by rw [alike.test endsArguments rfl])
  · intro _
    exact keeps_pure nodeLists_nil
  · intro _
    have added : ∀ read, pairing.Follows (pairing.readers read) item otherItem
        (pairing.Adds read (fun _ => []) pairing.Nodes) := by
      intro read
      refine (items read).weaken (fun _ _ start => start) ?_
      rintro node otherNode reader otherReader ⟨nodes, related⟩
      refine ⟨nodes, ?_⟩
      rw [List.append_nil]
      exact related
    refine (follows_separated lawful added steps).weaken (fun _ _ start => start) ?_
    rintro nodes others reader otherReader ⟨lists, related⟩
    have nothing : nodes.flatMap (fun _ => ([] : List Node)) = [] :=
      List.flatMap_eq_nil_iff.mpr fun _ _ => rfl
    rw [nothing, List.append_nil] at related
    exact ⟨lists, related⟩

theorem follows_arrayElements (line steps : Nat) :
    pairing.Follows (pairing.readers read) (arrayElements item line steps)
      (arrayElements otherItem (pairing.place line) (steps + pairing.spare))
      (pairing.Keeps read pairing.NodeLists) := by
  have unterminated : ∀ {α : Type} {post : α → α → Reader → Reader → Prop},
      pairing.Follows (pairing.readers read) (fail (.unterminatedArray line) : Read α)
        (fail (.unterminatedArray (pairing.place line))) post :=
    follows_fail lawful (.unterminatedArray line)
  induction steps with
  | zero => exact follows_exhausted lawful _ _ rfl rfl
  | succ steps inductionHypothesis =>
      rw [Nat.add_right_comm]
      apply follows_peekKind lawful
      intro token other alike
      apply follows_faced
      apply Tracks.ite
      · have same := alike.test (fun kind => kind = .newLine || kind = .endOfFile) rfl
        exact Eq.to_iff (congrArg (· = true) same)
      · intro _
        exact unterminated
      · intro _
        apply Pairing.Keeps.bind (items read)
        intro element otherElement nodes
        apply follows_next lawful
        · rintro token (ended | colon | broken)
          · exact ⟨.unterminatedArray line, by simp only [ended],
              by simp only [Token.renumbered_kind, ended]; rfl⟩
          · exact ⟨.unexpectedToken token (.either .comma .closeBracket),
              by simp only [colon]; rfl, by simp only [Token.renumbered_kind, colon]; rfl⟩
          · exact ⟨.unterminatedArray line, by simp only [broken],
              by simp only [Token.renumbered_kind, broken]; rfl⟩
        · intro token _ _
          rw [Token.renumbered_kind]
          cases token.kind with
          | comma =>
              apply Pairing.Keeps.bind inductionHypothesis
              intro others otherOthers rest
              exact keeps_pure (nodeLists_cons nodes rest)
          | closeBracket => exact keeps_pure (nodeLists_cons nodes nodeLists_nil)
          | newLine => exact unterminated
          | endOfFile => exact unterminated
          | _ => exact follows_unexpected lawful token _

theorem follows_array (line steps : Nat) :
    pairing.Follows (pairing.readers read) (array item line steps)
      (array otherItem (pairing.place line) (steps + pairing.spare))
      (pairing.Keeps read pairing.Nodes) := by
  apply follows_peekKind lawful
  intro token other alike
  apply Tracks.ite (alike.kind_iff (by decide) (by decide))
  · intro closes
    apply follows_skip lawful (Pairing.not_stops closes (by decide))
    exact keeps_pure (nodes_array line nodeLists_nil)
  · intro _
    apply follows_faced
    apply Pairing.Keeps.bind (follows_arrayElements lawful items line steps)
    intro elements otherElements lists
    exact keeps_pure (nodes_array line lists)

end Expressions
end Lists

/-! ## Expressions -/

section Expressions

variable {pairing : Pairing} {names otherNames : Names} {read : List Node}
  (lawful : pairing.Lawful names otherNames)
include lawful

theorem follows_extend {operand otherOperand : Nat → Read Node}
    (operands : ∀ read rank, pairing.Follows (pairing.readers read) (operand rank)
      (otherOperand rank) (pairing.Keeps read pairing.Nodes))
    (ranks : List Nat) {left otherLeft : Node} (lefts : pairing.Nodes left otherLeft) :
    pairing.Follows (pairing.readers read) (extend operand left ranks)
      (extend otherOperand otherLeft ranks) (pairing.Keeps read pairing.Nodes) := by
  induction ranks generalizing left otherLeft with
  | nil => exact keeps_pure lefts
  | cons rank higher inductionHypothesis =>
      apply follows_peek lawful
      intro token other alike
      rw [alike.operator?]
      cases writes : operator? token with
      | none => exact follows_faced (keeps_pure lefts)
      | some operator =>
          apply Tracks.ite Iff.rfl
          · intro _
            apply follows_skip lawful (Pairing.not_stops_operator writes)
            apply Pairing.Keeps.bind (operands read rank)
            intro right otherRight rights
            apply inductionHypothesis
            apply nodes_of
            · rw [Node.renumbered, lefts.1, rights.1, Node.line_renumbered]
            · exact trivial
            · exact List.forall_mem_cons.mpr ⟨lefts.2, List.forall_mem_singleton.mpr rights.2⟩
          · intro _
            exact follows_faced (inductionHypothesis lefts)

omit lawful in
/-- Both texts have the same bounds, or the same numeral is too large. -/
theorem bounds_alike (line : Nat) (pieces : List (List Char)) :
    match pieces.mapM (rangeBound line), pieces.mapM (rangeBound (pairing.place line)) with
    | .ok nodes, .ok others => pairing.NodeLists nodes others
    | .error fault, .error other => other = fault.renumbered pairing.place
    | _, _ => False := by
  induction pieces with
  | nil => exact nodeLists_nil
  | cons piece rest inductionHypothesis =>
      rw [List.mapM_cons, List.mapM_cons]
      cases bound : Number.ofInt? (Number.decimalValue piece) with
      | none =>
          have failed : ∀ line, rangeBound line piece =
              .error (.invalidNumber (String.ofList piece) line) := by
            intro line
            simp only [rangeBound, bound]
          rw [failed, failed]
          rfl
      | some x =>
          have found : ∀ line, rangeBound line piece = .ok (.literal (.number x) line) := by
            intro line
            simp only [rangeBound, bound]
          rw [found, found]
          cases first : rest.mapM (rangeBound line) with
          | error fault =>
              rw [first] at inductionHypothesis
              cases second : rest.mapM (rangeBound (pairing.place line)) with
              | error other =>
                  rw [second] at inductionHypothesis
                  exact inductionHypothesis
              | ok others =>
                  rw [second] at inductionHypothesis
                  exact inductionHypothesis.elim
          | ok nodes =>
              rw [first] at inductionHypothesis
              cases second : rest.mapM (rangeBound (pairing.place line)) with
              | error other =>
                  rw [second] at inductionHypothesis
                  exact inductionHypothesis.elim
              | ok others =>
                  rw [second] at inductionHypothesis
                  exact nodeLists_cons (nodes_literal _ line) inductionHypothesis

theorem follows_rangeLiteral {expression otherExpression : Read Node}
    (expressions : ∀ read, pairing.Follows (pairing.readers read) expression otherExpression
      (pairing.Keeps read pairing.Nodes)) (token : Token) :
    pairing.Follows (pairing.readers read) (rangeLiteral expression token)
      (rangeLiteral otherExpression (token.renumbered pairing.place))
      (pairing.Keeps read pairing.Nodes) := by
  have invalid : pairing.Follows (pairing.readers read)
      (fail (.invalidRange token.text token.line))
      (fail (.invalidRange token.text (pairing.place token.line)))
      (pairing.Keeps read pairing.Nodes) :=
    follows_fail lawful (.invalidRange token.text token.line)
  have bounds :
      match rangeBounds token, rangeBounds (token.renumbered pairing.place) with
      | .ok nodes, .ok others => pairing.NodeLists nodes others
      | .error fault, .error other => other = fault.renumbered pairing.place
      | _, _ => False :=
    bounds_alike token.line _
  unfold rangeLiteral
  cases first : rangeBounds token with
  | error fault =>
      cases second : rangeBounds (token.renumbered pairing.place) with
      | ok others =>
          rw [first, second] at bounds
          exact bounds.elim
      | error other =>
          rw [first, second] at bounds
          rw [bounds]
          exact follows_fail lawful fault
  | ok nodes =>
      cases second : rangeBounds (token.renumbered pairing.place) with
      | error other =>
          rw [first, second] at bounds
          exact bounds.elim
      | ok others =>
          rw [first, second] at bounds
          rcases bounds with ⟨rfl, known⟩
          match nodes, known with
          | [], _ =>
              simp only [Node.eachRenumbered]
              exact invalid
          | [lower], known =>
              simp only [Node.eachRenumbered]
              apply Tracks.ite Iff.rfl
              · intro _
                apply Pairing.Keeps.bind (expressions read)
                intro upper otherUpper uppers
                have lowers : pairing.Nodes lower (lower.renumbered pairing.place) :=
                  ⟨rfl, known lower List.mem_cons_self⟩
                exact keeps_pure (nodes_range token.line lowers uppers)
              · intro _
                exact invalid
          | [lower, upper], known =>
              simp only [Node.eachRenumbered]
              have lowers : pairing.Nodes lower (lower.renumbered pairing.place) :=
                ⟨rfl, known lower List.mem_cons_self⟩
              have uppers : pairing.Nodes upper (upper.renumbered pairing.place) :=
                ⟨rfl, known upper (List.mem_cons_of_mem _ List.mem_cons_self)⟩
              exact keeps_pure (nodes_range token.line lowers uppers)
          | _ :: _ :: _ :: _, _ =>
              simp only [Node.eachRenumbered]
              exact invalid

theorem follows_named {expression otherExpression : Read Node}
    (expressions : ∀ read, pairing.Follows (pairing.readers read) expression otherExpression
      (pairing.Keeps read pairing.Nodes)) (steps : Nat) {name : Token}
    (known : pairing.known name.text) :
    pairing.Follows (pairing.readers read) (named names expression steps name)
      (named otherNames otherExpression (steps + pairing.spare) (name.renumbered pairing.place))
      (pairing.Keeps read pairing.Nodes) := by
  unfold named
  rw [Token.renumbered_text, lawful.names_eq name.text known]
  apply Tracks.ite Iff.rfl
  · intro _
    apply follows_peekKind lawful
    intro token other alike
    apply follows_faced
    apply Tracks.ite (alike.kind_iff (by decide) (by decide))
    · intro _
      apply Pairing.Keeps.bind (follows_callArguments lawful expressions steps)
      intro nodes others lists
      exact keeps_pure (nodes_call name.line known lists)
    · intro _
      apply Pairing.Keeps.bind (follows_bareArguments lawful expressions steps)
      intro nodes others lists
      exact keeps_pure (nodes_call name.line known lists)
  · intro _
    have plain : ∀ token other, pairing.Follows (pairing.Faces read token other)
        (pure (.variable name.text name.line))
        (pure (.variable name.text (pairing.place name.line)))
        (pairing.Keeps read pairing.Nodes) :=
      fun _ _ => follows_faced (keeps_pure (nodes_variable name.text name.line))
    apply follows_peek lawful
    intro token other alike
    rcases alike with rfl | ⟨_, ended, broken⟩
    · rw [Token.renumbered_kind]
      cases kind : token.kind with
      | range =>
          apply Tracks.ite Iff.rfl
          · intro _
            apply follows_skip lawful (Pairing.not_stops kind (by decide))
            apply Pairing.Keeps.bind (expressions read)
            intro last otherLast lasts
            exact keeps_pure (nodes_range name.line (nodes_variable name.text name.line) lasts)
          · intro _
            exact plain _ _
      | dot =>
          apply follows_skip lawful (Pairing.not_stops kind (by decide))
          apply Pairing.Keeps.bind (follows_consumeIdentifier lawful)
          rintro method _ ⟨rfl, isKnown⟩
          apply Pairing.Keeps.bind (follows_callArguments lawful expressions steps)
          intro nodes others lists
          exact keeps_pure (nodes_methodCall name.line isKnown lists)
      | _ => exact plain _ _
    · rw [ended, broken]
      exact plain _ _

theorem follows_numberLiteral (token : Token) :
    pairing.Follows (pairing.readers read) (numberLiteral token)
      (numberLiteral (token.renumbered pairing.place)) (pairing.Keeps read pairing.Nodes) := by
  unfold numberLiteral
  rw [Token.renumbered_text]
  cases Number.read? token.text.toList with
  | some x => exact keeps_pure (nodes_literal _ token.line)
  | none => exact follows_fail lawful (.invalidNumber token.text token.line)

theorem follows_truthLiteral (token : Token) :
    pairing.Follows (pairing.readers read) (truthLiteral token)
      (truthLiteral (token.renumbered pairing.place)) (pairing.Keeps read pairing.Nodes) := by
  apply Tracks.ite Iff.rfl
  · intro _
    exact keeps_pure (nodes_literal _ token.line)
  · intro _
    apply Tracks.ite Iff.rfl
    · intro _
      exact keeps_pure (nodes_literal _ token.line)
    · intro _
      exact follows_unexpected lawful token _

/-- Both functions hand on their steps less one, so both are proved for one number of steps from
both for the number below it. -/
theorem follows_expressions (steps : Nat) :
    (∀ read rank, pairing.Follows (pairing.readers read) (ranked names steps rank)
        (ranked otherNames (steps + pairing.spare) rank) (pairing.Keeps read pairing.Nodes)) ∧
      ∀ read, pairing.Follows (pairing.readers read) (factor names steps)
        (factor otherNames (steps + pairing.spare)) (pairing.Keeps read pairing.Nodes) := by
  induction steps with
  | zero =>
      constructor
      · intro read rank
        exact follows_exhausted lawful (fun steps => ranked names steps rank)
          (fun steps => ranked otherNames steps rank) (by rw [ranked]) (by rw [ranked])
      · intro read
        exact follows_exhausted lawful _ _ (by rw [factor]) (by rw [factor])
  | succ steps inductionHypothesis =>
      rcases inductionHypothesis with ⟨rankeds, factors⟩
      have expressions := fun read => rankeds read expressionRank
      rw [Nat.add_right_comm]
      constructor
      · intro read rank
        rw [ranked, ranked]
        apply Pairing.Keeps.bind (factors read)
        intro left otherLeft lefts
        exact follows_extend lawful rankeds (ranksTo rank) lefts
      · intro read
        rw [factor, factor]
        apply follows_next lawful
        · rintro token (stop | stop | stop) <;>
            exact ⟨.unexpectedToken token .expression, by simp only [stop]; rfl,
              by simp only [Token.renumbered_kind, stop]; rfl⟩
        · intro token _ known
          rw [Token.renumbered_kind]
          cases kind : token.kind with
          | number => exact follows_numberLiteral lawful token
          | string => exact keeps_pure (nodes_literal _ token.line)
          | keyword => exact follows_truthLiteral lawful token
          | identifier => exact follows_named lawful expressions steps (known kind)
          | openParen =>
              apply Pairing.Keeps.bind (expressions read)
              intro inner otherInner inners
              apply Pairing.Keeps.bind (follows_consume lawful (by decide))
              intro _ _ _
              exact keeps_pure inners
          | openBracket => exact follows_array lawful expressions token.line steps
          | range => exact follows_rangeLiteral lawful expressions token
          | minus =>
              apply Pairing.Keeps.bind (factors read)
              intro operand otherOperand operands
              exact keeps_pure (nodes_unary .negate token.line operands)
          | unaryOperator =>
              apply Pairing.Keeps.bind (factors read)
              intro operand otherOperand operands
              exact keeps_pure (nodes_unary .not token.line operands)
          | _ => exact follows_unexpected lawful token _

theorem follows_expression (steps : Nat) (read : List Node) :
    pairing.Follows (pairing.readers read) (ranked names steps expressionRank)
      (ranked otherNames (steps + pairing.spare) expressionRank)
      (pairing.Keeps read pairing.Nodes) :=
  (follows_expressions lawful steps).1 read expressionRank

end Expressions

/-! ## Statements -/

section Statements

/-- What follows the `else` of a conditional: one more conditional, or a block. -/
def behindElse (names : Names) (steps : Nat) (condition : Node) (thenBranch : Block)
    (line : Nat) : Read Node := do
  let chained ← peek
  if chained.isKeyword "if" then do
    skip
    let nested ← conditionalWithin names steps chained.line
    pure (.conditional condition thenBranch (some (.mk false [nested] chained.line)) line)
  else do
    let elseBranch ← bracedBlock (statementWithin names steps) steps
    pure (.conditional condition thenBranch (some elseBranch) line)

variable {pairing : Pairing} {names otherNames : Names} {read : List Node}

theorem adds_pure {node other : Node} (nodes : pairing.Nodes node other)
    (nothing : node.declared = []) :
    pairing.Follows (pairing.readers read) (pure node) (pure other)
      (pairing.Adds read Node.declared pairing.Nodes) := by
  apply Tracks.pure
  intro reader otherReader related
  refine ⟨nodes, ?_⟩
  rw [nothing, List.append_nil]
  exact related

theorem follows_namedStatement (lawful : pairing.Lawful names otherNames) (steps : Nat)
    {name : Token} (known : pairing.known name.text) :
    pairing.Follows (pairing.readers read) (namedStatement names steps name)
      (namedStatement otherNames (steps + pairing.spare) (name.renumbered pairing.place))
      (pairing.Adds read Node.declared pairing.Nodes) := by
  have expressions := follows_expression lawful steps
  unfold namedStatement
  rw [Token.renumbered_text, lawful.names_eq name.text known]
  apply Tracks.ite Iff.rfl
  · intro _
    apply Pairing.Keeps.bind (follows_bareArguments lawful expressions steps)
    intro nodes others lists
    exact adds_pure (nodes_call name.line known lists) (by rw [Node.declared])
  · intro _
    apply follows_next lawful
    · rintro token (stop | stop | stop) <;>
        exact ⟨.unexpectedToken token (.either .equals .dot), by simp only [stop]; rfl,
          by simp only [Token.renumbered_kind, stop]; rfl⟩
    · intro token _ _
      rw [Token.renumbered_kind]
      cases token.kind with
      | equals =>
          apply Pairing.Keeps.bind (expressions read)
          intro value otherValue values
          exact adds_pure (nodes_assignment name.text name.line values) (by rw [Node.declared])
      | dot =>
          apply Pairing.Keeps.bind (follows_consumeIdentifier lawful)
          rintro method _ ⟨rfl, isKnown⟩
          apply Pairing.Keeps.bind (follows_callArguments lawful expressions steps)
          intro nodes others lists
          exact adds_pure (nodes_methodCall name.line isKnown lists) (by rw [Node.declared])
      | _ => exact follows_unexpected lawful token _

theorem follows_declarations (lawful : pairing.Lawful names otherNames)
    (declares : ∀ read, pairing.Follows (pairing.readers read) declaration declaration
      (pairing.Adds read (fun node => [node]) pairing.Nodes)) (steps line : Nat) :
    pairing.Follows (pairing.readers read) (declarations steps line)
      (declarations (steps + pairing.spare) (pairing.place line))
      (pairing.Adds read Node.declared pairing.Nodes) := by
  apply Pairing.Adds.bind (follows_separated lawful declares steps)
  intro assignments others lists
  apply Tracks.pure
  intro reader otherReader related
  constructor
  · apply nodes_of
    · rw [Node.renumbered, Block.renumbered, lists.1]
    · exact trivial
    · exact lists.2
  · rw [List.flatMap_singleton'] at related
    rw [Node.declared]
    exact related

/-- A block that is not closed by the end of the text is never closed beyond it. -/
theorem statementsUntil_ended {item : Read Node} {closing : Token.Kind} {reader : Reader}
    {token : Token} (ahead : reader.lexer.ahead = some token) (ended : token.kind = .endOfFile)
    (other : closing ≠ .endOfFile) (steps : Nat) :
    ∃ fault after, statementsUntil item closing steps reader = .error fault after := by
  cases steps with
  | zero => exact ⟨_, _, rfl⟩
  | succ steps =>
      have looked : peekKind reader = .ok .endOfFile reader := by
        rw [← ended]
        exact bind_of_ok (peek_of_ahead ahead)
      rw [statementsUntil, bind_of_ok looked, if_neg (fun same => other same.symm)]
      simp only
      rw [bind_of_ok (next_of_ahead ahead)]
      exact ⟨_, _, rfl⟩

section Lagging

variable {α : Type} {step : Nat → Read α} {post : α → α → Reader → Reader → Prop} {steps : Nat}
  (catchesUp : pairing.CatchesUp)
include catchesUp

/-- A first reader that lags has fewer steps left than the second one, so it may run out of
them. -/
theorem follows_lagging_exhausted (none : step 0 = exhausted) (other : Read α) :
    pairing.Follows (pairing.lagging read) (step 0) other post := by
  intro reader otherReader lagging
  rw [none]
  exact EndAlike.excuse (catchesUp lagging).1 _

/-- While the first reader lags, it gets past a line break of its own. -/
theorem follows_lagging {other : Read α}
    (passes : ∀ {lexer after : Lexer} {token : Token}, Lexer.next lexer = .ok token after →
      token.kind = .newLine → ∀ arguments,
        step (steps + 1) ⟨lexer, arguments⟩ = step steps ⟨after, arguments⟩)
    (behind : pairing.rule.excused .exhausted →
      pairing.Follows (pairing.Behind read) (step steps) other post) :
    pairing.Follows (pairing.lagging read) (step (steps + 1)) other post := by
  rintro ⟨lexer, arguments⟩ otherReader lagging
  rcases catchesUp lagging with ⟨excused, token, after, ran, broken, ahead⟩
  rw [passes ran broken arguments]
  exact behind excused _ otherReader ahead

end Lagging

theorem skipNewLines_newLine {lexer after : Lexer} {token : Token} {steps : Nat}
    (ran : Lexer.next lexer = .ok token after) (broken : token.kind = .newLine)
    (arguments : Arguments) :
    skipNewLines (steps + 1) ⟨lexer, arguments⟩ = skipNewLines steps ⟨after, arguments⟩ := by
  rw [skipNewLines, bind_of_ok (peekKind_of_ok ran arguments), if_pos broken,
    bind_of_ok (skip_ahead ran arguments)]

theorem statementsUntil_newLine {item : Read Node} {closing : Token.Kind}
    (notLine : closing ≠ .newLine) {lexer after : Lexer} {token : Token} {steps : Nat}
    (ran : Lexer.next lexer = .ok token after) (broken : token.kind = .newLine)
    (arguments : Arguments) :
    statementsUntil item closing (steps + 1) ⟨lexer, arguments⟩ =
      statementsUntil item closing steps ⟨after, arguments⟩ := by
  have other : ¬ token.kind = closing := by
    rw [broken]
    exact notLine.symm
  rw [statementsUntil, bind_of_ok (peekKind_of_ok ran arguments), if_neg other]
  simp only [broken]
  rw [bind_of_ok (skip_ahead ran arguments)]

/-- Line breaks are passed over alike where both texts end together. -/
theorem skips_of_complete (lawful : pairing.Lawful names otherNames)
    (catchesUp : pairing.CatchesUp) (complete : pairing.Complete) (steps more : Nat)
    (equal : ¬ pairing.rule.excused .exhausted → more = 0) :
    pairing.Follows (pairing.Behind read) (skipNewLines steps) (skipNewLines (steps + more))
      fun _ _ => pairing.Between read := by
  induction steps generalizing more with
  | zero =>
      rintro reader otherReader (readers | lagging)
      · exact follows_exhausted_of lawful _ _ rfl rfl equal reader otherReader readers
      · exact follows_lagging_exhausted catchesUp rfl _ reader otherReader lagging
  | succ steps inductionHypothesis =>
      rintro reader otherReader (readers | lagging)
      · revert reader otherReader
        rw [Nat.add_right_comm]
        apply follows_peekKind lawful
        intro token other alike
        rw [complete.alike alike]
        apply Tracks.ite Iff.rfl
        · intro broken
          exact Tracks.bind (lawful.breaks read token broken)
            fun _ _ => inductionHypothesis more equal
        · intro _
          exact Tracks.pure fun _ _ faces => Or.inl faces.1
      · rw [Nat.add_assoc]
        exact follows_lagging catchesUp skipNewLines_newLine
          (fun excused => inductionHypothesis (1 + more) fun asked => absurd excused asked)
          reader otherReader lagging

variable (lawful : pairing.LawfulStatements names otherNames)
include lawful

/-- Where the second reader has gone on beyond the end of the first text, the first one must
fail. -/
theorem follows_between {α : Type} {step other : Read α} {post : α → α → Reader → Reader → Prop}
    (related : pairing.Follows (pairing.readers read) step other post)
    (ended : (∀ reader token, reader.lexer.ahead = some token → token.kind = .endOfFile →
      ∃ fault after, step reader = .error fault after) ∨ pairing.Complete) :
    pairing.Follows (pairing.Between read) step other post := by
  rintro reader otherReader (readers | past)
  · exact related reader otherReader readers
  · rcases ended with fails | complete
    · rcases lawful.past_first past with ⟨loose, token, ahead, kind⟩
      rcases fails reader token ahead kind with ⟨fault, after, ran⟩
      rw [ran]
      exact EndAlike.excuse (Or.inl loose) _
    · exact absurd past complete.past

/-- Statements up to a closing token, with what is known about the readers once it is taken.  A
text that goes on where the other one ends must have its block closed before. -/
theorem follows_statementsUntil {item otherItem : Read Node}
    (items : ∀ read, pairing.Follows (pairing.readers read) item otherItem
      (pairing.Finishes read)) {closing : Token.Kind}
    (closed : closing ≠ .endOfFile ∨ pairing.Complete)
    {last : List Node → Reader → Reader → Prop}
    (closes : ∀ read token, token.kind = closing →
      pairing.Follows (pairing.Faces read token (token.renumbered pairing.place)) skip skip
        fun _ _ => last read)
    (notLine : closing ≠ .newLine) (steps more : Nat)
    (equal : ¬ pairing.rule.excused .exhausted → more = 0) (read : List Node) :
    pairing.Follows
      (fun reader otherReader => pairing.lagging read reader otherReader ∨
        pairing.Between read reader otherReader)
      (statementsUntil item closing steps) (statementsUntil otherItem closing (steps + more))
      fun nodes others reader otherReader => pairing.NodeLists nodes others ∧
        last (read ++ Node.eachDeclared nodes) reader otherReader := by
  have ended : ∀ steps,
      (∀ reader token, reader.lexer.ahead = some token → token.kind = .endOfFile →
        ∃ fault after, statementsUntil item closing steps reader = .error fault after) ∨
      pairing.Complete :=
    fun steps => closed.imp_left fun other _ _ ahead kind =>
      statementsUntil_ended ahead kind other steps
  induction steps generalizing read more with
  | zero =>
      rintro reader otherReader (lagging | between)
      · exact follows_lagging_exhausted lawful.catchesUp rfl _ reader otherReader lagging
      · refine follows_between lawful ?_ (ended 0) reader otherReader between
        exact follows_exhausted_of lawful.toLawful _ _ rfl rfl equal
  | succ steps inductionHypothesis =>
      have further : ∀ more, (¬ pairing.rule.excused .exhausted → more = 0) →
          pairing.Follows (pairing.Behind read) (statementsUntil item closing steps)
            (statementsUntil otherItem closing (steps + more))
            fun nodes others reader otherReader => pairing.NodeLists nodes others ∧
              last (read ++ Node.eachDeclared nodes) reader otherReader :=
        fun more equal => (inductionHypothesis more equal read).weaken
          (fun _ _ behind => behind.symm.imp_right Or.inl) fun _ _ _ _ => id
      rintro reader otherReader (lagging | between)
      · rw [Nat.add_assoc]
        exact follows_lagging lawful.catchesUp (statementsUntil_newLine notLine)
          (fun excused => further (1 + more) fun asked => absurd excused asked)
          reader otherReader lagging
      refine follows_between lawful ?_ (ended (steps + 1)) reader otherReader between
      rw [Nat.add_right_comm]
      apply follows_peekKind lawful.toLawful
      intro token other alike
      rcases alike with rfl | ⟨joined, atEnd, broken⟩
      · apply Tracks.ite Iff.rfl
        · intro closing
          apply Tracks.bind (closes read token closing)
          intro _ _
          apply Tracks.pure
          intro reader otherReader holds
          refine ⟨nodeLists_nil, ?_⟩
          rw [Node.eachDeclared, List.append_nil]
          exact holds
        · intro _
          rw [Token.renumbered_kind]
          cases kind : token.kind with
          | newLine =>
              exact Tracks.bind (lawful.breaks read token kind) fun _ _ => further more equal
          | endOfFile =>
              apply follows_faced
              apply follows_next lawful.toLawful
              · intro found _
                exact ⟨_, rfl, rfl⟩
              · intro found _ _
                exact follows_unexpected lawful.toLawful found _
          | _ =>
              apply follows_faced
              apply Pairing.Finishes.bind (items read)
              intro node otherNode nodes
              apply Tracks.bind ((inductionHypothesis more equal (read ++ node.declared)).weaken
                (fun _ _ => Or.inr) fun _ _ _ _ => id)
              intro rest otherRest
              apply Tracks.pure
              rintro reader otherReader ⟨lists, holds⟩
              refine ⟨nodeLists_cons nodes lists, ?_⟩
              rw [Node.eachDeclared, ← List.append_assoc]
              exact holds
      · -- The second text goes on here, which no block of the first one can.
        rcases closed with notEnd | complete
        · rintro reader otherReader ⟨_, ahead, _⟩
          rw [atEnd, if_neg (fun same => notEnd same.symm)]
          simp only
          rw [bind_of_ok (next_of_ahead ahead)]
          exact EndAlike.excuse (Or.inl (lawful.loose joined)) _
        · have same := complete.alike (Or.inr ⟨joined, atEnd, broken⟩)
          rw [same, Token.renumbered_kind, atEnd] at broken
          cases broken

theorem follows_bracedBlock {item otherItem : Read Node}
    (items : ∀ read, pairing.Follows (pairing.readers read) item otherItem
      (pairing.Finishes read)) (steps : Nat) :
    pairing.Follows (pairing.readers read) (bracedBlock item steps)
      (bracedBlock otherItem (steps + pairing.spare))
      (pairing.Adds read Block.declared pairing.Blocks) := by
  have closes : ∀ read token, token.kind = .closeBrace →
      pairing.Follows (pairing.Faces read token (token.renumbered pairing.place)) skip skip
        fun _ _ => pairing.readers read :=
    fun read token kind =>
      follows_taken lawful.toLawful (Pairing.not_stops kind (by decide))
  apply Pairing.Keeps.bind (follows_consume lawful.toLawful (by decide))
  rintro opening _ ⟨rfl, _⟩
  have statements := follows_statementsUntil lawful items (Or.inl (by decide)) closes (by decide)
    steps pairing.spare pairing.spare_eq read
  apply Tracks.bind (statements.weaken (fun _ _ start => Or.inr (Or.inl start)) fun _ _ _ _ => id)
  intro nodes others
  apply Tracks.pure
  rintro reader otherReader ⟨lists, related⟩
  refine ⟨blocks_mk true opening.line lists, ?_⟩
  rw [Block.declared]
  exact related

theorem follows_loop {item otherItem : Read Node}
    (items : ∀ read, pairing.Follows (pairing.readers read) item otherItem
      (pairing.Finishes read)) (steps line : Nat) :
    pairing.Follows (pairing.readers read) (loop names item steps line)
      (loop otherNames otherItem (steps + pairing.spare) (pairing.place line))
      (pairing.Adds read Node.declared pairing.Nodes) := by
  apply Pairing.Keeps.bind (follows_consumeIdentifier lawful.toLawful)
  rintro _ iterator ⟨rfl, _⟩
  apply Pairing.Keeps.bind (follows_consumeKeyword lawful.toLawful "in")
  intro _ _ _
  apply Pairing.Keeps.bind (follows_expression lawful.toLawful steps read)
  intro iterable otherIterable iterables
  apply Pairing.Adds.bind (follows_bracedBlock lawful items steps)
  intro body otherBody bodies
  apply Tracks.pure
  intro reader otherReader related
  refine ⟨nodes_loop iterator line iterables bodies, ?_⟩
  rw [Node.declared]
  exact related

theorem follows_ended {statement otherStatement : Read Node}
    (follows : pairing.Follows (pairing.readers read) statement otherStatement
      (pairing.Adds read Node.declared pairing.Nodes)) :
    pairing.Follows (pairing.readers read) (ended statement) (ended otherStatement)
      (pairing.Finishes read) := by
  apply Pairing.Adds.bind follows
  intro node other nodes
  apply Pairing.Keeps.bind (follows_expectStatementEnd lawful.toLawful)
  intro _ _ _
  exact Tracks.pure fun _ _ related => ⟨nodes, Or.inl related⟩

/-- What follows the `else` of a conditional is read alike. -/
theorem follows_elseBranch {steps : Nat}
    (statements : ∀ read, pairing.Follows (pairing.readers read) (statementWithin names steps)
      (statementWithin otherNames (steps + pairing.spare)) (pairing.Finishes read))
    (conditionals : ∀ read line, pairing.Follows (pairing.readers read)
      (conditionalWithin names steps line)
      (conditionalWithin otherNames (steps + pairing.spare) (pairing.place line))
      (pairing.Finishes read))
    {condition otherCondition : Node} (conditions : pairing.Nodes condition otherCondition)
    {thenBranch otherThen : Block} (thens : pairing.Blocks thenBranch otherThen) (line : Nat) :
    pairing.Follows (pairing.readers (read ++ thenBranch.declared))
      (behindElse names steps condition thenBranch line)
      (behindElse otherNames (steps + pairing.spare) otherCondition otherThen (pairing.place line))
      (pairing.Finishes read) := by
  unfold behindElse
  apply follows_peek lawful.toLawful
  intro chained otherChained alike
  apply Tracks.ite (by rw [alike.isKeyword])
  · intro isIf
    have goesOn := Pairing.not_stops (kind_of_isKeyword isIf) (by decide)
    rw [alike.of_kind fun ended => goesOn (Or.inl ended)]
    apply follows_skip lawful.toLawful goesOn
    apply Pairing.Finishes.bind (conditionals _ chained.line)
    intro nested otherNested nodes
    apply Tracks.pure
    intro reader otherReader between
    constructor
    · apply nodes_conditional line conditions thens
      · rw [Block.anyRenumbered, Block.renumbered, Node.eachRenumbered, Node.eachRenumbered,
          nodes.1]
        rfl
      · rintro _ ⟨⟩
        exact List.forall_mem_singleton.mpr nodes.2
    · rw [List.append_assoc] at between
      rw [Node.declared, Block.anyDeclared, Block.declared, Node.eachDeclared, Node.eachDeclared,
        List.append_nil]
      exact between
  · intro _
    apply follows_faced
    apply Pairing.Adds.bind (follows_bracedBlock lawful statements steps)
    intro elseBranch otherElse elses
    apply Tracks.pure
    intro reader otherReader related
    constructor
    · apply nodes_conditional line conditions thens
      · rw [Block.anyRenumbered, elses.1]
      · rintro _ ⟨⟩
        exact elses.2
    · rw [List.append_assoc] at related
      rw [Node.declared, Block.anyDeclared]
      exact Or.inl related

/-- Both functions hand on their steps less one. -/
theorem follows_statements (steps : Nat) :
    (∀ read, pairing.Follows (pairing.readers read) (statementWithin names steps)
        (statementWithin otherNames (steps + pairing.spare)) (pairing.Finishes read)) ∧
      ∀ read line, pairing.Follows (pairing.readers read) (conditionalWithin names steps line)
        (conditionalWithin otherNames (steps + pairing.spare) (pairing.place line))
        (pairing.Finishes read) := by
  induction steps with
  | zero =>
      constructor
      · intro read
        exact follows_exhausted lawful.toLawful _ _ (by rw [statementWithin])
          (by rw [statementWithin])
      · intro read line
        exact follows_exhausted lawful.toLawful
          (fun steps => conditionalWithin names steps line)
          (fun steps => conditionalWithin otherNames steps (pairing.place line))
          (by rw [conditionalWithin]) (by rw [conditionalWithin])
  | succ steps inductionHypothesis =>
      rcases inductionHypothesis with ⟨statements, conditionals⟩
      rw [Nat.add_right_comm]
      constructor
      · intro read
        rw [statementWithin, statementWithin]
        apply follows_next lawful.toLawful
        · rintro token (stop | stop | stop) <;>
            exact ⟨.unexpectedStatement token, by simp only [stop],
              by simp only [Token.renumbered_kind, stop]; rfl⟩
        · intro token _ known
          have refused : pairing.Follows (pairing.readers read)
              (fail (.unexpectedStatement token))
              (fail (.unexpectedStatement (token.renumbered pairing.place)))
              (pairing.Finishes read) :=
            follows_fail lawful.toLawful (.unexpectedStatement token)
          have flags : ∀ flag, pairing.Follows (pairing.readers read)
              (ended (pure (.flag flag token.line)))
              (ended (pure (.flag flag (pairing.place token.line)))) (pairing.Finishes read) := by
            intro flag
            apply follows_ended lawful
            apply adds_pure
            · exact nodes_of (by rw [Node.renumbered]) trivial (List.forall_mem_nil _)
            · rw [Node.declared]
          rw [Token.renumbered_kind]
          cases kind : token.kind with
          | identifier =>
              exact follows_ended lawful (follows_namedStatement lawful.toLawful steps (known kind))
          | keyword =>
              refine Tracks.ite Iff.rfl (fun _ => conditionals read token.line) fun _ => ?_
              refine Tracks.ite Iff.rfl (fun _ => ?_) fun _ => ?_
              · exact follows_ended lawful (follows_loop lawful statements steps token.line)
              refine Tracks.ite Iff.rfl (fun _ => ?_) fun _ => ?_
              · exact follows_ended lawful
                  (follows_declarations lawful.toLawful lawful.declares steps token.line)
              refine Tracks.ite Iff.rfl (fun _ => flags .break) fun _ => ?_
              exact Tracks.ite Iff.rfl (fun _ => flags .halt) fun _ => refused
          | _ => exact refused
      · intro read line
        rw [conditionalWithin, conditionalWithin]
        apply Pairing.Keeps.bind (follows_expression lawful.toLawful steps read)
        intro condition otherCondition conditions
        apply Pairing.Adds.bind (follows_bracedBlock lawful statements steps)
        intro thenBranch otherThen thens
        have alone : pairing.Nodes (.conditional condition thenBranch none line)
            (.conditional otherCondition otherThen none (pairing.place line)) :=
          nodes_conditional line conditions thens (by rw [Block.anyRenumbered])
            fun _ none => by cases none
        have declared : (Node.conditional condition thenBranch none line).declared =
            thenBranch.declared := by
          rw [Node.declared, Block.anyDeclared, List.append_nil]
        apply Tracks.bind (lawful.skips (read ++ thenBranch.declared) steps)
        intro _ _
        rintro reader otherReader (related | past)
        · revert reader otherReader
          change pairing.Follows (pairing.readers (read ++ thenBranch.declared)) _ _ _
          apply follows_peek lawful.toLawful
          intro follower otherFollower alike
          apply Tracks.ite (by rw [alike.isKeyword])
          · intro isElse
            have keyword := kind_of_isKeyword isElse
            apply follows_skip lawful.toLawful (Pairing.not_stops keyword (by decide))
            exact follows_elseBranch lawful statements conditionals conditions thens line
          · intro _
            apply Tracks.pure
            rintro reader otherReader ⟨related, _⟩
            refine ⟨alone, Or.inl ?_⟩
            rw [declared]
            exact related
        · rcases lawful.past_first past with ⟨_, token, ahead, ended⟩
          rcases lawful.past_second past with ⟨other, otherAhead, notElse⟩
          have ending : ¬ token.isKeyword "else" = true := by simp [Token.isKeyword, ended]
          rw [bind_of_ok (peek_of_ahead ahead), bind_of_ok (peek_of_ahead otherAhead),
            if_neg ending, if_neg (by rw [notElse]; decide)]
          refine ⟨alone, Or.inr ?_⟩
          rw [declared]
          exact past

end Statements

/-- A program is its statements up to the end of the text. -/
theorem program_eq (names : Names) (reader : Reader) :
    program names reader = (do
      let statements ← statementsUntil (statementWithin names reader.allowance) .endOfFile
        reader.allowance
      pure (Program.mk (.mk false statements 1)) : Read Program) reader := by
  have read : block names .endOfFile false 1 reader = (do
      let statements ← statementsUntil (statementWithin names reader.allowance) .endOfFile
        reader.allowance
      pure (Block.mk false statements 1) : Read Block) reader := rfl
  unfold program
  cases ran : statementsUntil (statementWithin names reader.allowance) .endOfFile
      reader.allowance reader with
  | ok statements after =>
      rw [bind_of_ok ran] at read ⊢
      rw [bind_of_ok read]
  | error fault after =>
      rw [bind_of_error ran] at read ⊢
      exact bind_of_error read

end Reader
end Scriptlet
