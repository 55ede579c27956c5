import Mathlib
import Scriptlet.Proofs.Allowance
import Scriptlet.Proofs.Shape

namespace Scriptlet

/-!
# Operator precedence

How a chain of operands and operators has to be grouped is said without any reading: the
operator at the root is the leftmost one of those that bind most loosely, and on both sides of
it the same rule holds.  There is only one tree of this kind.

The reader goes through the ranks from the tightest to the loosest.  What carries the proof is
an invariant of that walk: between two ranks, everything that binds more tightly has been
grouped, and the next operator does not bind more tightly.  Then a rank finds no operator of
another rank than its own, and what its right operand takes in is all that binds at most as
loosely.

The first part knows nothing of operands but that they can be read.  Which ones can is said of
atoms afterwards.
-/

/-! ## Grouping -/

/-- An operator and the operand behind it. -/
abbrev Link : Type :=
  BinaryOperator × Node

/-- The tree of an operand and the links behind it.  The root is the leftmost operator of the
loosest rank, and its line is that of the first operand. -/
inductive Grouped : Node → List Link → Node → Prop
  | single (first : Node) : Grouped first [] first
  | split {first next left right : Node} {before after : List Link} {operator : BinaryOperator} :
      (∀ link ∈ before, link.1.rank < operator.rank) →
      (∀ link ∈ after, link.1.rank ≤ operator.rank) →
      Grouped first before left → Grouped next after right →
      Grouped first (before ++ (operator, next) :: after) (.binary operator left right first.line)

/-- The operators of a link and of the links before and behind it, if it is the root. -/
structure Root (before : List Link) (link : Link) (after : List Link) : Prop where
  tighter : ∀ other ∈ before, other.1.rank < link.1.rank
  noLooser : ∀ other ∈ after, other.1.rank ≤ link.1.rank

namespace Root

variable {before after otherBefore otherAfter : List Link} {link other : Link}

/-- A root does not stand behind another one: each would have to bind more loosely. -/
theorem not_behind (root : Root before link after) {between : List Link}
    (otherRoot : Root (before ++ link :: between) other otherAfter)
    (same : after = between ++ other :: otherAfter) : False := by
  have lower := otherRoot.tighter link (List.mem_append_right before List.mem_cons_self)
  have higher := root.noLooser other (same ▸ List.mem_append_right between List.mem_cons_self)
  omega

theorem unique (root : Root before link after) (otherRoot : Root otherBefore other otherAfter)
    (same : before ++ link :: after = otherBefore ++ other :: otherAfter) :
    before = otherBefore ∧ link = other ∧ after = otherAfter := by
  rcases List.append_eq_append_iff.mp same with ⟨more, rfl, rest⟩ | ⟨more, rfl, rest⟩
  · cases more with
    | nil =>
        rw [List.nil_append, List.cons.injEq] at rest
        exact ⟨(List.append_nil before).symm, rest.1, rest.2⟩
    | cons first between =>
        rw [List.cons_append, List.cons.injEq] at rest
        rcases rest with ⟨rfl, rest⟩
        exact (root.not_behind otherRoot rest).elim
  · cases more with
    | nil =>
        rw [List.nil_append, List.cons.injEq] at rest
        exact ⟨List.append_nil otherBefore, rest.1.symm, rest.2.symm⟩
    | cons first between =>
        rw [List.cons_append, List.cons.injEq] at rest
        rcases rest with ⟨rfl, rest⟩
        exact (otherRoot.not_behind root rest).elim

end Root

namespace Grouped

variable {first tree other : Node} {links : List Link}

theorem line_eq (grouped : Grouped first links tree) : tree.line = first.line := by
  cases grouped <;> rfl

/-- A chain is grouped in one way only. -/
theorem unique (grouped : Grouped first links tree) (otherGrouped : Grouped first links other) :
    tree = other := by
  induction grouped generalizing other with
  | single first =>
      generalize none : ([] : List Link) = links at otherGrouped
      cases otherGrouped with
      | single => rfl
      | split => simp at none
  | @split first next left right before after operator tighter noLooser _ _ lefts rights =>
      generalize whole : before ++ (operator, next) :: after = links at otherGrouped
      cases otherGrouped with
      | single => simp at whole
      | split otherTighter otherNoLooser otherLeft otherRight =>
          have root : Root before (operator, next) after := ⟨tighter, noLooser⟩
          rcases root.unique ⟨otherTighter, otherNoLooser⟩ whole with ⟨rfl, link, rfl⟩
          cases link
          rw [lefts otherLeft, rights otherRight]

end Grouped

namespace Reader

/-! ## Climbing -/

theorem ahead_of_peek {reader after : Reader} {token : Token}
    (looked : peek reader = .ok token after) : after.lexer.ahead = some token := by
  obtain ⟨lexer, _, rfl⟩ := lexer_of_peek looked
  rfl

/-- To look again changes nothing. -/
theorem peek_again {reader after : Reader} {token : Token}
    (looked : peek reader = .ok token after) : peek after = .ok token after :=
  peek_of_ahead (ahead_of_peek looked)

/-- A token that can be taken can be looked at first. -/
theorem peek_then_skip {reader after : Reader} {token : Token}
    (took : next reader = .ok token after) :
    ∃ ahead, peek reader = .ok token ahead ∧ skip ahead = .ok () after := by
  obtain ⟨lexer, ran, rfl⟩ := lexer_of_next took
  exact ⟨_, peek_of_ok reader ran, skip_ahead ran reader.arguments⟩

/-- With steps enough for what is left to read, the node is read as an operand, and then the
reader with a token ahead is found. -/
def ReadsOperand (names : Names) (room : Nat) (reader : Reader) (node : Node) (ahead : Reader) :
    Prop :=
  ∀ steps, 2 * room + 1 ≤ steps →
    ∃ between token, factor names steps reader = .ok node between ∧ peek between = .ok token ahead

/-- The reader has looked at the next operator of a chain, or at the token that ends it. -/
inductive Standing (names : Names) (room : Nat) (final : Reader) : Reader → List Link → Prop
  | ended {token : Token} : peek final = .ok token final → operator? token = none →
      Standing names room final final []
  | link {reader between ahead : Reader} {token : Token} {operator : BinaryOperator} {node : Node}
      {rest : List Link} : peek reader = .ok token reader → operator? token = some operator →
      skip reader = .ok () between → ReadsOperand names room between node ahead →
      Standing names room final ahead rest →
      Standing names room final reader ((operator, node) :: rest)

/-- What has been read is the tree of the links up to the first operator that does not rank
below the given rank, and the reader stands in front of that one. -/
def Groups (names : Names) (room : Nat) (final : Reader) (first : Node) (links : List Link)
    (rank : Nat) (ending : EStateM.Result Fault Reader Node) : Prop :=
  ∃ tree taken rest ahead, ending = .ok tree ahead ∧ links = taken ++ rest ∧
    Grouped first taken tree ∧ (∀ link ∈ taken, link.1.rank < rank) ∧
    (∀ link ∈ rest.head?, rank ≤ link.1.rank) ∧ Standing names room final ahead rest

section Climbing

variable {names : Names} {room : Nat} {final : Reader}

/-- Each rank adds the operator of the rank below it, if that one is next.  The invariant is
that what was taken ranks below `rank` and what comes next does not. -/
theorem extend_groups {steps bound : Nat}
    (operands : ∀ {reader node ahead links rank}, ReadsOperand names room reader node ahead →
      Standing names room final ahead links → 0 < rank → links.length < bound →
      Groups names room final node links rank (ranked names steps rank reader))
    (count rank : Nat) {first left : Node} {taken rest : List Link} {ahead : Reader}
    (grouped : Grouped first taken left) (below : ∀ link ∈ taken, link.1.rank < rank)
    (least : ∀ link ∈ rest.head?, rank ≤ link.1.rank)
    (standing : Standing names room final ahead rest) (few : rest.length ≤ bound) :
    Groups names room final first (taken ++ rest) (rank + count)
      (extend (ranked names steps) left (List.range' (rank + 1) count) ahead) := by
  induction count generalizing rank left taken rest ahead with
  | zero => exact ⟨left, taken, rest, ahead, rfl, rfl, grouped, below, least, standing⟩
  | succ count inductionHypothesis =>
      rw [List.range'_succ, extend, ← Nat.add_assoc, Nat.add_right_comm]
      cases standing with
      | ended looked none =>
          rw [bind_of_ok looked]
          simp only [none]
          refine ⟨left, taken, [], final, rfl, rfl, grouped, ?_, ?_, .ended looked none⟩
          · exact fun link member => Nat.lt_of_lt_of_le (below link member) (by omega)
          · rintro link ⟨⟩
      | @link _ between after token operator node others looked found skipped reads goesOn =>
          have atLeast : rank ≤ operator.rank := least (operator, node) rfl
          rw [bind_of_ok looked]
          simp only [found]
          by_cases lower : operator.rank < rank + 1
          · have exact : operator.rank = rank := by omega
            rcases operands reads goesOn (Nat.succ_pos rank) few with
              ⟨right, more, later, last, ran, rfl, rightGrouped, under, atMost, remains⟩
            have whole : Grouped first (taken ++ (operator, node) :: more)
                (.binary operator left right left.line) := by
              rw [grouped.line_eq]
              refine .split ?_ ?_ grouped rightGrouped
              · rwa [exact]
              · rw [exact]
                exact fun link member => Nat.le_of_lt_succ (under link member)
            have parts : taken ++ (operator, node) :: (more ++ later) =
                (taken ++ (operator, node) :: more) ++ later := by
              rw [List.append_assoc, List.cons_append]
            rw [if_pos lower, bind_of_ok skipped, bind_of_ok ran, parts]
            refine inductionHypothesis (rank + 1) whole ?_ atMost remains ?_
            · intro link member
              rcases List.mem_append.mp member with early | inside
              · exact Nat.lt_succ_of_lt (below link early)
              · rcases List.mem_cons.mp inside with rfl | late
                · exact lower
                · exact under link late
            · rw [List.length_cons, List.length_append] at few
              omega
          · rw [if_neg lower]
            refine inductionHypothesis (rank + 1) grouped ?_ ?_
              (.link looked found skipped reads goesOn) few
            · exact fun link member => Nat.lt_succ_of_lt (below link member)
            · rintro link ⟨⟩
              exact Nat.le_of_not_lt lower

theorem ranksTo_eq (rank : Nat) : ranksTo rank = List.range' 1 rank := by
  unfold ranksTo
  rw [List.range'_eq_map_range]
  exact List.map_congr_left fun index _ => Nat.add_comm index 1

/-- An expression of a rank is the tree of the links that rank below it. -/
theorem ranked_groups (steps : Nat) {reader ahead : Reader} {node : Node} {links : List Link}
    {rank : Nat} (reads : ReadsOperand names room reader node ahead)
    (standing : Standing names room final ahead links) (positive : 0 < rank)
    (enough : 2 * room + 2 + links.length ≤ steps) :
    Groups names room final node links rank (ranked names steps rank reader) := by
  induction steps generalizing reader ahead node links rank with
  | zero => omega
  | succ steps inductionHypothesis =>
      rcases reads steps (by omega) with ⟨between, token, read, looked⟩
      have operands {reader node ahead others rank}
          (reads : ReadsOperand names room reader node ahead)
          (standing : Standing names room final ahead others) (positive : 0 < rank)
          (few : others.length < links.length) :
          Groups names room final node others rank (ranked names steps rank reader) :=
        inductionHypothesis reads standing positive (by omega)
      have climbed := extend_groups operands rank 0 (.single node) (List.forall_mem_nil _)
        (fun _ _ => Nat.zero_le _) standing (Nat.le_refl _)
      obtain ⟨less, rfl⟩ : ∃ less, rank = less + 1 := ⟨rank - 1, by omega⟩
      rw [ranked, bind_of_ok read, ranksTo_eq]
      rw [List.range'_succ, extend] at climbed ⊢
      rw [bind_of_ok looked]
      rw [bind_of_ok (peek_again looked), Nat.zero_add] at climbed
      exact climbed

theorem rank_lt_expressionRank (operator : BinaryOperator) : operator.rank < expressionRank := by
  cases operator <;> decide

/-- What an expression reads is read with any number of steps that is enough, and something is
taken. -/
theorem ranked_of_expression {reader after : Reader} {tree : Node}
    (read : expression names reader = .ok tree after) :
    after.lexer.unread + 1 ≤ reader.lexer.unread ∧
      ∀ steps, 2 * reader.lexer.unread + 2 ≤ steps →
        ranked names steps expressionRank reader = .ok tree after := by
  have ample := (ample_expression 0 names (allowance_enough reader) reader trivial
    (Nat.le_refl _)).2
  have ran : ranked names reader.allowance expressionRank reader = .ok tree after := read
  rw [ran] at ample
  exact ⟨ample, fun steps enough => (ranked_eq_expression enough).trans read⟩

/-- An expression is the tree of all the links. -/
theorem expression_of_standing {reader ahead : Reader} {first : Node} {links : List Link}
    (reads : ReadsOperand names reader.lexer.unread reader first ahead)
    (standing : Standing names reader.lexer.unread final ahead links) :
    ∃ tree, Grouped first links tree ∧ expression names reader = .ok tree final := by
  -- The reader's own allowance and some more steps for the links are as good as the allowance.
  have ample := ample_expression links.length names (allowance_enough reader) reader trivial
    (Nat.le_refl _)
  have enough := allowance_enough reader
  have positive : 0 < expressionRank := by decide
  rcases ranked_groups (reader.allowance + links.length) reads standing positive (by omega) with
    ⟨tree, taken, rest, last, ran, rfl, grouped, _, atLeast, remains⟩
  cases remains with
  | ended =>
      rw [List.append_nil] at ample ran ⊢
      exact ⟨tree, grouped, ample.1.symm.trans ran⟩
  | link =>
      have loose := atLeast _ rfl
      exact absurd (rank_lt_expressionRank _) (Nat.not_lt_of_le loose)

end Climbing

/-! ## Atoms -/

/-- The number that a numeral stands for. -/
def numeralValue (token : Token) : Float :=
  (Number.read? token.text.toList).getD Number.undefined

/-- The runs of digits between the points of a range token. -/
def digitRuns (token : Token) : List (List Char) :=
  (Text.pieces '.' token.text.toList).filter fun piece => !piece.isEmpty

/-- The literal of a run of digits. -/
def wholeLiteral (line : Nat) (digits : List Char) : Node :=
  .literal (.number (Number.ofInt (Number.decimalValue digits))) line

/-- The node of an atom, and its last token: literals, ranges with two bounds that are not too
large, names that are no functions, and expressions in parentheses. -/
inductive Atom (names : Names) : Reader → Node → Token → Reader → Prop
  | number {reader after : Reader} {token : Token} :
      next reader = .ok token after → token.kind = .number →
      Atom names reader (.literal (.number (numeralValue token)) token.line) token after
  | text {reader after : Reader} {token : Token} :
      next reader = .ok token after → token.kind = .string →
      Atom names reader (.literal (.text token.text) token.line) token after
  | truth {reader after : Reader} {token : Token} (b : Bool) :
      next reader = .ok token after → token.kind = .keyword → token.text = Value.truthText b →
      Atom names reader (.literal (.truth b) token.line) token after
  | range {reader after : Reader} {token : Token} {first last : List Char} :
      next reader = .ok token after → token.kind = .range → digitRuns token = [first, last] →
      Number.decimalValue first ≤ Number.largestWhole →
      Number.decimalValue last ≤ Number.largestWhole →
      Atom names reader
        (.range (wholeLiteral token.line first) (wholeLiteral token.line last) token.line) token
        after
  | name {reader after : Reader} {token : Token} :
      next reader = .ok token after → token.kind = .identifier → names token.text = false →
      Atom names reader (.variable token.text token.line) token after
  | parenthesized {reader inside before after : Reader} {opening closing : Token} {inner : Node} :
      next reader = .ok opening inside → opening.kind = .openParen →
      expression names inside = .ok inner before →
      next before = .ok closing after → closing.kind = .closeParen →
      Atom names reader inner closing after

/-- Operators with atoms behind them.  The last token in front of them is given, and the last
one of them. -/
inductive Chain (names : Names) : Reader → Token → List Link → Reader → Token → Prop
  | nil {reader : Reader} {last : Token} : Chain names reader last [] reader last
  | cons {reader between after behind : Reader} {before token last ending : Token}
      {operator : BinaryOperator} {node : Node} {rest : List Link} :
      next reader = .ok token between → operator? token = some operator →
      Atom names between node last after → Chain names after last rest behind ending →
      Chain names reader before ((operator, node) :: rest) behind ending

/-- The token takes up the name in front of it, as the receiver of a method or as the first bound
of a range. -/
def Continues (last follower : Token) : Prop :=
  last.kind = .identifier ∧ (follower.kind = .dot ∨
    follower.kind = .range ∧ follower.text.toList.all (· = '.') = true)

theorem not_continues_of_operator {last token : Token} {operator : BinaryOperator}
    (found : operator? token = some operator) : ¬ Continues last token := by
  rintro ⟨_, dot | ⟨range, _⟩⟩
  · rw [operator?, dot] at found
    cases found
  · rw [operator?, range] at found
    cases found

theorem lawful_next {reader after : Reader} {token : Token} (lawful : reader.Lawful)
    (took : next reader = .ok token after) : token.Lawful ∧ after.Lawful := by
  have yields := yields_next reader lawful
  rwa [took] at yields

theorem unread_of_next {reader after : Reader} {token : Token}
    (took : next reader = .ok token after) :
    after.lexer.unread + (if token.kind = .endOfFile then 0 else 1) ≤ reader.lexer.unread := by
  obtain ⟨lexer, ran, rfl⟩ := lexer_of_next took
  exact Lexer.unread_next ran

theorem rangeBound_of_le {digits : List Char} (line : Nat)
    (small : Number.decimalValue digits ≤ Number.largestWhole) :
    rangeBound line digits = .ok (wholeLiteral line digits) := by
  have bound : (Number.decimalValue digits : Int).natAbs ≤ Number.largestWhole := small
  simp only [rangeBound, Number.ofInt?, if_pos bound, wholeLiteral]

theorem rangeBound_of_lt {digits : List Char} (line : Nat)
    (large : Number.largestWhole < Number.decimalValue digits) :
    rangeBound line digits = .error (.invalidNumber (String.ofList digits) line) := by
  have bound : ¬ (Number.decimalValue digits : Int).natAbs ≤ Number.largestWhole :=
    Nat.not_le_of_lt large
  simp only [rangeBound, Number.ofInt?, if_neg bound]

theorem rangeBounds_of_runs {token : Token} {first last : List Char}
    (runs : digitRuns token = [first, last])
    (small : Number.decimalValue first ≤ Number.largestWhole)
    (otherSmall : Number.decimalValue last ≤ Number.largestWhole) :
    rangeBounds token = .ok [wholeLiteral token.line first, wholeLiteral token.line last] := by
  unfold digitRuns at runs
  unfold rangeBounds
  rw [runs, List.mapM_cons, rangeBound_of_le token.line small, List.mapM_cons,
    rangeBound_of_le token.line otherSmall, List.mapM_nil]
  rfl

theorem rangeLiteral_of_runs {token : Token} {first last : List Char}
    (runs : digitRuns token = [first, last])
    (small : Number.decimalValue first ≤ Number.largestWhole)
    (otherSmall : Number.decimalValue last ≤ Number.largestWhole) (expression : Read Node)
    (reader : Reader) :
    rangeLiteral expression token reader =
      .ok (.range (wholeLiteral token.line first) (wholeLiteral token.line last) token.line)
        reader := by
  unfold rangeLiteral
  rw [rangeBounds_of_runs runs small otherSmall]
  rfl

theorem numberLiteral_of_numeral {token : Token} (numeral : Token.IsNumeral token.text.toList)
    (reader : Reader) :
    numberLiteral token reader =
      .ok (.literal (.number (numeralValue token)) token.line) reader := by
  rcases Number.read?_isNumeral numeral with ⟨magnitude, _, reads⟩
  unfold numberLiteral numeralValue
  rw [reads]
  rfl

theorem truthLiteral_of_word {token : Token} {b : Bool} (word : token.text = Value.truthText b)
    (reader : Reader) :
    truthLiteral token reader = .ok (.literal (.truth b) token.line) reader := by
  unfold truthLiteral
  rw [word]
  cases b <;> rfl

theorem lawful_of_expression {names : Names} {reader after : Reader} {tree : Node}
    (lawful : reader.Lawful) (read : expression names reader = .ok tree after) :
    after.Lawful := by
  have yields := yields_ranked names reader.allowance expressionRank reader lawful
  have ran : ranked names reader.allowance expressionRank reader = .ok tree after := read
  rw [ran] at yields
  exact yields.2

/-- A name that nothing takes up is a variable, and what follows it has been looked at. -/
theorem named_of_apart {names : Names} {expression : Read Node} {steps : Nat}
    {reader ahead : Reader} {token follower : Token} (kind : token.kind = .identifier)
    (noFunction : names token.text = false) (looked : peek reader = .ok follower ahead)
    (apart : ¬ Continues token follower) :
    named names expression steps token reader = .ok (.variable token.text token.line) ahead := by
  have notDot : follower.kind ≠ .dot := fun dot => apart ⟨kind, Or.inl dot⟩
  rw [named, if_neg (by rw [noFunction]; decide), bind_of_ok looked]
  cases found : follower.kind with
  | range =>
      have bounded : ¬ follower.text.toList.all (· = '.') = true :=
        fun points => apart ⟨kind, Or.inr ⟨found, points⟩⟩
      simp only [if_neg bounded]
      rfl
  | dot => exact absurd found notDot
  | _ => rfl

theorem consume_of_next {reader after : Reader} {token : Token}
    (took : next reader = .ok token after) : consume token.kind reader = .ok token after := by
  rw [consume, bind_of_ok took, if_pos rfl]
  rfl

namespace Atom

variable {names : Names} {reader after : Reader} {node : Node} {last : Token}

theorem lawful (atom : Atom names reader node last after) (lawful : reader.Lawful) :
    after.Lawful := by
  cases atom with
  | number took | text took | truth _ took | range took | name took =>
      exact (lawful_next lawful took).2
  | parenthesized took _ read closes =>
      exact (lawful_next (lawful_of_expression (lawful_next lawful took).2 read) closes).2

theorem unread_le (atom : Atom names reader node last after) :
    after.lexer.unread ≤ reader.lexer.unread := by
  cases atom with
  | number took | text took | truth _ took | range took | name took =>
      exact Nat.le_trans (Nat.le_add_right _ _) (unread_of_next took)
  | parenthesized took _ read closes =>
      have opened := unread_of_next took
      have inner := (ranked_of_expression read).1
      have closed := unread_of_next closes
      omega

/-- An atom is read as an operand, if what follows it does not take up its name. -/
theorem readsOperand (atom : Atom names reader node last after) (isLawful : reader.Lawful)
    {room : Nat} (enough : reader.lexer.unread ≤ room) {follower : Token} {ahead : Reader}
    (looked : peek after = .ok follower ahead) (apart : ¬ Continues last follower) :
    ReadsOperand names room reader node ahead := by
  intro steps least
  obtain ⟨steps, rfl⟩ : ∃ less, steps = less + 1 := ⟨steps - 1, by omega⟩
  rw [factor]
  cases atom with
  | number took kind =>
      have numeral := (lawful_next isLawful took).1
      rw [Token.Lawful, kind] at numeral
      refine ⟨after, follower, ?_, looked⟩
      rw [bind_of_ok took]
      simp only [kind]
      exact numberLiteral_of_numeral numeral after
  | text took kind =>
      refine ⟨after, follower, ?_, looked⟩
      rw [bind_of_ok took]
      simp only [kind]
      rfl
  | truth b took kind word =>
      refine ⟨after, follower, ?_, looked⟩
      rw [bind_of_ok took]
      simp only [kind]
      exact truthLiteral_of_word word after
  | range took kind runs small otherSmall =>
      refine ⟨after, follower, ?_, looked⟩
      rw [bind_of_ok took]
      simp only [kind]
      exact rangeLiteral_of_runs runs small otherSmall _ after
  | name took kind noFunction =>
      refine ⟨ahead, follower, ?_, peek_again looked⟩
      rw [bind_of_ok took]
      simp only [kind]
      exact named_of_apart kind noFunction looked apart
  | parenthesized took kind read closes closing =>
      refine ⟨after, follower, ?_, looked⟩
      have opened := unread_of_next took
      rw [kind, if_neg (by decide)] at opened
      have inner := (ranked_of_expression read).2 steps (by omega)
      have closed := consume_of_next closes
      rw [closing] at closed
      rw [bind_of_ok took]
      simp only [kind]
      rw [bind_of_ok inner, bind_of_ok closed]
      rfl

end Atom

/-- A chain that ends where no operator follows, seen from the token in front of each of its
operators. -/
theorem Chain.standing {names : Names} {start behind final : Reader} {last ending follower : Token}
    {links : List Link} (chain : Chain names start last links behind ending)
    (lawful : start.Lawful) {room : Nat} (enough : start.lexer.unread ≤ room)
    (followed : peek behind = .ok follower final) (noOperator : operator? follower = none)
    (apart : ¬ Continues ending follower) :
    ∃ token ahead, peek start = .ok token ahead ∧ ¬ Continues last token ∧
      Standing names room final ahead links := by
  induction chain with
  | nil => exact ⟨follower, final, followed, apart, .ended (peek_again followed) noOperator⟩
  | cons took found atom _ inductionHypothesis =>
      have inside := (lawful_next lawful took).2
      have room := Nat.le_trans (Nat.le_of_add_right_le (unread_of_next took)) enough
      rcases inductionHypothesis (atom.lawful inside) (Nat.le_trans atom.unread_le room) followed
          apart with ⟨token, ahead, looked, separate, standing⟩
      rcases peek_then_skip took with ⟨before, lookedBefore, skipped⟩
      exact ⟨_, before, lookedBefore, not_continues_of_operator found,
        .link (peek_again lookedBefore) found skipped
          (atom.readsOperand inside room looked separate) standing⟩

/-- A chain of atoms and operators that is followed by a token that is no operator, and that does
not take up a name at its end, is read as an expression.  Exactly the chain is taken, the token
behind it has been looked at, and the tree is the one that the chain is grouped as. -/
theorem expression_grouped {names : Names} {reader start behind final : Reader} {first : Node}
    {links : List Link} {last ending follower : Token} (lawful : reader.Lawful)
    (atom : Atom names reader first last start)
    (chain : Chain names start last links behind ending)
    (followed : peek behind = .ok follower final) (noOperator : operator? follower = none)
    (apart : ¬ Continues ending follower) :
    ∃ tree, expression names reader = .ok tree final ∧
      ∀ other, Grouped first links other ↔ other = tree := by
  rcases chain.standing (atom.lawful lawful) atom.unread_le followed noOperator apart with
    ⟨token, ahead, looked, separate, standing⟩
  have reads := atom.readsOperand lawful (Nat.le_refl _) looked separate
  rcases expression_of_standing reads standing with ⟨tree, grouped, read⟩
  refine ⟨tree, read, fun other => ⟨fun alike => alike.unique grouped, ?_⟩⟩
  rintro rfl
  exact grouped

/-- The reader in front of a text. -/
def before (text : String) : Reader :=
  ⟨.ofSource text, ⟨[], {}⟩⟩

/-- Two operators of one rank group to the right, around one that binds more tightly. -/
theorem expression_grouped_right :
    ∃ final, expression (fun _ => false) (before "a - b * (c) - 1..2") =
      .ok (.binary .subtract (.variable "a" 1)
        (.binary .subtract (.binary .multiply (.variable "b" 1) (.variable "c" 1) 1)
          (.range (wholeLiteral 1 ['1']) (wholeLiteral 1 ['2']) 1) 1) 1) final := by
  have lawful : (before "a - b * (c) - 1..2").Lawful := fun _ none => by cases none
  have first : next (before "a - b * (c) - 1..2") =
      .ok ⟨.identifier, "a", 1⟩ (before " - b * (c) - 1..2") := by cbv
  have minus : next (before " - b * (c) - 1..2") =
      .ok ⟨.minus, "-", 1⟩ (before " b * (c) - 1..2") := by cbv
  have second : next (before " b * (c) - 1..2") =
      .ok ⟨.identifier, "b", 1⟩ (before " * (c) - 1..2") := by cbv
  have times : next (before " * (c) - 1..2") =
      .ok ⟨.binaryOperator, "*", 1⟩ (before " (c) - 1..2") := by cbv
  have opens : next (before " (c) - 1..2") =
      .ok ⟨.openParen, "(", 1⟩ (before "c) - 1..2") := by cbv
  have inner : expression (fun _ => false) (before "c) - 1..2") =
      .ok (.variable "c" 1)
        ⟨⟨⟨" - 1..2".toList, 1⟩, some ⟨.closeParen, ")", 1⟩⟩, ⟨[], {}⟩⟩ := by cbv
  have closes : next ⟨⟨⟨" - 1..2".toList, 1⟩, some ⟨.closeParen, ")", 1⟩⟩, ⟨[], {}⟩⟩ =
      .ok ⟨.closeParen, ")", 1⟩ (before " - 1..2") := rfl
  have otherMinus : next (before " - 1..2") = .ok ⟨.minus, "-", 1⟩ (before " 1..2") := by cbv
  have range : next (before " 1..2") = .ok ⟨.range, "1..2", 1⟩ (before "") := by cbv
  have ends : peek (before "") =
      .ok ⟨.endOfFile, "", 1⟩ ⟨⟨⟨[], 1⟩, some ⟨.endOfFile, "", 1⟩⟩, ⟨[], {}⟩⟩ := by cbv
  have runs : digitRuns ⟨.range, "1..2", 1⟩ = [['1'], ['2']] := by decide
  have small : Number.decimalValue ['1'] ≤ Number.largestWhole := by
    rw [Number.decimalValue_eq_foldl]
    decide
  have otherSmall : Number.decimalValue ['2'] ≤ Number.largestWhole := by
    rw [Number.decimalValue_eq_foldl]
    decide
  have isMinus : operator? ⟨.minus, "-", 1⟩ = some .subtract := by decide
  have isTimes : operator? ⟨.binaryOperator, "*", 1⟩ = some .multiply := by decide
  rcases expression_grouped lawful (.name first rfl rfl)
      (.cons minus isMinus (.name second rfl rfl)
        (.cons times isTimes (.parenthesized opens rfl inner closes rfl)
          (.cons otherMinus isMinus (.range range rfl runs small otherSmall) .nil)))
      ends rfl (by rintro ⟨identifier, _⟩; cases identifier) with ⟨tree, read, grouped⟩
  have product : Grouped (.variable "b" 1) ([] ++ (.multiply, .variable "c" 1) :: []) _ :=
    .split (List.forall_mem_nil _) (List.forall_mem_nil _) (.single _) (.single _)
  have right : Grouped (.variable "b" 1) ([(.multiply, .variable "c" 1)] ++
      (.subtract, .range (wholeLiteral 1 ['1']) (wholeLiteral 1 ['2']) 1) :: []) _ :=
    .split (by decide) (List.forall_mem_nil _) product (.single _)
  have whole : Grouped (.variable "a" 1) ([] ++ (.subtract, .variable "b" 1) ::
      [(.multiply, .variable "c" 1),
        (.subtract, .range (wholeLiteral 1 ['1']) (wholeLiteral 1 ['2']) 1)]) _ :=
    .split (List.forall_mem_nil _) (by decide) (.single _) right
  exact ⟨_, read.trans (by rw [← (grouped _).mp whole]; rfl)⟩

/-- An expression fails by the fault of a range literal that it starts with, and nothing behind
that literal is read. -/
theorem expression_of_refused {names : Names} {reader after : Reader} {token : Token}
    {fault : SyntaxFault} (took : next reader = .ok token after) (kind : token.kind = .range)
    (refused : rangeBounds token = .error fault) :
    expression names reader = .error (.source fault) after := by
  obtain ⟨steps, enough⟩ : ∃ steps, reader.allowance = steps + 2 :=
    ⟨reader.allowance - 2, by have least := allowance_enough reader; omega⟩
  have literal : rangeLiteral (ranked names steps expressionRank) token after =
      .error (.source fault) after := by
    unfold rangeLiteral
    rw [refused]
    rfl
  have operand : factor names (steps + 1) reader = .error (.source fault) after := by
    rw [factor, bind_of_ok took]
    simp only [kind]
    exact literal
  change ranked names reader.allowance expressionRank reader = _
  rw [enough, ranked, bind_of_error operand]

/-- The last bound of the range is one more than the largest whole number, so no expression is
read, though operands and operators alternate up to the end. -/
theorem expression_ungrouped :
    let range : Token := ⟨.range, "1..9007199254740992", 1⟩
    let start := before "1..9007199254740992 + 2"
    next start = .ok range (before " + 2") ∧
      digitRuns range = ["1".toList, "9007199254740992".toList] ∧
      next (before " + 2") = .ok ⟨.binaryOperator, "+", 1⟩ (before " 2") ∧
      next (before " 2") = .ok ⟨.number, "2", 1⟩ (before "") ∧
      next (before "") = .ok ⟨.endOfFile, "", 1⟩ (before "") ∧
      expression (fun _ => false) start =
        .error (.source (.invalidNumber "9007199254740992" 1)) (before " + 2") := by
  intro range start
  have took : next start = .ok range (before " + 2") := by cbv
  have runs : digitRuns range = ["1".toList, "9007199254740992".toList] := by cbv
  have small : Number.decimalValue "1".toList ≤ Number.largestWhole := by
    rw [Number.decimalValue_eq_foldl]
    decide
  have large : Number.largestWhole < Number.decimalValue "9007199254740992".toList := by
    rw [Number.decimalValue_eq_foldl]
    decide
  have refused : rangeBounds range = .error (.invalidNumber "9007199254740992" 1) := by
    unfold digitRuns at runs
    unfold rangeBounds
    rw [runs, List.mapM_cons, rangeBound_of_le range.line small, List.mapM_cons,
      rangeBound_of_lt range.line large]
    rfl
  exact ⟨took, runs, by cbv, by cbv, by cbv, expression_of_refused took rfl refused⟩

end Reader
end Scriptlet
