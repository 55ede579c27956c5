import Scriptlet.Proofs.OutlineLines
import Scriptlet.Proofs.Renumbering
import Scriptlet.Proofs.Shape
import Scriptlet.Proofs.SpelledDoubles
import Scriptlet.Proofs.Writing

namespace Scriptlet

/-!
# Programs from their outlines

The outline of a program shows everything but the lines.  The first word of a label tells what
the node is, and what follows the word is a name, an operator, a literal or the mark of a frame.
Quotes keep a text apart from a number and from a truth value, and no name has a point in it, so
that the point in the label of a method call ends the receiver.

What has to be excluded are literals that the host has put there by a declaration and that are not
shown in full: lists and objects, and texts that go over several lines.
-/

/-- The literals that an outline shows on one line, and in full. -/
inductive Value.IsShown : Value → Prop
  | number (x : Float) : IsShown (.number x)
  | truth (b : Bool) : IsShown (.truth b)
  | text {s : String} : '\n' ∉ s.toList → IsShown (.text s)

namespace Node

/-- The node is no literal that would not be shown in full. -/
def ShowsLiteral : Node → Prop
  | .literal value _ => value.IsShown
  | _ => True

/-- The names in a node are names that can be written. -/
def HasNames : Node → Prop
  | .variable name _ | .assignment name _ _ | .call name _ _ | .loop name _ _ _ =>
      Token.IsName name
  | .methodCall receiver method _ _ => Token.IsName receiver ∧ Token.IsName method
  | _ => True

/-- All that the node itself shows can be read off its label. -/
def IsLegible (node : Node) : Prop :=
  node.ShowsLiteral ∧ node.HasNames

end Node

/-! ## Names -/

theorem Token.IsName.notMem {name : String} (isName : Token.IsName name) {c : Char}
    (foreign : Lexeme.continuesWord c = false) : c ∉ name.toList := by
  rcases isName.word with ⟨first, others, spelled, starts, continues⟩
  rw [spelled, List.mem_cons, not_or]
  constructor
  · rintro rfl
    rw [Lexeme.startsWord_continues starts] at foreign
    cases foreign
  · intro member
    rw [continues c member] at foreign
    cases foreign

theorem Token.IsName.single {name : String} (isName : Token.IsName name) : '\n' ∉ name.toList :=
  isName.notMem (by decide +kernel)

namespace Node

variable {names : Reader.Names}

theorem hasNames_rangeStart {node : Node} (start : node.IsRangeStart names) :
    node.All HasNames := by
  cases start with
  | «variable» _ isName => exact all_iff.mpr ⟨isName, List.forall_mem_nil _⟩
  | number => exact all_iff.mpr ⟨trivial, List.forall_mem_nil _⟩

theorem hasNames_expression : ∀ {node : Node}, node.IsReadExpression names → node.All HasNames
  | _, .literal _ => all_iff.mpr ⟨trivial, List.forall_mem_nil _⟩
  | _, .array all =>
      all_iff.mpr ⟨trivial, fun child member => hasNames_expression (all child member)⟩
  | _, .variable _ isName => all_iff.mpr ⟨isName, List.forall_mem_nil _⟩
  | _, .binary left right =>
      all_iff.mpr ⟨trivial, List.forall_mem_cons.mpr ⟨hasNames_expression left,
        List.forall_mem_singleton.mpr (hasNames_expression right)⟩⟩
  | _, .unary operand =>
      all_iff.mpr ⟨trivial, List.forall_mem_singleton.mpr (hasNames_expression operand)⟩
  | _, .call _ isName all =>
      all_iff.mpr ⟨isName, fun child member => hasNames_expression (all child member)⟩
  | _, .methodCall _ isReceiver isMethod all =>
      all_iff.mpr ⟨⟨isReceiver, isMethod⟩,
        fun child member => hasNames_expression (all child member)⟩
  | _, .range first last =>
      all_iff.mpr ⟨trivial, List.forall_mem_cons.mpr ⟨hasNames_rangeStart first,
        List.forall_mem_singleton.mpr (hasNames_expression last)⟩⟩

theorem hasNames_declaration {node : Node} (declaration : node.IsDeclaration) :
    node.All HasNames := by
  cases declaration with
  | mk isName =>
      exact all_iff.mpr ⟨isName, List.forall_mem_singleton.mpr
        (all_iff.mpr ⟨trivial, List.forall_mem_nil _⟩)⟩

mutual

theorem hasNames_statement : ∀ {node : Node}, node.IsReadStatement names → node.All HasNames
  | _, .assignment _ isName value =>
      all_iff.mpr ⟨isName, List.forall_mem_singleton.mpr (hasNames_expression value)⟩
  | _, .call called => hasNames_expression called
  | _, .methodCall called => hasNames_expression called
  | _, .conditional condition thenBranch elseBranch =>
      all_iff.mpr ⟨trivial, List.forall_mem_cons.mpr ⟨hasNames_expression condition,
        List.forall_mem_append.mpr ⟨hasNames_block thenBranch, hasNames_else elseBranch⟩⟩⟩
  | _, .declarations _ all =>
      all_iff.mpr ⟨trivial, fun child member => hasNames_declaration (all child member)⟩
  | _, .loop isName iterable body =>
      all_iff.mpr ⟨isName,
        List.forall_mem_cons.mpr ⟨hasNames_expression iterable, hasNames_block body⟩⟩
  | _, .flag => all_iff.mpr ⟨trivial, List.forall_mem_nil _⟩

theorem hasNames_block : ∀ {block : Block}, IsReadBlock names block →
    ∀ statement ∈ block.statements, statement.All HasNames
  | _, .mk all => fun statement member => hasNames_statement (all statement member)

theorem hasNames_else : ∀ {branch : Option Block}, IsReadElse names branch →
    ∀ statement ∈ (branch.map Block.statements).getD [], statement.All HasNames
  | _, .none => List.forall_mem_nil _
  | _, .block braced => hasNames_block braced
  | _, .chained nested => List.forall_mem_singleton.mpr (hasNames_statement nested)

end

end Node

/-! ## Labels -/

namespace Outline

def label : Outline → String
  | .entry label _ => label

/-- The text up to the first blank. -/
def firstWord (text : String) : List Char :=
  text.toList.takeWhile (· ≠ ' ')

end Outline

namespace Node

/-- The kinds of nodes, as far as the first words of labels tell them apart. -/
inductive Kind where
  | literal
  | array
  | variable
  | binary
  | unary
  | assignment
  | call
  | methodCall
  | conditional
  | compound
  | loop
  | range
  | flag (flag : Flag)
  deriving DecidableEq

def Kind.word : Kind → String
  | .literal => "Literal"
  | .array => "Array"
  | .variable => "Variable"
  | .binary => "Binary"
  | .unary => "Unary"
  | .assignment => "Assignment"
  | .call => "Call"
  | .methodCall => "MethodCall"
  | .conditional => "If"
  | .compound => "Block"
  | .loop => "For"
  | .range => "Range"
  | .flag mark => mark.word

def Kind.all : List Kind :=
  [.literal, .array, .variable, .binary, .unary, .assignment, .call, .methodCall, .conditional,
    .compound, .loop, .range, .flag .break, .flag .halt]

theorem Kind.mem_all (kind : Kind) : kind ∈ Kind.all := by
  rcases kind with _ | _ | _ | _ | _ | _ | _ | _ | _ | _ | _ | _ | flag
  case flag =>
    cases flag <;> decide
  all_goals decide

/-- No two kinds have the same word, the words of the flags included. -/
theorem Kind.word_inj {kind other : Kind} (same : kind.word = other.word) : kind = other := by
  have distinct : ∀ kind ∈ Kind.all, ∀ other ∈ Kind.all, kind.word = other.word → kind = other := by
    decide +kernel
  exact distinct kind (Kind.mem_all kind) other (Kind.mem_all other) same

def kind : Node → Kind
  | .literal .. => .literal
  | .array .. => .array
  | .variable .. => .variable
  | .binary .. => .binary
  | .unary .. => .unary
  | .assignment .. => .assignment
  | .call .. => .call
  | .methodCall .. => .methodCall
  | .conditional .. => .conditional
  | .compound .. => .compound
  | .loop .. => .loop
  | .range .. => .range
  | .flag mark _ => .flag mark

theorem firstWord_label (heap : Heap) (node : Node) :
    Outline.firstWord (Outline.ofNode heap node).label = node.kind.word.toList := by
  unfold Outline.firstWord kind
  cases node with
  | literal value line =>
      cases value <;> simp [Outline.ofNode, Outline.label, Outline.literalLabel, Kind.word]
  | conditional condition thenBranch elseBranch line =>
      cases elseBranch <;> simp [Outline.ofNode, Outline.label, Kind.word]
  | compound block =>
      rcases block with ⟨framed, statements, line⟩
      cases framed <;>
        simp [Outline.ofNode, Outline.ofBlock, Outline.blockLabel, Outline.label, Kind.word]
  | flag mark line =>
      cases mark <;> simp [Outline.ofNode, Outline.label, Kind.word, Flag.word]
  | _ => simp [Outline.ofNode, Outline.label, Kind.word]

theorem kind_eq_of_label {heap other : Heap} {p q : Node}
    (same : (Outline.ofNode heap p).label = (Outline.ofNode other q).label) : p.kind = q.kind := by
  apply Kind.word_inj
  rw [← String.toList_inj, ← firstWord_label heap p, ← firstWord_label other q, same]

end Node

/-! ## Literals -/

namespace Value

/-- What a label shows of a literal. -/
def shown : Value → List Char
  | .text s => '"' :: (s.toList ++ ['"'])
  | .number x => Number.spelling x
  | .truth b => (truthText b).toList
  | _ => []

theorem toList_text (x : Float) : (Number.text x).toList = Number.spelling x :=
  String.toList_ofList

theorem toList_literalLabel (heap : Heap) {value : Value} (isShown : value.IsShown) :
    (Outline.literalLabel heap value).toList = "Literal ".toList ++ value.shown := by
  cases isShown with
  | number x =>
      rw [Outline.literalLabel, String.toList_append, Heap.render, Heap.renderWithin,
        toList_text]
      · rfl
      · intro s impossible
        cases impossible
  | truth b =>
      rw [Outline.literalLabel, String.toList_append, Heap.render, Heap.renderWithin]
      · rfl
      · intro s impossible
        cases impossible
  | text single =>
      rw [Outline.literalLabel]
      simp [shown]

theorem shown_text_ne_spelling (s : String) (x : Float) :
    (Value.text s).shown ≠ Number.spelling x := by
  intro same
  have quote : '"' ∈ Number.spelling x := same ▸ List.mem_cons_self
  have spelled := Number.isSpelled_spelling x '"' quote
  revert spelled
  decide

theorem spelling_ne_truthText (x : Float) (b : Bool) :
    Number.spelling x ≠ (truthText b).toList := by
  intro same
  have reads := Number.read?_spelling x
  rw [same] at reads
  have refused : Number.read? (truthText b).toList = none := by cases b <;> rfl
  rw [refused] at reads
  cases reads

theorem shown_text_ne_truthText (s : String) (b : Bool) :
    (Value.text s).shown ≠ (truthText b).toList := by
  cases b <;> exact fun same => absurd (List.cons.inj same).1 (by decide)

theorem shown_inj {value other : Value} (isShown : value.IsShown) (otherShown : other.IsShown)
    (same : value.shown = other.shown) : value = other := by
  cases isShown with
  | number x =>
      cases otherShown with
      | number y => rw [Number.spelling_injective same]
      | truth b => exact absurd same (spelling_ne_truthText x b)
      | text _ => exact absurd same.symm (shown_text_ne_spelling _ x)
  | truth b =>
      cases otherShown with
      | number y => exact absurd same.symm (spelling_ne_truthText y b)
      | truth c =>
          have told : ∀ b c : Bool, (truthText b).toList = (truthText c).toList → b = c := by decide
          rw [told b c same]
      | text _ => exact absurd same.symm (shown_text_ne_truthText _ b)
  | text single =>
      cases otherShown with
      | number y => exact absurd same (shown_text_ne_spelling _ y)
      | truth c => exact absurd same (shown_text_ne_truthText _ c)
      | text _ =>
          have texts := List.append_cancel_right (List.cons.inj same).2
          rw [String.toList_inj.mp texts]

theorem notMem_shown {value : Value} (isShown : value.IsShown) : '\n' ∉ value.shown := by
  cases isShown with
  | number x =>
      intro member
      have spelled := Number.isSpelled_spelling x '\n' member
      revert spelled
      decide
  | truth b => cases b <;> decide
  | text single =>
      intro member
      rcases List.mem_cons.mp member with quote | member
      · revert quote
        decide
      · rcases List.mem_append.mp member with member | quote
        · exact single member
        · revert quote
          decide

end Value

theorem Outline.literalLabel_inj {heap other : Heap} {value otherValue : Value}
    (isShown : value.IsShown) (otherShown : otherValue.IsShown)
    (same : literalLabel heap value = literalLabel other otherValue) : value = otherValue := by
  have texts := congrArg String.toList same
  rw [Value.toList_literalLabel heap isShown, Value.toList_literalLabel other otherShown] at texts
  exact Value.shown_inj isShown otherShown (List.append_cancel_left texts)

/-! ## Trees -/

section Trees

variable {heap other : Heap}

theorem BinaryOperator.symbol_inj {operator otherOperator : BinaryOperator}
    (same : operator.symbol = otherOperator.symbol) : operator = otherOperator := by
  revert same
  cases operator <;> cases otherOperator <;> decide

theorem UnaryOperator.symbol_inj {operator otherOperator : UnaryOperator}
    (same : operator.symbol = otherOperator.symbol) : operator = otherOperator := by
  revert same
  cases operator <;> cases otherOperator <;> decide

theorem Outline.blockLabel_inj {name : String} {framed otherFramed : Bool}
    (same : blockLabel name framed = blockLabel name otherFramed) : framed = otherFramed := by
  have length := congrArg String.length same
  revert length
  cases framed <;> cases otherFramed <;> simp [blockLabel]

/-- What is below a conditional for its other branch. -/
def Outline.ofElse (heap : Heap) : Option Block → List Outline
  | none => []
  | some block => [ofBlock heap "else" block]

theorem Outline.ofNode_conditional (heap : Heap) (condition : Node) (thenBranch : Block)
    (elseBranch : Option Block) (line : Nat) :
    ofNode heap (.conditional condition thenBranch elseBranch line) =
      .entry "If" (ofNode heap condition :: ofBlock heap "then" thenBranch ::
        ofElse heap elseBranch) := by
  cases elseBranch <;> rw [ofNode] <;> rfl

theorem Outline.notMem_append {front back : String} (single : '\n' ∉ front.toList)
    (backSingle : '\n' ∉ back.toList) : '\n' ∉ (front ++ back).toList := by
  rw [String.toList_append, List.mem_append, not_or]
  exact ⟨single, backSingle⟩

/-- The point in the label of a method call ends the receiver. -/
theorem Outline.methodCall_inj {receiver otherReceiver method otherMethod : String}
    (isName : Token.IsName receiver) (otherIsName : Token.IsName otherReceiver)
    (same : "MethodCall " ++ receiver ++ "." ++ method =
      "MethodCall " ++ otherReceiver ++ "." ++ otherMethod) :
    receiver = otherReceiver ∧ method = otherMethod := by
  have texts := congrArg String.toList same
  simp only [String.toList_append, List.append_assoc, List.append_cancel_left_eq] at texts
  have point : Lexeme.continuesWord '.' = false := by decide +kernel
  have parts := append_cons_inj (isName.notMem point) (otherIsName.notMem point) texts
  exact ⟨String.toList_inj.mp parts.1, String.toList_inj.mp parts.2⟩

mutual

/-- Nodes that are printed alike are the same, but for their lines.  The induction is on the first
node; the first word of the label leaves one constructor for the second. -/
theorem Node.eq_of_ofNode : ∀ p q : Node, p.All Node.IsLegible → q.All Node.IsLegible →
    Outline.ofNode heap p = Outline.ofNode other q → p.withoutLines = q.withoutLines
  | .literal value line, q, legible, otherLegible, same => by
      have kinds := Node.kind_eq_of_label (congrArg Outline.label same)
      cases q with
      | literal otherValue otherLine =>
          rw [Outline.ofNode, Outline.ofNode] at same
          rw [Node.withoutLines, Node.withoutLines, Outline.literalLabel_inj legible.here.1
            otherLegible.here.1 (Outline.entry.inj same).1]
      | _ => cases kinds
  | .array elements line, q, legible, otherLegible, same => by
      have kinds := Node.kind_eq_of_label (congrArg Outline.label same)
      cases q with
      | array otherElements otherLine =>
          rw [Outline.ofNode, Outline.ofNode] at same
          rw [Node.withoutLines, Node.withoutLines, Node.eq_of_ofNodes elements otherElements
            (fun _ => legible.below) (fun _ => otherLegible.below) (Outline.entry.inj same).2]
      | _ => cases kinds
  | .variable name line, q, legible, otherLegible, same => by
      have kinds := Node.kind_eq_of_label (congrArg Outline.label same)
      cases q with
      | «variable» otherName otherLine =>
          rw [Outline.ofNode, Outline.ofNode] at same
          rw [Node.withoutLines, Node.withoutLines,
            (String.append_right_inj _).mp (Outline.entry.inj same).1]
      | _ => cases kinds
  | .binary operator left right line, q, legible, otherLegible, same => by
      have kinds := Node.kind_eq_of_label (congrArg Outline.label same)
      cases q with
      | binary otherOperator otherLeft otherRight otherLine =>
          rw [Outline.ofNode, Outline.ofNode] at same
          obtain ⟨labels, children⟩ := Outline.entry.inj same
          obtain ⟨lefts, others⟩ := List.cons.inj children
          rw [Node.withoutLines, Node.withoutLines,
            BinaryOperator.symbol_inj ((String.append_right_inj _).mp labels),
            Node.eq_of_ofNode left otherLeft (legible.below List.mem_cons_self)
              (otherLegible.below List.mem_cons_self) lefts,
            Node.eq_of_ofNode right otherRight
              (legible.below (List.mem_cons_of_mem _ List.mem_cons_self))
              (otherLegible.below (List.mem_cons_of_mem _ List.mem_cons_self))
              (List.cons.inj others).1]
      | _ => cases kinds
  | .unary operator operand line, q, legible, otherLegible, same => by
      have kinds := Node.kind_eq_of_label (congrArg Outline.label same)
      cases q with
      | unary otherOperator otherOperand otherLine =>
          rw [Outline.ofNode, Outline.ofNode] at same
          obtain ⟨labels, children⟩ := Outline.entry.inj same
          rw [Node.withoutLines, Node.withoutLines,
            UnaryOperator.symbol_inj ((String.append_right_inj _).mp labels),
            Node.eq_of_ofNode operand otherOperand (legible.below List.mem_cons_self)
              (otherLegible.below List.mem_cons_self) (List.cons.inj children).1]
      | _ => cases kinds
  | .assignment name value line, q, legible, otherLegible, same => by
      have kinds := Node.kind_eq_of_label (congrArg Outline.label same)
      cases q with
      | assignment otherName otherValue otherLine =>
          rw [Outline.ofNode, Outline.ofNode] at same
          obtain ⟨labels, children⟩ := Outline.entry.inj same
          rw [Node.withoutLines, Node.withoutLines, (String.append_right_inj _).mp labels,
            Node.eq_of_ofNode value otherValue (legible.below List.mem_cons_self)
              (otherLegible.below List.mem_cons_self) (List.cons.inj children).1]
      | _ => cases kinds
  | .call function arguments line, q, legible, otherLegible, same => by
      have kinds := Node.kind_eq_of_label (congrArg Outline.label same)
      cases q with
      | call otherFunction otherArguments otherLine =>
          rw [Outline.ofNode, Outline.ofNode] at same
          obtain ⟨labels, children⟩ := Outline.entry.inj same
          rw [Node.withoutLines, Node.withoutLines, (String.append_right_inj _).mp labels,
            Node.eq_of_ofNodes arguments otherArguments (fun _ => legible.below)
              (fun _ => otherLegible.below) children]
      | _ => cases kinds
  | .methodCall receiver method arguments line, q, legible, otherLegible, same => by
      have kinds := Node.kind_eq_of_label (congrArg Outline.label same)
      cases q with
      | methodCall otherReceiver otherMethod otherArguments otherLine =>
          rw [Outline.ofNode, Outline.ofNode] at same
          obtain ⟨labels, children⟩ := Outline.entry.inj same
          obtain ⟨receivers, methods⟩ :=
            Outline.methodCall_inj legible.here.2.1 otherLegible.here.2.1 labels
          rw [Node.withoutLines, Node.withoutLines, receivers, methods,
            Node.eq_of_ofNodes arguments otherArguments (fun _ => legible.below)
              (fun _ => otherLegible.below) children]
      | _ => cases kinds
  | .conditional condition thenBranch elseBranch line, q, legible, otherLegible, same => by
      have kinds := Node.kind_eq_of_label (congrArg Outline.label same)
      cases q with
      | conditional otherCondition otherThen otherElse otherLine =>
          rw [Outline.ofNode_conditional, Outline.ofNode_conditional] at same
          obtain ⟨conditions, branches⟩ := List.cons.inj (Outline.entry.inj same).2
          obtain ⟨thens, elses⟩ := List.cons.inj branches
          have below := List.forall_mem_append.mp fun p among =>
            legible.below (List.mem_cons_of_mem condition among)
          have otherBelow := List.forall_mem_append.mp fun q among =>
            otherLegible.below (List.mem_cons_of_mem otherCondition among)
          rw [Node.withoutLines, Node.withoutLines,
            Node.eq_of_ofNode condition otherCondition (legible.below List.mem_cons_self)
              (otherLegible.below List.mem_cons_self) conditions,
            Block.eq_of_ofBlock "then" thenBranch otherThen below.1 otherBelow.1 thens,
            Block.eq_of_ofElse elseBranch otherElse below.2 otherBelow.2 elses]
      | _ => cases kinds
  | .compound block, q, legible, otherLegible, same => by
      have kinds := Node.kind_eq_of_label (congrArg Outline.label same)
      cases q with
      | compound otherBlock =>
          rw [Outline.ofNode, Outline.ofNode] at same
          rw [Node.withoutLines, Node.withoutLines, Block.eq_of_ofBlock "Block" block otherBlock
            (fun _ => legible.below) (fun _ => otherLegible.below) same]
      | _ => cases kinds
  | .loop iterator iterable body line, q, legible, otherLegible, same => by
      have kinds := Node.kind_eq_of_label (congrArg Outline.label same)
      cases q with
      | loop otherIterator otherIterable otherBody otherLine =>
          rw [Outline.ofNode, Outline.ofNode] at same
          obtain ⟨labels, children⟩ := Outline.entry.inj same
          obtain ⟨iterables, bodies⟩ := List.cons.inj children
          rw [Node.withoutLines, Node.withoutLines, (String.append_right_inj _).mp labels,
            Node.eq_of_ofNode iterable otherIterable (legible.below List.mem_cons_self)
              (otherLegible.below List.mem_cons_self) iterables,
            Block.eq_of_ofBlock "body" body otherBody
              (fun _ among => legible.below (List.mem_cons_of_mem _ among))
              (fun _ among => otherLegible.below (List.mem_cons_of_mem _ among))
              (List.cons.inj bodies).1]
      | _ => cases kinds
  | .range first last line, q, legible, otherLegible, same => by
      have kinds := Node.kind_eq_of_label (congrArg Outline.label same)
      cases q with
      | range otherFirst otherLast otherLine =>
          rw [Outline.ofNode, Outline.ofNode] at same
          obtain ⟨firsts, others⟩ := List.cons.inj (Outline.entry.inj same).2
          rw [Node.withoutLines, Node.withoutLines,
            Node.eq_of_ofNode first otherFirst (legible.below List.mem_cons_self)
              (otherLegible.below List.mem_cons_self) firsts,
            Node.eq_of_ofNode last otherLast
              (legible.below (List.mem_cons_of_mem _ List.mem_cons_self))
              (otherLegible.below (List.mem_cons_of_mem _ List.mem_cons_self))
              (List.cons.inj others).1]
      | _ => cases kinds
  | .flag mark line, q, legible, otherLegible, same => by
      have kinds := Node.kind_eq_of_label (congrArg Outline.label same)
      cases q with
      | flag otherMark otherLine =>
          rw [Node.withoutLines, Node.withoutLines, Node.Kind.flag.inj kinds]
      | _ => cases kinds
termination_by structural p => p

theorem Node.eq_of_ofNodes : ∀ ps qs : List Node, (∀ p ∈ ps, p.All Node.IsLegible) →
    (∀ q ∈ qs, q.All Node.IsLegible) → Outline.ofNodes heap ps = Outline.ofNodes other qs →
    Node.eachWithoutLines ps = Node.eachWithoutLines qs
  | [], qs, _, _, same => by
      cases qs with
      | nil => rfl
      | cons q others =>
          rw [Outline.ofNodes, Outline.ofNodes] at same
          cases same
  | p :: rest, qs, legible, otherLegible, same => by
      cases qs with
      | nil =>
          rw [Outline.ofNodes, Outline.ofNodes] at same
          cases same
      | cons q others =>
          rw [Outline.ofNodes, Outline.ofNodes] at same
          obtain ⟨firsts, rests⟩ := List.cons.inj same
          rw [Node.eachWithoutLines, Node.eachWithoutLines,
            Node.eq_of_ofNode p q (legible p List.mem_cons_self)
              (otherLegible q List.mem_cons_self) firsts,
            Node.eq_of_ofNodes rest others (fun p later => legible p (List.mem_cons_of_mem _ later))
              (fun q later => otherLegible q (List.mem_cons_of_mem _ later)) rests]
termination_by structural ps => ps

theorem Block.eq_of_ofBlock : ∀ (name : String) (block otherBlock : Block),
    (∀ p ∈ block.statements, p.All Node.IsLegible) →
    (∀ q ∈ otherBlock.statements, q.All Node.IsLegible) →
    Outline.ofBlock heap name block = Outline.ofBlock other name otherBlock →
    block.withoutLines = otherBlock.withoutLines
  | name, .mk framed statements line, .mk otherFramed otherStatements otherLine, legible,
      otherLegible, same => by
      rw [Outline.ofBlock, Outline.ofBlock] at same
      obtain ⟨labels, children⟩ := Outline.entry.inj same
      rw [Block.withoutLines, Block.withoutLines, Outline.blockLabel_inj labels,
        Node.eq_of_ofNodes statements otherStatements legible otherLegible children]
termination_by structural _ block => block

theorem Block.eq_of_ofElse : ∀ block otherBlock : Option Block,
    (∀ p ∈ (block.map Block.statements).getD [], p.All Node.IsLegible) →
    (∀ q ∈ (otherBlock.map Block.statements).getD [], q.All Node.IsLegible) →
    Outline.ofElse heap block = Outline.ofElse other otherBlock →
    Block.anyWithoutLines block = Block.anyWithoutLines otherBlock
  | none, none, _, _, _ => rfl
  | none, some _, _, _, same => by cases same
  | some _, none, _, _, same => by cases same
  | some block, some otherBlock, legible, otherLegible, same => by
      rw [Block.anyWithoutLines, Block.anyWithoutLines, Block.eq_of_ofBlock "else" block otherBlock
        legible otherLegible (List.cons.inj same).1]
termination_by structural block => block

end

mutual

/-- Every label of a tree stands on one line. -/
theorem Node.onOneLine_ofNode : ∀ p : Node, p.All Node.IsLegible →
    (Outline.ofNode heap p).OnOneLine
  | .literal value line, legible => by
      rw [Outline.ofNode]
      refine .entry ?_ (List.forall_mem_nil _)
      rw [Value.toList_literalLabel heap legible.here.1, List.mem_append, not_or]
      exact ⟨by decide, Value.notMem_shown legible.here.1⟩
  | .array elements line, legible => by
      rw [Outline.ofNode]
      exact .entry (by decide) (Node.onOneLine_ofNodes elements fun _ => legible.below)
  | .variable name line, legible => by
      rw [Outline.ofNode]
      exact .entry (Outline.notMem_append (by decide) (Token.IsName.single legible.here.2))
        (List.forall_mem_nil _)
  | .binary operator left right line, legible => by
      rw [Outline.ofNode]
      refine .entry (Outline.notMem_append (by decide) (by cases operator <;> decide)) ?_
      exact List.forall_mem_cons.mpr ⟨Node.onOneLine_ofNode left (legible.below List.mem_cons_self),
        List.forall_mem_singleton.mpr (Node.onOneLine_ofNode right
          (legible.below (List.mem_cons_of_mem _ List.mem_cons_self)))⟩
  | .unary operator operand line, legible => by
      rw [Outline.ofNode]
      refine .entry (Outline.notMem_append (by decide) (by cases operator <;> decide)) ?_
      exact List.forall_mem_singleton.mpr
        (Node.onOneLine_ofNode operand (legible.below List.mem_cons_self))
  | .assignment name value line, legible => by
      rw [Outline.ofNode]
      refine .entry (Outline.notMem_append (by decide) (Token.IsName.single legible.here.2)) ?_
      exact List.forall_mem_singleton.mpr
        (Node.onOneLine_ofNode value (legible.below List.mem_cons_self))
  | .call function arguments line, legible => by
      rw [Outline.ofNode]
      exact .entry (Outline.notMem_append (by decide) (Token.IsName.single legible.here.2))
        (Node.onOneLine_ofNodes arguments fun _ => legible.below)
  | .methodCall receiver method arguments line, legible => by
      rw [Outline.ofNode]
      refine .entry ?_ (Node.onOneLine_ofNodes arguments fun _ => legible.below)
      exact Outline.notMem_append (Outline.notMem_append (Outline.notMem_append (by decide)
        (Token.IsName.single legible.here.2.1)) (by decide)) (Token.IsName.single legible.here.2.2)
  | .conditional condition thenBranch elseBranch line, legible => by
      have below := List.forall_mem_append.mp fun p among =>
        legible.below (List.mem_cons_of_mem condition among)
      rw [Outline.ofNode_conditional]
      refine .entry (by decide) (List.forall_mem_cons.mpr
        ⟨Node.onOneLine_ofNode condition (legible.below List.mem_cons_self),
          List.forall_mem_cons.mpr ⟨?_, Block.onOneLine_ofElse elseBranch below.2⟩⟩)
      exact Block.onOneLine_ofBlock "then" (by decide) thenBranch below.1
  | .compound block, legible => by
      rw [Outline.ofNode]
      exact Block.onOneLine_ofBlock "Block" (by decide) block fun _ => legible.below
  | .loop iterator iterable body line, legible => by
      rw [Outline.ofNode]
      refine .entry (Outline.notMem_append (by decide) (Token.IsName.single legible.here.2)) ?_
      refine List.forall_mem_cons.mpr
        ⟨Node.onOneLine_ofNode iterable (legible.below List.mem_cons_self),
          List.forall_mem_singleton.mpr ?_⟩
      exact Block.onOneLine_ofBlock "body" (by decide) body
        fun _ among => legible.below (List.mem_cons_of_mem _ among)
  | .range first last line, legible => by
      rw [Outline.ofNode]
      refine .entry (by decide) ?_
      exact List.forall_mem_cons.mpr
        ⟨Node.onOneLine_ofNode first (legible.below List.mem_cons_self),
          List.forall_mem_singleton.mpr (Node.onOneLine_ofNode last
            (legible.below (List.mem_cons_of_mem _ List.mem_cons_self)))⟩
  | .flag mark line, legible => by
      rw [Outline.ofNode]
      exact .entry (by cases mark <;> decide) (List.forall_mem_nil _)

theorem Node.onOneLine_ofNodes : ∀ ps : List Node, (∀ p ∈ ps, p.All Node.IsLegible) →
    ∀ entry ∈ Outline.ofNodes heap ps, entry.OnOneLine
  | [], _ => by
      rw [Outline.ofNodes]
      exact List.forall_mem_nil _
  | p :: rest, legible => by
      rw [Outline.ofNodes]
      exact List.forall_mem_cons.mpr ⟨Node.onOneLine_ofNode p (legible p List.mem_cons_self),
        Node.onOneLine_ofNodes rest fun p later => legible p (List.mem_cons_of_mem _ later)⟩

theorem Block.onOneLine_ofBlock : ∀ (name : String), '\n' ∉ name.toList → ∀ block : Block,
    (∀ p ∈ block.statements, p.All Node.IsLegible) → (Outline.ofBlock heap name block).OnOneLine
  | name, single, .mk framed statements line, legible => by
      rw [Outline.ofBlock]
      refine .entry ?_ (Node.onOneLine_ofNodes statements legible)
      cases framed with
      | true => exact Outline.notMem_append single (by decide)
      | false => exact single

theorem Block.onOneLine_ofElse : ∀ block : Option Block,
    (∀ p ∈ (block.map Block.statements).getD [], p.All Node.IsLegible) →
    ∀ entry ∈ Outline.ofElse heap block, entry.OnOneLine
  | none, _ => List.forall_mem_nil _
  | some block, legible =>
      List.forall_mem_singleton.mpr (Block.onOneLine_ofBlock "else" (by decide) block legible)

end

end Trees

/-! ## Programs -/

theorem Program.isLegible_of_isRead {names : Reader.Names} {program : Program}
    (read : program.IsRead names)
    (shown : ∀ statement ∈ program.root.statements, statement.All Node.ShowsLiteral) :
    ∀ statement ∈ program.root.statements, statement.All Node.IsLegible := by
  cases read with
  | mk all =>
      intro statement member part inside
      exact ⟨shown statement member part inside,
        Node.hasNames_statement (all statement member) part inside⟩

/-- The outline of a compiled program determines the program, but for its lines, as long as all of
its literals are shown on one line and in full.  It does not matter which libraries the programs
were compiled against. -/
theorem outline_determines_program {library other : Library} {source text : String}
    {arguments rest queue left : Arguments} {p q : Program}
    (compiled : compile library source arguments = .ok p rest)
    (otherCompiled : compile other text queue = .ok q left)
    (shown : ∀ statement ∈ p.root.statements, statement.All Node.ShowsLiteral)
    (otherShown : ∀ statement ∈ q.root.statements, statement.All Node.ShowsLiteral)
    {heap otherHeap : Heap} (same : p.outline heap = q.outline otherHeap) :
    p.withoutLines = q.withoutLines := by
  have read := compile_isRead compiled
  have otherRead := compile_isRead otherCompiled
  have legible := Program.isLegible_of_isRead read shown
  have otherLegible := Program.isLegible_of_isRead otherRead otherShown
  have entries := Program.entries_eq_of_outline
    (Node.onOneLine_ofNodes _ legible) (Node.onOneLine_ofNodes _ otherLegible) same
  have statements := Node.eq_of_ofNodes _ _ legible otherLegible entries
  cases read with
  | mk _ =>
      cases otherRead with
      | mk _ =>
          unfold Program.withoutLines
          rw [Block.withoutLines, Block.withoutLines]
          exact congrArg (fun nodes => Program.mk (.mk false nodes 0)) statements

/-- Two sources that lay one program out on different lines. -/
theorem outline_determines_program_relaid :
    ∃ p q : Program,
      compile Standard.library "if true \x7b print(\"a\") \x7d" ⟨[], {}⟩ = .ok p ⟨[], {}⟩ ∧
      compile Standard.library "\nif true \x7b\nprint \"a\"\n\x7d" ⟨[], {}⟩ = .ok q ⟨[], {}⟩ ∧
      p.outline {} = q.outline {} ∧ p.root.statements.map Node.line = [1] ∧
      q.root.statements.map Node.line = [2] ∧ p.withoutLines = q.withoutLines := by
  have compiled : compile Standard.library "if true \x7b print(\"a\") \x7d" ⟨[], {}⟩ =
      .ok ⟨.mk false [.conditional (.literal (.truth true) 1)
        (.mk true [.call "print" [.literal (.text "a") 1] 1] 1) none 1] 1⟩ ⟨[], {}⟩ := by cbv
  have relaid : compile Standard.library "\nif true \x7b\nprint \"a\"\n\x7d" ⟨[], {}⟩ =
      .ok ⟨.mk false [.conditional (.literal (.truth true) 2)
        (.mk true [.call "print" [.literal (.text "a") 3] 3] 2) none 2] 1⟩ ⟨[], {}⟩ := by cbv
  have shown : ∀ first second third : Nat, (Node.conditional (.literal (.truth true) first)
      (.mk true [.call "print" [.literal (.text "a") second] second] third) none first).All
        Node.ShowsLiteral := by
    intro first second third
    have text : (Node.literal (.text "a") second).All Node.ShowsLiteral :=
      Node.all_iff.mpr ⟨.text (by decide), List.forall_mem_nil _⟩
    have call : (Node.call "print" [.literal (.text "a") second] second).All Node.ShowsLiteral :=
      Node.all_iff.mpr ⟨trivial, List.forall_mem_singleton.mpr text⟩
    have condition : (Node.literal (.truth true) first).All Node.ShowsLiteral :=
      Node.all_iff.mpr ⟨.truth true, List.forall_mem_nil _⟩
    exact Node.all_iff.mpr ⟨trivial,
      List.forall_mem_cons.mpr ⟨condition, List.forall_mem_singleton.mpr call⟩⟩
  have same : Program.outline {} ⟨.mk false [.conditional (.literal (.truth true) 1)
      (.mk true [.call "print" [.literal (.text "a") 1] 1] 1) none 1] 1⟩ =
    Program.outline {} ⟨.mk false [.conditional (.literal (.truth true) 2)
      (.mk true [.call "print" [.literal (.text "a") 3] 3] 2) none 2] 1⟩ := by
    decide +kernel
  exact ⟨_, _, compiled, relaid, same, rfl, rfl, outline_determines_program compiled relaid
    (List.forall_mem_singleton.mpr (shown 1 1 1)) (List.forall_mem_singleton.mpr (shown 2 3 2))
    same⟩

end Scriptlet
