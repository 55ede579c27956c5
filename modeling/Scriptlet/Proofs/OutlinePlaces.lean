import Mathlib
import Scriptlet.Proofs.ListTexts
import Scriptlet.Proofs.PrintedPrograms

namespace Scriptlet

/-!
# Entries and lines

A place in a tree is told by the way down to it, as the positions of the children that it passes.
Places in lexicographic order are the entries of the tree with each entry in front of those below
it and beside it.  What stands in front of a label can be read off the place: a bar for every entry
on the way, and a connector for the entry itself, each of which says whether the entry is the last
one below its parent.

So an outline is specified entry by entry.  Its text has one line for each of them exactly if no
literal is shown with a line break in it.  Texts are shown as they are, so the line breaks in them
end lines of the outline.
-/

/-! ## Places in a tree -/

namespace Place

variable {T U : Type} (children : T → List T)

/-- What stands at a place, the root standing at the empty one. -/
def find? : T → List Nat → Option T
  | tree, [] => some tree
  | tree, position :: rest => (children tree)[position]?.bind fun child => find? child rest

/-- Whether the entries on the way to a place, its own included, are the last below their
parents. -/
def lasts : T → List Nat → List Bool
  | _, [] => []
  | tree, position :: rest =>
      decide (position + 1 = (children tree).length) ::
        (children tree)[position]?.elim [] fun child => lasts child rest

variable {children} {others : U → List U} (f : T → U)
  (alike : ∀ tree, others (f tree) = (children tree).map f)
include alike

theorem find?_map (tree : T) (place : List Nat) :
    find? others (f tree) place = (find? children tree place).map f := by
  induction place generalizing tree with
  | nil => rfl
  | cons position rest inductionHypothesis =>
      rw [find?, find?, alike, List.getElem?_map]
      cases (children tree)[position]? with
      | none => rfl
      | some child => exact inductionHypothesis child

theorem lasts_map (tree : T) (place : List Nat) :
    lasts others (f tree) place = lasts children tree place := by
  induction place generalizing tree with
  | nil => rfl
  | cons position rest inductionHypothesis =>
      rw [lasts, lasts, alike, List.getElem?_map, List.length_map]
      cases (children tree)[position]? with
      | none => rfl
      | some child => exact congrArg (_ :: ·) (inductionHypothesis child)

end Place

/-! ## Places in an outline -/

namespace Outline

def children : Outline → List Outline
  | .entry _ children => children

/-- What stands in front of a label: bars for the entries on the way, and a connector for the entry
itself. -/
def front : List Bool → String
  | [] => ""
  | [last] => connector last
  | last :: rest => bar last ++ front rest

/-- The line of the entry at a place. -/
def lineAt (outline : Outline) (place : List Nat) : String :=
  front (Place.lasts children outline place) ++
    (Place.find? children outline place).elim "" label

mutual

/-- The places in an outline, each before those below it and beside it. -/
def places : Outline → List (List Nat)
  | .entry _ children => [] :: placesFrom 0 children

/-- The places in some entries, the first of which has the given position. -/
def placesFrom (position : Nat) : List Outline → List (List Nat)
  | [] => []
  | child :: rest => child.places.map (position :: ·) ++ placesFrom (position + 1) rest

end

theorem front_cons (last : Bool) {rest : List Bool} (nonempty : rest ≠ []) :
    front (last :: rest) = bar last ++ front rest := by
  cases rest with
  | nil => exact absurd rfl nonempty
  | cons next more => rfl

theorem lasts_ne_nil (outline : Outline) {place : List Nat} (below : place ≠ []) :
    Place.lasts children outline place ≠ [] := by
  cases place with
  | nil => exact absurd rfl below
  | cons position rest => exact List.cons_ne_nil _ _

/-! ### All places, in their order -/

theorem mem_placesFrom {position : Nat} {entries : List Outline} {place : List Nat} :
    place ∈ placesFrom position entries ↔
      ∃ offset child rest, entries[offset]? = some child ∧ rest ∈ child.places ∧
        place = (position + offset) :: rest := by
  induction entries generalizing position with
  | nil =>
      rw [placesFrom]
      simp
  | cons first others inductionHypothesis =>
      rw [placesFrom, List.mem_append, List.mem_map, inductionHypothesis]
      constructor
      · rintro (⟨rest, inside, rfl⟩ | ⟨offset, child, rest, found, inside, rfl⟩)
        · exact ⟨0, first, rest, rfl, inside, rfl⟩
        · refine ⟨offset + 1, child, rest, found, inside, ?_⟩
          rw [Nat.add_assoc, Nat.add_comm 1]
      · rintro ⟨offset, child, rest, found, inside, rfl⟩
        cases offset with
        | zero =>
            cases found
            exact Or.inl ⟨rest, inside, rfl⟩
        | succ offset =>
            refine Or.inr ⟨offset, child, rest, found, inside, ?_⟩
            rw [Nat.add_assoc, Nat.add_comm 1]

theorem ne_nil_of_mem_placesFrom {position : Nat} {entries : List Outline} {place : List Nat}
    (member : place ∈ placesFrom position entries) : place ≠ [] := by
  obtain ⟨offset, child, rest, _, _, rfl⟩ := mem_placesFrom.mp member
  exact List.cons_ne_nil _ _

/-- The places are those where something stands. -/
theorem mem_places {outline : Outline} {place : List Nat} :
    place ∈ outline.places ↔ (Place.find? children outline place).isSome = true := by
  induction place generalizing outline with
  | nil =>
      rcases outline with ⟨label, entries⟩
      rw [places, Place.find?]
      simp
  | cons position rest inductionHypothesis =>
      rcases outline with ⟨label, entries⟩
      rw [places, Place.find?, children, List.mem_cons, mem_placesFrom]
      constructor
      · rintro (none | ⟨offset, child, below, found, inside, same⟩)
        · cases none
        · rw [Nat.zero_add] at same
          obtain ⟨rfl, rfl⟩ := List.cons.inj same
          rw [found]
          exact inductionHypothesis.mp inside
      · intro stands
        cases found : entries[position]? with
        | none =>
            rw [found] at stands
            cases stands
        | some child =>
            rw [found] at stands
            refine Or.inr ⟨position, child, rest, found, inductionHypothesis.mpr stands, ?_⟩
            rw [Nat.zero_add]

mutual

theorem pairwise_places : ∀ outline : Outline, outline.places.Pairwise (· < ·)
  | .entry label entries => by
      rw [places]
      refine List.pairwise_cons.mpr ⟨fun place member => ?_, pairwise_placesFrom entries 0⟩
      obtain ⟨offset, child, rest, _, _, rfl⟩ := mem_placesFrom.mp member
      exact List.nil_lt_cons _ _

theorem pairwise_placesFrom : ∀ (entries : List Outline) (position : Nat),
    (placesFrom position entries).Pairwise (· < ·)
  | [], _ => by
      rw [placesFrom]
      exact List.Pairwise.nil
  | child :: rest, position => by
      rw [placesFrom]
      refine List.pairwise_append.mpr ⟨?_, pairwise_placesFrom rest (position + 1), ?_⟩
      · exact (pairwise_places child).map _ fun _ _ less =>
          List.cons_lt_cons_iff.mpr (Or.inr ⟨rfl, less⟩)
      · intro place member other later
        obtain ⟨below, _, rfl⟩ := List.mem_map.mp member
        obtain ⟨offset, _, _, _, _, rfl⟩ := mem_placesFrom.mp later
        exact List.cons_lt_cons_iff.mpr (Or.inl (by omega))

end

/-! ### The entries below an entry -/

section Below

variable {label : String} {earlier rest : List Outline} {child : Outline}

/-- The way to what is below a child goes over the child. -/
theorem find?_child (place : List Nat) :
    Place.find? children (.entry label (earlier ++ child :: rest)) (earlier.length :: place) =
      Place.find? children child place := by
  rw [Place.find?, children, List.getElem?_append_right (Nat.le_refl _), Nat.sub_self]
  rfl

theorem lasts_child (place : List Nat) :
    Place.lasts children (.entry label (earlier ++ child :: rest)) (earlier.length :: place) =
      rest.isEmpty :: Place.lasts children child place := by
  rw [Place.lasts, children, List.getElem?_append_right (Nat.le_refl _), Nat.sub_self]
  refine congrArg₂ List.cons ?_ rfl
  rw [List.length_append, List.length_cons]
  cases rest with
  | nil => simp
  | cons next more => simp

/-- Lines below an entry, behind some indentation. -/
theorem lineAt_child (place : List Nat) :
    lineAt (.entry label (earlier ++ child :: rest)) (earlier.length :: place) =
      front (rest.isEmpty :: Place.lasts children child place) ++
        (Place.find? children child place).elim "" Outline.label := by
  rw [lineAt, lasts_child, find?_child]

end Below

mutual

/-- An outline is drawn place by place.  The induction is on the entry; what stands in front of the
lines below it begins with its own bar. -/
theorem lines_eq_places : ∀ (outline : Outline) (indentation : String) (last : Bool),
    lines indentation last outline = outline.places.map fun place =>
      indentation ++ (front (last :: Place.lasts children outline place) ++
        (Place.find? children outline place).elim "" label)
  | .entry label entries, indentation, last => by
      have below := linesOfAll_eq_places entries (indentation ++ bar last) label []
      rw [lines_entry, places, List.map_cons]
      refine congrArg₂ List.cons String.append_assoc ?_
      rw [below]
      refine List.map_congr_left fun place member => ?_
      have nonempty := ne_nil_of_mem_placesFrom member
      rw [front_cons _ (lasts_ne_nil _ nonempty), lineAt, String.append_assoc, String.append_assoc]
      rfl

theorem linesOfAll_eq_places : ∀ (entries : List Outline) (indentation : String) (label : String)
    (earlier : List Outline),
    linesOfAll indentation entries = (placesFrom earlier.length entries).map fun place =>
      indentation ++ lineAt (.entry label (earlier ++ entries)) place
  | [], _, _, _ => by rw [linesOfAll, placesFrom, List.map_nil]
  | child :: rest, indentation, label, earlier => by
      have first := lines_eq_places child indentation rest.isEmpty
      have others := linesOfAll_eq_places rest indentation label (earlier ++ [child])
      rw [List.length_append, List.append_assoc] at others
      rw [linesOfAll, placesFrom, List.map_append, List.map_map, first, others]
      refine congrArg₂ HAppend.hAppend (List.map_congr_left fun place _ => ?_) rfl
      rw [Function.comp_apply, lineAt_child]

end

end Outline

/-! ## Entries of a program -/

/-- What an outline has entries for: the program, its nodes, and blocks that are named for what
they are to their node. -/
inductive Entry where
  | program (program : Program)
  | node (node : Node)
  | block (name : String) (block : Block)

/-- The word of a node, and what it shows besides. -/
def Node.label (heap : Heap) : Node → String
  | .literal value _ => Outline.literalLabel heap value
  | .array _ _ => "Array"
  | .variable name _ => "Variable " ++ name
  | .binary operator _ _ _ => "Binary " ++ operator.symbol
  | .unary operator _ _ => "Unary " ++ operator.symbol
  | .assignment name _ _ => "Assignment " ++ name
  | .call function _ _ => "Call " ++ function
  | .methodCall receiver method _ _ => "MethodCall " ++ receiver ++ "." ++ method
  | .conditional _ _ _ _ => "If"
  | .compound block => Outline.blockLabel "Block" block.framed
  | .loop iterator _ _ _ => "For " ++ iterator
  | .range _ _ _ => "Range"
  | .flag mark _ => mark.word

/-- The entries right below a node, its blocks among them. -/
def Node.entries : Node → List Entry
  | .literal _ _ | .variable _ _ | .flag _ _ => []
  | .array nodes _ | .call _ nodes _ | .methodCall _ _ nodes _ => nodes.map .node
  | .binary _ left right _ => [.node left, .node right]
  | .unary _ operand _ => [.node operand]
  | .assignment _ value _ => [.node value]
  | .conditional condition thenBranch elseBranch _ =>
      .node condition :: .block "then" thenBranch :: elseBranch.toList.map (.block "else")
  | .compound block => block.statements.map .node
  | .loop _ iterable body _ => [.node iterable, .block "body" body]
  | .range first last _ => [.node first, .node last]

namespace Entry

def label (heap : Heap) : Entry → String
  | .program _ => "Program"
  | .node part => part.label heap
  | .block name whole => Outline.blockLabel name whole.framed

def children : Entry → List Entry
  | .program script => script.root.statements.map .node
  | .node part => part.entries
  | .block _ whole => whole.statements.map .node

/-- The entry at a place. -/
def at? (entry : Entry) (place : List Nat) : Option Entry :=
  Place.find? children entry place

/-- The line of the entry at a place: a bar for each entry on the way to it, its connector and its
label. -/
def lineAt (heap : Heap) (entry : Entry) (place : List Nat) : String :=
  Outline.front (Place.lasts children entry place) ++ (entry.at? place).elim "" (label heap)

/-- The outline of an entry. -/
def outline (heap : Heap) : Entry → Outline
  | .program script => .entry "Program" (Outline.ofNodes heap script.root.statements)
  | .node part => Outline.ofNode heap part
  | .block name whole => Outline.ofBlock heap name whole

theorem ofNodes_eq_map (heap : Heap) (nodes : List Node) :
    Outline.ofNodes heap nodes = (nodes.map Entry.node).map (outline heap) := by
  induction nodes with
  | nil => rw [Outline.ofNodes, List.map_nil, List.map_nil]
  | cons first rest inductionHypothesis =>
      rw [Outline.ofNodes, inductionHypothesis]
      rfl

theorem children_outline (heap : Heap) (entry : Entry) :
    (entry.outline heap).children = entry.children.map (outline heap) := by
  cases entry with
  | program script => exact ofNodes_eq_map heap _
  | block name whole =>
      rcases whole with ⟨framed, statements, line⟩
      rw [outline, Outline.ofBlock]
      exact ofNodes_eq_map heap statements
  | node part =>
      rw [outline]
      cases part with
      | conditional condition thenBranch elseBranch line =>
          rw [Outline.ofNode_conditional]
          cases elseBranch <;> rfl
      | compound whole =>
          rcases whole with ⟨framed, statements, line⟩
          rw [Outline.ofNode, Outline.ofBlock]
          exact ofNodes_eq_map heap statements
      | array nodes _ | call _ nodes _ | methodCall _ _ nodes _ =>
          rw [Outline.ofNode]
          exact ofNodes_eq_map heap nodes
      | _ =>
          rw [Outline.ofNode]
          rfl

theorem label_outline (heap : Heap) (entry : Entry) :
    (entry.outline heap).label = entry.label heap := by
  cases entry with
  | program script => rfl
  | block name whole =>
      rcases whole with ⟨framed, statements, line⟩
      rw [outline, Outline.ofBlock]
      rfl
  | node part =>
      rw [outline]
      cases part with
      | conditional condition thenBranch elseBranch line =>
          rw [Outline.ofNode_conditional]
          rfl
      | compound whole =>
          rcases whole with ⟨framed, statements, line⟩
          rw [Outline.ofNode, Outline.ofBlock]
          rfl
      | _ =>
          rw [Outline.ofNode]
          rfl

theorem lineAt_outline (heap : Heap) (entry : Entry) (place : List Nat) :
    (entry.outline heap).lineAt place = entry.lineAt heap place := by
  rw [Outline.lineAt, lineAt, at?, Place.lasts_map (outline heap) (children_outline heap),
    Place.find?_map (outline heap) (children_outline heap)]
  cases Place.find? children entry place with
  | none => rfl
  | some found => exact congrArg _ (label_outline heap found)

end Entry

/-! ## Lines of a text -/

/-- The lines of a text, every one of which is ended by a line break. -/
def Text.lines (text : String) : List String :=
  (text.toList.splitOn '\n').dropLast.map String.ofList

namespace Outline

theorem ended_eq_intercalate (lines : List String) :
    ended lines = ['\n'].intercalate (lines.map String.toList ++ [[]]) := by
  induction lines with
  | nil => rfl
  | cons line rest inductionHypothesis =>
      rw [ended, List.flatMap_cons, ← ended, inductionHypothesis, List.map_cons, List.cons_append]
      obtain ⟨first, others, split⟩ :=
        List.exists_cons_of_ne_nil (List.append_ne_nil_of_right_ne_nil (rest.map String.toList)
          (List.cons_ne_nil [] []))
      rw [split, List.intercalate_cons_cons]

end Outline

namespace Text

/-- Lines that were ended each by a line break are found again if there is none in them. -/
theorem lines_join {all : List String} (whole : ∀ line ∈ all, '\n' ∉ line.toList) :
    Text.lines (String.join (all.map fun line => line ++ "\n")) = all := by
  have free : ∀ piece ∈ all.map String.toList ++ [[]], '\n' ∉ piece := by
    refine List.forall_mem_append.mpr ⟨?_, List.forall_mem_singleton.mpr List.not_mem_nil⟩
    intro piece member
    obtain ⟨line, inside, rfl⟩ := List.mem_map.mp member
    exact whole line inside
  have nonempty : all.map String.toList ++ [[]] ≠ [] :=
    List.append_ne_nil_of_right_ne_nil _ (List.cons_ne_nil _ _)
  rw [Text.lines, Outline.toList_join_ended, Outline.ended_eq_intercalate,
    List.splitOn_intercalate '\n' free nonempty, List.dropLast_concat, List.map_map]
  exact (List.map_congr_left fun line _ => String.ofList_toList).trans (List.map_id _)

theorem not_mem_of_mem_lines {text line : String} (member : line ∈ Text.lines text) :
    '\n' ∉ line.toList := by
  obtain ⟨piece, inside, rfl⟩ := List.mem_map.mp member
  rw [← pieces_eq_splitOn] at inside
  rw [String.toList_ofList]
  exact not_mem_of_mem_pieces (List.mem_of_mem_dropLast inside)

end Text

/-! ## Lines of entries -/

theorem Outline.front_whole (lasts : List Bool) : '\n' ∉ (front lasts).toList := by
  induction lasts with
  | nil => exact List.not_mem_nil
  | cons last rest inductionHypothesis =>
      cases rest with
      | nil => exact notMem_connector last
      | cons next more => exact notMem_append (notMem_bar last) inductionHypothesis

theorem Outline.blockLabel_whole {name : String} (single : '\n' ∉ name.toList) (framed : Bool) :
    '\n' ∉ (blockLabel name framed).toList := by
  cases framed with
  | true => exact notMem_append single (by decide)
  | false => exact single

/-- Only a literal can be shown over several lines. -/
theorem Node.label_whole {heap : Heap} {node : Node} (named : node.HasNames)
    (shown : ∀ value line, node = .literal value line →
      '\n' ∉ (Outline.literalLabel heap value).toList) : '\n' ∉ (node.label heap).toList := by
  cases node with
  | literal value line => exact shown value line rfl
  | «variable» name _ | assignment name _ _ | call name _ _ | loop name _ _ _ =>
      exact Outline.notMem_append (by decide) (Token.IsName.single named)
  | methodCall receiver method _ _ =>
      exact Outline.notMem_append (Outline.notMem_append (Outline.notMem_append (by decide)
        (Token.IsName.single named.1)) (by decide)) (Token.IsName.single named.2)
  | binary operator _ _ _ =>
      exact Outline.notMem_append (by decide) (by cases operator <;> decide)
  | unary operator _ _ => exact Outline.notMem_append (by decide) (by cases operator <;> decide)
  | compound block =>
      exact Outline.blockLabel_whole (by decide) block.framed
  | flag mark _ =>
      change '\n' ∉ mark.word.toList
      cases mark <;> decide
  | array _ _ => exact (by decide : '\n' ∉ "Array".toList)
  | conditional _ _ _ _ => exact (by decide : '\n' ∉ "If".toList)
  | range _ _ _ => exact (by decide : '\n' ∉ "Range".toList)

namespace Entry

/-- All names in an entry and below it can be written, and a block is named on one line. -/
def IsNamed : Entry → Prop
  | .program script => ∀ statement ∈ script.root.statements, statement.All Node.HasNames
  | .node part => part.All Node.HasNames
  | .block name whole =>
      '\n' ∉ name.toList ∧ ∀ statement ∈ whole.statements, statement.All Node.HasNames

theorem isNamed_map {nodes : List Node} (all : ∀ part ∈ nodes, part.All Node.HasNames) :
    ∀ child ∈ nodes.map Entry.node, child.IsNamed := by
  intro child member
  obtain ⟨part, inside, rfl⟩ := List.mem_map.mp member
  exact all part inside

theorem IsNamed.child {entry : Entry} (named : entry.IsNamed) :
    ∀ child ∈ entry.children, child.IsNamed := by
  cases entry with
  | program script => exact isNamed_map named
  | block name whole => exact isNamed_map named.2
  | node part =>
      have below : ∀ child ∈ part.children, child.All Node.HasNames := fun _ => Node.All.below named
      cases part with
      | conditional condition thenBranch elseBranch line =>
          have branches := List.forall_mem_append.mp (List.forall_mem_cons.mp below).2
          refine List.forall_mem_cons.mpr ⟨(List.forall_mem_cons.mp below).1,
            List.forall_mem_cons.mpr ⟨⟨by decide, branches.1⟩, ?_⟩⟩
          intro child member
          cases elseBranch with
          | none => cases member
          | some whole =>
              rw [List.mem_singleton.mp member]
              exact ⟨by decide, branches.2⟩
      | loop iterator iterable body line =>
          have parts := List.forall_mem_cons.mp below
          exact List.forall_mem_cons.mpr
            ⟨parts.1, List.forall_mem_singleton.mpr ⟨by decide, parts.2⟩⟩
      | _ => exact isNamed_map below

theorem IsNamed.at? {entry found : Entry} {place : List Nat} (named : entry.IsNamed)
    (stands : entry.at? place = some found) : found.IsNamed := by
  induction place generalizing entry with
  | nil =>
      cases stands
      exact named
  | cons position rest inductionHypothesis =>
      rw [Entry.at?, Place.find?] at stands
      obtain ⟨child, member, further⟩ := Option.bind_eq_some_iff.mp stands
      exact inductionHypothesis (named.child child (List.mem_of_getElem? member)) further

/-- The line of an entry is one line unless the entry is a literal that is shown over several. -/
theorem lineAt_whole {heap : Heap} {entry : Entry} (named : entry.IsNamed) {place : List Nat}
    (shown : ∀ value line, entry.at? place = some (.node (.literal value line)) →
      '\n' ∉ (Outline.literalLabel heap value).toList) :
    '\n' ∉ (entry.lineAt heap place).toList := by
  rw [lineAt]
  apply Outline.notMem_append (Outline.front_whole _)
  cases stands : entry.at? place with
  | none => exact List.not_mem_nil
  | some found =>
      have foundNamed := named.at? stands
      cases found with
      | program script => exact (by decide : '\n' ∉ "Program".toList)
      | block name whole => exact Outline.blockLabel_whole foundNamed.1 whole.framed
      | node part =>
          apply Node.label_whole foundNamed.here
          rintro value line rfl
          exact shown value line stands

end Entry

/-! ## Outlines of programs -/

theorem Entry.mem_places_outline (heap : Heap) {entry : Entry} {place : List Nat} :
    place ∈ (entry.outline heap).places ↔ (entry.at? place).isSome = true := by
  rw [Outline.mem_places, Place.find?_map (Entry.outline heap) (Entry.children_outline heap),
    Option.isSome_map]
  rfl

theorem Program.outline_eq_join (program : Program) (heap : Heap) :
    program.outline heap =
      String.join (((Entry.program program).outline heap).places.map fun place =>
        (Entry.program program).lineAt heap place ++ "\n") := by
  have below := Outline.linesOfAll_eq_places (Outline.ofNodes heap program.root.statements) ""
    "Program" []
  have lines : "Program" :: Outline.linesOfAll "" (Outline.ofNodes heap program.root.statements) =
      ((Entry.program program).outline heap).places.map
        ((Entry.program program).lineAt heap) := by
    rw [below, Entry.outline, Outline.places, List.map_cons]
    refine congrArg₂ List.cons String.empty_append.symm (List.map_congr_left fun place _ => ?_)
    rw [String.empty_append]
    exact Entry.lineAt_outline heap (.program program) place
  rw [Program.outline, lines, List.map_map]
  rfl

/-- The outline of a compiled program has one entry for every node and every labelled block, each in
front of those below it and beside it, and the text of the outline is made of their lines: bars for
the entries on the way, the entry's own connector and its label.  These are the lines of the text
unless a literal is shown with a line break in it. -/
theorem outline_has_line_for_each_entry {library : Library} {source : String}
    {arguments rest : Arguments} {program : Program}
    (compiled : compile library source arguments = .ok program rest) (heap : Heap) :
    let root := Entry.program program
    ∃ places : List (List Nat), places.Pairwise (· < ·) ∧
      (∀ place, place ∈ places ↔ (root.at? place).isSome = true) ∧
      program.outline heap =
        String.join (places.map fun place => root.lineAt heap place ++ "\n") ∧
      (Text.lines (program.outline heap) = places.map (root.lineAt heap) ↔
        ∀ place value line, root.at? place = some (.node (.literal value line)) →
          '\n' ∉ (Outline.literalLabel heap value).toList) := by
  intro root
  have named : root.IsNamed := by
    cases compile_isRead compiled with
    | mk all => exact fun statement member => Node.hasNames_statement (all statement member)
  have places {place : List Nat} :
      place ∈ (root.outline heap).places ↔ (root.at? place).isSome = true :=
    Entry.mem_places_outline heap
  refine ⟨(root.outline heap).places, Outline.pairwise_places _, fun _ => places,
    program.outline_eq_join heap, ?_, ?_⟩
  · intro lines place value line stands
    have member : root.lineAt heap place ∈ Text.lines (program.outline heap) := by
      rw [lines]
      exact List.mem_map_of_mem (places.mpr (Option.isSome_of_eq_some stands))
    have single := Text.not_mem_of_mem_lines member
    rw [Entry.lineAt, stands, String.toList_append, List.mem_append, not_or] at single
    exact single.2
  · intro shown
    have whole : ∀ line ∈ (root.outline heap).places.map (root.lineAt heap),
        '\n' ∉ line.toList := by
      intro line member
      obtain ⟨place, _, rfl⟩ := List.mem_map.mp member
      exact Entry.lineAt_whole named fun value line => shown place value line
    have lines := Text.lines_join whole
    rw [List.map_map] at lines
    rw [program.outline_eq_join heap]
    exact lines

/-- A conditional with its branch and what is in it, each on a line of its own. -/
theorem outline_has_line_for_each_entry_nested :
    ∃ program rest,
      compile ⟨[], []⟩ "if x \x7b y = \"a\" \x7d" ⟨[], {}⟩ = .ok program rest ∧
      program.outline {} =
        "Program\n└─ If\n   ├─ Variable x\n   └─ then (scoped)\n      └─ Assignment y\n" ++
          "         └─ Literal \"a\"\n" ∧
      let root := Entry.program program
      ∃ places : List (List Nat), places.Pairwise (· < ·) ∧
        (∀ place, place ∈ places ↔ (root.at? place).isSome = true) ∧
        Text.lines (program.outline {}) = places.map (root.lineAt {}) := by
  have compiled : compile ⟨[], []⟩ "if x \x7b y = \"a\" \x7d" ⟨[], {}⟩ =
      .ok ⟨.mk false [.conditional (.variable "x" 1)
        (.mk true [.assignment "y" (.literal (.text "a") 1) 1] 1) none 1] 1⟩ ⟨[], {}⟩ := by cbv
  refine ⟨_, _, compiled, by decide +kernel, ?_⟩
  obtain ⟨places, sorted, complete, _, lines⟩ := outline_has_line_for_each_entry compiled {}
  refine ⟨places, sorted, complete, lines.mpr fun place value line stands => ?_⟩
  have member := (Entry.mem_places_outline {}).mpr (Option.isSome_of_eq_some stands)
  have among : place ∈ [[], [0], [0, 0], [0, 1], [0, 1, 0], [0, 1, 0, 0]] := member
  fin_cases among <;> cases stands
  decide

/-- The line break in a text ends a line of the outline, so that three entries take four lines. -/
theorem outline_breaks_line_of_text :
    ∃ program rest, compile ⟨[], []⟩ "x = \"a\nb\"" ⟨[], {}⟩ = .ok program rest ∧
      Text.lines (program.outline {}) =
        ["Program", "└─ Assignment x", "   └─ Literal \"a", "b\""] ∧
      let root := Entry.program program
      ∀ places : List (List Nat), places.Pairwise (· < ·) →
        (∀ place, place ∈ places ↔ (root.at? place).isSome = true) →
        Text.lines (program.outline {}) ≠ places.map (root.lineAt {}) := by
  have compiled : compile ⟨[], []⟩ "x = \"a\nb\"" ⟨[], {}⟩ =
      .ok ⟨.mk false [.assignment "x" (.literal (.text "a\nb") 1) 1] 1⟩ ⟨[], {}⟩ := by cbv
  have broken : Text.lines (Program.outline {}
      ⟨.mk false [.assignment "x" (.literal (.text "a\nb") 1) 1] 1⟩) =
        ["Program", "└─ Assignment x", "   └─ Literal \"a", "b\""] := by
    decide +kernel
  refine ⟨_, _, compiled, broken, ?_⟩
  intro root places sorted complete same
  have all : (root.outline {}).places = [[], [0], [0, 0]] := rfl
  have distinct : places.Nodup := sorted.imp fun less => ne_of_lt less
  have among : places.Perm [[], [0], [0, 0]] := by
    refine (List.perm_ext_iff_of_nodup distinct (by decide)).mpr fun place => ?_
    rw [complete, ← all]
    exact (Entry.mem_places_outline {}).symm
  have lengths := congrArg List.length same
  rw [broken, List.length_map, among.length_eq] at lengths
  exact absurd lengths (by decide)

end Scriptlet
