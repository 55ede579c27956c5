import Mathlib.Data.List.Basic
import Scriptlet.Tree.Outline

namespace Scriptlet
namespace Outline

/-!
# Outlines from their lines

An outline is drawn line by line, and all that is left of its structure is what stands in front of
the labels.  The character behind the indentation tells an entry of one level from whatever stands
below the entry before it, and a last entry from one that is followed by another.  So the lines of
a list of entries say where the list ends, and with that every label and every list of children
can be read off the lines: no two outlines have the same lines.
-/

/-! ## Lines from a text -/

/-- Every line ended by a line break. -/
def ended (lines : List String) : List Char :=
  lines.flatMap fun line => line.toList ++ ['\n']

theorem toList_join_ended (lines : List String) :
    (String.join (lines.map fun line => line ++ "\n")).toList = ended lines := by
  rw [String.toList_join, List.flatMap_map]
  simp only [String.toList_append]
  rfl

/-- What stands in front of the first occurrence of a character is known from the text. -/
theorem append_cons_inj {c : Char} {front other rest more : List Char} (notMem : c ∉ front)
    (otherNotMem : c ∉ other) (same : front ++ c :: rest = other ++ c :: more) :
    front = other ∧ rest = more := by
  rcases List.append_eq_append_iff.mp same with ⟨between, rfl, tail⟩ | ⟨between, rfl, tail⟩
  · cases between with
    | nil => exact ⟨(List.append_nil _).symm, (List.cons.inj tail).2⟩
    | cons d between =>
        have found : c = d := (List.cons.inj tail).1
        exact absurd (by simp [found]) otherNotMem
  · cases between with
    | nil => exact ⟨List.append_nil _, (List.cons.inj tail).2.symm⟩
    | cons d between =>
        have found : c = d := (List.cons.inj tail).1
        exact absurd (by simp [found]) notMem

theorem ended_injective {lines others : List String} (whole : ∀ line ∈ lines, '\n' ∉ line.toList)
    (otherWhole : ∀ line ∈ others, '\n' ∉ line.toList) (same : ended lines = ended others) :
    lines = others := by
  induction lines generalizing others with
  | nil =>
      cases others with
      | nil => rfl
      | cons other rest =>
          have left : ([] : List Char) = (other.toList ++ ['\n']) ++ ended rest := same
          rw [List.append_assoc] at left
          cases (List.append_eq_nil_iff.mp left.symm).2
  | cons line rest inductionHypothesis =>
      cases others with
      | nil =>
          have left : (line.toList ++ ['\n']) ++ ended rest = [] := same
          rw [List.append_assoc] at left
          cases (List.append_eq_nil_iff.mp left).2
      | cons other more =>
          have split : line.toList ++ '\n' :: ended rest = other.toList ++ '\n' :: ended more := by
            have joined : (line.toList ++ ['\n']) ++ ended rest =
              (other.toList ++ ['\n']) ++ ended more := same
            rwa [List.append_assoc, List.append_assoc] at joined
          have first := whole line List.mem_cons_self
          have otherFirst := otherWhole other List.mem_cons_self
          have parts := append_cons_inj first otherFirst split
          rw [String.toList_inj.mp parts.1, inductionHypothesis
            (fun line later => whole line (List.mem_cons_of_mem _ later))
            (fun line later => otherWhole line (List.mem_cons_of_mem _ later)) parts.2]

/-! ## Entries from lines -/

/-- What joins an entry to the one it belongs to. -/
def connector (last : Bool) : String :=
  if last then "└─ " else "├─ "

/-- What stands in front of the entries below an entry. -/
def bar (last : Bool) : String :=
  if last then "   " else "│  "

theorem lines_entry (indentation : String) (last : Bool) (label : String)
    (children : List Outline) :
    lines indentation last (.entry label children) =
      (indentation ++ connector last ++ label) ::
        linesOfAll (indentation ++ bar last) children := by
  rw [lines]
  rfl

theorem toList_connector (last : Bool) :
    (connector last).toList = [if last then '└' else '├', '─', ' '] := by
  cases last <;> rfl

theorem toList_bar (last : Bool) :
    (bar last).toList = [if last then ' ' else '│', ' ', ' '] := by
  cases last <;> rfl

/-- The lines do not go on below an indentation. -/
def Outside (indentation : String) (rest : List String) : Prop :=
  ∀ line ∈ rest.head?, ¬ indentation.toList <+: line.toList

theorem outside_nil (indentation : String) : Outside indentation [] :=
  fun _ none => by cases none

/-- The first line below an indentation starts with it. -/
theorem not_outside_linesOfAll (indentation : String) (first : Outline) (others : List Outline)
    (rest : List String) :
    ¬ Outside indentation (linesOfAll indentation (first :: others) ++ rest) := by
  cases first with
  | entry label children =>
      intro outside
      rw [linesOfAll, lines_entry] at outside
      apply outside _ rfl
      rw [String.append_assoc, String.toList_append]
      exact List.prefix_append _ _

/-- The next entry of a level, and whatever follows the level, are not below an entry of it. -/
theorem outside_below {indentation : String} {rest : List String}
    (outside : Outside indentation rest) (others : List Outline) (last : Bool) :
    Outside (indentation ++ bar last) (linesOfAll indentation others ++ rest) := by
  cases others with
  | nil =>
      intro line first inside
      apply outside line first
      rw [String.toList_append] at inside
      exact (List.prefix_append _ _).trans inside
  | cons next more =>
      cases next with
      | entry label children =>
          intro line first inside
          rw [linesOfAll, lines_entry] at first
          cases first
          rw [String.append_assoc, String.toList_append, String.toList_append,
            List.prefix_append_right_inj, String.toList_append, toList_bar,
            toList_connector] at inside
          have joined := (List.cons_prefix_cons.mp inside).1
          revert joined
          cases last <;> cases more.isEmpty <;> decide

theorem connector_append_inj {last other : Bool} {label otherLabel : String}
    (same : connector last ++ label = connector other ++ otherLabel) :
    last = other ∧ label = otherLabel := by
  have texts := congrArg String.toList same
  rw [String.toList_append, String.toList_append, toList_connector, toList_connector] at texts
  obtain ⟨first, rest⟩ := List.cons.inj texts
  refine ⟨?_, String.toList_inj.mp (List.cons.inj (List.cons.inj rest).2).2⟩
  revert first
  cases last <;> cases other <;> decide

/-- The lines of some entries, and lines that do not go on below their indentation, tell where the
entries end and what they are. -/
theorem linesOfAll_append_inj : ∀ (entries others : List Outline) (indentation : String)
    (rest more : List String), Outside indentation rest → Outside indentation more →
    linesOfAll indentation entries ++ rest = linesOfAll indentation others ++ more →
    entries = others ∧ rest = more
  | [], [], _, _, _, _, _, same => ⟨rfl, same⟩
  | [], next :: others, indentation, rest, more, outside, _, same => by
      rw [linesOfAll, List.nil_append] at same
      rw [same] at outside
      exact absurd outside (not_outside_linesOfAll indentation next others more)
  | first :: entries, [], indentation, rest, more, _, outside, same => by
      rw [linesOfAll.eq_1 indentation, List.nil_append] at same
      rw [← same] at outside
      exact absurd outside (not_outside_linesOfAll indentation first entries rest)
  | .entry label children :: entries, .entry otherLabel otherChildren :: others, indentation,
      rest, more, outside, otherOutside, same => by
      rw [linesOfAll, linesOfAll, lines_entry, lines_entry] at same
      simp only [List.cons_append, List.append_assoc] at same
      obtain ⟨line, below⟩ := List.cons.inj same
      -- The first line settles the label and whether another entry follows; the lines of the
      -- children come next, and neither the next entry nor the rest can be taken for one of them.
      rw [String.append_assoc, String.append_assoc] at line
      have labels := connector_append_inj ((String.append_right_inj _).mp line)
      rw [labels.1] at below
      have inner := linesOfAll_append_inj children otherChildren _ _ _
        (outside_below outside entries _) (outside_below otherOutside others _) below
      have outer := linesOfAll_append_inj entries others indentation rest more outside otherOutside
        inner.2
      exact ⟨by rw [labels.2, inner.1, outer.1], outer.2⟩

theorem linesOfAll_injective (indentation : String) :
    Function.Injective (linesOfAll indentation) := by
  intro entries others same
  exact (linesOfAll_append_inj entries others indentation [] [] (outside_nil _) (outside_nil _)
    (congrArg (· ++ []) same)).1

/-! ## Outlines from a text -/

/-- No label goes over several lines. -/
inductive OnOneLine : Outline → Prop
  | entry {label : String} {children : List Outline} : '\n' ∉ label.toList →
      (∀ child ∈ children, OnOneLine child) → OnOneLine (.entry label children)

theorem notMem_connector (last : Bool) : '\n' ∉ (connector last).toList := by
  cases last <;> decide

theorem notMem_bar (last : Bool) : '\n' ∉ (bar last).toList := by
  cases last <;> decide

/-- No line has a line break in it. -/
theorem linesOfAll_whole : ∀ (entries : List Outline) (indentation : String),
    '\n' ∉ indentation.toList → (∀ entry ∈ entries, OnOneLine entry) →
    ∀ line ∈ linesOfAll indentation entries, '\n' ∉ line.toList
  | [], _, _, _ => by
      rw [linesOfAll]
      exact List.forall_mem_nil _
  | .entry label children :: others, indentation, clear, all => by
      rcases all _ List.mem_cons_self with ⟨short, shortChildren⟩
      have below : '\n' ∉ (indentation ++ bar others.isEmpty).toList := by
        rw [String.toList_append, List.mem_append, not_or]
        exact ⟨clear, notMem_bar _⟩
      have inner := linesOfAll_whole children _ below shortChildren
      have outer := linesOfAll_whole others indentation clear
        fun entry later => all entry (List.mem_cons_of_mem _ later)
      rw [linesOfAll, lines_entry, List.cons_append]
      refine List.forall_mem_cons.mpr ⟨?_, List.forall_mem_append.mpr ⟨inner, outer⟩⟩
      rw [String.toList_append, String.toList_append, List.mem_append, List.mem_append, not_or,
        not_or]
      exact ⟨⟨clear, notMem_connector _⟩, short⟩

end Outline

/-- Programs with the same printed outline have the same entries, whatever their labels are, as
long as every label stands on one line. -/
theorem Program.entries_eq_of_outline {program other : Program} {heap otherHeap : Heap}
    (short : ∀ entry ∈ Outline.ofNodes heap program.root.statements, entry.OnOneLine)
    (otherShort : ∀ entry ∈ Outline.ofNodes otherHeap other.root.statements, entry.OnOneLine)
    (same : program.outline heap = other.outline otherHeap) :
    Outline.ofNodes heap program.root.statements =
      Outline.ofNodes otherHeap other.root.statements := by
  have title : '\n' ∉ "Program".toList := by decide
  have texts := congrArg String.toList same
  unfold outline at texts
  rw [Outline.toList_join_ended, Outline.toList_join_ended] at texts
  have lines := Outline.ended_injective
    (List.forall_mem_cons.mpr
      ⟨title, Outline.linesOfAll_whole _ "" List.not_mem_nil short⟩)
    (List.forall_mem_cons.mpr
      ⟨title, Outline.linesOfAll_whole _ "" List.not_mem_nil otherShort⟩) texts
  exact Outline.linesOfAll_injective "" (List.cons.inj lines).2

end Scriptlet
