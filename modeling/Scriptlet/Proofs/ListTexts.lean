import Mathlib.Data.List.DropRight
import Mathlib.Data.List.Basic
import Scriptlet.Proofs.Reachability
import Scriptlet.Proofs.SpelledDoubles
import Scriptlet.Value.Coercion

namespace Scriptlet

/-!
# Texts of lists

A text that is converted to a list is cut at its commas, and the blanks around each piece are
lost.  What comes out can be anything that has no comma and no blank at its ends, and rendering
puts a comma and a blank between any two elements and brackets around all of them.  Converting
that text again gives the same elements, since the brackets that are taken away are the ones that
rendering has put there: brackets inside of elements, and those of the first text that stood at
one end only, are never the outermost ones.
-/

namespace Text

/-! ## Blanks at the ends -/

theorem trim_eq (cs : List Char) : trim cs = (cs.dropWhile isBlank).rdropWhile isBlank :=
  rfl

theorem trim_nil : trim [] = [] :=
  rfl

theorem trim_cons_blank {c : Char} (blank : isBlank c = true) (cs : List Char) :
    trim (c :: cs) = trim cs := by
  rw [trim_eq, List.dropWhile_cons_of_pos blank, trim_eq]

theorem trim_concat_blank {c : Char} (blank : isBlank c = true) (cs : List Char) :
    trim (cs ++ [c]) = trim cs := by
  rw [trim_eq, trim_eq, List.dropWhile_append]
  split
  · have empty : cs.dropWhile isBlank = [] := List.isEmpty_iff.mp ‹_›
    rw [List.dropWhile_cons_of_pos blank, empty]
    rfl
  · rw [List.rdropWhile_concat_pos _ _ _ blank]

/-- A text without blanks at its ends is left as it is. -/
theorem trim_of_ends {cs : List Char} (first : ∀ c ∈ cs.head?, isBlank c = false)
    (last : ∀ c ∈ cs.getLast?, isBlank c = false) : trim cs = cs := by
  have leading : cs.dropWhile isBlank = cs := by
    cases cs with
    | nil => rfl
    | cons c rest => exact List.dropWhile_cons_of_neg (by simp [first c rfl])
  rw [trim_eq, leading, List.rdropWhile_eq_self_iff]
  intro nonempty
  simp [last _ (List.getLast?_eq_some_getLast nonempty)]

/-- The first character that is kept is no blank, and the last one is none either. -/
theorem trim_ends (cs : List Char) :
    (∀ c ∈ (trim cs).head?, isBlank c = false) ∧ ∀ c ∈ (trim cs).getLast?, isBlank c = false := by
  rw [trim_eq]
  constructor
  · intro c member
    have head := List.head?_dropWhile_not isBlank cs
    rcases List.rdropWhile_prefix isBlank (cs.dropWhile isBlank) with ⟨rest, split⟩
    generalize (cs.dropWhile isBlank).rdropWhile isBlank = front at member split
    rw [← split, List.head?_append, Option.mem_def.mp member] at head
    simpa using head
  · intro c member
    have kept := List.rdropWhile_last_not isBlank (cs.dropWhile isBlank)
    rcases List.getLast?_eq_some_iff.mp (Option.mem_def.mp member) with ⟨front, split⟩
    have nonempty : (cs.dropWhile isBlank).rdropWhile isBlank ≠ [] := by
      rw [split]
      exact List.append_ne_nil_of_right_ne_nil _ (List.cons_ne_nil _ _)
    have last := kept nonempty
    simp only [split, List.getLast_append_singleton] at last
    simpa using last

theorem trim_trim (cs : List Char) : trim (trim cs) = trim cs :=
  trim_of_ends (trim_ends cs).1 (trim_ends cs).2

theorem mem_of_mem_trim {cs : List Char} {c : Char} (member : c ∈ trim cs) : c ∈ cs :=
  (List.dropWhile_sublist _).subset ((List.rdropWhile_prefix isBlank _).subset member)

/-! ## Pieces -/

theorem pieces_eq_splitOn (separator : Char) (cs : List Char) :
    pieces separator cs = cs.splitOn separator := by
  rw [List.splitOn_eq_splitOnP]
  induction cs with
  | nil => rfl
  | cons c rest inductionHypothesis =>
      rw [List.splitOnP_cons_eq_if_modifyHead, pieces, inductionHypothesis]
      have nonempty := List.splitOnP_ne_nil (· == separator) rest
      cases split : rest.splitOnP (· == separator) with
      | nil => exact absurd split nonempty
      | cons piece others =>
          by_cases same : c = separator
          · simp [same]
          · simp [same]

theorem pieces_ne_nil (separator : Char) (cs : List Char) : pieces separator cs ≠ [] := by
  rw [pieces_eq_splitOn, List.splitOn_eq_splitOnP]
  exact List.splitOnP_ne_nil _ _

theorem not_mem_of_mem_pieces {separator : Char} {cs piece : List Char}
    (member : piece ∈ pieces separator cs) : separator ∉ piece := by
  induction cs generalizing piece with
  | nil =>
      rw [List.mem_singleton.mp member]
      exact List.not_mem_nil
  | cons c rest inductionHypothesis =>
      rw [pieces] at member
      cases split : pieces separator rest with
      | nil => exact absurd split (pieces_ne_nil separator rest)
      | cons front others =>
          rw [split] at member inductionHypothesis
          simp only at member
          split at member
          · rcases List.mem_cons.mp member with rfl | later
            · exact List.not_mem_nil
            · exact inductionHypothesis later
          · rcases List.mem_cons.mp member with rfl | later
            · have apart : separator ≠ c := Ne.symm ‹_›
              simp [apart, inductionHypothesis List.mem_cons_self]
            · exact inductionHypothesis (List.mem_cons_of_mem _ later)

/-- A character at the end that does not separate belongs to the last piece. -/
theorem pieces_concat {separator c : Char} (apart : c ≠ separator) (cs : List Char) :
    ∃ front last, pieces separator cs = front ++ [last] ∧
      pieces separator (cs ++ [c]) = front ++ [last ++ [c]] := by
  induction cs with
  | nil => exact ⟨[], [], rfl, by simp [pieces, apart]⟩
  | cons d rest inductionHypothesis =>
      rcases inductionHypothesis with ⟨front, last, split, longer⟩
      rw [List.cons_append, pieces, pieces, split, longer]
      by_cases same : d = separator
      · refine ⟨[] :: front, last, ?_, ?_⟩ <;> cases front <;> simp [same]
      · cases front with
        | nil => exact ⟨[], d :: last, by simp [same], by simp [same]⟩
        | cons piece others => exact ⟨(d :: piece) :: others, last, by simp [same], by simp [same]⟩

/-- Blanks at the ends of a text are blanks at the ends of its pieces. -/
theorem trimmed_pieces {separator : Char} (visible : isBlank separator = false) (cs : List Char) :
    (pieces separator (trim cs)).map trim = (pieces separator cs).map trim := by
  have apart : ∀ {c}, isBlank c = true → c ≠ separator := by
    rintro c blank rfl
    rw [blank] at visible
    cases visible
  have leading : (pieces separator (cs.dropWhile isBlank)).map trim =
      (pieces separator cs).map trim := by
    induction cs with
    | nil => rfl
    | cons c rest inductionHypothesis =>
        by_cases blank : isBlank c = true
        · rw [List.dropWhile_cons_of_pos blank, inductionHypothesis, pieces]
          cases split : pieces separator rest with
          | nil => exact absurd split (pieces_ne_nil separator rest)
          | cons piece others =>
              simp only [if_neg (apart blank), List.map_cons, trim_cons_blank blank]
        · rw [List.dropWhile_cons_of_neg blank]
  have trailing : ∀ ds : List Char, (pieces separator (ds.rdropWhile isBlank)).map trim =
      (pieces separator ds).map trim := by
    intro ds
    induction ds using List.reverseRecOn with
    | nil => rfl
    | append_singleton front c inductionHypothesis =>
        by_cases blank : isBlank c = true
        · rw [List.rdropWhile_concat_pos _ _ _ blank, inductionHypothesis]
          rcases pieces_concat (apart blank) front with ⟨earlier, last, split, longer⟩
          rw [split, longer, List.map_append, List.map_append, List.map_singleton,
            List.map_singleton, trim_concat_blank blank]
        · rw [List.rdropWhile_concat_neg _ _ _ blank]
  rw [trim_eq, trailing, leading]

/-- Texts with a separator and a blank between each two are the pieces of what they make, but for
the blanks. -/
theorem pieces_intercalate {separator blank : Char} {texts : List (List Char)}
    (nonempty : texts ≠ []) (isBlank : isBlank blank = true) (visible : blank ≠ separator)
    (free : ∀ text ∈ texts, separator ∉ text) :
    (pieces separator ([separator, blank].intercalate texts)).map trim = texts.map trim := by
  have joined : ∀ first others, [separator, blank].intercalate (first :: others) =
      [separator].intercalate (first :: others.map (blank :: ·)) := by
    intro first others
    induction others generalizing first with
    | nil => rw [List.map_nil, List.intercalate_singleton, List.intercalate_singleton]
    | cons next rest inductionHypothesis =>
        rw [List.intercalate_cons_cons, inductionHypothesis, List.map_cons,
          List.intercalate_cons_cons]
        cases rest with
        | nil => simp
        | cons another more =>
            rw [List.map_cons, List.intercalate_cons_cons, List.intercalate_cons_cons]
            simp
  cases texts with
  | nil => exact absurd rfl nonempty
  | cons first others =>
      have apart : ∀ text ∈ first :: others.map (blank :: ·), separator ∉ text := by
        intro text member
        rcases List.mem_cons.mp member with rfl | later
        · exact free _ List.mem_cons_self
        · rcases List.mem_map.mp later with ⟨original, held, rfl⟩
          simp [Ne.symm visible, free original (List.mem_cons_of_mem _ held)]
      rw [joined, pieces_eq_splitOn,
        List.splitOn_intercalate separator apart (List.cons_ne_nil _ _),
        List.map_cons, List.map_cons, List.map_map]
      congr 1
      apply List.map_congr_left
      intro text _
      exact trim_cons_blank isBlank text

end Text

namespace Coercion

/-! ## Elements -/

/-- What an element of a written list can be: a number, or a text without a comma and without
blanks at its ends that does not read as a number. -/
inductive IsElement : Value → Prop
  | number (x : Float) : IsElement (.number x)
  | text {s : String} : Text.trim s.toList = s.toList → ',' ∉ s.toList →
      Number.read? s.toList = none → IsElement (.text s)

/-- The text of an element inside the text of its list. -/
def shown : Value → List Char
  | .number x => Number.spelling x
  | .text s => s.toList
  | _ => []

/-- The text of a list of elements. -/
def listText (values : List Value) : List Char :=
  '[' :: ([',', ' '].intercalate (values.map shown) ++ [']'])

theorem toNat_of_isSpelled {c : Char} (spelled : Number.isSpelled c = true) :
    45 ≤ c.toNat ∧ c.toNat ≤ 122 := by
  simp only [Number.isSpelled, Char.isAlphanum, Char.isAlpha, Char.isUpper, Char.isLower,
    Char.isDigit, Bool.or_eq_true, Bool.and_eq_true, decide_eq_true_eq, ge_iff_le,
    UInt32.le_iff_toNat_le] at spelled
  change (((65 ≤ c.toNat ∧ c.toNat ≤ 90 ∨ 97 ≤ c.toNat ∧ c.toNat ≤ 122) ∨
    48 ≤ c.toNat ∧ c.toNat ≤ 57) ∨ c = '.') ∨ c = '-' at spelled
  rcases spelled with (((upper | lower) | digit) | rfl) | rfl
  · omega
  · omega
  · omega
  · decide
  · decide

theorem isBlank_of_isSpelled {c : Char} (spelled : Number.isSpelled c = true) :
    Text.isBlank c = false := by
  have zone := toNat_of_isSpelled spelled
  simp only [Text.isBlank, Text.inRanges, Text.blankRanges, List.any_cons, List.any_nil,
    Bool.or_false, Bool.or_eq_false_iff, Bool.and_eq_false_iff, decide_eq_false_iff_not]
  omega

theorem trim_spelling (x : Float) : Text.trim (Number.spelling x) = Number.spelling x := by
  have spelled := Number.isSpelled_spelling x
  apply Text.trim_of_ends
  · exact fun c member => isBlank_of_isSpelled (spelled c (List.mem_of_mem_head? member))
  · exact fun c member => isBlank_of_isSpelled (spelled c (List.mem_of_mem_getLast? member))

theorem element_shown {value : Value} (isElement : IsElement value) :
    element (shown value) = value ∧ Text.trim (shown value) = shown value ∧
      ',' ∉ shown value := by
  cases isElement with
  | number x =>
      refine ⟨?_, trim_spelling x, ?_⟩
      · simp only [element, shown, Number.read?_spelling]
      · intro member
        exact absurd (Number.isSpelled_spelling x ',' member) (by decide)
  | text trimmed free plain =>
      refine ⟨?_, trimmed, free⟩
      simp only [element, shown, plain, String.ofList_toList]

theorem isElement_element {cs : List Char} (trimmed : Text.trim cs = cs) (free : ',' ∉ cs) :
    IsElement (element cs) := by
  unfold element
  cases reads : Number.read? cs with
  | some x => exact .number x
  | none =>
      have same : (String.ofList cs).toList = cs := String.toList_ofList
      exact .text (by rw [same, trimmed]) (by rwa [same]) (by rwa [same])

/-- Conversion yields nothing but elements. -/
theorem isElement_elements {cs : List Char} {value : Value} (member : value ∈ elements cs) :
    IsElement value := by
  unfold elements at member
  dsimp only at member
  split at member
  · cases member
  · rcases List.mem_map.mp member with ⟨piece, held, rfl⟩
    refine isElement_element (Text.trim_trim piece) fun comma => ?_
    exact Text.not_mem_of_mem_pieces held (Text.mem_of_mem_trim comma)

/-- Conversion never yields the empty text alone: a text of blanks is an empty list. -/
theorem elements_ne_empty (cs : List Char) : elements cs ≠ [.text ""] := by
  unfold elements
  dsimp only
  generalize inside : Text.trim (unbracketed (Text.trim cs)) = inner
  have trimmed : Text.trim inner = inner := by rw [← inside, Text.trim_trim]
  intro alone
  split at alone
  · cases alone
  · rcases List.map_eq_singleton_iff.mp alone with ⟨piece, whole, blank⟩
    have joined : [','].intercalate (List.splitOn ',' inner) = inner := List.intercalate_splitOn ','
    rw [← Text.pieces_eq_splitOn, whole, List.intercalate_singleton] at joined
    rw [joined, trimmed] at blank
    unfold element at blank
    split at blank
    · cases blank
    · have none : inner = [] := by
        have texts := congrArg String.toList (Value.text.inj blank)
        rwa [String.toList_ofList] at texts
      exact absurd (List.isEmpty_iff.mpr none) ‹_›

/-- A list of elements is converted back from its text, unless it is the empty text alone. -/
theorem elements_listText {values : List Value} (all : ∀ value ∈ values, IsElement value)
    (visible : values ≠ [.text ""]) : elements (listText values) = values := by
  have outer : Text.trim (listText values) = listText values := by
    apply Text.trim_of_ends
    · intro c member
      cases member
      decide
    · intro c member
      rw [listText, ← List.cons_append, List.getLast?_concat] at member
      cases member
      decide
  have inner : unbracketed (listText values) = [',', ' '].intercalate (values.map shown) := by
    simp only [unbracketed, listText, List.getLast?_concat, if_true, List.dropLast_concat]
  unfold elements
  rw [outer, inner]
  cases values with
  | nil => rfl
  | cons first others =>
      have cut : (Text.pieces ','
          (Text.trim ([',', ' '].intercalate ((first :: others).map shown)))).map Text.trim =
            (first :: others).map shown := by
        rw [Text.trimmed_pieces (by decide), Text.pieces_intercalate (by simp) (by decide)
          (by decide)]
        · rw [List.map_map]
          exact List.map_congr_left fun value member => (element_shown (all value member)).2.1
        · intro text member
          rcases List.mem_map.mp member with ⟨value, held, rfl⟩
          exact (element_shown (all value held)).2.2
      have nonempty : Text.trim ([',', ' '].intercalate ((first :: others).map shown)) ≠ [] := by
        intro empty
        -- All that is written without a comma and without anything to see is one empty text.
        rw [empty] at cut
        have single := congrArg List.length cut
        cases others with
        | cons next rest => simp [Text.pieces] at single
        | nil =>
            have blank : shown first = [] := by
              simpa [Text.pieces, Text.trim_nil] using cut.symm
            have same := (element_shown (all first List.mem_cons_self)).1
            rw [blank] at same
            exact visible (by rw [← same]; rfl)
      dsimp only
      rw [if_neg (by simpa using nonempty)]
      have split : (fun piece => element (Text.trim piece)) = element ∘ Text.trim := rfl
      rw [split, ← List.map_map, cut, List.map_map, List.map_congr_left (g := id)]
      · exact List.map_id _
      · exact fun value member => (element_shown (all value member)).1

end Coercion

/-! ## Conversion and rendering -/

namespace Heap

theorem coerce_text_list (text : String) (heap : Heap) :
    coerce (.text text) .list heap =
      (some (.list heap.lists.size), (keep (Coercion.elements text.toList).toArray heap).2) :=
  rfl

theorem elements_kept (values : List Value) (heap : Heap) :
    (keep values.toArray heap).2.elements heap.lists.size = values :=
  elements_keep values.toArray heap

/-- The text of a stored list of elements. -/
theorem render_elements {heap : Heap} {address : Nat}
    (all : ∀ value ∈ heap.elements address, Coercion.IsElement value) :
    heap.render (.list address) = String.ofList (Coercion.listText (heap.elements address)) := by
  have texts : (heap.elements address).map (heap.renderWithin heap.lists.size [address]) =
      (heap.elements address).map fun value => String.ofList (Coercion.shown value) := by
    apply List.map_congr_left
    intro value member
    cases all value member with
    | number x => cases heap.lists.size <;> rfl
    | text => cases heap.lists.size <;> simp [renderWithin, Coercion.shown]
  unfold render depthBound
  rw [renderWithin, if_neg List.not_mem_nil, texts]
  apply String.toList_inj.mp
  simp [Coercion.listText, String.toList_intercalate, Function.comp_def]

/-- What a text is converted to is converted back from its rendering: the same elements in the
same order, whatever the text looks like.  The elements that conversion yields are known, and
every list of such elements is converted back, unless it is the empty text alone.  Numbers and
truth values are converted back from their texts too. -/
theorem coercion_undoes_rendering (heap : Heap) :
    (∀ text, ∃ address after again final,
      coerce (.text text) .list heap = (some (.list address), after) ∧
      coerce (.text (after.render (.list address))) .list after = (some (.list again), final) ∧
      final.elements again = after.elements address ∧
      (∀ value ∈ after.elements address, Coercion.IsElement value) ∧
      after.elements address ≠ [.text ""]) ∧
    (∀ address, (∀ value ∈ heap.elements address, Coercion.IsElement value) →
      heap.elements address ≠ [.text ""] →
      ∃ again after,
        coerce (.text (heap.render (.list address))) .list heap = (some (.list again), after) ∧
        after.elements again = heap.elements address) ∧
    (∀ x, ∃ text, coerce (.number x) .text heap = (some (.text text), heap) ∧
      coerce (.text text) .number heap = (some (.number x), heap)) ∧
    ∀ b, ∃ text, coerce (.truth b) .text heap = (some (.text text), heap) ∧
      coerce (.text text) .truth heap = (some (.truth b), heap) := by
  have back : ∀ (heap : Heap) address,
      (∀ value ∈ heap.elements address, Coercion.IsElement value) →
      heap.elements address ≠ [.text ""] →
      ∃ again after,
        coerce (.text (heap.render (.list address))) .list heap = (some (.list again), after) ∧
        after.elements again = heap.elements address := by
    intro heap address all visible
    refine ⟨_, _, coerce_text_list _ heap, ?_⟩
    rw [elements_kept, render_elements all, String.toList_ofList,
      Coercion.elements_listText all visible]
  refine ⟨?_, back heap, ?_, ?_⟩
  · intro text
    have stored := elements_kept (Coercion.elements text.toList) heap
    have all : ∀ value ∈ (keep (Coercion.elements text.toList).toArray heap).2.elements
        heap.lists.size, Coercion.IsElement value := by
      rw [stored]
      exact fun value member => Coercion.isElement_elements member
    have visible : (keep (Coercion.elements text.toList).toArray heap).2.elements
        heap.lists.size ≠ [.text ""] := by
      rw [stored]
      exact Coercion.elements_ne_empty text.toList
    rcases back _ _ all visible with ⟨again, final, converted, same⟩
    exact ⟨_, _, again, final, coerce_text_list text heap, converted, same, all, visible⟩
  · intro x
    refine ⟨Number.text x, rfl, ?_⟩
    have reads : Number.read? (Text.trim (Number.text x).toList) = some x := by
      rw [Number.text, String.toList_ofList, Coercion.trim_spelling, Number.read?_spelling]
    unfold coerce
    simp [Coercion.outcome, Value.kind, reads, pure, StateT.pure]
  · intro b
    cases b with
    | true => exact ⟨"true", rfl, rfl⟩
    | false => exact ⟨"false", rfl, rfl⟩

/-- Brackets that belong together stand in different elements, between them an empty text, and an
undefined number ends the list. -/
theorem coercion_undoes_rendering_brackets :
    ∃ heap : Heap,
      heap.elements 0 = [.text "[a", .text "", .text "b]", .number Number.undefined] ∧
      (∀ value ∈ heap.elements 0, Coercion.IsElement value) ∧ heap.elements 0 ≠ [.text ""] ∧
      heap.render (.list 0) = "[[a, , b], NaN]" ∧
      ∃ again after, coerce (.text "[[a, , b], NaN]") .list heap = (some (.list again), after) ∧
        after.elements again = heap.elements 0 := by
  have all : ∀ value ∈ [Value.text "[a", .text "", .text "b]", .number Number.undefined],
      Coercion.IsElement value := by
    simp only [List.mem_cons, List.not_mem_nil, or_false]
    rintro value (rfl | rfl | rfl | rfl)
    · exact .text rfl (by decide) rfl
    · exact .text rfl (by decide) rfl
    · exact .text rfl (by decide) rfl
    · exact .number _
  have visible : [Value.text "[a", .text "", .text "b]", .number Number.undefined] ≠
      [.text ""] :=
    fun same => absurd (congrArg List.length same) (by decide)
  have text : Heap.render
      ⟨#[#[.text "[a", .text "", .text "b]", .number Number.undefined]], 0⟩ (.list 0) =
        "[[a, , b], NaN]" := by decide +kernel
  refine ⟨⟨#[#[.text "[a", .text "", .text "b]", .number Number.undefined]], 0⟩, rfl, all, visible,
    text, ?_⟩
  have back := (coercion_undoes_rendering
    ⟨#[#[.text "[a", .text "", .text "b]", .number Number.undefined]], 0⟩).2.1 0 all visible
  rwa [text] at back

end Heap
end Scriptlet
