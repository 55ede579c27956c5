import Scriptlet.Proofs.Renaming

namespace Scriptlet
namespace Heap

/-!
# Values that end

A value is grounded if following its lists comes to an end: each of them was made, and none is
a part of itself.  New lists are grounded if what they hold is, since nothing that was there
before knows of them.  To change a list is safe as long as nothing is put into it from which
the list itself can be got at.

A grounded value needs no guards.  It is rendered, compared and copied by plain recursion,
which comes to an end with what the guarded recursion gives.
-/

/-- Every list that is reached was made, and none of them can be got at from what it holds. -/
structure Grounded (heap : Heap) (value : Value) : Prop where
  stored : ∀ address, heap.Reaches value (.list address) → address < heap.lists.size
  acyclic : ∀ address, heap.Reaches value (.list address) →
    ∀ element ∈ heap.elements address, ¬ heap.Reaches element (.list address)

/-- What was grounded stays grounded. -/
def Sustains (heap after : Heap) : Prop :=
  ∀ value, heap.Grounded value → after.Grounded value

section Changes

variable {heap between after : Heap}

theorem Sustains.refl (heap : Heap) : heap.Sustains heap :=
  fun _ grounded => grounded

theorem Sustains.trans (first : heap.Sustains between) (second : between.Sustains after) :
    heap.Sustains after :=
  fun value grounded => second value (first value grounded)

theorem Grounded.part {value part : Value} (grounded : heap.Grounded value)
    (reaches : heap.Reaches value part) : heap.Grounded part where
  stored address further := grounded.stored address (reaches.trans further)
  acyclic address further := grounded.acyclic address (reaches.trans further)

theorem Grounded.element {address : Nat} {element : Value}
    (grounded : heap.Grounded (.list address)) (member : element ∈ heap.elements address) :
    heap.Grounded element :=
  grounded.part (.inside member (.self element))

/-- From a value that is no list nothing else is reached. -/
theorem eq_of_reaches {value part : Value} (plain : value.isList = false)
    (reaches : heap.Reaches value part) : part = value := by
  cases reaches with
  | self value => rfl
  | inside _ _ => cases plain

theorem grounded_of_plain {value : Value} (plain : value.isList = false) :
    heap.Grounded value := by
  constructor <;> intro address reaches <;>
    · rw [← eq_of_reaches plain reaches] at plain
      cases plain

/-- A list that was made is grounded if what it holds is grounded without it. -/
theorem grounded_list {address : Nat} (stored : address < heap.lists.size)
    (elements : ∀ element ∈ heap.elements address,
      heap.Grounded element ∧ ¬ heap.Reaches element (.list address)) :
    heap.Grounded (.list address) := by
  constructor
  · intro other reaches
    cases reaches with
    | self => exact stored
    | inside member reaches => exact (elements _ member).1.stored other reaches
  · intro other reaches
    cases reaches with
    | self => exact fun element member => (elements element member).2
    | inside member reaches => exact (elements _ member).1.acyclic other reaches

/-- Where every list holds only lists that were made before it, all values end. -/
theorem grounded_of_ordered {value : Value}
    (ordered : ∀ address < heap.lists.size, ∀ element ∈ heap.elements address,
      element.Belongs (· < address))
    (stored : value.Belongs (· < heap.lists.size)) : heap.Grounded value := by
  have closed : ∀ bound ≤ heap.lists.size, heap.Closed (· < bound) := by
    intro bound inside address earlier element member
    have before := ordered address (Nat.lt_of_lt_of_le earlier inside) element member
    exact before.imp fun _ less => Nat.lt_trans less earlier
  have made : ∀ address, heap.Reaches value (.list address) → address < heap.lists.size :=
    fun _ reaches => (closed _ (Nat.le_refl _)).reaches stored reaches
  constructor
  · exact made
  · intro address reaches element member returns
    have inside := made address reaches
    have earlier : address < address :=
      (closed address (Nat.le_of_lt inside)).reaches (ordered address inside element member) returns
    exact Nat.lt_irrefl address earlier

/-! ## New lists -/

/-- Nothing new is reached from a grounded value if every list holds what it held. -/
theorem Kept.reaches (kept : heap.Kept after) {value part : Value}
    (grounded : heap.Grounded value) (reaches : after.Reaches value part) :
    heap.Reaches value part := by
  induction reaches with
  | self value => exact .self value
  | @inside address element part member _ inductionHypothesis =>
      rw [kept.elements_eq (grounded.stored address (.self _))] at member
      exact .inside member (inductionHypothesis (grounded.element member))

theorem Kept.sustains (kept : heap.Kept after) : heap.Sustains after := by
  intro value grounded
  have before := fun {part : Value} => @Kept.reaches heap after kept value part grounded
  constructor
  · intro address reaches
    exact Nat.lt_of_lt_of_le (grounded.stored address (before reaches)) kept.size_le
  · intro address reaches element member returns
    have earlier := before reaches
    rw [kept.elements_eq (grounded.stored address earlier)] at member
    have inside := (grounded.part earlier).element member
    exact grounded.acyclic address earlier element member (kept.reaches inside returns)

theorem grounded_keep {values : Array Value}
    (grounded : ∀ value ∈ values.toList, heap.Grounded value) :
    (keep values heap).2.Grounded (keep values heap).1 := by
  have kept := kept_keep values heap
  refine grounded_list ?_ ?_
  · rw [size_keep]
    exact Nat.lt_succ_self _
  · intro element member
    rw [elements_keep] at member
    have before := grounded element member
    refine ⟨kept.sustains element before, fun returns => ?_⟩
    exact absurd (before.stored _ (kept.reaches before returns)) (Nat.lt_irrefl _)

/-! ## Changed lists -/

/-- What a change leaves in a list was there before, or the list cannot be got at from it. -/
def Safe (heap : Heap) (address : Nat) (change : Array Value → Array Value) : Prop :=
  ∀ element ∈ (change (heap.storage address)).toList, element ∈ heap.elements address ∨
    heap.Grounded element ∧ ¬ heap.Reaches element (.list address)

section Updates

variable {address : Nat} {change : Array Value → Array Value}
  (stored : address < heap.lists.size) (safe : heap.Safe address change)
include stored safe

/-- A path in a changed heap is a path in the old one, or it leads through the changed list to
something that was put into it. -/
theorem reaches_update {value part : Value}
    (reaches : (update address change heap).2.Reaches value part) :
    heap.Reaches value part ∨ heap.Reaches value (.list address) ∧
      ∃ added, heap.Grounded added ∧ ¬ heap.Reaches added (.list address) ∧
        heap.Reaches added part := by
  induction reaches with
  | self value => exact Or.inl (.self value)
  | @inside other element part member _ inductionHypothesis =>
      have old : element ∈ heap.elements other →
          heap.Reaches (.list other) part ∨ heap.Reaches (.list other) (.list address) ∧
            ∃ added, heap.Grounded added ∧ ¬ heap.Reaches added (.list address) ∧
              heap.Reaches added part := by
        intro held
        rcases inductionHypothesis with whole | ⟨start, further⟩
        · exact Or.inl (.inside held whole)
        · exact Or.inr ⟨.inside held start, further⟩
      by_cases same : other = address
      · subst same
        rw [elements_update_self stored] at member
        rcases safe element member with held | ⟨grounded, apart⟩
        · exact old held
        · rcases inductionHypothesis with whole | ⟨start, _⟩
          · exact Or.inr ⟨.self _, element, grounded, apart, whole⟩
          · exact absurd start apart
      · rw [elements_update_of_ne same] at member
        exact old member

theorem sustains_update : heap.Sustains (update address change heap).2 := by
  intro value grounded
  -- What is reached afterwards was grounded already.
  have before : ∀ part, (update address change heap).2.Reaches value part →
      heap.Grounded part := by
    intro part reaches
    rcases reaches_update stored safe reaches with whole | ⟨_, added, ends, _, further⟩
    · exact grounded.part whole
    · exact ends.part further
  constructor
  · intro other reaches
    rw [size_update]
    exact (before _ reaches).stored other (.self _)
  · intro other reaches element member returns
    have acyclic := (before _ reaches).acyclic other (.self _)
    have path := reaches_update stored safe returns
    by_cases same : other = address
    · subst same
      rw [elements_update_self stored] at member
      have back : heap.Reaches element (.list other) := path.elim id And.left
      rcases safe element member with held | ⟨_, apart⟩
      · exact acyclic element held back
      · exact apart back
    · rw [elements_update_of_ne same] at member
      rcases path with back | ⟨start, added, _, apart, further⟩
      · exact acyclic element member back
      · exact apart (further.trans (.inside member start))

end Updates
end Changes

/-! ## Copies -/

theorem sustains_mapM {copy : Value → StateM Heap Value}
    (copies : ∀ value heap, heap.Sustains (copy value heap).2 ∧
      (copy value heap).2.Grounded (copy value heap).1)
    (values : List Value) (heap : Heap) :
    heap.Sustains (values.mapM copy heap).2 ∧
      ∀ copied ∈ (values.mapM copy heap).1, (values.mapM copy heap).2.Grounded copied := by
  induction values generalizing heap with
  | nil =>
      rw [List.mapM_nil]
      exact ⟨Sustains.refl heap, List.forall_mem_nil _⟩
  | cons value rest inductionHypothesis =>
      rw [List.mapM_cons]
      have first := copies value heap
      have others := inductionHypothesis (copy value heap).2
      refine ⟨first.1.trans others.1, fun copied member => ?_⟩
      change copied ∈ (copy value heap).1 :: (rest.mapM copy (copy value heap).2).1 at member
      rcases List.mem_cons.mp member with rfl | later
      · exact others.1 _ first.2
      · exact others.2 copied later

theorem grounded_allocate {heap : Heap} {values : List Value}
    (grounded : ∀ value ∈ values, heap.Grounded value) :
    heap.Sustains (allocate values heap).2 ∧
      (allocate values heap).2.Grounded (allocate values heap).1 := by
  refine ⟨(kept_keep _ heap).sustains, grounded_keep ?_⟩
  simpa using grounded

/-- A copy is grounded even if it is one of a value that is not. -/
theorem grounded_copyWithin (depth : Nat) (outer : List Nat) (value : Value) (heap : Heap) :
    heap.Sustains (copyWithin depth outer value heap).2 ∧
      (copyWithin depth outer value heap).2.Grounded (copyWithin depth outer value heap).1 := by
  induction depth generalizing outer value heap with
  | zero =>
      cases value with
      | list address =>
          rw [copyWithin]
          exact grounded_allocate (List.forall_mem_nil _)
      | _ => exact ⟨Sustains.refl heap, grounded_of_plain rfl⟩
  | succ depth inductionHypothesis =>
      cases value with
      | list address =>
          rw [copyWithin]
          by_cases cyclic : address ∈ outer
          · rw [if_pos cyclic]
            exact grounded_allocate (List.forall_mem_nil _)
          · rw [if_neg cyclic]
            have elements := sustains_mapM (inductionHypothesis (address :: outer))
              (heap.elements address) heap
            have allocated := grounded_allocate elements.2
            exact ⟨elements.1.trans allocated.1, allocated.2⟩
      | _ => exact ⟨Sustains.refl heap, grounded_of_plain rfl⟩

/-! ## Plain recursion

Without guards, a recursion that is not given enough depth says nothing. -/

def plainRender (heap : Heap) : Nat → Value → Option String
  | _, .number value => some (Number.text value)
  | _, .text value => some value
  | _, .truth value => some (Value.truthText value)
  | _, .object _ => some "<object>"
  | 0, .list _ => none
  | depth + 1, .list address => do
      let texts ← (heap.elements address).mapM (heap.plainRender depth)
      pure ("[" ++ ", ".intercalate texts ++ "]")

def plainSame (heap : Heap) : Nat → Value → Value → Option Bool
  | _, .number x, .number y => some (sameNumber x y)
  | _, .text x, .text y => some (x = y)
  | _, .truth x, .truth y => some (x = y)
  | _, .object x, .object y => some (x.identity = y.identity)
  | 0, .list _, .list _ => none
  | depth + 1, .list x, .list y =>
      if x = y then some true
      else if heap.count x = heap.count y then
        ((heap.elements x).zip (heap.elements y)).allM fun pair =>
          heap.plainSame depth pair.1 pair.2
      else some false
  | _, _, _ => some false

def plainCopy : Nat → Value → StateT Heap Option Value
  | depth + 1, .list address => do
      let heap ← get
      let copies ← (heap.elements address).mapM (plainCopy depth)
      fun now => some (allocate copies now)
  | 0, .list _ => fun _ => none
  | _, value => pure value

/-- Each of the lists outside holds something from which the value is got at. -/
def Around (heap : Heap) (outer : List Nat) (value : Value) : Prop :=
  ∀ address ∈ outer, ∃ element ∈ heap.elements address, heap.Reaches element value

section Plain

variable {heap : Heap} {outer : List Nat} {address : Nat}

theorem Around.not_mem (around : heap.Around outer (.list address))
    (grounded : heap.Grounded (.list address)) : address ∉ outer := by
  intro inside
  rcases around address inside with ⟨element, member, returns⟩
  exact grounded.acyclic address (.self _) element member returns

theorem Around.element (around : heap.Around outer (.list address)) {element : Value}
    (member : element ∈ heap.elements address) :
    heap.Around (address :: outer) element := by
  intro other inside
  rcases List.mem_cons.mp inside with rfl | outside
  · exact ⟨element, member, .self element⟩
  · rcases around other outside with ⟨first, held, reaches⟩
    exact ⟨first, held, reaches.trans (.inside member (.self element))⟩

theorem mapM_eq_some {α β : Type} {f : α → Option β} {g : α → β} {xs : List α}
    (all : ∀ x ∈ xs, f x = some (g x)) : xs.mapM f = some (xs.map g) := by
  induction xs with
  | nil => rfl
  | cons x rest inductionHypothesis =>
      rw [List.mapM_cons, all x List.mem_cons_self,
        inductionHypothesis fun y member => all y (List.mem_cons_of_mem x member)]
      rfl

theorem allM_eq_some {α : Type} {f : α → Option Bool} {g : α → Bool} {xs : List α}
    (all : ∀ x ∈ xs, f x = some (g x)) : xs.allM f = some (xs.all g) := by
  induction xs with
  | nil => rfl
  | cons x rest inductionHypothesis =>
      rw [List.allM, all x List.mem_cons_self, List.all_cons]
      cases g x with
      | false => rfl
      | true => exact inductionHypothesis fun y member => all y (List.mem_cons_of_mem x member)

theorem plainRender_within {depth deeper : Nat} {value : Value}
    (fathoms : Correspondence.Fathoms (List.range heap.lists.size) depth outer)
    (around : heap.Around outer value) (grounded : heap.Grounded value)
    (enough : depth ≤ deeper) :
    heap.plainRender deeper value = some (heap.renderWithin depth outer value) := by
  induction depth generalizing deeper outer value with
  | zero =>
      rcases fathoms.pos with ⟨_, none⟩
      cases none
  | succ depth inductionHypothesis =>
      obtain ⟨deeper, rfl⟩ : ∃ less, deeper = less + 1 := ⟨deeper - 1, by omega⟩
      have less := Nat.le_of_succ_le_succ enough
      cases value with
      | list address =>
          have isNew := around.not_mem grounded
          have inside := List.mem_range.mpr (grounded.stored address (.self _))
          have texts := mapM_eq_some fun element (member : element ∈ heap.elements address) =>
            inductionHypothesis (fathoms.next isNew inside) (around.element member)
              (grounded.element member) less
          rw [plainRender, texts, renderWithin, if_neg isNew]
          rfl
      | _ => rfl

/-- Copying some values one after the other, each from the heap that the last one left. -/
theorem mapM_copies {plain : Value → StateT Heap Option Value} {copy : Value → StateM Heap Value}
    (keeps : ∀ value (now : Heap), now.Kept (copy value now).2) {values : List Value}
    (same : ∀ value ∈ values, ∀ now, heap.Kept now → plain value now = some (copy value now))
    {now : Heap} (kept : heap.Kept now) :
    values.mapM plain now = some (values.mapM copy now) := by
  induction values generalizing now with
  | nil =>
      rw [List.mapM_nil, List.mapM_nil]
      rfl
  | cons value rest inductionHypothesis =>
      have first := same value List.mem_cons_self now kept
      have others := inductionHypothesis
        (fun other member => same other (List.mem_cons_of_mem value member))
        (kept.trans (keeps value now))
      rw [List.mapM_cons, List.mapM_cons]
      simp only [bind, StateT.bind, first, Option.bind_some, others]
      rfl

theorem plainCopy_within {depth deeper : Nat} {value : Value} {now : Heap}
    (fathoms : Correspondence.Fathoms (List.range heap.lists.size) depth outer)
    (around : heap.Around outer value) (grounded : heap.Grounded value)
    (kept : heap.Kept now) (enough : depth ≤ deeper) :
    plainCopy deeper value now = some (copyWithin depth outer value now) := by
  induction depth generalizing deeper outer value now with
  | zero =>
      rcases fathoms.pos with ⟨_, none⟩
      cases none
  | succ depth inductionHypothesis =>
      obtain ⟨deeper, rfl⟩ : ∃ less, deeper = less + 1 := ⟨deeper - 1, by omega⟩
      have less := Nat.le_of_succ_le_succ enough
      cases value with
      | list address =>
          have isNew := around.not_mem grounded
          have stored := grounded.stored address (.self _)
          have copies : (heap.elements address).mapM (plainCopy deeper) now =
              some ((heap.elements address).mapM (copyWithin depth (address :: outer)) now) :=
            mapM_copies (fun element later => (makes_copyWithin depth _ element later).1.kept)
              (fun element member later grown => inductionHypothesis
                (fathoms.next isNew (List.mem_range.mpr stored)) (around.element member)
                (grounded.element member) grown less)
              kept
          rw [plainCopy, copyWithin, if_neg isNew]
          simp only [bind, StateT.bind, get, getThe, MonadStateOf.get, StateT.get, pure,
            Option.bind_some, kept.elements_eq stored, copies]
          rfl
      | _ => rfl

/-- Two values are compared side by side: the first one and the lists around it tell that no
pair is met again. -/
theorem plainSame_within {depth deeper : Nat} {outer : List (Nat × Nat)} {x y : Value}
    (fathoms : Correspondence.Fathoms
      (List.range heap.lists.size ×ˢ List.range heap.lists.size) depth outer)
    (around : heap.Around (outer.map Prod.fst) x) (grounded : heap.Grounded x)
    (otherGrounded : heap.Grounded y) (enough : depth ≤ deeper) :
    heap.plainSame deeper x y = some (heap.sameWithin depth outer x y) := by
  induction depth generalizing deeper outer x y with
  | zero =>
      rcases fathoms.pos with ⟨_, none⟩
      cases none
  | succ depth inductionHypothesis =>
      obtain ⟨deeper, rfl⟩ : ∃ less, deeper = less + 1 := ⟨deeper - 1, by omega⟩
      have less := Nat.le_of_succ_le_succ enough
      cases x with
      | list a =>
          cases y with
          | list b =>
              have isNew : (a, b) ∉ outer := fun inside =>
                around.not_mem grounded (List.mem_map.mpr ⟨(a, b), inside, rfl⟩)
              have inside := List.mem_product.mpr
                ⟨List.mem_range.mpr (grounded.stored a (.self _)),
                  List.mem_range.mpr (otherGrounded.stored b (.self _))⟩
              have elements := allM_eq_some
                fun pair (member : pair ∈ (heap.elements a).zip (heap.elements b)) =>
                  inductionHypothesis (fathoms.next isNew inside)
                    (around.element (List.of_mem_zip member).1)
                    (grounded.element (List.of_mem_zip member).1)
                    (otherGrounded.element (List.of_mem_zip member).2) less
              rw [plainSame, sameWithin, elements]
              by_cases same : a = b
              · simp [same]
              · by_cases counts : heap.count a = heap.count b
                · simp [same, isNew, counts]
                · simp [same, isNew, counts]
          | _ => rfl
      | _ => cases y <;> rfl

end Plain

section Ends

variable {heap : Heap} {value other : Value} {depth : Nat} (grounded : heap.Grounded value)
include grounded

/-- Enough depth for all lists is enough for the text of a grounded value. -/
theorem Grounded.plainRender_eq (enough : heap.lists.size < depth) :
    heap.plainRender depth value = some (heap.render value) := by
  have start := Correspondence.Fathoms.start (List.range heap.lists.size)
  rw [List.length_range] at start
  exact plainRender_within start (List.forall_mem_nil _) grounded enough

theorem Grounded.plainCopy_eq (enough : heap.lists.size < depth) :
    plainCopy depth value heap = some (copy value heap) := by
  have start := Correspondence.Fathoms.start (List.range heap.lists.size)
  rw [List.length_range] at start
  exact plainCopy_within start (List.forall_mem_nil _) grounded (Kept.refl heap) enough

theorem Grounded.plainSame_eq (otherGrounded : heap.Grounded other)
    (enough : heap.lists.size * heap.lists.size < depth) :
    heap.plainSame depth value other = some (heap.same value other) := by
  have start := Correspondence.Fathoms.start
    (List.range heap.lists.size ×ˢ List.range heap.lists.size)
  rw [List.length_product, List.length_range] at start
  exact plainSame_within start (List.forall_mem_nil _) grounded otherGrounded enough

end Ends

end Heap
end Scriptlet
