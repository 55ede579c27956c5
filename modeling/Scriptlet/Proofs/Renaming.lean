import Mathlib.Data.List.Perm.Subperm
import Mathlib.Data.List.ProdSigma
import Scriptlet.Proofs.Reachability
import Scriptlet.Proofs.RunningAlike

namespace Scriptlet

/-!
# Heaps that hold the same at other addresses

Addresses are not seen by scripts.  Two heaps with the same lists at different addresses show the
same texts, take the same values for the same, and are changed alike.

Which addresses belong together is known for some of them only: the lists that a run has made or
was given.  What lies elsewhere in the two heaps does not matter, and the heaps may have different
sizes.  Rendering and comparison are cut by the size of the heap, but no path that meets no list
twice is that long.
-/

/-- Lists and objects that belong together, each with one other at most. -/
structure Correspondence where
  lists : Nat → Nat → Prop
  objects : Nat → Nat → Prop
  lists_unique : Relator.BiUnique lists
  objects_unique : Relator.BiUnique objects

namespace Correspondence

/-- Values that are the same but for addresses and identities. -/
inductive Relates (known : Correspondence) : Value → Value → Prop
  | number (x : Float) : Relates known (.number x) (.number x)
  | text (s : String) : Relates known (.text s) (.text s)
  | truth (b : Bool) : Relates known (.truth b) (.truth b)
  | list {a b : Nat} : known.lists a b → Relates known (.list a) (.list b)
  | object {i j : Nat} (label : String) : known.objects i j →
      Relates known (.object ⟨i, label⟩) (.object ⟨j, label⟩)

/-- The second correspondence includes the first. -/
structure Later (known now : Correspondence) : Prop where
  lists : ∀ {a b}, known.lists a b → now.lists a b
  objects : ∀ {i j}, known.objects i j → now.objects i j

theorem Later.refl (known : Correspondence) : known.Later known :=
  ⟨id, id⟩

theorem Later.trans {known now after : Correspondence} (first : known.Later now)
    (second : now.Later after) : known.Later after :=
  ⟨fun pair => second.lists (first.lists pair), fun pair => second.objects (first.objects pair)⟩

/-- Lists that belong together are there and hold values that belong together. -/
structure Heaps (known : Correspondence) (first second : Heap) : Prop where
  stored : ∀ {a b}, known.lists a b → a < first.lists.size ∧ b < second.lists.size
  elements : ∀ {a b}, known.lists a b →
    List.Forall₂ known.Relates (first.elements a) (second.elements b)
  made : ∀ {i j}, known.objects i j → i < first.objects ∧ j < second.objects

theorem Relates.later {known now : Correspondence} {x y : Value} (related : known.Relates x y)
    (later : known.Later now) : now.Relates x y := by
  cases related with
  | number x => exact .number x
  | text s => exact .text s
  | truth b => exact .truth b
  | list pair => exact .list (later.lists pair)
  | object label pair => exact .object label (later.objects pair)

/-! ## Paths -/

/-- A path that meets nothing twice and stays inside of some room can be followed on as far as
it gets. -/
structure Fathoms {α : Type} (room : List α) (depth : Nat) (path : List α) : Prop where
  once : path.Nodup
  inside : path ⊆ room
  enough : room.length < depth + path.length

namespace Fathoms

variable {α : Type} {room path : List α} {depth : Nat}

theorem start (room : List α) : Fathoms room (room.length + 1) [] :=
  ⟨List.nodup_nil, List.nil_subset _, Nat.lt_succ_self _⟩

/-- The depth is not used up before the room is. -/
theorem pos (fathoms : Fathoms room depth path) : ∃ less, depth = less + 1 := by
  have fits := (List.subperm_of_subset fathoms.once fathoms.inside).length_le
  have enough := fathoms.enough
  exact ⟨depth - 1, by omega⟩

theorem next {place : α} (fathoms : Fathoms room (depth + 1) path) (isNew : place ∉ path)
    (inside : place ∈ room) : Fathoms room depth (place :: path) where
  once := List.nodup_cons.mpr ⟨isNew, fathoms.once⟩
  inside := List.cons_subset.mpr ⟨inside, fathoms.inside⟩
  enough := by
    have enough := fathoms.enough
    rw [List.length_cons]
    omega

end Fathoms

/-! ## Texts -/

theorem map_eq_of_forall₂ {α β : Type} {related : α → α → Prop} {f g : α → β} {xs ys : List α}
    (all : List.Forall₂ related xs ys) (same : ∀ x y, related x y → g y = f x) :
    ys.map g = xs.map f := by
  induction all with
  | nil => rfl
  | cons head _ inductionHypothesis =>
      rw [List.map_cons, List.map_cons, same _ _ head, inductionHypothesis]

section Heaps

variable {known : Correspondence} {first second : Heap} (heaps : known.Heaps first second)
include heaps

theorem Heaps.count_eq {a b : Nat} (pair : known.lists a b) : second.count b = first.count a := by
  have lengths := (heaps.elements pair).length_eq
  rw [Heap.elements, Heap.elements, Array.length_toList, Array.length_toList] at lengths
  exact lengths.symm

/-- Inside of lists that belong together, values that belong together have the same text. -/
theorem renderWithin_eq {depth other : Nat} {outer path : List Nat}
    (fathoms : Fathoms (List.range first.lists.size) depth outer)
    (otherFathoms : Fathoms (List.range second.lists.size) other path)
    (outers : List.Forall₂ known.lists outer path) {x y : Value} (related : known.Relates x y) :
    second.renderWithin other path y = first.renderWithin depth outer x := by
  induction depth generalizing other outer path x y with
  | zero =>
      rcases fathoms.pos with ⟨_, none⟩
      cases none
  | succ depth inductionHypothesis =>
      rcases otherFathoms.pos with ⟨other, rfl⟩
      cases related with
      | number x => rfl
      | text s => rfl
      | truth b => rfl
      | object label pair => rfl
      | @list a b pair =>
          have members : a ∈ outer ↔ b ∈ path := List.rel_mem known.lists_unique pair outers
          rw [Heap.renderWithin, Heap.renderWithin]
          by_cases cyclic : a ∈ outer
          · rw [if_pos cyclic, if_pos (members.mp cyclic)]
          · have otherNew : b ∉ path := fun inside => cyclic (members.mpr inside)
            have bounds := heaps.stored pair
            have deeper := fathoms.next cyclic (List.mem_range.mpr bounds.1)
            have otherDeeper := otherFathoms.next otherNew (List.mem_range.mpr bounds.2)
            have texts := map_eq_of_forall₂ (heaps.elements pair) fun _ _ related =>
              inductionHypothesis deeper otherDeeper (.cons pair outers) related
            rw [if_neg cyclic, if_neg otherNew, texts]

theorem render_eq {x y : Value} (related : known.Relates x y) :
    second.render y = first.render x := by
  have start := Fathoms.start (List.range first.lists.size)
  have otherStart := Fathoms.start (List.range second.lists.size)
  rw [List.length_range] at start otherStart
  exact renderWithin_eq heaps start otherStart .nil related

/-! ## Sameness -/

/-- Pairs of lists that belong together. -/
def Pairs (known : Correspondence) (pair other : Nat × Nat) : Prop :=
  known.lists pair.1 other.1 ∧ known.lists pair.2 other.2

omit heaps in
theorem pairs_unique : Relator.BiUnique known.Pairs := by
  constructor
  · rintro ⟨a, b⟩ ⟨c, d⟩ ⟨e, f⟩ left right
    exact Prod.ext (known.lists_unique.1 left.1 right.1) (known.lists_unique.1 left.2 right.2)
  · rintro ⟨a, b⟩ ⟨c, d⟩ ⟨e, f⟩ left right
    exact Prod.ext (known.lists_unique.2 left.1 right.1) (known.lists_unique.2 left.2 right.2)

omit heaps in
theorem all_zip_eq {xs ys us vs : List Value} (lefts : List.Forall₂ known.Relates xs ys)
    (rights : List.Forall₂ known.Relates us vs) {f g : Value → Value → Bool}
    (same : ∀ x y u v, known.Relates x y → known.Relates u v → g y v = f x u) :
    ((ys.zip vs).all fun pair => g pair.1 pair.2) =
      (xs.zip us).all fun pair => f pair.1 pair.2 := by
  induction lefts generalizing us vs with
  | nil => rfl
  | cons head _ inductionHypothesis =>
      cases rights with
      | nil => rfl
      | cons other others =>
          rw [List.zip_cons_cons, List.zip_cons_cons, List.all_cons, List.all_cons,
            same _ _ _ _ head other, inductionHypothesis others]

theorem sameWithin_eq {depth other : Nat} {outer path : List (Nat × Nat)}
    (fathoms : Fathoms (List.range first.lists.size ×ˢ List.range first.lists.size) depth
      outer)
    (otherFathoms : Fathoms
      (List.range second.lists.size ×ˢ List.range second.lists.size) other path)
    (outers : List.Forall₂ known.Pairs outer path) {x y u v : Value}
    (lefts : known.Relates x y) (rights : known.Relates u v) :
    second.sameWithin other path y v = first.sameWithin depth outer x u := by
  induction depth generalizing other outer path x y u v with
  | zero =>
      rcases fathoms.pos with ⟨_, none⟩
      cases none
  | succ depth inductionHypothesis =>
      rcases otherFathoms.pos with ⟨other, rfl⟩
      cases lefts with
      | number x => cases rights <;> rfl
      | text s => cases rights <;> rfl
      | truth b => cases rights <;> rfl
      | object label pair =>
          cases rights with
          | object otherLabel otherPair =>
              have same := Relator.rel_eq known.objects_unique pair otherPair
              rw [Heap.sameWithin, Heap.sameWithin]
              exact decide_eq_decide.mpr same.symm
          | _ => rfl
      | @list a b pair =>
          cases rights with
          | @list c d otherPair =>
              have pairs : known.Pairs (a, c) (b, d) := ⟨pair, otherPair⟩
              have same : a = c ↔ b = d := Relator.rel_eq known.lists_unique pair otherPair
              have members : (a, c) ∈ outer ↔ (b, d) ∈ path :=
                List.rel_mem known.pairs_unique pairs outers
              rw [Heap.sameWithin, Heap.sameWithin, decide_eq_decide.mpr same.symm,
                decide_eq_decide.mpr members.symm]
              by_cases met : (a, c) ∈ outer
              · rw [decide_eq_true met, Bool.or_true, Bool.true_or, Bool.true_or]
              · have bounds := heaps.stored pair
                have otherBounds := heaps.stored otherPair
                have deeper := fathoms.next met (List.mem_product.mpr
                  ⟨List.mem_range.mpr bounds.1, List.mem_range.mpr otherBounds.1⟩)
                have otherDeeper := otherFathoms.next (fun inside => met (members.mpr inside))
                  (List.mem_product.mpr
                    ⟨List.mem_range.mpr bounds.2, List.mem_range.mpr otherBounds.2⟩)
                have elements := all_zip_eq (heaps.elements pair) (heaps.elements otherPair)
                  fun _ _ _ _ lefts rights =>
                    inductionHypothesis deeper otherDeeper (.cons pairs outers) lefts rights
                rw [heaps.count_eq pair, heaps.count_eq otherPair, elements]
          | _ => rfl

theorem same_eq {x y u v : Value} (lefts : known.Relates x y) (rights : known.Relates u v) :
    second.same y v = first.same x u := by
  have start := Fathoms.start (List.range first.lists.size ×ˢ List.range first.lists.size)
  have otherStart := Fathoms.start (List.range second.lists.size ×ˢ List.range second.lists.size)
  rw [List.length_product, List.length_range] at start otherStart
  exact sameWithin_eq heaps start otherStart .nil lefts rights

end Heaps

/-! ## Changes -/

/-- One more list in both heaps. -/
def withList (known : Correspondence) {first second : Heap} (heaps : known.Heaps first second) :
    Correspondence where
  lists a b := known.lists a b ∨ a = first.lists.size ∧ b = second.lists.size
  objects := known.objects
  lists_unique := by
    constructor
    · rintro a b c (left | ⟨rfl, left⟩) (right | ⟨rfl, right⟩)
      · exact known.lists_unique.1 left right
      · exact absurd (heaps.stored left).2 (by omega)
      · exact absurd (heaps.stored right).2 (by omega)
      · rfl
    · rintro a b c (left | ⟨left, rfl⟩) (right | ⟨right, rfl⟩)
      · exact known.lists_unique.2 left right
      · exact absurd (heaps.stored left).1 (by omega)
      · exact absurd (heaps.stored right).1 (by omega)
      · rfl
  objects_unique := known.objects_unique

section Changes

variable {known : Correspondence} {first second : Heap} (heaps : known.Heaps first second)
include heaps

theorem withList_later : known.Later (known.withList heaps) :=
  ⟨Or.inl, id⟩

theorem heaps_keep {xs ys : Array Value}
    (related : List.Forall₂ known.Relates xs.toList ys.toList) :
    (known.withList heaps).Heaps (Heap.keep xs first).2 (Heap.keep ys second).2 where
  stored := by
    rintro a b (pair | ⟨rfl, rfl⟩)
    · rw [Heap.size_keep, Heap.size_keep]
      have bounds := heaps.stored pair
      exact ⟨by omega, by omega⟩
    · rw [Heap.size_keep, Heap.size_keep]
      exact ⟨Nat.lt_succ_self _, Nat.lt_succ_self _⟩
  elements := by
    rintro a b (pair | ⟨rfl, rfl⟩)
    · have bounds := heaps.stored pair
      rw [(Heap.kept_keep xs first).elements_eq bounds.1,
        (Heap.kept_keep ys second).elements_eq bounds.2]
      exact (heaps.elements pair).imp fun _ _ related => related.later (withList_later heaps)
    · rw [Heap.elements_keep, Heap.elements_keep]
      exact related.imp fun _ _ related => related.later (withList_later heaps)
  made := heaps.made

theorem heaps_update {a b : Nat} (pair : known.lists a b)
    {change otherChange : Array Value → Array Value}
    (related : List.Forall₂ known.Relates (change (first.storage a)).toList
      (otherChange (second.storage b)).toList) :
    known.Heaps (Heap.update a change first).2 (Heap.update b otherChange second).2 where
  stored := by
    intro c d other
    rw [Heap.size_update, Heap.size_update]
    exact heaps.stored other
  elements := by
    intro c d other
    have same : c = a ↔ d = b := Relator.rel_eq known.lists_unique other pair
    by_cases changed : c = a
    · have bounds := heaps.stored pair
      rw [changed, same.mp changed, Heap.elements_update_self bounds.1,
        Heap.elements_update_self bounds.2]
      exact related
    · rw [Heap.elements_update_of_ne changed,
        Heap.elements_update_of_ne fun otherChanged => changed (same.mpr otherChanged)]
      exact heaps.elements other
  made := heaps.made

end Changes

/-! ## Copies -/

section Copies

variable {known : Correspondence} {first second : Heap} {α : Type}

/-- The heaps have grown from the given ones, and what is known has grown with them. -/
structure Growth (known : Correspondence) (first second : Heap) (now : Correspondence)
    (between otherBetween : Heap) : Prop where
  later : known.Later now
  heaps : now.Heaps between otherBetween
  kept : first.Kept between
  otherKept : second.Kept otherBetween

theorem Growth.refl (heaps : known.Heaps first second) : known.Growth first second known first
    second :=
  ⟨.refl known, heaps, .refl first, .refl second⟩

theorem Growth.trans {now last : Correspondence} {between otherBetween after otherAfter : Heap}
    (sooner : known.Growth first second now between otherBetween)
    (longer : now.Growth between otherBetween last after otherAfter) :
    known.Growth first second last after otherAfter where
  later := sooner.later.trans longer.later
  heaps := longer.heaps
  kept := sooner.kept.trans longer.kept
  otherKept := sooner.otherKept.trans longer.otherKept

/-- On heaps that have grown from the given ones the steps make results that belong together,
and the heaps grow on. -/
def Builds (known : Correspondence) (first second : Heap)
    (results : Correspondence → α → α → Prop) (step other : StateM Heap α) : Prop :=
  ∀ {now between otherBetween}, known.Growth first second now between otherBetween →
    ∃ last, now.Growth between otherBetween last (step between).2 (other otherBetween).2 ∧
      results last (step between).1 (other otherBetween).1

/-- Two lists of values, made where their elements are known to belong together. -/
theorem Growth.allocate {now : Correspondence} {between otherBetween : Heap}
    (growth : known.Growth first second now between otherBetween) {xs ys : List Value}
    (related : List.Forall₂ now.Relates xs ys) :
    ∃ last, now.Growth between otherBetween last (Heap.allocate xs between).2
        (Heap.allocate ys otherBetween).2 ∧
      last.Relates (Heap.allocate xs between).1 (Heap.allocate ys otherBetween).1 := by
  have heaps := growth.heaps
  refine ⟨now.withList heaps, ?_, .list (Or.inr ⟨rfl, rfl⟩)⟩
  exact ⟨withList_later heaps, heaps_keep heaps related, Heap.kept_keep _ _, Heap.kept_keep _ _⟩

theorem builds_mapM {copy other : Value → StateM Heap Value} {xs ys : List Value}
    (lists : List.Forall₂ known.Relates xs ys)
    (builds : ∀ x y, known.Relates x y →
      known.Builds first second Relates (copy x) (other y)) :
    known.Builds first second (fun now => List.Forall₂ now.Relates) (xs.mapM copy)
      (ys.mapM other) := by
  induction lists with
  | nil =>
      intro now between otherBetween growth
      rw [List.mapM_nil, List.mapM_nil]
      exact ⟨now, .refl growth.heaps, .nil⟩
  | cons related _ inductionHypothesis =>
      intro now between otherBetween growth
      rw [List.mapM_cons, List.mapM_cons]
      rcases builds _ _ related growth with ⟨sooner, copied, head⟩
      rcases inductionHypothesis (growth.trans copied) with ⟨last, others, tail⟩
      exact ⟨last, copied.trans others, .cons (head.later others.later) tail⟩

theorem builds_copyWithin (heaps : known.Heaps first second) {depth other : Nat}
    {outer path : List Nat} (fathoms : Fathoms (List.range first.lists.size) depth outer)
    (otherFathoms : Fathoms (List.range second.lists.size) other path)
    (outers : List.Forall₂ known.lists outer path) {x y : Value} (related : known.Relates x y) :
    known.Builds first second Relates (Heap.copyWithin depth outer x)
      (Heap.copyWithin other path y) := by
  induction depth generalizing other outer path x y with
  | zero =>
      rcases fathoms.pos with ⟨_, none⟩
      cases none
  | succ depth inductionHypothesis =>
      rcases otherFathoms.pos with ⟨other, rfl⟩
      intro now between otherBetween growth
      have same : now.Growth between otherBetween now between otherBetween := .refl growth.heaps
      cases related with
      | number x => exact ⟨now, same, .number x⟩
      | text s => exact ⟨now, same, .text s⟩
      | truth b => exact ⟨now, same, .truth b⟩
      | object label pair => exact ⟨now, same, .object label (growth.later.objects pair)⟩
      | @list a b pair =>
          have members : a ∈ outer ↔ b ∈ path := List.rel_mem known.lists_unique pair outers
          rw [Heap.copyWithin, Heap.copyWithin]
          by_cases cyclic : a ∈ outer
          · rw [if_pos cyclic, if_pos (members.mp cyclic)]
            exact growth.allocate .nil
          · have otherNew : b ∉ path := fun inside => cyclic (members.mpr inside)
            have bounds := heaps.stored pair
            have deeper := fathoms.next cyclic (List.mem_range.mpr bounds.1)
            have otherDeeper := otherFathoms.next otherNew (List.mem_range.mpr bounds.2)
            have elements := growth.kept.elements_eq bounds.1
            have otherElements := growth.otherKept.elements_eq bounds.2
            rw [if_neg cyclic, if_neg otherNew]
            have copies : known.Builds first second (fun now => List.Forall₂ now.Relates)
                ((between.elements a).mapM (Heap.copyWithin depth (a :: outer)))
                ((otherBetween.elements b).mapM (Heap.copyWithin other (b :: path))) := by
              rw [elements, otherElements]
              exact builds_mapM (heaps.elements pair) fun _ _ related =>
                inductionHypothesis deeper otherDeeper (.cons pair outers) related
            rcases copies growth with ⟨sooner, copied, values⟩
            rcases (growth.trans copied).allocate values with ⟨last, made, address⟩
            exact ⟨last, copied.trans made, address⟩

/-- Copies of values that belong together belong together. -/
theorem copy_related (heaps : known.Heaps first second) {x y : Value}
    (related : known.Relates x y) :
    ∃ now, known.Later now ∧ now.Relates (Heap.copy x first).1 (Heap.copy y second).1 ∧
      now.Heaps (Heap.copy x first).2 (Heap.copy y second).2 := by
  have start := Fathoms.start (List.range first.lists.size)
  have otherStart := Fathoms.start (List.range second.lists.size)
  rw [List.length_range] at start otherStart
  rcases builds_copyWithin heaps start otherStart .nil related (.refl heaps) with
    ⟨now, growth, copied⟩
  exact ⟨now, growth.later, copied, growth.heaps⟩

end Copies
end Correspondence

/-- Values and heaps belong together by a correspondence that grows. -/
def Likeness.renaming : Likeness where
  Knowledge := Correspondence
  later := Correspondence.Later
  place := id
  value := Correspondence.Relates
  heap := Correspondence.Heaps
  later_refl := Correspondence.Later.refl
  later_trans := Correspondence.Later.trans
  kept later related := related.later later
  kinds related := by
    cases related with
    | number x => exact .number x
    | text s => exact .text s
    | truth b => exact .truth b
    | list pair => exact .list _ _
    | object label pair => exact .object _ _
  number _ := .number
  text _ := .text
  truth _ := .truth
  elements heaps addresses := by
    cases addresses with
    | list pair => exact heaps.elements pair
  renders heaps values := Correspondence.render_eq heaps values
  sames heaps lefts rights := Correspondence.same_eq heaps lefts rights
  keeps {known _ _ _ _} heaps related :=
    ⟨known.withList heaps, Correspondence.withList_later heaps, .list (Or.inr ⟨rfl, rfl⟩),
      Correspondence.heaps_keep heaps related⟩
  updates heaps addresses related := by
    cases addresses with
    | list pair => exact Correspondence.heaps_update heaps pair related

namespace Likeness

/-- The likeness among those who know something from the beginning. -/
def since (likeness : Likeness) (base : likeness.Knowledge) : Likeness where
  Knowledge := { known // likeness.later base known }
  later known now := likeness.later known.1 now.1
  place := likeness.place
  value known := likeness.value known.1
  heap known := likeness.heap known.1
  later_refl known := likeness.later_refl known.1
  later_trans := likeness.later_trans
  kept := likeness.kept
  kinds := likeness.kinds
  number known := likeness.number known.1
  text known := likeness.text known.1
  truth known := likeness.truth known.1
  elements := likeness.elements
  renders := likeness.renders
  sames := likeness.sames
  keeps {known _ _ _ _} heaps related := by
    rcases likeness.keeps heaps related with ⟨now, later, values, kept⟩
    exact ⟨⟨now, likeness.later_trans known.2 later⟩, later, values, kept⟩
  updates := likeness.updates

section Since

variable {likeness : Likeness} {base : likeness.Knowledge} {σ α : Type}

theorem Goes.since {states : likeness.Knowledge → σ → σ → Prop}
    {results : likeness.Knowledge → α → α → Prop} {known : (likeness.since base).Knowledge}
    {step other : EStateM RuntimeFault σ α}
    (goes : likeness.Goes states results known.1 step other) :
    (likeness.since base).Goes (fun known => states known.1) (fun known => results known.1) known
      step other := by
  intro now later state otherState start
  refine EndAlike.weakenFaults ((goes now.1 later state otherState start).weaken ?_) id ?_
  · rintro result otherResult _ _ ⟨after, more, holds, reached⟩
    exact ⟨⟨after, likeness.later_trans now.2 more⟩, more, holds, reached⟩
  · rintro fault otherFault _ _ ⟨faults, after, more, reached⟩
    exact ⟨faults, ⟨after, likeness.later_trans now.2 more⟩, more, reached⟩

theorem produced_since {known : (likeness.since base).Knowledge} {value other : Option Value} :
    (likeness.since base).Produced known value other ↔ likeness.Produced known.1 value other := by
  cases value <;> cases other <;> rfl

theorem functions_since {function other : HostFunction}
    (alike : likeness.Functions function other) :
    (likeness.since base).Functions function other :=
  fun line related => (alike line related).since.weaken fun _ _ _ => produced_since.mpr

theorem methods_since {method other : HostMethod} (alike : likeness.Methods method other) :
    (likeness.since base).Methods method other :=
  fun line receivers related =>
    (alike line receivers related).since.weaken fun _ _ _ => produced_since.mpr

end Since
end Likeness
end Scriptlet
