import Mathlib.Data.List.Forall2
import Scriptlet.Proofs.Groundedness

namespace Scriptlet
namespace Heap

/-!
# Equality by structure

Two values are equal by structure if they are of one kind and have equal contents: numbers that
are close, texts and truth values that are the same, objects of one identity, lists of equal
elements in the same places.  Where lists are stored plays no part in it.

Comparing takes a list to be the same as itself without looking at its elements.  An infinite
or undefined number is not the same as itself, so a list that holds one is the same as itself
and yet not equal to itself by structure.  Otherwise the shortcut makes no difference, and it
never comes into play between a value and a copy of another one.
-/

/-! ## Numbers -/

theorem sub_self_unpacked (x : Float.Model.UnpackedFloat) :
    x.sub .binary64 x = if x.isFinite then .zero .positive else .notANumber := by
  cases x with
  | infinity sign => cases sign <;> rfl
  | notANumber => rfl
  | zero sign => cases sign <;> rfl
  | finite sign mantissa exponent positive =>
      have cancels : ∀ whole unit : Int,
          Float.Model.UnpackedFloat.normalize .binary64 (whole - whole) unit .positive =
            .zero .positive := by
        intro whole unit
        rw [Int.sub_self]
        rfl
      exact cancels _ _

/-- A number is the same as itself if it is finite, and only then. -/
theorem sameNumber_self (x : Float) : sameNumber x x = x.isFinite := by
  have difference : x - x =
      .ofModel (.pack (if x.isFinite then .zero .positive else .notANumber)) :=
    congrArg (fun unpacked => Float.ofModel (.pack unpacked)) (sub_self_unpacked x.toModel.unpack)
  rw [sameNumber, difference]
  cases x.isFinite with
  | true => decide
  | false => decide

/-! ## Structure -/

/-- Two values in two heaps are alike if they differ in nothing but their numbers, which are
related, and in where their lists are stored. -/
inductive Alike (numbers : Float → Float → Prop) (heap other : Heap) : Value → Value → Prop
  | number {x y : Float} : numbers x y → Alike numbers heap other (.number x) (.number y)
  | text (text : String) : Alike numbers heap other (.text text) (.text text)
  | truth (b : Bool) : Alike numbers heap other (.truth b) (.truth b)
  | object {x y : Object} : x.identity = y.identity →
      Alike numbers heap other (.object x) (.object y)
  | list {x y : Nat} : (heap.elements x).length = (other.elements y).length →
      (∀ u v, (u, v) ∈ (heap.elements x).zip (other.elements y) → Alike numbers heap other u v) →
      Alike numbers heap other (.list x) (.list y)

/-- Equality by structure. -/
def Equal (heap : Heap) : Value → Value → Prop :=
  Alike (fun x y => sameNumber x y = true) heap heap

theorem forall₂_comp {α β γ : Type} {first : α → β → Prop} {second : β → γ → Prop}
    {both : α → γ → Prop} (compose : ∀ x y z, first x y → second y z → both x z) {xs : List α}
    {ys : List β} {zs : List γ} (left : List.Forall₂ first xs ys)
    (right : List.Forall₂ second ys zs) : List.Forall₂ both xs zs := by
  induction left generalizing zs with
  | nil =>
      cases right
      exact .nil
  | cons head _ inductionHypothesis =>
      cases right with
      | cons next rest => exact .cons (compose _ _ _ head next) (inductionHypothesis rest)

namespace Alike

variable {numbers : Float → Float → Prop} {heap other after : Heap} {u v w : Value}

theorem list_iff {x y : Nat} :
    Alike numbers heap other (.list x) (.list y) ↔
      List.Forall₂ (Alike numbers heap other) (heap.elements x) (other.elements y) := by
  rw [List.forall₂_iff_zip]
  constructor
  · intro alike
    cases alike with
    | list lengths elements => exact ⟨lengths, fun {u v} => elements u v⟩
  · rintro ⟨lengths, elements⟩
    exact .list lengths fun u v => elements

theorem symm {flipped : Float → Float → Prop} (alike : Alike numbers heap other u v)
    (flip : ∀ x y, numbers x y → flipped y x) : Alike flipped other heap v u := by
  induction alike with
  | number related => exact .number (flip _ _ related)
  | text text => exact .text text
  | truth b => exact .truth b
  | object same => exact .object same.symm
  | list lengths _ inductionHypothesis =>
      have elements := List.forall₂_iff_zip.mpr ⟨lengths, fun {u v} => inductionHypothesis u v⟩
      exact list_iff.mpr elements.flip

theorem comp {first second both : Float → Float → Prop}
    (left : Alike first heap other u v) (right : Alike second other after v w)
    (compose : ∀ x y z, first x y → second y z → both x z) : Alike both heap after u w := by
  induction left generalizing w with
  | number related =>
      cases right with
      | number others => exact .number (compose _ _ _ related others)
  | text text =>
      cases right
      exact .text text
  | truth b =>
      cases right
      exact .truth b
  | object same =>
      cases right with
      | object others => exact .object (same.trans others)
  | list lengths _ inductionHypothesis =>
      cases right with
      | list otherLengths others =>
          have elements := List.forall₂_iff_zip.mpr ⟨lengths, fun {u v} => inductionHypothesis u v⟩
          have otherElements :=
            List.forall₂_iff_zip.mpr ⟨otherLengths, fun {u v} => others u v⟩
          exact list_iff.mpr (forall₂_comp (fun _ _ _ goesOn next => goesOn next) elements
            otherElements)

/-- Where values are stored makes no difference. -/
theorem moved {place otherPlace : Heap} {moved otherMoved : Value}
    (left : Alike Eq heap place u moved) (right : Alike Eq other otherPlace v otherMoved) :
    Alike numbers place otherPlace moved otherMoved ↔ Alike numbers heap other u v := by
  have move : ∀ {heap other place otherPlace : Heap} {u v moved otherMoved : Value},
      Alike Eq place heap moved u → Alike Eq other otherPlace v otherMoved →
      Alike numbers heap other u v → Alike numbers place otherPlace moved otherMoved := by
    intro heap other place otherPlace u v moved otherMoved left right alike
    have whole : Alike numbers heap otherPlace u otherMoved :=
      alike.comp right (by rintro x y _ related rfl; exact related)
    exact left.comp whole (by rintro x _ z rfl related; exact related)
  have back : Alike Eq place heap moved u := left.symm fun _ _ => Eq.symm
  have otherBack : Alike Eq otherPlace other otherMoved v := right.symm fun _ _ => Eq.symm
  exact ⟨move left otherBack, move back right⟩

end Alike

/-! ## Values that end -/

section Ends

variable {heap after : Heap} {value other : Value}

/-- What holds of plain values, and of a list if it holds of its elements, holds of every value
that ends. -/
@[elab_as_elim]
theorem Grounded.induct {motive : Value → Prop} (grounded : heap.Grounded value)
    (plain : ∀ value : Value, value.isList = false → motive value)
    (list : ∀ address, heap.Grounded (.list address) →
      (∀ element ∈ heap.elements address, motive element) → motive (.list address)) :
    motive value := by
  have within : ∀ depth outer value,
      Correspondence.Fathoms (List.range heap.lists.size) depth outer →
      heap.Around outer value → heap.Grounded value → motive value := by
    intro depth
    induction depth with
    | zero =>
        intro outer value fathoms
        rcases fathoms.pos with ⟨_, none⟩
        cases none
    | succ depth inductionHypothesis =>
        intro outer value fathoms around grounded
        cases value with
        | list address =>
            have isNew := around.not_mem grounded
            have inside := List.mem_range.mpr (grounded.stored address (.self _))
            exact list address grounded fun element member =>
              inductionHypothesis _ _ (fathoms.next isNew inside) (around.element member)
                (grounded.element member)
        | _ => exact plain _ rfl
  exact within _ [] value (Correspondence.Fathoms.start _) (List.forall_mem_nil _) grounded

/-- Every number that is reached from the value is finite. -/
def Finite (heap : Heap) (value : Value) : Prop :=
  ∀ x : Float, heap.Reaches value (.number x) → x.isFinite = true

theorem Finite.part {part : Value} (finite : heap.Finite value)
    (reaches : heap.Reaches value part) : heap.Finite part :=
  fun x further => finite x (reaches.trans further)

theorem alike_self {numbers : Float → Float → Prop} (grounded : heap.Grounded value)
    (related : ∀ x : Float, heap.Reaches value (.number x) → numbers x x)
    (unchanged : ∀ address, heap.Reaches value (.list address) →
      after.elements address = heap.elements address) :
    Alike numbers heap after value value := by
  revert related unchanged
  refine grounded.induct ?_ ?_
  · intro value plain related _
    cases value with
    | number x => exact .number (related x (.self _))
    | text text => exact .text text
    | truth b => exact .truth b
    | object object => exact .object rfl
    | list address => cases plain
  · intro address _ elements related unchanged
    rw [Alike.list_iff, unchanged address (.self _), List.forall₂_same]
    intro element member
    exact elements element member (fun x further => related x (.inside member further))
      fun inner further => unchanged inner (.inside member further)

theorem Kept.alike (kept : heap.Kept after) (grounded : heap.Grounded value) :
    Alike Eq heap after value value :=
  alike_self grounded (fun _ _ => rfl) fun address reaches =>
    kept.elements_eq (grounded.stored address reaches)

/-- Lists that end are the same if they are one list, or if their elements are. -/
theorem same_list {x y : Nat} (grounded : heap.Grounded (.list x))
    (otherGrounded : heap.Grounded (.list y)) :
    heap.same (.list x) (.list y) = true ↔ x = y ∨
      List.Forall₂ (fun u v => heap.same u v = true) (heap.elements x) (heap.elements y) := by
  have enough := Nat.lt_succ_self (heap.lists.size * heap.lists.size)
  have whole := grounded.plainSame_eq otherGrounded (Nat.lt_succ_of_lt enough)
  have elements := allM_eq_some
    fun pair (member : pair ∈ (heap.elements x).zip (heap.elements y)) =>
      (grounded.element (List.of_mem_zip member).1).plainSame_eq
        (otherGrounded.element (List.of_mem_zip member).2) enough
  rw [plainSame, elements] at whole
  have lengths : heap.count x = heap.count y ↔
      (heap.elements x).length = (heap.elements y).length := by
    unfold Heap.elements Heap.count
    rw [Array.length_toList, Array.length_toList]
  rw [List.forall₂_iff_zip, ← lengths]
  by_cases same : x = y
  · rw [if_pos same] at whole
    exact iff_of_true (Option.some.inj whole).symm (Or.inl same)
  · rw [if_neg same] at whole
    by_cases counts : heap.count x = heap.count y
    · rw [if_pos counts] at whole
      simp [← Option.some.inj whole, same, counts]
    · rw [if_neg counts] at whole
      simp [← Option.some.inj whole, same, counts]

/-- Equal values are the same. -/
theorem Equal.same (equal : heap.Equal value other) (grounded : heap.Grounded value)
    (otherGrounded : heap.Grounded other) : heap.same value other = true := by
  induction equal with
  | number close => exact close
  | text text => exact decide_eq_true rfl
  | truth b => exact decide_eq_true rfl
  | object identity => exact decide_eq_true identity
  | list lengths _ inductionHypothesis =>
      rw [same_list grounded otherGrounded, List.forall₂_iff_zip]
      refine Or.inr ⟨lengths, fun {u v} member => ?_⟩
      exact inductionHypothesis u v member (grounded.element (List.of_mem_zip member).1)
        (otherGrounded.element (List.of_mem_zip member).2)

/-- Values that are the same are alike, if close numbers are related and every number in a list
that is reached from both values is related to itself. -/
theorem alike_of_same {numbers : Float → Float → Prop}
    (close : ∀ x y, sameNumber x y = true → numbers x y) (grounded : heap.Grounded value)
    (otherGrounded : heap.Grounded other)
    (shared : ∀ address, heap.Reaches value (.list address) → heap.Reaches other (.list address) →
      ∀ x : Float, heap.Reaches (.list address) (.number x) → numbers x x)
    (same : heap.same value other = true) : Alike numbers heap heap value other := by
  suffices all : ∀ other, heap.Grounded other →
      (∀ address, heap.Reaches value (.list address) → heap.Reaches other (.list address) →
        ∀ x : Float, heap.Reaches (.list address) (.number x) → numbers x x) →
      heap.same value other = true → Alike numbers heap heap value other from
    all other otherGrounded shared same
  clear otherGrounded shared same
  refine grounded.induct ?_ ?_
  · intro value plain other _ _ same
    cases value with
    | list address => cases plain
    | number x =>
        cases other with
        | number y => exact .number (close x y same)
        | _ => cases same
    | text text =>
        cases other with
        | text otherText =>
            cases of_decide_eq_true same
            exact .text text
        | _ => cases same
    | truth b =>
        cases other with
        | truth otherTruth =>
            cases of_decide_eq_true same
            exact .truth b
        | _ => cases same
    | object object =>
        cases other with
        | object otherObject => exact .object (of_decide_eq_true same)
        | _ => cases same
  · intro x grounded elements other otherGrounded shared same
    cases other with
    | list y =>
        rcases (same_list grounded otherGrounded).mp same with rfl | pairs
        · exact alike_self grounded (shared x (.self _) (.self _)) fun _ _ => rfl
        · rw [List.forall₂_iff_zip] at pairs
          refine .list pairs.1 fun u v member => ?_
          have held := List.of_mem_zip member
          exact elements u held.1 v (otherGrounded.element held.2)
            (fun address reaches otherReaches =>
              shared address (.inside held.1 reaches) (.inside held.2 otherReaches))
            (pairs.2 member)
    | _ => cases same

/-- Every number in a list that is reached from both values is finite. -/
def FiniteTogether (heap : Heap) (value other : Value) : Prop :=
  ∀ address, heap.Reaches value (.list address) → heap.Reaches other (.list address) →
    heap.Finite (.list address)

theorem Finite.together (finite : heap.Finite value) (other : Value) :
    heap.FiniteTogether value other :=
  fun _ reaches _ => finite.part reaches

/-- Values that are the same are equal, if no list that belongs to both holds a number that is
not the same as itself. -/
theorem equal_of_same (grounded : heap.Grounded value) (otherGrounded : heap.Grounded other)
    (finite : heap.FiniteTogether value other) (same : heap.same value other = true) :
    heap.Equal value other := by
  refine alike_of_same (fun _ _ => id) grounded otherGrounded ?_ same
  intro address reaches otherReaches x further
  rw [sameNumber_self]
  exact finite address reaches otherReaches x further

end Ends

/-! ## Copies -/

section Copies

variable {heap : Heap} {value other : Value}

theorem alike_mapM (copy : Value → StateM Heap Value)
    (keeps : ∀ value (now : Heap), now.Kept (copy value now).2)
    (grounds : ∀ value (now : Heap), (copy value now).2.Grounded (copy value now).1)
    {values : List Value}
    (copies : ∀ value ∈ values, ∀ now, heap.Kept now →
      Alike Eq heap (copy value now).2 value (copy value now).1)
    {now : Heap} (kept : heap.Kept now)
    (laterKept : ∀ (rest : List Value) (now : Heap), now.Kept (rest.mapM copy now).2) :
    List.Forall₂ (Alike Eq heap (values.mapM copy now).2) values (values.mapM copy now).1 := by
  induction values generalizing now with
  | nil => exact .nil
  | cons value rest inductionHypothesis =>
      rw [List.mapM_cons]
      have first := copies value List.mem_cons_self now kept
      have others := inductionHypothesis
        (fun element member => copies element (List.mem_cons_of_mem value member))
        (kept.trans (keeps value now))
      have goesOn := (laterKept rest (copy value now).2).alike (grounds value now)
      exact .cons (first.comp goesOn fun _ _ _ => Eq.trans) others

theorem alike_allocate {address : Nat} {between : Heap} {values : List Value}
    (copies : List.Forall₂ (Alike Eq heap between) (heap.elements address) values)
    (ends : ∀ copied ∈ values, between.Grounded copied) :
    Alike Eq heap (allocate values between).2 (.list address) (allocate values between).1 := by
  have stored : (allocate values between).2.elements between.lists.size = values :=
    (elements_keep values.toArray between).trans List.toList_toArray
  refine Alike.list_iff.mpr ?_
  rw [stored]
  rcases List.forall₂_iff_zip.mp copies with ⟨lengths, elements⟩
  refine List.forall₂_iff_zip.mpr ⟨lengths, fun {u v} member => ?_⟩
  have kept := (kept_keep values.toArray between).alike (ends v (List.of_mem_zip member).2)
  exact (elements member).comp kept fun _ _ _ => Eq.trans

/-- A copy is like the value that it is made from. -/
theorem alike_copyWithin {depth : Nat} {outer : List Nat} {now : Heap}
    (fathoms : Correspondence.Fathoms (List.range heap.lists.size) depth outer)
    (around : heap.Around outer value) (grounded : heap.Grounded value) (kept : heap.Kept now) :
    Alike Eq heap (copyWithin depth outer value now).2 value
      (copyWithin depth outer value now).1 := by
  induction depth generalizing outer value now with
  | zero =>
      rcases fathoms.pos with ⟨_, none⟩
      cases none
  | succ depth inductionHypothesis =>
      cases value with
      | list address =>
          have isNew := around.not_mem grounded
          have stored := grounded.stored address (.self _)
          have makes := makes_copyWithin depth (address :: outer)
          have grounds := grounded_copyWithin depth (address :: outer)
          have copies := alike_mapM (copyWithin depth (address :: outer))
            (fun element later => (makes element later).1.kept)
            (fun element later => (grounds element later).2)
            (fun element (member : element ∈ heap.elements address) later grown =>
              inductionHypothesis (fathoms.next isNew (List.mem_range.mpr stored))
                (around.element member) (grounded.element member) grown)
            kept (fun rest later => (makes_mapM makes rest later).1.kept)
          have ends := (sustains_mapM grounds (heap.elements address) now).2
          have copied : copyWithin (depth + 1) outer (.list address) now =
              allocate ((heap.elements address).mapM (copyWithin depth (address :: outer)) now).1
                ((heap.elements address).mapM (copyWithin depth (address :: outer)) now).2 := by
            rw [copyWithin, if_neg isNew, ← kept.elements_eq stored]
            rfl
          rw [copied]
          exact alike_allocate copies ends
      | number x => exact .number rfl
      | text text => exact .text text
      | truth b => exact .truth b
      | object object => exact .object rfl

theorem Grounded.alike_copy (grounded : heap.Grounded value) :
    Alike Eq heap (copy value heap).2 value (copy value heap).1 := by
  have start := Correspondence.Fathoms.start (List.range heap.lists.size)
  rw [List.length_range] at start
  exact alike_copyWithin start (List.forall_mem_nil _) grounded (Kept.refl heap)

theorem grounded_copy (value : Value) (heap : Heap) :
    (copy value heap).2.Grounded (copy value heap).1 :=
  (grounded_copyWithin heap.depthBound [] value heap).2

/-- No list that belongs to a copy belongs to a value that was there before. -/
theorem apart_copy (grounded : heap.Grounded value) (other : Value) {address : Nat}
    (reaches : (copy other heap).2.Reaches value (.list address)) :
    ¬ (copy other heap).2.Reaches (copy other heap).1 (.list address) := by
  intro copied
  rcases grows_copy other heap with ⟨grown, belongs⟩
  have made : heap.Between (copy other heap).2 address := grown.closed.reaches belongs copied
  have stored := grounded.stored address (grown.kept.reaches grounded reaches)
  exact absurd made.1 (Nat.not_le_of_lt stored)

/-- Sameness is equality by structure for two values none of whose common lists holds a number
that is infinite or undefined; equal values are the same in any case.  If one of two values is
replaced by a copy of it, the comparison always goes by structure. -/
theorem same_iff_equal (grounded : heap.Grounded value) (otherGrounded : heap.Grounded other) :
    (heap.Equal value other → heap.same value other = true) ∧
    (heap.FiniteTogether value other →
      (heap.same value other = true ↔ heap.Equal value other)) ∧
    ((copy other heap).2.same value (copy other heap).1 = true ↔ heap.Equal value other) ∧
    ((copy value heap).2.same (copy value heap).1 other = true ↔ heap.Equal value other) := by
  -- What is compared after a copy was made, is compared by structure.
  have law : ∀ {after : Heap} {u v : Value}, after.Grounded u → after.Grounded v →
      after.FiniteTogether u v → (after.same u v = true ↔ after.Equal u v) :=
    fun left right finite => ⟨equal_of_same left right finite, fun equal => equal.same left right⟩
  refine ⟨fun equal => equal.same grounded otherGrounded, law grounded otherGrounded, ?_, ?_⟩
  · have kept := (grows_copy other heap).1.kept
    have finite : (copy other heap).2.FiniteTogether value (copy other heap).1 :=
      fun address reaches copied => absurd copied (apart_copy grounded other reaches)
    rw [law (kept.sustains value grounded) (grounded_copy other heap) finite]
    exact Alike.moved (kept.alike grounded) otherGrounded.alike_copy
  · have kept := (grows_copy value heap).1.kept
    have finite : (copy value heap).2.FiniteTogether (copy value heap).1 other :=
      fun address copied reaches => absurd copied (apart_copy otherGrounded value reaches)
    rw [law (grounded_copy value heap) (kept.sustains other otherGrounded) finite]
    exact Alike.moved grounded.alike_copy (kept.alike otherGrounded)

/-- Two lists hold one and the same list.  They are the same, so one is the same as a copy of
the other, too. -/
theorem same_iff_equal_shared :
    let heap : Heap := ⟨#[#[.number 1], #[.list 0], #[.list 0]], 0⟩
    heap.Equal (.list 1) (.list 2) ∧
      (copy (.list 2) heap).2.same (.list 1) (copy (.list 2) heap).1 = true := by
  intro heap
  have leaf : ∀ {part : Value}, heap.Reaches (.list 0) part →
      part = .list 0 ∨ part = .number 1 := by
    intro part reaches
    cases reaches with
    | self => exact Or.inl rfl
    | inside member reaches =>
        rcases List.mem_singleton.mp member with rfl
        exact Or.inr (eq_of_reaches rfl reaches)
  have inner : heap.Grounded (.list 0) := by
    refine grounded_list (by decide) fun element member => ?_
    rcases List.mem_singleton.mp member with rfl
    refine ⟨grounded_of_plain rfl, fun reaches => ?_⟩
    cases eq_of_reaches rfl reaches
  have outer : ∀ address, address < 3 → address ≠ 0 → heap.elements address = [.list 0] →
      heap.Grounded (.list address) := by
    intro address stored different holds
    refine grounded_list stored fun element member => ?_
    rw [holds] at member
    rcases List.mem_singleton.mp member with rfl
    refine ⟨inner, fun reaches => ?_⟩
    rcases leaf reaches with same | plain
    · exact different (Value.list.inj same)
    · cases plain
  have finite : heap.Finite (.list 1) := by
    intro x reaches
    cases reaches with
    | inside member reaches =>
        rcases List.mem_singleton.mp member with rfl
        rcases leaf reaches with list | number
        · cases list
        · rw [Value.number.inj number]
          decide
  have law := same_iff_equal (outer 1 (by decide) (by decide) rfl)
    (outer 2 (by decide) (by decide) rfl)
  have equal := (law.2.1 (finite.together _)).mp (by decide)
  exact ⟨equal, law.2.2.1.mpr equal⟩

/-- A list that holds an undefined number is the same as itself, and it is neither equal to
itself by structure nor the same as its copy. -/
theorem same_undefined :
    let heap : Heap := ⟨#[#[.number Number.undefined]], 0⟩
    heap.Grounded (.list 0) ∧ heap.same (.list 0) (.list 0) = true ∧
      ¬ heap.Equal (.list 0) (.list 0) ∧
      (copy (.list 0) heap).2.same (.list 0) (copy (.list 0) heap).1 = false := by
  intro heap
  have undefined : Number.undefined.isFinite = false := by decide
  have grounded : heap.Grounded (.list 0) := by
    refine grounded_list (by decide) fun element member => ?_
    rcases List.mem_singleton.mp member with rfl
    refine ⟨grounded_of_plain rfl, fun reaches => ?_⟩
    cases eq_of_reaches rfl reaches
  have unequal : ¬ heap.Equal (.list 0) (.list 0) := by
    intro equal
    cases equal with
    | list _ elements =>
        cases elements _ _ (List.mem_singleton_self _) with
        | number close =>
            rw [sameNumber_self, undefined] at close
            cases close
  exact ⟨grounded, by decide, unequal, by decide⟩

end Copies

end Heap
end Scriptlet
