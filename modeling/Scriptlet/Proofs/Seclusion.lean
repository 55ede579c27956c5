import Scriptlet.Proofs.Reachability
import Scriptlet.Proofs.RunningAlike

namespace Scriptlet

/-!
# Lists that a run cannot get at

Some lists are set apart: a region of the heap, with all that can be reached from it.  A run that
is given none of them makes lists of its own and is handed lists by its host, and these are its
territory.  Nothing that operators and list methods do leads out of the territory, and nothing
outside of it is changed.

Literals may lie in the region.  They are never handed out themselves; a copy is, and it belongs to
the territory from then on.
-/

namespace Heap

/-- Lists that are set apart in a heap, with all that can be reached from them. -/
structure Region (heap : Heap) where
  holds : Nat → Prop
  stored : ∀ address, holds address → address < heap.lists.size
  closed : heap.Closed holds

/-- The region is as it was, and the territory lies outside of it. -/
structure Region.Secludes {original : Heap} (region : original.Region) (own : Nat → Prop)
    (heap : Heap) : Prop where
  frozen : ∀ address, region.holds address →
    heap.lists[address]? = original.lists[address]?
  objects : original.objects ≤ heap.objects
  apart : ∀ address, own address → ¬ region.holds address
  stored : ∀ address, own address → address < heap.lists.size
  closed : heap.Closed own

namespace Region.Secludes

variable {original heap after : Heap} {region : original.Region} {own : Nat → Prop}
  (secludes : region.Secludes own heap)
include secludes

theorem region_stored {address : Nat} (inside : region.holds address) :
    address < heap.lists.size := by
  have found := secludes.frozen address inside
  rw [Array.getElem?_eq_getElem (region.stored address inside)] at found
  exact stored_of_getElem? found

/-- The territory may take in new lists and what was in it before. -/
theorem extend (kept : heap.Kept after) (objects : heap.objects ≤ after.objects)
    {more : Nat → Prop}
    (origin : ∀ address, more address → heap.Between after address ∨ own address)
    (closed : after.Closed more) :
    region.Secludes (fun address => own address ∨ more address) after where
  frozen address inside := by
    rw [kept.getElem?_eq (secludes.region_stored inside)]
    exact secludes.frozen address inside
  objects := Nat.le_trans secludes.objects objects
  apart address inside region := by
    rcases inside with known | added
    · exact secludes.apart address known region
    · rcases origin address added with made | known
      · exact absurd (secludes.region_stored region) (Nat.not_lt.mpr made.1)
      · exact secludes.apart address known region
  stored address inside := by
    rcases inside with known | added
    · exact Nat.lt_of_lt_of_le (secludes.stored address known) kept.size_le
    · rcases origin address added with made | known
      · exact made.2
      · exact Nat.lt_of_lt_of_le (secludes.stored address known) kept.size_le
  closed address inside value member := by
    rcases inside with known | added
    · rw [kept.elements_eq (secludes.stored address known)] at member
      exact (secludes.closed address known value member).imp fun _ => Or.inl
    · exact (closed address added value member).imp fun _ => Or.inr

theorem grow (grows : heap.Grows after) :
    region.Secludes (fun address => own address ∨ heap.Between after address) after :=
  secludes.extend grows.kept (Nat.le_of_eq grows.objects.symm) (fun _ => Or.inl) grows.closed

/-- The territory takes in one list whose elements are in it already. -/
theorem keep {values : Array Value} (belong : ∀ value ∈ values.toList, value.Belongs own) :
    region.Secludes (fun address => own address ∨ address = heap.lists.size)
      (Heap.keep values heap).2 := by
  have kept := kept_keep values heap
  have known : region.Secludes (fun address => own address ∨ False) (Heap.keep values heap).2 :=
    secludes.extend kept (Nat.le_refl _) (fun _ => False.elim) (fun _ => False.elim)
  have isNew {address : Nat} (last : address = heap.lists.size) :
      address < (Heap.keep values heap).2.lists.size := by
    rw [last, size_keep]
    exact Nat.lt_succ_self _
  constructor
  · exact known.frozen
  · exact known.objects
  · rintro address (inside | last) region
    · exact secludes.apart address inside region
    · exact absurd (secludes.region_stored region) (by omega)
  · rintro address (inside | last)
    · exact known.stored address (Or.inl inside)
    · exact isNew last
  · rintro address (inside | last) value member
    · exact (known.closed address (Or.inl inside) value member).imp
        fun _ holds => Or.inl (holds.resolve_right id)
    · rw [last, elements_keep] at member
      exact (belong value member).imp fun _ => Or.inl

/-- A list of the territory may be changed to hold other values of it. -/
theorem update {address : Nat} (inside : own address) {change : Array Value → Array Value}
    (belong : ∀ value ∈ (change (heap.storage address)).toList, value.Belongs own) :
    region.Secludes own (Heap.update address change heap).2 where
  frozen other inRegion := by
    have different : other ≠ address := by
      rintro rfl
      exact secludes.apart other inside inRegion
    rw [getElem?_update_of_ne different]
    exact secludes.frozen other inRegion
  objects := secludes.objects
  apart := secludes.apart
  stored other known := by
    rw [size_update]
    exact secludes.stored other known
  closed other known value member := by
    by_cases same : other = address
    · rw [same, elements_update_self (secludes.stored address inside)] at member
      exact belong value member
    · rw [elements_update_of_ne same] at member
      exact secludes.closed other known value member

end Region.Secludes
end Heap

namespace Likeness

/-- The value is the same, and its lists are in the territory. -/
def Owned (own : Nat → Prop) (value other : Value) : Prop :=
  value = other ∧ value.Belongs own

theorem forall₂_owned {own : Nat → Prop} {values others : List Value} :
    List.Forall₂ (Owned own) values others ↔
      values = others ∧ ∀ value ∈ values, value.Belongs own := by
  constructor
  · intro owned
    induction owned with
    | nil => exact ⟨rfl, List.forall_mem_nil _⟩
    | cons head _ inductionHypothesis =>
        rcases head with ⟨rfl, belongs⟩
        rcases inductionHypothesis with ⟨rfl, others⟩
        exact ⟨rfl, List.forall_mem_cons.mpr ⟨belongs, others⟩⟩
  · rintro ⟨rfl, belong⟩
    exact List.forall₂_same.mpr fun value member => ⟨rfl, belong value member⟩

/-- Both runs are one and the same, and what is known is the territory. -/
def secluded {original : Heap} (region : original.Region) : Likeness where
  Knowledge := Nat → Prop
  later own more := ∀ address, own address → more address
  place := id
  value := Owned
  heap own heap other := heap = other ∧ region.Secludes own heap
  later_refl _ _ := id
  later_trans first second address := second address ∘ first address
  kept later owned := ⟨owned.1, owned.2.imp later⟩
  kinds owned := owned.1 ▸ .refl _
  number _ _ := ⟨rfl, trivial⟩
  text _ _ := ⟨rfl, trivial⟩
  truth _ _ := ⟨rfl, trivial⟩
  elements {_ _ _ _ _} heaps owned := by
    rcases heaps with ⟨rfl, secludes⟩
    rcases owned with ⟨⟨⟩, inside⟩
    exact forall₂_owned.mpr ⟨rfl, secludes.closed _ inside⟩
  renders heaps owned := by rw [heaps.1, owned.1]
  sames heaps lefts rights := by rw [heaps.1, lefts.1, rights.1]
  keeps {own first _ _ _} heaps owned := by
    rcases heaps with ⟨rfl, secludes⟩
    rcases forall₂_owned.mp owned with ⟨same, belong⟩
    cases Array.toList_inj.mp same
    exact ⟨fun address => own address ∨ address = first.lists.size, fun _ => Or.inl,
      ⟨rfl, Or.inr rfl⟩, rfl, secludes.keep belong⟩
  updates {_ first _ a _ change otherChange} heaps addresses owned := by
    rcases heaps with ⟨rfl, secludes⟩
    rcases addresses with ⟨⟨⟩, inside⟩
    rcases forall₂_owned.mp owned with ⟨same, belong⟩
    exact ⟨congrArg Prod.snd (update_congr (Array.toList_inj.mp same)),
      secludes.update inside belong⟩

end Likeness

/-! ## Callables of the host -/

/-- A call leaves every list as it was and makes up no identity again, and what it gives back it
made itself or was given. -/
def World.Spares (given : List Value) (call : World.Action (Option Value)) : Prop :=
  ∀ world, match call world with
    | .ok result after => world.heap.Kept after.heap ∧
        world.heap.objects ≤ after.heap.objects ∧
        ∀ value, result = some value → ∀ address, after.heap.Reaches value (.list address) →
          world.heap.Between after.heap address ∨
            world.heap.ReachedFrom (fun argument => argument ∈ given) address
    | .error _ after => world.heap.Kept after.heap ∧ world.heap.objects ≤ after.heap.objects

/-- All callables but the list methods neither change lists nor hold on to them. -/
structure Library.SparesLists (library : Library) : Prop where
  functions : ∀ name function, library.function? name = some function →
    ∀ arguments line, World.Spares arguments (function arguments line)
  methods : ∀ name method, library.method? name = some method →
    (∃ listMethod ∈ ListMethod.all, method = Standard.method listMethod) ∨
      ∀ receiver arguments line,
        World.Spares (receiver :: arguments) (method receiver arguments line)

theorem Standard.library_sparesLists : Standard.library.SparesLists where
  functions name function found arguments line world := by
    rw [Likeness.standard_function found, Standard.print]
    cases world.sink.accept (Standard.printed world.heap arguments) with
    | ok sink => exact ⟨Heap.Kept.refl _, Nat.le_refl _, by rintro _ ⟨⟩⟩
    | error reason => exact ⟨Heap.Kept.refl _, Nat.le_refl _⟩
  methods name method found := Or.inl (Likeness.standard_method found)

/-- A function that is registered has to spare lists by itself. -/
theorem Library.SparesLists.addFunction {library larger : Library} (spares : library.SparesLists)
    {name : String} {function : HostFunction}
    (spared : ∀ arguments line, World.Spares arguments (function arguments line))
    (added : library.addFunction name function = .ok larger) : larger.SparesLists := by
  unfold Library.addFunction at added
  split at added
  · cases added
  · cases added
    refine ⟨fun other body found => ?_, spares.methods⟩
    rw [Library.function?, List.lookup_append, Option.or_eq_some_iff] at found
    rcases found with standing | ⟨_, registered⟩
    · exact spares.functions other body standing
    · have same : body = function := by
        rw [List.lookup_cons] at registered
        split at registered
        · exact (Option.some.inj registered).symm
        · cases registered
      rw [same]
      exact spared

namespace Likeness

variable {original : Heap} {region : original.Region}

theorem goes_spared {given : List Value} {call : World.Action (Option Value)}
    (spares : World.Spares given call) {own : Nat → Prop}
    (belong : ∀ value ∈ given, value.Belongs own) :
    (secluded region).Goes (secluded region).worlds (secluded region).Produced own call call := by
  rintro now later ⟨heap, sink⟩ ⟨other, otherSink⟩ ⟨⟨same, secludes⟩, sinks⟩
  change heap = other at same
  change otherSink = sink at sinks
  subst same
  subst sinks
  have spared := spares ⟨heap, otherSink⟩
  cases ran : call ⟨heap, otherSink⟩ with
  | error fault after =>
      rw [ran] at spared
      have secluded := secludes.extend spared.1 spared.2 (fun _ => False.elim) (fun _ => False.elim)
      exact Or.inr ⟨(RuntimeFault.renumbered_id fault).symm, _, fun _ => Or.inl,
        ⟨rfl, secluded⟩, rfl⟩
  | ok result after =>
      rw [ran] at spared
      rcases spared with ⟨kept, objects, origin⟩
      have closed := after.heap.closed_reachedFrom fun value => result = some value
      have inside : ∀ address, after.heap.ReachedFrom (fun value => result = some value) address →
          heap.Between after.heap address ∨ now address := by
        rintro address ⟨value, produced, reaches⟩
        rcases origin value produced address reaches with made | ⟨argument, given, reached⟩
        · exact Or.inl made
        · exact Or.inr (secludes.closed.reaches ((belong argument given).imp later) reached)
      refine ⟨_, fun _ => Or.inl, ?_, ⟨rfl, secludes.extend kept objects inside closed⟩, rfl⟩
      cases result with
      | none => exact trivial
      | some value =>
          have belongs : value.Belongs
              (after.heap.ReachedFrom fun result => some value = some result) :=
            Heap.belongs_reachedFrom rfl (.self value)
          exact ⟨rfl, belongs.imp fun _ => Or.inr⟩

theorem functions_spared {function : HostFunction}
    (spares : ∀ arguments line, World.Spares arguments (function arguments line)) :
    (secluded region).Functions function function := by
  intro own arguments others line owned
  rcases forall₂_owned.mp owned with ⟨rfl, belong⟩
  exact goes_spared (spares arguments line) belong

theorem methods_spared {method : HostMethod}
    (spares : ∀ receiver arguments line,
      World.Spares (receiver :: arguments) (method receiver arguments line)) :
    (secluded region).Methods method method := by
  rintro own receiver _ arguments others line ⟨rfl, belongs⟩ owned
  rcases forall₂_owned.mp owned with ⟨rfl, belong⟩
  exact goes_spared (spares receiver arguments line) (List.forall_mem_cons.mpr ⟨belongs, belong⟩)

/-- A copy takes nothing out of the region. -/
theorem goes_secludedCopy (value : Value) (own : Nat → Prop) :
    (secluded region).Goes (secluded region).heap (secluded region).value own
      (Heap.Action.sure (Heap.copy value)) (Heap.Action.sure (Heap.copy value)) := by
  apply goes_sure
  rintro now heap _ _ ⟨rfl, secludes⟩
  have grown := Heap.grows_copy value heap
  exact ⟨_, fun _ => Or.inl, ⟨rfl, grown.2.imp fun _ => Or.inr⟩, rfl, secludes.grow grown.1⟩

theorem fits_secluded {library : Library} (spares : library.SparesLists) (node : Node) :
    (secluded region).Fits library library node := by
  cases node with
  | literal value line => exact goes_secludedCopy value
  | call function arguments line =>
      change Answers _ (library.function? function) (library.function? function)
      cases found : library.function? function with
      | none => exact trivial
      | some body => exact functions_spared (spares.functions function body found)
  | methodCall receiver method arguments line =>
      change Answers _ (library.method? method) (library.method? method)
      cases found : library.method? method with
      | none => exact trivial
      | some body =>
          rcases spares.methods method body found with ⟨listMethod, listed, rfl⟩ | spared
          · exact methods_standard listed
          · exact methods_spared spared
  | _ => exact trivial

end Likeness
end Scriptlet
