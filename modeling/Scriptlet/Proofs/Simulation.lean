import Mathlib.Data.List.Forall2
import Scriptlet.Proofs.Congruence

namespace Scriptlet

/-!
# Storages that answer alike

Evaluation without a stack asks four things of the storage of variables.  If a relation
between two storages is kept by all four, and related storages show the same values and
refuse a frame together, then whole runs agree: the same outcome or the same fault, in the
same world, with related variables.
-/

namespace Variables

/-- Both storages open a frame and stay related, or both refuse with the same fault. -/
inductive EnterAlike {σ τ : Type} (related : σ → τ → Prop) :
    Except RuntimeFault σ → Except RuntimeFault τ → Prop
  | ok {store : σ} {other : τ} : related store other → EnterAlike related (.ok store) (.ok other)
  | error {fault : RuntimeFault} : EnterAlike related (.error fault) (.error fault)

/-- Related storages cannot be told apart by evaluation. -/
structure Alike {σ τ : Type} (related : σ → τ → Prop) (first : Variables σ)
    (second : Variables τ) : Prop where
  value : ∀ store other, related store other → ∀ name,
    first.value? store name = second.value? other name
  assign : ∀ store other, related store other → ∀ name value,
    related (first.assign store name value) (second.assign other name value)
  enter : ∀ store other, related store other →
    EnterAlike related (first.enter store) (second.enter other)
  leave : ∀ store other, related store other → ∀ early,
    related (first.leave early store) (second.leave early other)

end Variables

namespace Direct

/-- Two runs end alike: the same result or the same fault, the same world, related
variables. -/
inductive Agree {σ τ α : Type} (related : σ → τ → Prop) :
    EStateM.Result RuntimeFault (State σ) α → EStateM.Result RuntimeFault (State τ) α → Prop
  | ok (result : α) (world : World) {store : σ} {other : τ} : related store other →
      Agree related (.ok result ⟨store, world⟩) (.ok result ⟨other, world⟩)
  | error (fault : RuntimeFault) (world : World) {store : σ} {other : τ} : related store other →
      Agree related (.error fault ⟨store, world⟩) (.error fault ⟨other, world⟩)

theorem Agree.imp {σ τ α : Type} {related weaker : σ → τ → Prop}
    {first : EStateM.Result RuntimeFault (State σ) α}
    {second : EStateM.Result RuntimeFault (State τ) α} (agreed : Agree related first second)
    (implied : ∀ store other, related store other → weaker store other) :
    Agree weaker first second := by
  cases agreed with
  | ok result world kept => exact .ok result world (implied _ _ kept)
  | error fault world kept => exact .error fault world (implied _ _ kept)

/-- From related variables in one world the two computations end alike. -/
def Respects {σ τ α : Type} (related : σ → τ → Prop) (first : Run σ α) (second : Run τ α) : Prop :=
  ∀ store other world, related store other →
    Agree related (first ⟨store, world⟩) (second ⟨other, world⟩)

section Steps

variable {σ τ α β : Type} {related : σ → τ → Prop}

theorem respects_pure (result : α) :
    Respects related (pure result : Run σ α) (pure result : Run τ α) :=
  fun _ _ world start => .ok result world start

theorem respects_throw (fault : RuntimeFault) :
    Respects related (throw fault : Run σ α) (throw fault : Run τ α) :=
  fun _ _ world start => .error fault world start

theorem Respects.bind {first : Run σ β} {second : Run τ β} {firstNext : β → Run σ α}
    {secondNext : β → Run τ α} (before : Respects related first second)
    (after : ∀ result, Respects related (firstNext result) (secondNext result)) :
    Respects related (first >>= firstNext) (second >>= secondNext) := by
  intro store other world start
  have started := before store other world start
  generalize firstRan : first ⟨store, world⟩ = firstResult at started
  generalize secondRan : second ⟨other, world⟩ = secondResult at started
  cases started with
  | ok result between kept =>
      rw [bind_of_ok firstRan, bind_of_ok secondRan]
      exact after result _ _ between kept
  | error fault between kept =>
      rw [bind_of_error firstRan, bind_of_error secondRan]
      exact .error fault between kept

theorem respects_onWorld (action : World.Action α) :
    Respects related (onWorld action : Run σ α) (onWorld action : Run τ α) := by
  intro store other world start
  unfold onWorld
  cases acted : action world with
  | ok result after =>
      simp only [acted]
      exact .ok result after start
  | error fault after =>
      simp only [acted]
      exact .error fault after start

theorem respects_onHeap (action : Heap.Action α) :
    Respects related (onHeap action : Run σ α) (onHeap action : Run τ α) :=
  respects_onWorld (World.onHeap action)

variable {first : Variables σ} {second : Variables τ} (alike : Variables.Alike related first second)
include alike

theorem respects_lookup (name : String) (line : Nat) :
    Respects related (lookup first name line) (lookup second name line) := by
  intro store other world start
  have shown := alike.value store other start name
  simp only [lookup, shown]
  cases second.value? other name with
  | none => exact .error _ world start
  | some value => exact .ok value world start

theorem respects_assign (name : String) (value : Value) :
    Respects related (assign first name value) (assign second name value) :=
  fun store other world start => .ok () world (alike.assign store other start name value)

theorem respects_enter : Respects related (enter first) (enter second) := by
  intro store other world start
  have entered := alike.enter store other start
  simp only [enter]
  generalize first.enter store = firstResult at entered ⊢
  generalize second.enter other = secondResult at entered ⊢
  cases entered with
  | ok kept => exact .ok () world kept
  | error => exact .error _ world start

theorem respects_leave (early : Bool) : Respects related (leave first early) (leave second early) :=
  fun store other world start => .ok () world (alike.leave store other start early)

theorem respects_inFrame {body : Run σ Ending} {otherBody : Run τ Ending}
    (bodies : Respects related body otherBody) :
    Respects related (inFrame first body) (inFrame second otherBody) := by
  apply Respects.bind (respects_enter alike)
  intro _
  apply Respects.bind bodies
  intro ending
  exact (respects_leave alike ending.early).bind fun _ => respects_pure ending.signal

/-- Ending alike is kept by every step of evaluation. -/
theorem respects_congruence (library : Library) :
    Congruence first second library fun _ => Respects related where
  returns := respects_pure
  fails := respects_throw
  follows := Respects.bind
  heap := respects_onHeap
  function _ _ _ := respects_onWorld _
  method _ _ _ _ := respects_onWorld _
  lookups := respects_lookup alike
  assigns := respects_assign alike
  frame := respects_inFrame alike

end Steps

/-! ## Requests -/

theorem answer_respects {σ τ : Type} {related : σ → τ → Prop} {first : Variables σ}
    {second : Variables τ} (alike : Variables.Alike related first second) (library : Library)
    (request : Machine.Request) :
    Respects related (answer first library request) (answer second library request) :=
  (respects_congruence alike library).answer request

/-- Related storages answer any sequence of requests alike, and after each of them. -/
theorem session_agree {σ τ : Type} {related : σ → τ → Prop} {first : Variables σ}
    {second : Variables τ} (alike : Variables.Alike related first second) (library : Library)
    (requests : List Machine.Request) {store : σ} {other : τ} (world : World)
    (start : related store other) :
    List.Forall₂ (Agree related) (session (answer first library) requests ⟨store, world⟩)
      (session (answer second library) requests ⟨other, world⟩) := by
  induction requests generalizing store other world with
  | nil => exact .nil
  | cons request rest inductionHypothesis =>
      have agreed := answer_respects alike library request store other world start
      refine .cons agreed ?_
      generalize answer first library request ⟨store, world⟩ = firstResult at agreed ⊢
      generalize answer second library request ⟨other, world⟩ = secondResult at agreed ⊢
      cases agreed with
      | ok result after kept => exact inductionHypothesis after kept
      | error fault after kept => exact inductionHypothesis after kept

end Direct
end Scriptlet
