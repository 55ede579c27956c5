namespace Scriptlet

/-!
# What a computation ensures

Reading and evaluation are computations with a state that survives faults.  What they return
and what they can fail with is said of a whole computation at once, so that a statement about
a composed computation follows from statements about its parts.
-/

theorem bind_of_ok {ε σ α β : Type} {first : EStateM ε σ α} {next : α → EStateM ε σ β}
    {state between : σ} {result : α} (ran : first state = .ok result between) :
    (first >>= next) state = next result between := by
  change EStateM.bind first next state = _
  unfold EStateM.bind
  rw [ran]

theorem bind_of_error {ε σ α β : Type} {first : EStateM ε σ α} {next : α → EStateM ε σ β}
    {state between : σ} {fault : ε} (ran : first state = .error fault between) :
    (first >>= next) state = .error fault between := by
  change EStateM.bind first next state = _
  unfold EStateM.bind
  rw [ran]

/-- A composed computation that returns has returned from its first part. -/
theorem bind_eq_ok {ε σ α β : Type} {first : EStateM ε σ α} {next : α → EStateM ε σ β}
    {state after : σ} {result : β} (ran : (first >>= next) state = .ok result after) :
    ∃ middle between, first state = .ok middle between ∧
      next middle between = .ok result after := by
  change EStateM.bind first next state = .ok result after at ran
  unfold EStateM.bind at ran
  cases started : first state with
  | ok middle between =>
      rw [started] at ran
      exact ⟨middle, between, rfl, ran⟩
  | error fault between =>
      rw [started] at ran
      cases ran

/-- Started in a state with the invariant, the computation either returns a result with the
postcondition, in a state with the invariant, or fails with one of the given faults. -/
def Ensures {ε σ α : Type} (invariant : σ → Prop) (step : EStateM ε σ α) (post : α → Prop)
    (faults : ε → Prop) : Prop :=
  ∀ state, invariant state →
    match step state with
    | .ok result after => post result ∧ invariant after
    | .error fault _ => faults fault

namespace Ensures

variable {ε σ α β : Type} {invariant : σ → Prop} {post : α → Prop} {faults : ε → Prop}

theorem anything (step : EStateM ε σ α) :
    Ensures (fun _ => True) step (fun _ => True) (fun _ => True) := by
  intro state _
  cases step state with
  | ok result after => exact ⟨trivial, trivial⟩
  | error fault after => exact trivial

theorem pure {result : α} (holds : post result) :
    Ensures invariant (Pure.pure result : EStateM ε σ α) post faults :=
  fun _ start => ⟨holds, start⟩

theorem throw {fault : ε} (known : faults fault) :
    Ensures invariant (MonadExcept.throw fault : EStateM ε σ α) post faults :=
  fun _ _ => known

theorem bind {middle : β → Prop} {first : EStateM ε σ β} {next : β → EStateM ε σ α}
    (before : Ensures invariant first middle faults)
    (after : ∀ result, middle result → Ensures invariant (next result) post faults) :
    Ensures invariant (first >>= next) post faults := by
  intro state start
  have split : (first >>= next) state =
      match first state with
      | .ok result between => next result between
      | .error fault between => .error fault between := rfl
  have started := before state start
  rw [split]
  cases ran : first state with
  | ok result between =>
      rw [ran] at started
      exact after result started.1 between started.2
  | error fault between =>
      rw [ran] at started
      exact started

/-- A postcondition that the result must have anyway can be weakened, and faults can be
added. -/
theorem weaken {stronger : α → Prop} {fewer : ε → Prop} {step : EStateM ε σ α}
    (strong : Ensures invariant step stronger fewer)
    (results : ∀ result, stronger result → post result)
    (added : ∀ fault, fewer fault → faults fault) : Ensures invariant step post faults := by
  intro state start
  have strongly := strong state start
  cases ran : step state with
  | ok result after =>
      rw [ran] at strongly
      exact ⟨results result strongly.1, strongly.2⟩
  | error fault after =>
      rw [ran] at strongly
      exact added fault strongly

theorem ite {condition : Prop} [Decidable condition] {first second : EStateM ε σ α}
    (holds : condition → Ensures invariant first post faults)
    (fails : ¬ condition → Ensures invariant second post faults) :
    Ensures invariant (if condition then first else second) post faults := by
  by_cases decided : condition
  · rw [if_pos decided]
    exact holds decided
  · rw [if_neg decided]
    exact fails decided

/-- What is ensured of a result that has been reached. -/
theorem of_ok {step : EStateM ε σ α} (ensured : Ensures invariant step post faults)
    {state after : σ} {result : α} (start : invariant state) (ran : step state = .ok result after) :
    post result ∧ invariant after := by
  have holds := ensured state start
  rw [ran] at holds
  exact holds

theorem of_error {step : EStateM ε σ α} (ensured : Ensures invariant step post faults)
    {state after : σ} {fault : ε} (start : invariant state)
    (ran : step state = .error fault after) : faults fault := by
  have holds := ensured state start
  rw [ran] at holds
  exact holds

end Ensures
end Scriptlet
