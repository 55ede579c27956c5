import Scriptlet.Proofs.Ensures

namespace Scriptlet

/-!
# Two computations side by side

Two readings or two runs are compared by following both at once.  They start in states that
stand in some relation; where the first one returns, so does the second, and their results and
states stand in another relation.  Where the first one fails, the second one fails alike, unless
nothing is asked of it then.
-/

/-- What is asked of the second computation where the first one fails. -/
structure FaultRule (ε σ : Type) where
  /-- Nothing is asked after this fault. -/
  excused : ε → Prop
  /-- How the two faults, and the states after them, belong together. -/
  alike : ε → ε → σ → σ → Prop

/-- Two computations end together. -/
def EndAlike {ε σ α : Type} (post : α → α → σ → σ → Prop) (rule : FaultRule ε σ) :
    EStateM.Result ε σ α → EStateM.Result ε σ α → Prop
  | .ok result after, .ok other otherAfter => post result other after otherAfter
  | .ok _ _, .error _ _ => False
  | .error fault _, .ok _ _ => rule.excused fault
  | .error fault after, .error otherFault otherAfter =>
      rule.excused fault ∨ rule.alike fault otherFault after otherAfter

/-- Started in states with the first relation, the computations end together, with results and in
states that have the second one. -/
def Tracks {ε σ α : Type} (pre : σ → σ → Prop) (step other : EStateM ε σ α)
    (post : α → α → σ → σ → Prop) (rule : FaultRule ε σ) : Prop :=
  ∀ state otherState, pre state otherState →
    EndAlike post rule (step state) (other otherState)

section Composition

variable {ε σ α β : Type} {pre : σ → σ → Prop} {post : α → α → σ → σ → Prop}
  {rule : FaultRule ε σ}

theorem EndAlike.excuse {fault : ε} {state : σ} (excused : rule.excused fault)
    (ending : EStateM.Result ε σ α) : EndAlike post rule (.error fault state) ending := by
  cases ending with
  | ok result after => exact excused
  | error other after => exact Or.inl excused

theorem EndAlike.weaken {weaker : α → α → σ → σ → Prop} {ending other : EStateM.Result ε σ α}
    (alike : EndAlike post rule ending other)
    (implies : ∀ result otherResult state otherState,
      post result otherResult state otherState → weaker result otherResult state otherState) :
    EndAlike weaker rule ending other := by
  cases ending with
  | error fault after => cases other <;> exact alike
  | ok result after =>
      cases other with
      | error fault otherAfter => exact alike.elim
      | ok otherResult otherAfter => exact implies _ _ _ _ alike

/-- What is asked where the first computation fails can be weakened too. -/
theorem EndAlike.weakenFaults {weaker : FaultRule ε σ} {ending other : EStateM.Result ε σ α}
    (alike : EndAlike post rule ending other)
    (excused : ∀ {fault}, rule.excused fault → weaker.excused fault)
    (implies : ∀ fault otherFault state otherState,
      rule.alike fault otherFault state otherState →
        weaker.alike fault otherFault state otherState) :
    EndAlike post weaker ending other := by
  cases ending with
  | ok result after => cases other <;> exact alike
  | error fault after =>
      cases other with
      | ok otherResult otherAfter => exact excused alike
      | error otherFault otherAfter => exact alike.imp excused (implies _ _ _ _)

/-- Where something is asked of failures, both computations return or both fail. -/
theorem EndAlike.returns_or_fails {ending other : EStateM.Result ε σ α}
    (alike : EndAlike post rule ending other) (strict : ∀ {fault}, ¬ rule.excused fault) :
    (∃ result otherResult after otherAfter, ending = .ok result after ∧
      other = .ok otherResult otherAfter ∧ post result otherResult after otherAfter) ∨
    ∃ fault otherFault after otherAfter, ending = .error fault after ∧
      other = .error otherFault otherAfter ∧ rule.alike fault otherFault after otherAfter := by
  cases ending with
  | ok result after =>
      cases other with
      | ok otherResult otherAfter => exact Or.inl ⟨_, _, _, _, rfl, rfl, alike⟩
      | error fault otherAfter => exact alike.elim
  | error fault after =>
      cases other with
      | ok otherResult otherAfter => exact absurd alike strict
      | error otherFault otherAfter =>
          exact Or.inr ⟨_, _, _, _, rfl, rfl, alike.resolve_left strict⟩

namespace Tracks

theorem pure {result other : α}
    (holds : ∀ state otherState, pre state otherState → post result other state otherState) :
    Tracks pre (Pure.pure result : EStateM ε σ α) (Pure.pure other) post rule :=
  fun state otherState start => holds state otherState start

theorem throw {fault otherFault : ε}
    (failed : ∀ state otherState, pre state otherState →
      rule.excused fault ∨ rule.alike fault otherFault state otherState) :
    Tracks pre (MonadExcept.throw fault : EStateM ε σ α) (MonadExcept.throw otherFault) post rule :=
  fun state otherState start => failed state otherState start

theorem bind {middle : β → β → σ → σ → Prop} {first otherFirst : EStateM ε σ β}
    {next otherNext : β → EStateM ε σ α} (before : Tracks pre first otherFirst middle rule)
    (after : ∀ result other, Tracks (middle result other) (next result) (otherNext other) post
      rule) :
    Tracks pre (first >>= next) (otherFirst >>= otherNext) post rule := by
  intro state otherState start
  have started := before state otherState start
  cases ran : first state with
  | ok result between =>
      cases otherRan : otherFirst otherState with
      | ok other otherBetween =>
          rw [ran, otherRan] at started
          rw [bind_of_ok ran, bind_of_ok otherRan]
          exact after result other between otherBetween started
      | error fault otherBetween =>
          rw [ran, otherRan] at started
          exact started.elim
  | error fault between =>
      rw [bind_of_error ran]
      cases otherRan : otherFirst otherState with
      | error otherFault otherBetween =>
          rw [ran, otherRan] at started
          rw [bind_of_error otherRan]
          exact started
      | ok other otherBetween =>
          rw [ran, otherRan] at started
          exact EndAlike.excuse started _

theorem weaken {stronger : σ → σ → Prop} {weaker : α → α → σ → σ → Prop}
    {step other : EStateM ε σ α} (tracks : Tracks pre step other post rule)
    (starts : ∀ state otherState, stronger state otherState → pre state otherState)
    (ends : ∀ result otherResult state otherState,
      post result otherResult state otherState → weaker result otherResult state otherState) :
    Tracks stronger step other weaker rule :=
  fun state otherState start =>
    (tracks state otherState (starts state otherState start)).weaken ends

theorem ite {condition otherCondition : Prop} [Decidable condition] [Decidable otherCondition]
    {first second otherFirst otherSecond : EStateM ε σ α} (same : otherCondition ↔ condition)
    (holds : condition → Tracks pre first otherFirst post rule)
    (fails : ¬ condition → Tracks pre second otherSecond post rule) :
    Tracks pre (if condition then first else second)
      (if otherCondition then otherFirst else otherSecond) post rule := by
  by_cases decided : condition
  · rw [if_pos decided, if_pos (same.mpr decided)]
    exact holds decided
  · rw [if_neg decided, if_neg (fun other => decided (same.mp other))]
    exact fails decided

end Tracks
end Composition
end Scriptlet
