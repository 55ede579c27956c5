import Scriptlet.Value.Basic

namespace Scriptlet

/-!
The stack that expressions leave their values on.  Its height is kept beside the values, so
that the height a computation started from can be compared with the height it ends at.
-/

/-- Values with the last one pushed in front. -/
structure Stack where
  values : List Value := []
  height : Nat := 0
  height_eq : height = values.length := by rfl

namespace Stack

def push (stack : Stack) (value : Value) : Stack where
  values := value :: stack.values
  height := stack.height + 1
  height_eq := by simp [stack.height_eq]

/-- The value on top and the stack below it. -/
def pop? : Stack → Option (Value × Stack)
  | ⟨[], _, _⟩ => none
  | ⟨value :: rest, height, height_eq⟩ =>
      some (value, ⟨rest, height - 1, by simp [height_eq]⟩)

/-- The values above a height, in the order they were pushed. -/
def above (stack : Stack) (height : Nat) : List Value :=
  (stack.values.take (stack.height - height)).reverse

/-- The stack without the values above a height. -/
def cut (stack : Stack) (height : Nat) : Stack where
  values := stack.values.drop (stack.height - height)
  height := stack.height - (stack.height - height)
  height_eq := by simp [stack.height_eq]

end Stack
end Scriptlet
