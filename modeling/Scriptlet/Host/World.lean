import Scriptlet.Value.Access

namespace Scriptlet

/-!
What lies outside a script: the heap it shares with its host, and the sink that takes what
it prints.
-/

/-- Where printed texts go, the last one in front.  A sink may have room for only so many
more; it refuses the rest with a reason and keeps nothing of a text that it refuses. -/
structure Sink where
  prints : List String := []
  room : Option Nat := none
  refusal : String := "sink full"

namespace Sink

/-- Takes a text, or gives the reason for refusing it. -/
def accept (sink : Sink) (text : String) : Except String Sink :=
  match sink.room with
  | some 0 => .error sink.refusal
  | some (room + 1) => .ok { sink with prints := text :: sink.prints, room := some room }
  | none => .ok { sink with prints := text :: sink.prints }

/-- All that was printed. -/
def output (sink : Sink) : String :=
  String.join sink.prints.reverse

end Sink

structure World where
  heap : Heap := {}
  sink : Sink := {}

/-- A computation of the host's.  The world survives a fault. -/
abbrev World.Action (α : Type) : Type :=
  EStateM RuntimeFault World α

namespace World

/-- An action on the heap leaves the sink alone. -/
def onHeap {α : Type} (action : Heap.Action α) : World.Action α := fun ⟨heap, sink⟩ =>
  match action heap with
  | .ok result after => .ok result ⟨after, sink⟩
  | .error fault after => .error fault ⟨after, sink⟩

end World
end Scriptlet
