import Scriptlet.Machine.Evaluation
import Scriptlet.Reading.Statement

namespace Scriptlet

/-!
Scripts from source text to their effects.
-/

/-- Reads a program.  The names of the library's functions decide what is a call, and
declarations take values from the front of the queue, also when reading fails later. -/
def compile (library : Library) (source : String) : EStateM Fault Arguments Program :=
  fun arguments =>
    match Reader.program library.hasFunction ⟨.ofSource source, arguments⟩ with
    | .ok program reader => .ok program reader.arguments
    | .error fault reader => .error fault reader.arguments

/-- Reads a program against a registry and runs it on a machine of its own. -/
def runScript (source : String) (registry : Registry) (config : Config) :
    EStateM Fault World Unit := fun world =>
  match compile registry.library source ⟨registry.queue, world.heap⟩ with
  | .error fault arguments => .error fault { world with heap := arguments.heap }
  | .ok program arguments =>
      let machine := Machine.start config { world with heap := arguments.heap }
      match Machine.run ⟨registry.library, config⟩ program machine with
      | .ok _ after => .ok () after.world
      | .error fault after => .error (.runtime fault) after.world

end Scriptlet
