import Scriptlet.CommandLine

/-!
The program: it reads the file that its command line asks for and writes what the answer
says.
-/

namespace Scriptlet

/-- The text of a file, if it can be read. -/
def readScript (path : String) : IO (Option String) := do
  try
    let text ← IO.FS.readFile path
    pure (some text)
  catch _ => pure none

/-- The text of the file that a command line names, if it names one. -/
def scriptFor (words : List String) : IO (Option String) :=
  match CommandLine.request words with
  | .ok (.run invocation) =>
      if invocation.fromFile then readScript invocation.contents else pure none
  | _ => pure none

end Scriptlet

def main (words : List String) : IO UInt32 := do
  let script ← Scriptlet.scriptFor words
  let outcome := Scriptlet.CommandLine.answer (fun _ => script) words
  IO.print outcome.output
  IO.eprint outcome.diagnostics
  pure (UInt32.ofNat outcome.exitCode)
