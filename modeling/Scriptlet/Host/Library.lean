import Scriptlet.Host.World
import Scriptlet.Text.Quoted

namespace Scriptlet

/-!
The callables that a host offers to scripts.  Functions and methods are looked up by name;
the two kinds of names are independent.
-/

/-- Receives the arguments and the line of the call, and may produce a value. -/
abbrev HostFunction : Type :=
  List Value → Nat → World.Action (Option Value)

/-- Receives the value the method is called on as well. -/
abbrev HostMethod : Type :=
  Value → List Value → Nat → World.Action (Option Value)

structure Library where
  functions : List (String × HostFunction) := []
  methods : List (String × HostMethod) := []

namespace Library

def function? (library : Library) (name : String) : Option HostFunction :=
  library.functions.lookup name

def method? (library : Library) (name : String) : Option HostMethod :=
  library.methods.lookup name

def hasFunction (library : Library) (name : String) : Bool :=
  (library.function? name).isSome

def hasMethod (library : Library) (name : String) : Bool :=
  (library.method? name).isSome

/-- Adds a function under a name that no function has yet. -/
def addFunction (library : Library) (name : String) (function : HostFunction) :
    Except SetupFault Library :=
  if library.hasFunction name then .error (.duplicateFunction name)
  else .ok { library with functions := library.functions ++ [(name, function)] }

/-- Adds a method under a name that no method has yet. -/
def addMethod (library : Library) (name : String) (method : HostMethod) :
    Except SetupFault Library :=
  if library.hasMethod name then .error (.duplicateMethod name)
  else .ok { library with methods := library.methods ++ [(name, method)] }

/-- Names in ascending order, quoted and in brackets. -/
def describeNames (names : List String) : String :=
  let sorted := names.mergeSort fun first second => decide (¬ second < first)
  "[" ++ ", ".intercalate (sorted.map Text.quoted) ++ "]"

/-- The names a library holds. -/
def describe (library : Library) : String :=
  "Library \x7b functions: " ++ describeNames (library.functions.map Prod.fst) ++
    ", methods: " ++ describeNames (library.methods.map Prod.fst) ++ " \x7d"

end Library
end Scriptlet
