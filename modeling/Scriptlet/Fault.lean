import Scriptlet.Token.Fault
import Scriptlet.Tree.Operator
import Scriptlet.Value.Basic

namespace Scriptlet

/-!
What can go wrong once source text has been read, and the union of all faults.
-/

/-- How many arguments a callable takes. -/
inductive Arity where
  | exactly (count : Nat)
  | atLeast (count : Nat)
  deriving DecidableEq

namespace Arity

def admits : Arity → Nat → Bool
  | .exactly count, found => found = count
  | .atLeast count, found => count ≤ found

def describe : Arity → String
  | .exactly count => toString count
  | .atLeast count => "at least " ++ toString count

end Arity

/-- Why an argument cannot be used. -/
inductive ArgumentFault where
  | unrepresentable (value : Int)
  | notFinite (value : Float)
  | tooLargeInteger (value : Float)
  | notAnIndex (value : Float)
  | tooLargeIndex (value : Float)
  | described (details : String)

def ArgumentFault.details : ArgumentFault → String
  | .unrepresentable value => toString value ++ " cannot be represented as a number"
  | .notFinite value =>
      "cannot convert non-finite value " ++ Number.text value ++ " to an integer"
  | .tooLargeInteger value => Number.text value ++ " is too large to be used as an integer"
  | .notAnIndex value => Number.text value ++ " is not a valid list index"
  | .tooLargeIndex value => Number.text value ++ " is too large to be used as an index"
  | .described details => details

/-- A fault met while a program runs.  Values at fault are kept as they were rendered when
the fault arose, since the lists in them may change later. -/
inductive RuntimeFault where
  | unknownVariable (name : String) (line : Nat)
  | unknownFunction (name : String) (line : Nat)
  | unknownMethod (name : String) (line : Nat)
  | invalidOperands (operator : BinaryOperator) (left right : String) (line : Nat)
  | invalidOperand (operator : UnaryOperator) (operand : String) (line : Nat)
  | expectedTruth (found : String) (line : Nat)
  | expectedList (found : String) (line : Nat)
  | expectedNumber (found : String) (line : Nat)
  | indexOutOfBounds (index length line : Nat)
  | argumentCount (name : String) (expected : Arity) (found line : Nat)
  | invalidArgument (fault : ArgumentFault) (line : Nat)
  | missingValue (line : Nat)
  | scopeDepthExceeded (limit : Nat)
  | unboundSlot (name : String)
  | hostFailure (name details : String) (line : Nat)

namespace RuntimeFault

/-- The line a fault is reported on; two faults of the variable store have none. -/
def line? : RuntimeFault → Option Nat
  | .unknownVariable _ line => some line
  | .unknownFunction _ line => some line
  | .unknownMethod _ line => some line
  | .invalidOperands _ _ _ line => some line
  | .invalidOperand _ _ line => some line
  | .expectedTruth _ line => some line
  | .expectedList _ line => some line
  | .expectedNumber _ line => some line
  | .indexOutOfBounds _ _ line => some line
  | .argumentCount _ _ _ line => some line
  | .invalidArgument _ line => some line
  | .missingValue line => some line
  | .scopeDepthExceeded _ => none
  | .unboundSlot _ => none
  | .hostFailure _ _ line => some line

def details : RuntimeFault → String
  | .unknownVariable name _ => "Variable " ++ name ++ " is not defined"
  | .unknownFunction name _ => "Function " ++ name ++ " is not defined"
  | .unknownMethod name _ => "Method " ++ name ++ " is not defined"
  | .invalidOperands operator left right _ =>
      "Cannot apply " ++ operator.symbol ++ " to " ++ left ++ " and " ++ right
  | .invalidOperand operator operand _ => "Cannot apply " ++ operator.symbol ++ " to " ++ operand
  | .expectedTruth found _ => "Cannot evaluate " ++ found ++ " as a boolean"
  | .expectedList found _ => "Expected a list, found " ++ found
  | .expectedNumber found _ => "Expected a number, found " ++ found
  | .indexOutOfBounds index length _ =>
      "Index " ++ toString index ++ " is out of range for a list of length " ++ toString length
  | .argumentCount name expected found _ =>
      name ++ " expects " ++ expected.describe ++ " argument(s), but received " ++ toString found
  | .invalidArgument fault _ => "Invalid argument: " ++ fault.details
  | .missingValue _ => "Expression produced no value"
  | .scopeDepthExceeded limit =>
      "Maximum recursion depth exceeded (" ++ toString limit ++ " scopes)"
  | .unboundSlot name => "Variable " ++ name ++ " does not exist"
  | .hostFailure name details _ => name ++ " failed: " ++ details

def message (fault : RuntimeFault) : String :=
  match fault.line? with
  | some line => "Runtime error on line " ++ toString line ++ ": " ++ fault.details
  | none => "Runtime error: " ++ fault.details

end RuntimeFault

/-- A fault in what the host provides: its callables or its queued arguments. -/
inductive SetupFault where
  | duplicateFunction (name : String)
  | duplicateMethod (name : String)
  | argumentsExhausted (name : String) (line : Nat)
  | coercion (name raw : String) (expected : Value.Kind) (line : Nat)
  deriving DecidableEq

def SetupFault.message : SetupFault → String
  | .duplicateFunction name => "Context creation error: function already exists: " ++ name
  | .duplicateMethod name => "Context creation error: method already exists: " ++ name
  | .argumentsExhausted name line =>
      "Context creation error on line " ++ toString line ++
        ": no argument supplied for parameter " ++ name
  | .coercion name raw expected line =>
      "Context creation error on line " ++ toString line ++ ": cannot bind " ++ raw ++
        " to parameter " ++ name ++ " of type " ++ expected.name

/-- Any fault.  `exhausted` stands for a reader that was given too few steps; the readers of
this library give themselves enough. -/
inductive Fault where
  | source (fault : SyntaxFault)
  | runtime (fault : RuntimeFault)
  | setup (fault : SetupFault)
  | exhausted

def Fault.message : Fault → String
  | .source fault => fault.message
  | .runtime fault => fault.message
  | .setup fault => fault.message
  | .exhausted => "Reading took too many steps"

end Scriptlet
