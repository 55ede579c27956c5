import Scriptlet.Number.Binary

namespace Scriptlet
namespace Number

/-!
Whole numbers.  Doubles hold every integer up to `2 ^ 53 - 1` in magnitude, and only those
are converted in either direction.
-/

/-- The largest magnitude up to which no two integers share a double. -/
def largestWhole : Nat :=
  9007199254740991

def ofInt (n : Int) : Float :=
  nearest (decide (n < 0)) n.natAbs 1

/-- The double of an integer, if its magnitude is at most `largestWhole`. -/
def ofInt? (n : Int) : Option Float :=
  if n.natAbs ≤ largestWhole then some (ofInt n) else none

/-- Whole units and what is left over of `significand * 2 ^ exponent`. -/
def wholePart (significand : Nat) (exponent : Int) : Nat :=
  significand * twoTo exponent.toNat / twoTo (-exponent).toNat

def isWhole (significand : Nat) (exponent : Int) : Bool :=
  significand * twoTo exponent.toNat % twoTo (-exponent).toNat = 0

/-- Why a double is no integer. -/
inductive WholeFault where
  | notFinite
  | tooLarge
  deriving DecidableEq

/-- The integer left when the fraction of a double is cut off. -/
def truncate (x : Float) : Except WholeFault Int :=
  match parts x with
  | .finite negative significand exponent =>
      let magnitude := wholePart significand exponent
      if largestWhole < magnitude then .error .tooLarge
      else .ok (if negative then -(magnitude : Int) else magnitude)
  | _ => .error .notFinite

/-- Why a double is no position in a list. -/
inductive IndexFault where
  | notNatural
  | tooLarge
  deriving DecidableEq

/-- The natural number that a double is.  Negative zero is zero. -/
def index (x : Float) : Except IndexFault Nat :=
  match parts x with
  | .finite negative significand exponent =>
      if (negative ∧ significand ≠ 0) ∨ !isWhole significand exponent then .error .notNatural
      else if largestWhole < wholePart significand exponent then .error .tooLarge
      else .ok (wholePart significand exponent)
  | _ => .error .notNatural

end Number
end Scriptlet
