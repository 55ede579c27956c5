namespace Scriptlet
namespace Number

/-!
Numbers of the language are binary64 doubles.  This module takes a double apart into the
exact value it stands for, and rounds an exact ratio back to the nearest double.  All of it
is arithmetic on naturals, so that what is computed here can be reasoned about without the
machine's own floating-point operations.  The powers that scaling needs come first.
-/

def twoTo (n : Nat) : Nat :=
  Nat.pow 2 n

def fiveTo (n : Nat) : Nat :=
  Nat.pow 5 n

def tenTo (n : Nat) : Nat :=
  Nat.pow 10 n

/-- What a double stands for.  A finite one is `significand * 2 ^ exponent` with a sign, and
zero keeps its sign. -/
inductive Parts where
  | undefined
  | infinite (negative : Bool)
  | finite (negative : Bool) (significand : Nat) (exponent : Int)
  deriving DecidableEq

/-- The number of fractions that one exponent has: the lowest 52 bits. -/
def fractions : Nat :=
  4503599627370496

/-- The weight of the sign: the highest of 64 bits. -/
def signWeight : Nat :=
  9223372036854775808

/-- The field of 52 fraction bits, the field of 11 exponent bits and the sign bit. -/
def parts (x : Float) : Parts :=
  let bits := x.toBits.toNat
  let negative := decide (signWeight ≤ bits)
  let exponent : Nat := bits / fractions % 2048
  let fraction := bits % fractions
  if exponent = 2047 then
    if fraction = 0 then .infinite negative else .undefined
  else if exponent = 0 then .finite negative fraction (-1074)
  else .finite negative (fractions + fraction) ((exponent : Int) - 1075)

/-- The double with the given sign whose other 63 bits are `magnitude`. -/
def ofMagnitude (negative : Bool) (magnitude : Nat) : Float :=
  Float.ofBits (UInt64.ofNat (if negative then signWeight + magnitude else magnitude))

/-- The bits of infinity; every finite magnitude is smaller. -/
def infiniteMagnitude : Nat :=
  2047 * fractions

def undefined : Float :=
  0.0 / 0.0

/-- The quotient rounded to the nearest integer, and to the even one of two equally near. -/
def roundedQuotient (numerator denominator : Nat) : Nat :=
  let quotient := numerator / denominator
  let excess := 2 * (numerator % denominator)
  if excess < denominator then quotient
  else if denominator < excess then quotient + 1
  else if quotient % 2 = 0 then quotient
  else quotient + 1

/-- The exponent of the largest power of two that is at most the ratio. -/
def binaryExponent (numerator denominator : Nat) : Int :=
  let estimate := (Nat.log2 numerator : Int) - Nat.log2 denominator
  if numerator * twoTo (-estimate).toNat < denominator * twoTo estimate.toNat then estimate - 1
  else estimate

/-- The magnitude of the double nearest to a ratio.  The unit in the last place is
`2 ^ unit`; a significand that rounds up to twice `fractions` carries into the exponent
field, which is what the sum of the two fields says. -/
def nearestMagnitude (numerator denominator : Nat) : Nat :=
  if numerator = 0 then 0
  else
    let unit := max (binaryExponent numerator denominator - 52) (-1074)
    let significand :=
      roundedQuotient (numerator * twoTo (-unit).toNat) (denominator * twoTo unit.toNat)
    let magnitude :=
      if significand < fractions then significand
      else (unit + 1075).toNat * fractions + (significand - fractions)
    min magnitude infiniteMagnitude

/-- The double nearest to a ratio with the given sign.  Ratios beyond the largest double
give infinity. -/
def nearest (negative : Bool) (numerator denominator : Nat) : Float :=
  ofMagnitude negative (nearestMagnitude numerator denominator)

/-- The double nearest to `significand * 2 ^ exponent`. -/
def ofScaled (negative : Bool) (significand : Nat) (exponent : Int) : Float :=
  nearest negative (significand * twoTo exponent.toNat) (twoTo (-exponent).toNat)

/-- The remainder of a division whose quotient is cut towards zero.  It has the sign of the
dividend and is exact, since both operands are multiples of the smaller of their units. -/
def remainder (x y : Float) : Float :=
  match parts x, parts y with
  | .finite _ _ _, .infinite _ => x
  | .finite negative m q, .finite _ n r =>
      if n = 0 then undefined
      else
        let unit := min q r
        ofScaled negative ((m * twoTo (q - unit).toNat) % (n * twoTo (r - unit).toNat)) unit
  | _, _ => undefined

end Number
end Scriptlet
