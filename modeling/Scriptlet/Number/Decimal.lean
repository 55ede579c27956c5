import Scriptlet.Number.Numeral

namespace Scriptlet
namespace Number

/-!
Writing numbers.  A number is written with the fewest digits that read back as the same
number, always in positional notation and without a point when nothing follows it.
-/

/-- The decimal `digits * 10 ^ exponent`. -/
structure Decimal where
  digits : Nat
  exponent : Int
  deriving DecidableEq

namespace Decimal

/-- A decimal reads back when rounding it gives the double with the given magnitude. -/
def readsBack (magnitude : Nat) (d : Decimal) : Bool :=
  nearestMagnitude (d.digits * tenTo d.exponent.toNat) (tenTo (-d.exponent).toNat) = magnitude

/-- The number of decimal places before the point, counted down from zero for values below
one tenth: the least `k` with a value below `10 ^ k`. -/
def scale (numerator denominator : Nat) : Int :=
  if denominator ≤ numerator then (Nat.toDigits 10 (numerator / denominator)).length
  else
    match (List.range 400).find? fun places => denominator ≤ numerator * tenTo places with
    | some places => 1 - (places : Int)
    | none => 0

/-- The better of the two decimals around a ratio on the grid of the given exponent, if one
of them reads back.  Of two that do the nearer wins, and of two equally near the larger. -/
def onGrid? (magnitude numerator denominator : Nat) (grid : Int) : Option Decimal :=
  let scaled := numerator * tenTo (-grid).toNat
  let unit := denominator * tenTo grid.toNat
  let below : Decimal := ⟨scaled / unit, grid⟩
  let above : Decimal := ⟨scaled / unit + 1, grid⟩
  match readsBack magnitude below, readsBack magnitude above with
  | true, true => some (if 2 * (scaled % unit) < unit then below else above)
  | true, false => some below
  | false, true => some above
  | false, false => none

/-- The decimal with exactly the value of `significand * 2 ^ exponent`. -/
def exact (significand : Nat) (exponent : Int) : Decimal :=
  if 0 ≤ exponent then ⟨significand * twoTo exponent.toNat, 0⟩
  else ⟨significand * fiveTo (-exponent).toNat, exponent⟩

/-- The decimal of fewest digits that reads back as the positive double
`significand * 2 ^ exponent` with the given magnitude.  Seventeen digits are enough; the
exact decimal stands behind them so that the result reads back by construction. -/
def shortest (magnitude significand : Nat) (exponent : Int) : Decimal :=
  let numerator := significand * twoTo exponent.toNat
  let denominator := twoTo (-exponent).toNat
  let places := scale numerator denominator
  let found := (List.range 17).findSome? fun (count : Nat) =>
    onGrid? magnitude numerator denominator (places - (count + 1))
  found.getD (exact significand exponent)

/-- Zeros at the end of the digits after the point are not written. -/
def withoutTrailingZeros (digits : List Char) : List Char :=
  (digits.reverse.dropWhile (· = '0')).reverse

/-- Positional notation. -/
def positional (d : Decimal) : List Char :=
  let digits := Nat.toDigits 10 d.digits
  if 0 ≤ d.exponent then digits ++ List.replicate d.exponent.toNat '0'
  else
    let places := (-d.exponent).toNat
    let padded := List.replicate (places + 1 - digits.length) '0' ++ digits
    let whole := padded.take (padded.length - places)
    let fraction := withoutTrailingZeros (padded.drop (padded.length - places))
    if fraction.isEmpty then whole else whole ++ '.' :: fraction

end Decimal

/-- The sign is written for negative numbers, negative zero included. -/
def signed (negative : Bool) (cs : List Char) : List Char :=
  if negative then '-' :: cs else cs

/-- The text of a number as a list of characters. -/
def spelling (x : Float) : List Char :=
  match parts x with
  | .undefined => ['N', 'a', 'N']
  | .infinite negative => signed negative ['i', 'n', 'f']
  | .finite negative significand exponent =>
      signed negative <|
        if significand = 0 then ['0']
        else (Decimal.shortest (x.toBits.toNat % signWeight) significand exponent).positional

def text (x : Float) : String :=
  String.ofList (spelling x)

end Number
end Scriptlet
