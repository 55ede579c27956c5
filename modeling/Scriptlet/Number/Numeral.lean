import Scriptlet.Number.Binary

namespace Scriptlet
namespace Number

/-!
Reading numerals: an optional sign, then digits with at most one point among them and an
optional decimal exponent, or one of the words for infinity and for the undefined number.
-/

def digitValue (c : Char) : Nat :=
  c.toNat - 48

/-- Digits taken so far, as `done * weight + block`.  The last digits are collected in a
block, so that the large number in front is touched once for every block and not once for
every digit. -/
structure Digits where
  done : Nat := 0
  block : Nat := 0
  weight : Nat := 1

namespace Digits

/-- The weight at which a block is full. -/
def fullWeight : Nat :=
  tenTo 300

def value (digits : Digits) : Nat :=
  digits.done * digits.weight + digits.block

/-- Takes one digit more. -/
def push (digits : Digits) (digit : Nat) : Digits :=
  let block := 10 * digits.block + digit
  let weight := 10 * digits.weight
  if weight < fullWeight then { digits with block, weight }
  else { done := digits.done * weight + block }

theorem value_push (digits : Digits) (digit : Nat) :
    (digits.push digit).value = 10 * digits.value + digit := by
  simp only [push]
  split <;> simp [value, Nat.mul_add, Nat.mul_left_comm, Nat.add_assoc]

end Digits

/-- The value of a run of decimal digits. -/
def decimalValue (digits : List Char) : Nat :=
  (digits.foldl (fun taken c => taken.push (digitValue c)) ({} : Digits)).value

/-- Blocks do not show: each digit adds itself to ten times what stands before it. -/
theorem decimalValue_eq_foldl (digits : List Char) :
    decimalValue digits = digits.foldl (fun value c => 10 * value + digitValue c) 0 := by
  have general (digits : List Char) (taken : Digits) :
      (digits.foldl (fun taken c => taken.push (digitValue c)) taken).value =
        digits.foldl (fun value c => 10 * value + digitValue c) taken.value := by
    induction digits generalizing taken with
    | nil => rfl
    | cons c rest ih => simp [List.foldl_cons, ih, Digits.value_push]
  exact general digits {}

/-- The double nearest to `digits * 10 ^ exponent`. -/
def ofDecimal (negative : Bool) (digits : Nat) (exponent : Int) : Float :=
  nearest negative (digits * tenTo exponent.toNat) (tenTo (-exponent).toNat)

/-- The double named by the digits before the point, the digits after it and an
exponent. -/
def ofDigits (negative : Bool) (whole fraction : List Char) (exponent : Int) : Float :=
  ofDecimal negative (decimalValue (whole ++ fraction)) (exponent - fraction.length)

/-- An exponent that has come this far takes no more digits. -/
def exponentBound : Nat :=
  65536

/-- The value of the digits of an exponent.  Those behind the bound must be digits, but they
do not count. -/
def exponentValue (digits : List Char) : Nat :=
  digits.foldl (fun value c => if value < exponentBound then 10 * value + digitValue c else value) 0

/-- The exponent part of a numeral: nothing, or a mark followed by a signed run of digits
that ends the text. -/
def exponent? : List Char → Option Int
  | [] => some 0
  | mark :: rest =>
      if mark = 'e' ∨ mark = 'E' then
        let negative := rest.head? = some '-'
        let digits := if negative ∨ rest.head? = some '+' then rest.drop 1 else rest
        if digits.isEmpty ∨ !digits.all Char.isDigit then none
        else if negative then some (-(exponentValue digits : Int))
        else some (exponentValue digits : Int)
      else none

/-- A numeral in digits, without its sign. -/
def unsigned? (negative : Bool) (cs : List Char) : Option Float :=
  let whole := cs.takeWhile Char.isDigit
  let afterWhole := cs.dropWhile Char.isDigit
  let pointed := afterWhole.head? = some '.'
  let tail := if pointed then afterWhole.drop 1 else afterWhole
  let fraction := if pointed then tail.takeWhile Char.isDigit else []
  let rest := if pointed then tail.dropWhile Char.isDigit else tail
  if whole.isEmpty ∧ fraction.isEmpty then none
  else (exponent? rest).map (ofDigits negative whole fraction)

/-- The words for numbers without digits, in any mixture of cases. -/
def named? (negative : Bool) (cs : List Char) : Option Float :=
  let word := cs.map Char.toLower
  if word = ['i', 'n', 'f'] ∨ word = ['i', 'n', 'f', 'i', 'n', 'i', 't', 'y'] then
    some (ofMagnitude negative infiniteMagnitude)
  else if word = ['n', 'a', 'n'] then some undefined
  else none

/-- Reads a whole text as a number. -/
def read? (cs : List Char) : Option Float :=
  let negative := cs.head? = some '-'
  let body := if negative ∨ cs.head? = some '+' then cs.drop 1 else cs
  (unsigned? negative body).or (named? negative body)

end Number
end Scriptlet
