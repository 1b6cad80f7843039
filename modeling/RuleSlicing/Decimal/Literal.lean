import RuleSlicing.Bounded
import RuleSlicing.Text.Digits

/-!
# Decimal literals as floating-point numbers

A literal is evaluated in two roundings. As many leading digits as 64 bits hold
form a whole number, which is rounded once; one multiplication with or division
by a power of ten, which is rounded again, moves the point.
-/

set_option autoImplicit false

namespace RuleSlicing.Decimal

/-- A decimal literal, digit by digit. The exponent, if there is one, comes with
its sign. -/
structure Literal where
  negative : Bool
  whole : List Nat
  fraction : List Nat
  exponent : Option (Bool × List Nat)
deriving DecidableEq

namespace Literal

def natOfDigits (digits : List Nat) : Nat :=
  digits.foldl (fun number digit => number * 10 + digit) 0

/-- Continue a number with as many digits as keep it within a word, and count
the digits left over. -/
def absorb (number : Nat) : List Nat → Nat × Nat
  | [] => (number, 0)
  | digit :: rest =>
      if number * 10 + digit < wordCount then absorb (number * 10 + digit) rest
      else (number, rest.length + 1)

/-- The floating-point number nearest to a power of ten. -/
def powerOfTen (exponent : Nat) : Float := Float.ofScientific 1 false exponent

/-- Move the decimal point of a number of 64 bits. Without a value is what
exceeds the greatest finite number; what falls below the least one is zero. -/
def shift (significand : Nat) (exponent : Int) : Option Float :=
  let start := (UInt64.ofNat significand).toFloat
  if 0 ≤ exponent then
    if significand = 0 then some start
    else if exponent ≤ 308 then
      let shifted := start * powerOfTen exponent.toNat
      if shifted.isInf then none else some shifted
    else none
  else if -308 ≤ exponent then some (start / powerOfTen (-exponent).toNat)
  else if -616 ≤ exponent then
    some (start / powerOfTen 308 / powerOfTen (-exponent - 308).toNat)
  else some 0

def magnitude? (literal : Literal) : Option Float :=
  let (leading, dropped) := absorb 0 literal.whole
  let (significand, unused) := absorb leading literal.fraction
  let places : Int := literal.fraction.length - unused
  let written : Int := match literal.exponent with
    | none => 0
    | some (negative, digits) =>
        if negative then -(natOfDigits digits : Int) else natOfDigits digits
  shift significand (dropped - places + written)

def toFloat? (literal : Literal) : Option Float :=
  literal.magnitude?.map fun magnitude => if literal.negative then -magnitude else magnitude

/-- The integer of a literal without fraction and exponent. The literal `-0` is
no integer, because an integer has no negative zero. -/
def toInt? (literal : Literal) : Option Int :=
  if literal.fraction.isEmpty && literal.exponent.isNone then
    let number := natOfDigits literal.whole
    if literal.negative then (if number = 0 then none else some (-number))
    else some number
  else none

end Literal

end RuleSlicing.Decimal
