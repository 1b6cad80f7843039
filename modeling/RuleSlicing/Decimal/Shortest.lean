/-!
# Shortest decimal text of a binary number

A binary floating-point number is read back from every decimal number of the
interval that rounds to it. Its shortest text takes the fewest digits for which
a decimal number of that interval exists, and of two such numbers the nearer.
All comparisons are exact comparisons of natural numbers.
-/

set_option autoImplicit false

namespace RuleSlicing.Decimal

/-! ## Binary numbers -/

/-- A positive binary number `significand * 2 ^ exponent`, and whether the next
smaller number lies only half as far away as the next greater one. -/
structure Binary where
  significand : Nat
  exponent : Int
  narrowBelow : Bool
deriving DecidableEq

/-- The magnitude of the 64-bit floating-point number with these bits, for a
finite number other than zero. -/
def Binary.ofBits (bits : UInt64) : Binary :=
  let fraction : Nat := bits.toNat % Nat.pow 2 52
  let field : Nat := bits.toNat / Nat.pow 2 52 % Nat.pow 2 11
  if field = 0 then ⟨fraction, -1074, false⟩
  else ⟨fraction + Nat.pow 2 52, (field : Int) - 1075, fraction = 0 && 1 < field⟩

/-! ## Decimal numbers -/

/-- The decimal number `digits * 10 ^ exponent`. -/
structure Number where
  digits : Nat
  exponent : Int
deriving DecidableEq

/-- A common scale: `quarters * binary` and `candidate * decimal` compare like
a number of quarter units of the last binary place and a number of units of the
decimal place. -/
private structure Scale where
  binary : Nat
  decimal : Nat

private def scaleOf (binaryExponent decimalExponent : Int) : Scale where
  binary := Nat.pow 2 (binaryExponent - 2).toNat * Nat.pow 10 (-decimalExponent).toNat
  decimal := Nat.pow 2 (2 - binaryExponent).toNat * Nat.pow 10 decimalExponent.toNat

/-- Whether a decimal number rounds to the binary one. The ends of the interval
count exactly for even significands. -/
private def readsBack (value : Binary) (scale : Scale) (candidate : Nat) : Bool :=
  let below := 4 * value.significand - (if value.narrowBelow then 1 else 2)
  let above := 4 * value.significand + 2
  let scaled := candidate * scale.decimal
  if value.significand % 2 = 0 then
    below * scale.binary ≤ scaled && scaled ≤ above * scale.binary
  else
    below * scale.binary < scaled && scaled < above * scale.binary

/-- The exponent of the leading decimal digit. -/
private def leadingExponent (value : Binary) : Int :=
  let scale := scaleOf value.exponent (-400)
  let scaled := 4 * value.significand * scale.binary / scale.decimal
  (Nat.toDigits 10 scaled).length - 401

/-- The nearest decimal number with a given last place that reads back, if one
does. Of two equally near numbers it is the even one. -/
private def nearest? (value : Binary) (exponent : Int) : Option Number :=
  let scale := scaleOf value.exponent exponent
  let exact := 4 * value.significand * scale.binary
  let low := exact / scale.decimal
  let high := low + 1
  let lowFits := readsBack value scale low
  let highFits := readsBack value scale high
  let toLow := exact - low * scale.decimal
  let toHigh := high * scale.decimal - exact
  if lowFits && highFits then
    if toLow < toHigh || (toLow = toHigh && low % 2 = 0) then some ⟨low, exponent⟩
    else some ⟨high, exponent⟩
  else if lowFits then some ⟨low, exponent⟩
  else if highFits then some ⟨high, exponent⟩
  else none

/-- The decimal number of fewest digits that reads back as a given binary one.
Seventeen digits always suffice. -/
def shortest (value : Binary) : Number :=
  let leading := leadingExponent value
  let found := (List.range 17).findSome? fun (extra : Nat) =>
    nearest? value (leading - extra)
  found.getD ⟨0, 0⟩

/-! ## Layout -/

/-- How decimal numbers are laid out: the exponents of the leading digit that are
written positionally. Any other exponent is written after the letter e, with a
sign. -/
structure Layout where
  leastPositional : Int
  greatestPositional : Int

/-- The digits of a number without trailing zeros, and the exponent of the
leading one. -/
def significantDigits (number : Number) : List Char × Int :=
  let digits := Nat.toDigits 10 number.digits
  let significant := (digits.reverse.dropWhile (· == '0')).reverse
  (significant, number.exponent + digits.length - 1)

/-- The text of a positive decimal number. A positional text has at least one
digit on each side of the point. -/
def Layout.render (style : Layout) (number : Number) : String :=
  let (digits, leading) := significantDigits number
  if style.leastPositional ≤ leading ∧ leading ≤ style.greatestPositional then
    if leading < 0 then
      "0." ++ String.ofList (List.replicate (-leading - 1).toNat '0' ++ digits)
    else
      let places := leading.toNat + 1
      let whole := digits.take places ++ List.replicate (places - digits.length) '0'
      let fraction := digits.drop places
      String.ofList whole ++ "."
        ++ (if fraction.isEmpty then "0" else String.ofList fraction)
  else
    let head := String.ofList (digits.take 1)
    let tail := digits.drop 1
    head ++ (if tail.isEmpty then "" else "." ++ String.ofList tail)
      ++ "e" ++ (if leading < 0 then "-" else "+") ++ toString leading.natAbs

/-- The text of a finite 64-bit floating-point number. -/
def Layout.renderBits (style : Layout) (bits : UInt64) : String :=
  let sign := if bits.toNat / Nat.pow 2 63 = 1 then "-" else ""
  if bits.toNat % Nat.pow 2 63 = 0 then sign ++ "0.0"
  else sign ++ style.render (shortest (Binary.ofBits bits))

end RuleSlicing.Decimal
