/-!
# Decimal digits

Reading and writing of decimal numerals. A numeral of fixed width keeps its
leading zeros, and reading it back gives the number modulo that width. Only
the ten ASCII digits count as digits.
-/

set_option autoImplicit false

namespace RuleSlicing.Text

def digit? (char : Char) : Option Nat :=
  if '0' ≤ char ∧ char ≤ '9' then some (char.toNat - '0'.toNat) else none

theorem digit?_digitChar : ∀ value < 10, digit? (Nat.digitChar value) = some value := by
  decide

/-- Continue a number with the digits of a text, which must hold digits only. -/
def appendDigits (start : Nat) : List Char → Option Nat
  | [] => some start
  | char :: rest =>
      match digit? char with
      | some value => appendDigits (start * 10 + value) rest
      | none => none

theorem appendDigits_append (start : Nat) (left right : List Char) :
    appendDigits start (left ++ right) =
      (appendDigits start left).bind fun middle => appendDigits middle right := by
  induction left generalizing start with
  | nil => rfl
  | cons char rest ih =>
      simp only [List.cons_append, appendDigits]
      cases digit? char with
      | none => rfl
      | some value => exact ih _

/-- The number that a non-empty text of digits denotes. -/
def readDigits (text : List Char) : Option Nat :=
  if text.isEmpty then none else appendDigits 0 text

/-- The last `width` digits of a number, with leading zeros. -/
def padded (width value : Nat) : List Char :=
  match width with
  | 0 => []
  | shorter + 1 => padded shorter (value / 10) ++ [Nat.digitChar (value % 10)]

@[simp] theorem length_padded (width value : Nat) : (padded width value).length = width := by
  induction width generalizing value with
  | zero => rfl
  | succ shorter ih => simp [padded, ih]

/-- Reading digits of fixed width gives the number, as far as the width holds it. -/
theorem appendDigits_padded (width value start : Nat) :
    appendDigits start (padded width value) =
      some (start * Nat.pow 10 width + value % Nat.pow 10 width) := by
  induction width generalizing value with
  | zero => simp [padded, appendDigits, Nat.mod_one]
  | succ shorter ih =>
      have last : digit? (Nat.digitChar (value % 10)) = some (value % 10) :=
        digit?_digitChar _ (Nat.mod_lt _ (by decide))
      rw [padded, appendDigits_append, ih]
      simp only [Option.bind_some, appendDigits, last, Option.some.injEq]
      have power : Nat.pow 10 (shorter + 1) = 10 * Nat.pow 10 shorter := Nat.mul_comm _ _
      rw [power, Nat.mod_mul, Nat.add_mul, Nat.mul_assoc, Nat.mul_comm (Nat.pow 10 shorter) 10]
      omega

/-- The number that an unsigned text denotes, if it is below a limit. One plus
sign may stand in front of the digits. -/
def readBelow (limit : Nat) (text : String) : Option Nat :=
  let digits := match text.toList with
    | '+' :: rest => rest
    | chars => chars
  (readDigits digits).filter (· < limit)

end RuleSlicing.Text
