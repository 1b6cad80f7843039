import RuleSlicing.Json.Basic
import RuleSlicing.SortedMap
import RuleSlicing.Decimal.Literal

/-!
# JSON as written

A JSON text as far as its grammar determines it: literals are not evaluated,
members may repeat a key, and a string may hold an escape that denotes no
character. `Written.value?` evaluates such a tree. What is not evaluated, such
as a member that nobody asks for, may hold any number and any string.
-/

set_option autoImplicit false

namespace RuleSlicing.Json

/-- A JSON text before its literals are evaluated. A string without a value is
one whose surrogate escapes do not form pairs. -/
inductive Written where
  | null
  | bool (value : Bool)
  | number (literal : Decimal.Literal)
  | string (text : Option String)
  | array (items : List Written)
  | object (members : List (Option String × Written))
deriving Inhabited

/-- The value of a number: an integer if its literal is one of 64 bits with or
without sign, and a finite floating-point number otherwise. -/
def number? (literal : Decimal.Literal) : Option Json :=
  match literal.toInt? with
  | some value =>
      if -9223372036854775808 ≤ value ∧ value < wordCount then some (.integer value)
      else literal.toFloat?.map .float
  | none => literal.toFloat?.map .float

namespace Written

mutual

/-- The value of a written text whose arrays and objects nest at most `depth`
deep. The members of an object come in the order of their keys, and of several
members with one key the last counts. -/
def value? : Nat → Written → Option Json
  | _, .null => some .null
  | _, .bool value => some (.bool value)
  | _, .number literal => number? literal
  | _, .string text => text.map .string
  | 0, .array _ => none
  | depth + 1, .array items => (values? depth items).map .array
  | 0, .object _ => none
  | depth + 1, .object written =>
      (members? depth written).map fun members =>
        .object (SortedMap.ofList members).entries

def values? : Nat → List Written → Option (List Json)
  | _, [] => some []
  | depth, item :: rest => do
      let value ← value? depth item
      let values ← values? depth rest
      return value :: values

/-- The members of an object with their values. -/
def members? : Nat → List (Option String × Written) → Option (List (String × Json))
  | _, [] => some []
  | depth, (key, item) :: rest => do
      let name ← key
      let value ← value? depth item
      let members ← members? depth rest
      return (name, value) :: members

end

end Written

end RuleSlicing.Json
