import RuleSlicing.Calendar
import RuleSlicing.Json.Decode

/-!
# Property values

A property has one of four types: truth values, whole numbers, the names of an
enumeration, or dates. A value carries its type. Whole numbers and dates have
neighbours and can be given by intervals; truth values and names cannot.
-/

set_option autoImplicit false

namespace RuleSlicing

inductive PropertyType where
  | boolean
  | integer
  | enumeration
  | date
deriving DecidableEq

namespace PropertyType

def render : PropertyType → String
  | .boolean => "BOOLEAN"
  | .integer => "INT"
  | .enumeration => "ENUM"
  | .date => "DATE"

def ofName? : String → Option PropertyType
  | "BOOLEAN" => some .boolean
  | "INT" => some .integer
  | "ENUM" => some .enumeration
  | "DATE" => some .date
  | _ => none

theorem ofName?_render (type : PropertyType) : ofName? type.render = some type := by
  cases type <;> rfl

def rank : PropertyType → Nat
  | .boolean => 0
  | .integer => 1
  | .enumeration => 2
  | .date => 3

/-- Whether ranges of a type may be given by their ends. -/
def supportsIntervals : PropertyType → Bool
  | .integer => true
  | .date => true
  | _ => false

def decode : Json.Decoder PropertyType := Json.Decoder.name ofName?

end PropertyType

inductive PropertyValue where
  | boolean (value : Bool)
  | integer (value : Whole)
  | enumeration (value : String)
  | date (value : Date)
deriving DecidableEq

namespace PropertyValue

def type : PropertyValue → PropertyType
  | .boolean _ => .boolean
  | .integer _ => .integer
  | .enumeration _ => .enumeration
  | .date _ => .date

def succ? : PropertyValue → Option PropertyValue
  | .integer value => value.succ?.map .integer
  | .date value => value.succ?.map .date
  | _ => none

def pred? : PropertyValue → Option PropertyValue
  | .integer value => value.pred?.map .integer
  | .date value => value.pred?.map .date
  | _ => none

def renderBool (value : Bool) : String := if value then "true" else "false"

def renderWhole (value : Whole) : String := toString value.val

/-- A name in quotes. Nothing in it is escaped. -/
def renderQuoted (value : String) : String := "\"" ++ value ++ "\""

def render : PropertyValue → String
  | .boolean value => renderBool value
  | .integer value => renderWhole value
  | .enumeration value => renderQuoted value
  | .date value => value.render

/-- The JSON form of a value. A date is its text. -/
def toJson : PropertyValue → Json
  | .boolean value => .bool value
  | .integer value => .integer value.val
  | .enumeration value => .string value
  | .date value => .string value.render

def ofJson? : PropertyType → Json → Option PropertyValue
  | .boolean, .bool value => some (.boolean value)
  | .integer, .integer value => (Bounded.ofInt? _ _ value).map .integer
  | .enumeration, .string text => some (.enumeration text)
  | .date, .string text => (Date.parse? text).map .date
  | _, _ => none

end PropertyValue

end RuleSlicing
