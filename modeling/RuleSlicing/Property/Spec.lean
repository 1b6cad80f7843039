import RuleSlicing.Json.Printer
import RuleSlicing.Property.Range

/-!
# Ranges in documents

A document gives a range by its values or by its two ends. `RangeSpec.toRange`
reads such a description for a property type and says why it denotes no range;
`PropertyRange.toSpec` describes a range. The empty range is the empty list.
-/

set_option autoImplicit false

namespace RuleSlicing

structure RangeSpec where
  values : Option (List Json) := none
  min : Option Json := none
  max : Option Json := none
deriving Inhabited

inductive RangeFault where
  | valuesAndBounds
  | boundsUnsupported (type : PropertyType)
  | missingBound
  | unreadable (type : PropertyType) (given : Json)

def RangeFault.message : RangeFault → String
  | .valuesAndBounds => "a range cannot list values and interval bounds at the same time"
  | .boundsUnsupported type =>
      "interval bounds are not supported for " ++ type.render ++ " properties"
  | .missingBound => "an interval needs both 'min' and 'max'"
  | .unreadable type given =>
      "'" ++ given.compact ++ "' is not a valid " ++ type.render ++ " value"

/-- Read a JSON value as a value of a type. -/
def PropertyValue.ofJson (type : PropertyType) (given : Json) :
    Except RangeFault PropertyValue :=
  match PropertyValue.ofJson? type given with
  | some value => .ok value
  | none => .error (.unreadable type given)

namespace RangeSpec

def hasValues (spec : RangeSpec) : Bool := spec.values.any fun values => !values.isEmpty

def hasBounds (spec : RangeSpec) : Bool := spec.min.isSome || spec.max.isSome

/-- The range of a type that a description denotes. Without values and ends it is
the empty range. -/
def toRange (spec : RangeSpec) (type : PropertyType) : Except RangeFault PropertyRange :=
  if spec.hasValues && spec.hasBounds then .error .valuesAndBounds
  else if spec.hasBounds then
    if type.supportsIntervals then
      match spec.min, spec.max with
      | some min, some max => do
          let min ← PropertyValue.ofJson type min
          let max ← PropertyValue.ofJson type max
          return (PropertyRange.between? min max).getD (.empty type)
      | _, _ => .error .missingBound
    else .error (.boundsUnsupported type)
  else do
    let values ← (spec.values.getD []).mapM (PropertyValue.ofJson type)
    return .ofValues type values

/-- The JSON form of a description; what is not given is left out. -/
def toJson (spec : RangeSpec) : Json :=
  .objectOf [
    spec.values.map fun values => ("values", .array values),
    spec.min.map fun min => ("min", min),
    spec.max.map fun max => ("max", max)]

def decode : Json.Decoder RangeSpec := fun depth written => do
  let fields ← Json.Fields.of? ["values", "min", "max"] depth written
  let values ← fields.optional? "values" (.list .value)
  let min ← fields.optional? "min" .value
  let max ← fields.optional? "max" .value
  return ⟨values, min, max⟩

/-- The description of a range of one order, given the JSON form of its values. -/
def ofRange {Value : Type} [LinearOrdered Value] (toJson : Value → Json) :
    Range Value → RangeSpec
  | .empty => ⟨some [], none, none⟩
  | .list values _ => ⟨some (values.toList.map toJson), none, none⟩
  | .interval min max _ => ⟨none, some (toJson min), some (toJson max)⟩

end RangeSpec

def PropertyRange.toSpec : PropertyRange → RangeSpec
  | .boolean range => .ofRange (fun value => (PropertyValue.boolean value).toJson) range
  | .integer range => .ofRange (fun value => (PropertyValue.integer value).toJson) range
  | .enumeration range => .ofRange (fun value => (PropertyValue.enumeration value).toJson) range
  | .date range => .ofRange (fun value => (PropertyValue.date value).toJson) range

end RuleSlicing
