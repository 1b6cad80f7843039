import RuleSlicing.Property.Spec

/-!
# Properties

A property is a named range. Features and rules carry properties that restrict
where they hold, and slices carry one property for each dimension.
-/

set_option autoImplicit false

namespace RuleSlicing

structure Property where
  name : String
  range : PropertyRange
deriving DecidableEq

namespace Property

def type (property : Property) : PropertyType := property.range.type

def value? (property : Property) : Option PropertyValue := property.range.only?

def intersects (left right : Property) : Bool :=
  left.name = right.name && left.range.intersects right.range

/-- Properties are ordered by name first. -/
def order (left right : Property) : Ordering :=
  (LinearOrdered.order left.name right.name).then (left.range.order right.range)

def render (property : Property) : String := property.name ++ " " ++ property.range.render

end Property

/-! ## Properties in documents -/

structure PropertySpec where
  name : String
  type : PropertyType
  range : RangeSpec

structure PropertyFault where
  property : String
  fault : RangeFault

/-- The text of a fault names the property first. -/
def PropertyFault.message (fault : PropertyFault) : String :=
  "property '" ++ fault.property ++ "': " ++ fault.fault.message

namespace PropertySpec

def toProperty (spec : PropertySpec) : Except PropertyFault Property :=
  match spec.range.toRange spec.type with
  | .ok range => .ok ⟨spec.name, range⟩
  | .error fault => .error ⟨spec.name, fault⟩

def toJson (spec : PropertySpec) : Json :=
  .object [
    ("name", .string spec.name),
    ("type", .string spec.type.render),
    ("range", spec.range.toJson)]

def decode : Json.Decoder PropertySpec := fun depth written => do
  let fields ← Json.Fields.of? ["name", "type", "range"] depth written
  let name ← fields.required? "name" .text
  let type ← fields.required? "type" PropertyType.decode
  let range ← fields.withDefault? "range" ⟨none, none, none⟩ RangeSpec.decode
  return ⟨name, type, range⟩

end PropertySpec

def Property.toSpec (property : Property) : PropertySpec :=
  ⟨property.name, property.type, property.range.toSpec⟩

end RuleSlicing
