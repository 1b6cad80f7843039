import RuleSlicing.Error
import RuleSlicing.Json.Reader
import RuleSlicing.Property.Spec
import RuleSlicing.Slice.Discipline

/-!
# Requests

A request names a rule file, selects ranges and disciplines for some dimensions,
and adds constraints on the features. Everything that is left out of a request
has a default.
-/

set_option autoImplicit false

namespace RuleSlicing

structure DimensionSelection where
  name : String
  type : PropertyType
  range : RangeSpec
  discipline : Option Discipline

structure Request where
  ruleFileId : String
  selections : List DimensionSelection
  constraints : List String
  allDetails : Bool

/-! ## Wire form -/

open Json (Decoder Fields)

namespace DimensionSelection

/-- The JSON form of a selection; a discipline that is not given is left out. -/
def toJson (selection : DimensionSelection) : Json :=
  .objectOf [
    some ("property", .string selection.name),
    some ("propertyType", .string selection.type.render),
    some ("range", selection.range.toJson),
    selection.discipline.map fun discipline => ("sliceType", .string discipline.render)]

def decode : Decoder DimensionSelection := fun depth written => do
  let fields ← Fields.of? ["property", "propertyType", "range", "sliceType"] depth written
  let name ← fields.required? "property" .text
  let type ← fields.required? "propertyType" PropertyType.decode
  let range ← fields.withDefault? "range" ⟨none, none, none⟩ RangeSpec.decode
  let discipline ← fields.optional? "sliceType" Discipline.decode
  return ⟨name, type, range, discipline⟩

end DimensionSelection

namespace Request

/-- The JSON form of a request, with all defaults filled in. -/
def toJson (request : Request) : Json :=
  .object [
    ("ruleFileId", .string request.ruleFileId),
    ("sliceSelection", .array (request.selections.map (·.toJson))),
    ("additionalConstraints", .strings request.constraints),
    ("computeAllDetails", .bool request.allDetails)]

def decode : Decoder Request := fun depth written => do
  let fields ← Fields.of?
    ["ruleFileId", "sliceSelection", "additionalConstraints", "computeAllDetails"] depth written
  let ruleFileId ← fields.withDefault? "ruleFileId" "" .text
  let selections ← fields.withDefault? "sliceSelection" [] (.list DimensionSelection.decode)
  let constraints ← fields.withDefault? "additionalConstraints" [] (.list .text)
  let allDetails ← fields.withDefault? "computeAllDetails" false .bool
  return ⟨ruleFileId, selections, constraints, allDetails⟩

end Request

/-! ## Faults -/

inductive SelectionFault where
  | unknownDimension (name : String)
  | selectedTwice (name : String)
  | typeMismatch (name : String) (declared selected : PropertyType)
  | disciplineNotAllowed (name : String) (discipline : Discipline)
  | valuesAndBounds (name : String)
  | range (name : String) (fault : RangeFault)
  | noRelevantValue (name : String)

def SelectionFault.message : SelectionFault → String
  | .unknownDimension name => "unknown slicing property '" ++ name ++ "'"
  | .selectedTwice name => "property '" ++ name ++ "' is selected more than once"
  | .typeMismatch name declared selected =>
      "property '" ++ name ++ "' is of type " ++ declared.render
        ++ " but was selected as " ++ selected.render
  | .disciplineNotAllowed name discipline =>
      "slice type " ++ discipline.render ++ " is not allowed for property '" ++ name
        ++ "' in this computation"
  | .valuesAndBounds name =>
      "property '" ++ name ++ "' lists values and interval bounds at the same time"
  | .range name fault => "property '" ++ name ++ "': " ++ fault.message
  | .noRelevantValue name => "selection on '" ++ name ++ "' leaves no relevant value"

inductive RequestFault where
  | unreadable
  | missingRuleFileId
  | selection (fault : SelectionFault)

def RequestFault.toError : RequestFault → AnalysisError
  | .unreadable => .request "cannot read request"
  | .missingRuleFileId => .request "missing rule file id"
  | .selection fault => .selection fault.message

namespace Request

def ofWritten (written : Json.Written) : Except RequestFault Request :=
  match decode Json.greatestNesting written with
  | some request => .ok request
  | none => .error .unreadable

def read (text : String) : Except RequestFault Request :=
  match Json.Written.read? text with
  | some written => ofWritten written
  | none => .error .unreadable

end Request

end RuleSlicing
