import RuleSlicing.Json.Reader
import RuleSlicing.Logic.Formula
import RuleSlicing.Property.Basic

/-!
# Rule documents

What a rule file declares: the slicing properties, the features with their
codes, and the rules with their formulas. Features and rules carry descriptions
of the properties that restrict where they hold.
-/

set_option autoImplicit false

namespace RuleSlicing

structure DimensionDocument where
  name : String
  type : PropertyType

structure FeatureDocument where
  code : String
  properties : List PropertySpec

structure RuleDocument where
  id : Option String
  description : Option String
  formula : Formula
  properties : List PropertySpec

structure ModelDocument where
  dimensions : List DimensionDocument
  features : List FeatureDocument
  rules : List RuleDocument

open Json (Decoder Fields)

def DimensionDocument.decode : Decoder DimensionDocument := fun depth written => do
  let fields ← Fields.of? ["name", "type"] depth written
  let name ← fields.required? "name" .text
  let type ← fields.required? "type" PropertyType.decode
  return ⟨name, type⟩

def FeatureDocument.decode : Decoder FeatureDocument := fun depth written => do
  let fields ← Fields.of? ["code", "properties"] depth written
  let code ← fields.required? "code" .text
  let properties ← fields.withDefault? "properties" [] (.list PropertySpec.decode)
  return ⟨code, properties⟩

def RuleDocument.decode : Decoder RuleDocument := fun depth written => do
  let fields ← Fields.of? ["id", "description", "formula", "properties"] depth written
  let id ← fields.optional? "id" .text
  let description ← fields.optional? "description" .text
  let formula ← fields.required? "formula" Formula.decode
  let properties ← fields.withDefault? "properties" [] (.list PropertySpec.decode)
  return ⟨id, description, formula, properties⟩

def ModelDocument.decode : Decoder ModelDocument := fun depth written => do
  let fields ← Fields.of? ["slicingProperties", "features", "rules"] depth written
  let dimensions ← fields.withDefault? "slicingProperties" [] (.list DimensionDocument.decode)
  let features ← fields.withDefault? "features" [] (.list FeatureDocument.decode)
  let rules ← fields.withDefault? "rules" [] (.list RuleDocument.decode)
  return ⟨dimensions, features, rules⟩

/-- The rule file of a written document. -/
def ModelDocument.ofWritten? (written : Json.Written) : Option ModelDocument :=
  ModelDocument.decode Json.greatestNesting written

end RuleSlicing
