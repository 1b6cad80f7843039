import RuleSlicing.Error
import RuleSlicing.Model.Document
import RuleSlicing.Space.Basic
import RuleSlicing.Slice.Basic
import RuleSlicing.Text.Blank

/-!
# Rule models

A rule model is a rule file that has been checked: every property denotes a
range, every variable of a rule is the code of a feature, and the space of the
model has been extended by all declared ranges. Features and rules are numbered
in the order of the file, features first.
-/

set_option autoImplicit false

namespace RuleSlicing

/-- A feature, or one of several declarations with one code. Features and rules
share one numbering, and fewer than `2 ^ 32` of them are meant to be numbered. -/
structure Feature where
  id : Nat
  code : String
  properties : List Property

/-- A rule with the name that messages use for it. Its number continues those of
the features, below the same `2 ^ 32`. -/
structure Rule where
  id : Nat
  label : String
  formula : Formula
  properties : List Property

structure Model where
  space : Space
  features : List Feature
  rules : List Rule

/-! ## Faults -/

inductive DeclarationFault where
  | property (fault : PropertyFault)
  | space (fault : SpaceFault)

def DeclarationFault.message : DeclarationFault → String
  | .property fault => fault.message
  | .space fault => fault.message

inductive ModelFault where
  | unreadable
  | space (fault : SpaceFault)
  | blankCode
  | feature (code : String) (fault : DeclarationFault)
  | unknownFeature (label name : String)
  | rule (label : String) (fault : DeclarationFault)

def ModelFault.message : ModelFault → String
  | .unreadable => "cannot read model"
  | .space fault => fault.message
  | .blankCode => "feature with an empty code"
  | .feature code fault => "feature '" ++ code ++ "': " ++ fault.message
  | .unknownFeature label name => label ++ ": unknown feature '" ++ name ++ "'"
  | .rule label fault => label ++ ": " ++ fault.message

def ModelFault.toError (fault : ModelFault) : AnalysisError := .model fault.message

/-! ## Compiling -/

namespace Model

def declareAll : List DimensionDocument → Space → Except SpaceFault Space
  | [], space => .ok space
  | dimension :: rest, space => do
      let extended ← space.declare dimension.name dimension.type
      declareAll rest extended

/-- Convert described properties one after another, and extend the space by each. -/
def addProperties : List PropertySpec → Space → Except DeclarationFault (List Property × Space)
  | [], space => .ok ([], space)
  | spec :: rest, space => do
      let property ← spec.toProperty.mapError .property
      let extended ← (space.add property).mapError .space
      let (properties, final) ← addProperties rest extended
      return (property :: properties, final)

/-- Compile the features of a rule file, the first of which gets the given number. -/
def addFeatures (id : Nat) :
    List FeatureDocument → Space → Except ModelFault (List Feature × Space)
  | [], space => .ok ([], space)
  | document :: rest, space =>
      if Text.isBlankText document.code then .error .blankCode
      else do
        let (properties, extended) ←
          (addProperties document.properties space).mapError (.feature document.code)
        let (features, final) ← addFeatures (id + 1) rest extended
        return (⟨id, document.code, properties⟩ :: features, final)

/-- The name of a rule in messages: its id, else its description, else its
position in the file. -/
def labelOf (position : Nat) (document : RuleDocument) : String :=
  (document.id <|> document.description).getD ("rule " ++ toString position)

/-- Compile the rules of a rule file over the given codes. The first rule gets the
given number and position. -/
def addRules (codes : List String) (id position : Nat) :
    List RuleDocument → Space → Except ModelFault (List Rule × Space)
  | [], space => .ok ([], space)
  | document :: rest, space =>
      let label := labelOf position document
      match document.formula.vars.toList.find? fun name => !codes.contains name with
      | some unknown => .error (.unknownFeature label unknown)
      | none => do
          let (properties, extended) ←
            (addProperties document.properties space).mapError (.rule label)
          let (rules, final) ← addRules codes (id + 1) (position + 1) rest extended
          return (⟨id, label, document.formula, properties⟩ :: rules, final)

def compile (document : ModelDocument) : Except ModelFault Model := do
  let declared ← (declareAll document.dimensions .empty).mapError .space
  let (features, extended) ← addFeatures 1 document.features declared
  let codes := features.map (·.code)
  let (rules, space) ← addRules codes (features.length + 1) 1 document.rules extended
  return ⟨space, features, rules⟩

def ofWritten (written : Json.Written) : Except ModelFault Model :=
  match ModelDocument.ofWritten? written with
  | some document => compile document
  | none => .error .unreadable

def read (text : String) : Except ModelFault Model :=
  match Json.Written.read? text with
  | some written => ofWritten written
  | none => .error .unreadable

end Model

end RuleSlicing
