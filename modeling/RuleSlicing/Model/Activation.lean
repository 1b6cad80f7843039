import RuleSlicing.Logic.Constraint
import RuleSlicing.Logic.TruthTable
import RuleSlicing.Model.Basic

/-!
# What holds in a slice

A feature or rule is active in a slice when each of its properties shares a
value with what the slice fixes. The active rules, together with the negations
of all variables whose features are not active, are the formulas of the slice.
-/

set_option autoImplicit false

namespace RuleSlicing

/-- The features and rules that are active in a slice, in the order of the model. -/
structure Activation where
  features : List Feature
  rules : List Rule

namespace Activation

/-- The numbers of the active features and of the active rules. Slices with one
key have the same features and rules active. -/
def key (activation : Activation) : List Nat × List Nat :=
  (activation.features.map (·.id), activation.rules.map (·.id))

def codes (activation : Activation) : SortedSet String :=
  .ofList (activation.features.map (·.code))

def ruleVariables (activation : Activation) : SortedSet String :=
  Formula.varsOfAll (activation.rules.map (·.formula))

/-- The negations of the rule variables whose features are not active. -/
def exclusions (activation : Activation) : List Formula :=
  let codes := activation.codes
  (activation.ruleVariables.filter fun name => !codes.contains name).toList.map fun name =>
    .not (.var name)

end Activation

def Model.activation (model : Model) (slice : Slice) : Activation where
  features := model.features.filter fun feature => feature.properties.all slice.admits
  rules := model.rules.filter fun rule => rule.properties.all slice.admits

/-- The formulas of a slice, and the codes that constraints may name. -/
structure Theory where
  codes : SortedSet String
  formulas : List Formula

/-- The formulas of what is active: the rules, then the exclusions. -/
def Activation.theory (activation : Activation) : Theory where
  codes := activation.codes
  formulas := activation.rules.map (·.formula) ++ activation.exclusions

inductive InterpretationFault where
  | malformed (fault : ConstraintFault)
  | unknownFeature (name : String)
deriving DecidableEq

def InterpretationFault.message : InterpretationFault → String
  | .malformed fault => fault.message
  | .unknownFeature name => "unknown feature '" ++ name ++ "'"

namespace Theory

def constraint (theory : Theory) (text : String) :
    Except InterpretationFault Formula := do
  let literals ← (Constraint.parse text).mapError .malformed
  match literals.find? fun literal => !theory.codes.contains literal.name with
  | some literal => .error (.unknownFeature literal.name)
  | none => .ok (Constraint.toFormula literals)

/-- The formula of a constraint, or the error of a set of slices. -/
def interpret (theory : Theory) (text : String) : Except AnalysisError Formula :=
  (theory.constraint text).mapError fun fault => .constraint text fault.message

end Theory

end RuleSlicing
