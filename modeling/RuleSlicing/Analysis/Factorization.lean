import RuleSlicing.Analysis.Limits
import RuleSlicing.Request.Resolution

/-!
# The slices of a request

The slices of a request combine the relevant values of all dimensions in every
possible way. They are built one dimension after another, and the number of
combinations is checked before they are made.
-/

set_option autoImplicit false

namespace RuleSlicing

namespace Factorization

/-- The relevant values of a dimension and their discipline. A dimension without a
selector contributes all its values. -/
def choices (selectors : List Selector) (dimension : Dimension) :
    List PropertyValue × Discipline :=
  match selectors.find? (·.property.name = dimension.name) with
  | some selector =>
      (dimension.relevantValuesIn selector.property.range, selector.discipline)
  | none => (dimension.relevantValues, .any)

def extend (slices : List Slice) (name : String) (values : List PropertyValue)
    (discipline : Discipline) : List Slice :=
  slices.flatMap fun slice =>
    values.map fun value => slice.fix ⟨name, .single value⟩ discipline

/-- A number of combinations as far as machine words can count. -/
def saturated (count : Nat) : Nat := Nat.min count (wordCount - 1)

/-- Extend slices by one dimension after another. Dimensions without declared
values are left out. -/
def extendAll (selectors : List Selector) (maxSlices : Nat) :
    List Dimension → List Slice → Except AnalysisError (List Slice)
  | [], slices => .ok slices
  | dimension :: rest, slices =>
      if dimension.isUnused then extendAll selectors maxSlices rest slices
      else
        let (values, discipline) := choices selectors dimension
        let count := saturated (slices.length * values.length)
        if values.isEmpty then
          .error (.selection (SelectionFault.noRelevantValue dimension.name).message)
        else if maxSlices < count then .error (.tooManySlices count maxSlices)
        else
          extendAll selectors maxSlices rest (extend slices dimension.name values discipline)

end Factorization

/-- The slices that selectors make of some dimensions. Without dimensions there is
one slice, which fixes nothing. -/
def Slice.all (selectors : List Selector) (dimensions : List Dimension) (maxSlices : Nat) :
    Except AnalysisError (List Slice) :=
  Factorization.extendAll selectors maxSlices dimensions [.empty]

end RuleSlicing
