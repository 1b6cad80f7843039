import RuleSlicing.Request.Basic
import RuleSlicing.Slice.Selector
import RuleSlicing.Space.Basic
import RuleSlicing.Text.Blank

/-!
# Resolving selections

A request selects some dimensions, possibly in part. Resolving it against the
space of a model gives one selector for every dimension, in the order of their
declaration: unselected dimensions are taken whole, and an interval with one
end open reaches to the extreme declared value.
-/

set_option autoImplicit false

namespace RuleSlicing

namespace Resolution

/-- Check that every selection names a dimension and none is selected twice. -/
def checkNames (space : Space) (seen : List String) :
    List DimensionSelection → Except SelectionFault Unit
  | [] => .ok ()
  | selection :: rest =>
      if (space.find? selection.name).isNone then .error (.unknownDimension selection.name)
      else if seen.contains selection.name then .error (.selectedTwice selection.name)
      else checkNames space (selection.name :: seen) rest

/-- A description of an interval with its missing ends taken from the dimension. -/
def fillBounds (dimension : Dimension) (spec : RangeSpec) : RangeSpec where
  values := none
  min := spec.min <|> (dimension.domain.min?.map (·.toJson))
  max := spec.max <|> (dimension.domain.max?.map (·.toJson))

/-- The range that a description selects of a dimension. -/
def selectedRange (dimension : Dimension) (spec : RangeSpec) :
    Except SelectionFault PropertyRange :=
  if spec.hasValues && spec.hasBounds then .error (.valuesAndBounds dimension.name)
  else if !spec.hasValues && !spec.hasBounds then .ok dimension.domain.fullRange
  else
    let complete :=
      if spec.hasBounds && dimension.type.supportsIntervals then fillBounds dimension spec
      else spec
    (complete.toRange dimension.type).mapError (.range dimension.name)

def selector (allowed : Discipline → Bool) (default : Discipline) (dimension : Dimension)
    (selection : DimensionSelection) : Except SelectionFault Selector :=
  let discipline := selection.discipline.getD default
  if selection.type ≠ dimension.type then
    .error (.typeMismatch dimension.name dimension.type selection.type)
  else if !allowed discipline then
    .error (.disciplineNotAllowed dimension.name discipline)
  else do
    let range ← selectedRange dimension selection.range
    return ⟨⟨dimension.name, range⟩, discipline⟩

def unselected (default : Discipline) (dimension : Dimension) : Selector :=
  ⟨⟨dimension.name, dimension.domain.fullRange⟩, default⟩

end Resolution

open Resolution in
/-- The selectors that a request makes of the dimensions of a space, for an analysis
that allows some disciplines and has one for what is not selected. -/
def Request.resolve (request : Request) (space : Space) (allowed : Discipline → Bool)
    (default : Discipline) : Except RequestFault (List Selector) :=
  if Text.isBlankText request.ruleFileId then .error .missingRuleFileId
  else do
    (checkNames space [] request.selections).mapError .selection
    space.dimensions.mapM fun dimension =>
      match request.selections.find? (·.name = dimension.name) with
      | some selection => (selector allowed default dimension selection).mapError .selection
      | none => .ok (unselected default dimension)

end RuleSlicing
