import RuleSlicing.Analysis.Computation
import RuleSlicing.Logic.Conflict

/-!
# Consistency

Rules are consistent in a slice if some choice of features satisfies all of them
together with the constraints of the request. The result carries such a choice,
or, if all details are asked for, the rules of a minimal conflict.
-/

set_option autoImplicit false

namespace RuleSlicing

/-- Whether the rules of a slice are consistent, and what shows it. -/
structure ConsistencyResult where
  consistent : Bool
  /-- The features of a choice that satisfies the rules. -/
  example? : Option (List String)
  /-- The rules of a minimal conflict. -/
  explanation? : Option (List String)
deriving DecidableEq

namespace ConsistencyResult

/-- An assignment shows consistency by the features that it makes true. -/
def ofAssignment (assignment : Assignment) : ConsistencyResult :=
  ⟨true, some assignment.positive, none⟩

/-- Nothing satisfies the rules. -/
def inconsistent (explanation? : Option (List String)) : ConsistencyResult :=
  ⟨false, none, explanation?⟩

/-- Combine two results. An inconsistent one decides where both have to hold, and
a consistent one where one is enough; the earlier one is kept if both decide. -/
def merge : Discipline → ConsistencyResult → ConsistencyResult → ConsistencyResult
  | .all, existing, new => if existing.consistent then new else existing
  | _, existing, new => if existing.consistent then existing else new

end ConsistencyResult

structure ConsistencyDetail where
  example? : Option (List String)
  explanation? : Option (List String)
deriving DecidableEq

/-- The JSON form of a detail; what there is not is left out. -/
def ConsistencyDetail.toJson (detail : ConsistencyDetail) : Json :=
  .objectOf [
    detail.example?.map fun codes => ("example", .strings codes),
    detail.explanation?.map fun labels => ("explanation", .strings labels)]

namespace Consistency

/-- The labels of a minimal list of active rules that are in conflict under some
constraints. -/
def explain (task : SliceTask) (constraints : List Formula) :
    Except AnalysisError (List String) := do
  let fixed := task.set.activation.exclusions ++ constraints
  let inConflict (rules : List Rule) : Except AnalysisError Bool :=
    (task.solve (fixed ++ rules.map (·.formula))).map (·.isNone)
  let conflict ← Conflict.shrink inConflict task.rules
  return conflict.map (·.label)

/-- The result of a set without a solution under some constraints. -/
def inconsistent (task : SliceTask) (constraints : List Formula) :
    Except AnalysisError ConsistencyResult :=
  if task.request.allDetails then
    (explain task constraints).map fun labels => .inconsistent (some labels)
  else .ok (.inconsistent none)

/-- Whether the rules of a set are consistent, first by themselves, then together
with the constraints of the request. -/
def compute (task : SliceTask) : Attempt ConsistencyResult :=
  let rules := task.theory.formulas
  match task.solve rules with
  | .error error => { outcome := .error error }
  | .ok none =>
      { outcome := inconsistent task []
        notices := .warning ("rule set for slice " ++ task.slice.render ++ " is inconsistent") }
  | .ok (some assignment) =>
      match task.constraints with
      | .error error => { outcome := .error error }
      | .ok [] => { outcome := .ok (.ofAssignment assignment) }
      | .ok constraints =>
          match task.solve (rules ++ constraints) with
          | .error error => { outcome := .error error }
          | .ok (some assignment) => { outcome := .ok (.ofAssignment assignment) }
          | .ok none =>
              { outcome := inconsistent task constraints
                notices := .warning ("rule set for slice " ++ task.slice.render
                  ++ " is inconsistent with the additional constraints") }

def detail? (result : ConsistencyResult) : Option ConsistencyDetail :=
  if result.example?.isNone && result.explanation?.isNone then none
  else some ⟨result.example?, result.explanation?⟩

end Consistency

def consistency : SingleComputation ConsistencyResult Bool ConsistencyDetail where
  allows _ := true
  defaultDiscipline := .any
  compute := Consistency.compute
  merge := ConsistencyResult.merge
  fallback := .inconsistent none
  main result := result.consistent
  detail? := Consistency.detail?

end RuleSlicing
