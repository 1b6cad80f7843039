import RuleSlicing.Analysis.Computation

/-!
# Buildability

A feature of a slice is mandatory if every choice of features that satisfies the
rules and the constraints of the request has it, forbidden if none has it, and
optional otherwise. A feature that is not active is forbidden.
-/

set_option autoImplicit false

namespace RuleSlicing

/-- The part that a feature plays in the choices that satisfy the rules. -/
inductive FeatureStatus where
  | mandatory
  | optional
  | forbidden
deriving DecidableEq

namespace FeatureStatus

def render : FeatureStatus → String
  | .mandatory => "MANDATORY"
  | .optional => "OPTIONAL"
  | .forbidden => "FORBIDDEN"

def ofName? : String → Option FeatureStatus
  | "MANDATORY" => some .mandatory
  | "OPTIONAL" => some .optional
  | "FORBIDDEN" => some .forbidden
  | _ => none

/-- Equal statuses stay; different ones make a feature optional. -/
def combine (first second : FeatureStatus) : FeatureStatus :=
  if first = second then first else .optional

/-- The status of a feature that can be present or absent in a choice. -/
def ofPossible (present absent : Bool) : FeatureStatus :=
  match present, absent with
  | true, true => .optional
  | true, false => .mandatory
  | false, _ => .forbidden

end FeatureStatus

abbrev BuildabilityResult : Type := SortedMap String FeatureStatus

namespace Buildability

def statusOf (result : BuildabilityResult) (code : String) : FeatureStatus :=
  (result.get? code).getD .forbidden

/-- Combine the statuses of all features that occur in one of two results. -/
def merge (existing new : BuildabilityResult) : BuildabilityResult :=
  .tabulate (existing.keys.union new.keys) fun code =>
    (statusOf existing code).combine (statusOf new code)

def allWith (status : FeatureStatus) (codes : SortedSet String) : BuildabilityResult :=
  .tabulate codes fun _ => status

def featureStatus (task : SliceTask) (formulas : List Formula) (code : String) :
    Except AnalysisError FeatureStatus := do
  let present ← task.solveUnder formulas ⟨code, true⟩
  let absent ← task.solveUnder formulas ⟨code, false⟩
  return .ofPossible present.isSome absent.isSome

/-- The status of each active feature under formulas that have a solution. -/
def featureStatuses (task : SliceTask) (formulas : List Formula) :
    Except AnalysisError BuildabilityResult := do
  let statuses ← task.theory.codes.toList.mapM fun code => do
    let status ← featureStatus task formulas code
    return (code, status)
  return .ofList statuses

/-- The formulas of a set together with the constraints of the request, and whether
they have a solution. -/
def satisfiable (task : SliceTask) : Except AnalysisError (List Formula × Bool) := do
  let constraints ← task.constraints
  let formulas := task.theory.formulas ++ constraints
  let solution ← task.solve formulas
  return (formulas, solution.isSome)

/-- The status of each active feature. All are forbidden if nothing satisfies the
rules. -/
def compute (task : SliceTask) : Attempt BuildabilityResult :=
  match satisfiable task with
  | .error error => { outcome := .error error }
  | .ok (formulas, true) => { outcome := featureStatuses task formulas }
  | .ok (_, false) =>
      { outcome := .ok (allWith .forbidden task.theory.codes)
        notices := .warning ("rule set for slice " ++ task.slice.render
          ++ " is inconsistent, all features are forbidden") }

end Buildability

def buildability : ListComputation BuildabilityResult String FeatureStatus where
  allows discipline := discipline ≠ .any
  defaultDiscipline := .all
  compute := Buildability.compute
  merge _ := Buildability.merge
  fallback := ∅
  elements result := result.keys
  main? code result := result.get? code
  absent := .forbidden

end RuleSlicing
