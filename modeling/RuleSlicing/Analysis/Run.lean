import RuleSlicing.Analysis.Factorization
import RuleSlicing.Analysis.Merging

/-!
# Running a computation

All computations share one course: the selection of the request is resolved, the
slices are made and grouped into sets, each set is analysed once, and the result
of a set counts for each of its slices. A failure of one set is recorded, and a
fallback takes its place; a fatal error ends the run.
-/

set_option autoImplicit false

namespace RuleSlicing

structure Run (Result : Type) where
  /-- What the request selects of each dimension. -/
  selectors : List Selector
  /-- The sets of slices, in the order in which they were analysed. -/
  sets : List SliceSet
  /-- The combined result of each combination of values that is reported by itself. -/
  keys : List (Slice × Result)
  notices : Notices

namespace Run

variable {Result : Type}

def sliceCount (run : Run Result) : Nat := (run.sets.flatMap (·.slices)).length

end Run

namespace Computation

variable {Result : Type}

/-- Analyse a set of slices. What is not fatal leaves a message and the fallback. -/
def attempt (computation : Computation Result) (task : SliceTask) :
    Except AnalysisError (Result × Notices) :=
  let attempt := computation.compute task
  match attempt.outcome with
  | .ok result => .ok (result, attempt.notices)
  | .error error =>
      if error.isFatal then .error error
      else
        let message := "slice " ++ task.slice.render ++ ": " ++ error.message
        .ok (computation.fallback, attempt.notices ++ .error message)

/-- Analyse sets of slices one after another, up to the first fatal error. -/
def attemptAll (computation : Computation Result) (request : Request) (limits : Limits) :
    List SliceSet → Except AnalysisError (List (SliceSet × Result) × Notices)
  | [] => .ok ([], .none)
  | set :: rest => do
      let (result, notices) ← computation.attempt ⟨request, set, limits⟩
      let (results, later) ← computation.attemptAll request limits rest
      return ((set, result) :: results, notices ++ later)

def fanOut (results : List (SliceSet × Result)) : List (Slice × Result) :=
  results.flatMap fun (set, result) => set.slices.map fun slice => (slice, result)

/-- A message for each dimension for which nothing has been declared. -/
def unusedNotices (space : Space) : Notices where
  infos := (space.dimensions.filter (·.isUnused)).map fun dimension =>
    "slicing property '" ++ dimension.name ++ "' is not used by any feature or rule"

def run (computation : Computation Result) (request : Request) (model : Model)
    (limits : Limits) : Except AnalysisError (Run Result) := do
  let selectors ←
    (request.resolve model.space computation.allows computation.defaultDiscipline).mapError
      RequestFault.toError
  let slices ← Slice.all selectors model.space.dimensions limits.maxSlices
  let sets := SliceSet.group model slices
  let (results, notices) ← computation.attemptAll request limits sets
  return {
    selectors
    sets
    keys := computation.mergeBySplit (fanOut results)
    notices := unusedNotices model.space ++ notices }

end Computation

end RuleSlicing
