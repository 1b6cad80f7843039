import RuleSlicing.Analysis.Computation

/-!
# Combining the results of slices

Slices with the same coordinates on all dimensions that are reported value by
value belong together. Of these, slices that agree on the dimensions where one
value is enough are combined first, as holding for every value; what they give
is combined then, as one value being enough.
-/

set_option autoImplicit false

namespace RuleSlicing

def reduce? {Result : Type} (merge : Result → Result → Result) : List Result → Option Result
  | [] => none
  | first :: rest => some (rest.foldl merge first)

namespace Computation

variable {Result : Type}

/-- The combined result of slices that belong together. -/
def mergeKey? (computation : Computation Result) (members : List (Slice × Result)) :
    Option Result :=
  let alike := groupByHash (fun (slice, _) => slice.project .any) members
  reduce? (computation.merge .any) <| alike.filterMap fun (_, group) =>
    reduce? (computation.merge .all) (group.map (·.2))

/-- The combined result for each combination of values that is reported by itself,
in the order in which they first occur. -/
def mergeBySplit (computation : Computation Result) (results : List (Slice × Result)) :
    List (Slice × Result) :=
  (groupByHash (fun (slice, _) => slice.project .split) results).filterMap
    fun (key, members) => (computation.mergeKey? members).map fun result => (key, result)

end Computation

end RuleSlicing
