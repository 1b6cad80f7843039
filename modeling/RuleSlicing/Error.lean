/-!
# Errors of an analysis

An error either concerns the whole request or one set of slices. Errors of the
first kind end an analysis without a response; those of the second kind are
recorded, and the other sets of slices are analysed as usual.
-/

set_option autoImplicit false

namespace RuleSlicing

/-- Why an analysis, or the analysis of one set of slices, has no result. -/
inductive AnalysisError where
  /-- The request cannot be used. -/
  | request (reason : String)
  /-- The selection of slices does not fit the model. -/
  | selection (reason : String)
  /-- The selection makes more slices than allowed. -/
  | tooManySlices (count max : Nat)
  /-- The rule model cannot be used. -/
  | model (reason : String)
  /-- A constraint of the request has no meaning for a set of slices. -/
  | constraint (text reason : String)
  /-- The solver gave no answer. -/
  | solver (reason : String)
deriving DecidableEq

namespace AnalysisError

def message : AnalysisError → String
  | .request reason => "invalid request: " ++ reason
  | .selection reason => "invalid slice selection: " ++ reason
  | .tooManySlices count max =>
      "number of slice combinations " ++ toString count ++ " exceeds the maximum of "
        ++ toString max
  | .model reason => "invalid rule model: " ++ reason
  | .constraint text reason => "cannot translate constraint '" ++ text ++ "': " ++ reason
  | .solver reason => "solver error: " ++ reason

/-- Whether an error ends the whole analysis. -/
def isFatal : AnalysisError → Bool
  | .request _ => true
  | .selection _ => true
  | .tooManySlices _ _ => true
  | .model _ => true
  | .constraint _ _ => false
  | .solver _ => false

end AnalysisError

end RuleSlicing
