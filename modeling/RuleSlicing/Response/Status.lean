import RuleSlicing.Analysis.Run

/-!
# The status of an analysis

A response opens with its status: for which job and rule file it was made, how
many slices and computations there were, how long they took, and the messages of
the run. An analysis is successful if it left no error.
-/

set_option autoImplicit false

namespace RuleSlicing

/-- Whether an analysis reports one result or a list of results for a slice. -/
inductive Variant where
  | single
  | list
deriving DecidableEq

def Variant.render : Variant → String
  | .single => "SINGLE"
  | .list => "LIST"

/-- How long an analysis took, in milliseconds. -/
structure Timing where
  total : Nat := 0
  average : Nat := 0
deriving DecidableEq

structure Status where
  jobId : String
  ruleFileId : String
  variant : Variant
  sliceCount : Nat := 0
  computationCount : Nat := 0
  timing : Timing := {}
  notices : Notices := .none
  /-- The reported coordinates of the slices of each set. -/
  sliceSets : List (List Slice) := []

namespace Status

def success (status : Status) : Bool := status.notices.successful

/-- The timing of an analysis that took some milliseconds: the whole, and the share
of each set of slices. -/
def timingOf (status : Status) (elapsed : Nat) : Timing :=
  ⟨elapsed, elapsed / status.computationCount⟩

def ofRun {Result : Type} (jobId : String) (request : Request) (variant : Variant)
    (run : Run Result) : Status where
  jobId
  ruleFileId := request.ruleFileId
  variant
  sliceCount := run.sliceCount
  computationCount := run.sets.length
  notices := run.notices
  sliceSets := run.sets.map fun set => set.slices.map (·.project .split)

/-- The JSON form of a status. The sets of slices are not part of it. -/
def toJson (status : Status) : Json :=
  .object [
    ("success", .bool status.success),
    ("jobId", .string status.jobId),
    ("ruleFileId", .string status.ruleFileId),
    ("computationVariant", .string status.variant.render),
    ("statistics", .object [
      ("computationTimeMs", .integer status.timing.total),
      ("numberOfSlices", .integer status.sliceCount),
      ("numberOfSliceComputations", .integer status.computationCount),
      ("avgSliceComputationTimeMs", .integer status.timing.average)]),
    ("errors", .strings status.notices.errors),
    ("warnings", .strings status.notices.warnings),
    ("infos", .strings status.notices.infos)]

end Status

end RuleSlicing
