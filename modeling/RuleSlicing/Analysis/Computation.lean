import RuleSlicing.Analysis.Limits
import RuleSlicing.Analysis.SliceSet
import RuleSlicing.Request.Basic

/-!
# Computations

A computation says how one set of slices is analysed and how the results of
several slices are combined. Whatever else an analysis needs is shared by all
computations. A computation reports either one result for each slice or, for
each slice, one result for each element of a list.
-/

set_option autoImplicit false

namespace RuleSlicing

/-! ## Notices -/

/-- Messages that an analysis leaves for its reader, in order. -/
structure Notices where
  errors : List String := []
  warnings : List String := []
  infos : List String := []
deriving DecidableEq

namespace Notices

def none : Notices := ⟨[], [], []⟩

def error (message : String) : Notices := ⟨[message], [], []⟩

def warning (message : String) : Notices := ⟨[], [message], []⟩

def info (message : String) : Notices := ⟨[], [], [message]⟩

instance : Append Notices where
  append first second :=
    ⟨first.errors ++ second.errors, first.warnings ++ second.warnings,
      first.infos ++ second.infos⟩

def successful (notices : Notices) : Bool := notices.errors.isEmpty

end Notices

/-! ## One set of slices -/

/-- What the analysis of one set of slices gets to see. -/
structure SliceTask where
  request : Request
  set : SliceSet
  limits : Limits

namespace SliceTask

/-- The slice that messages name. -/
def slice (task : SliceTask) : Slice := task.set.representative

def rules (task : SliceTask) : List Rule := task.set.activation.rules

def theory (task : SliceTask) : Theory := task.set.activation.theory

/-- The formulas of the additional constraints of the request. The first constraint
without meaning makes all of them fail. -/
def constraints (task : SliceTask) : Except AnalysisError (List Formula) :=
  let theory := task.theory
  task.request.constraints.mapM theory.interpret

def solve (task : SliceTask) (formulas : List Formula) :
    Except AnalysisError (Option Assignment) :=
  (TruthTable.solve task.limits.solver formulas).mapError fun excess => .solver excess.message

def solveUnder (task : SliceTask) (formulas : List Formula) (literal : Literal) :
    Except AnalysisError (Option Assignment) :=
  (TruthTable.solveUnder task.limits.solver formulas [literal]).mapError fun excess =>
    .solver excess.message

end SliceTask

/-- The outcome of the analysis of one set of slices, and the messages it leaves
whether or not it fails. -/
structure Attempt (Result : Type) where
  outcome : Except AnalysisError Result
  notices : Notices := .none

/-! ## Computations -/

/-- How sets of slices are analysed and how results are combined. The order in
which results are combined must not matter. -/
structure Computation (Result : Type) where
  /-- The disciplines that a request may select. -/
  allows : Discipline → Bool
  /-- The discipline of dimensions without one. -/
  defaultDiscipline : Discipline
  /-- Analyse a set of slices. -/
  compute : SliceTask → Attempt Result
  /-- Combine the results of two slices that differ in dimensions of a discipline. -/
  merge : Discipline → Result → Result → Result
  /-- What stands for the result of a set that could not be analysed. -/
  fallback : Result

/-- A computation that reports one result, and possibly a detail, for a slice. -/
structure SingleComputation (Result Main Detail : Type) extends Computation Result where
  /-- The result that is reported. -/
  main : Result → Main
  /-- The detail that is reported beside it. -/
  detail? : Result → Option Detail

/-- A computation that reports one result for each element of a list. -/
structure ListComputation (Result Element Main : Type) [LinearOrdered Element]
    extends Computation Result where
  /-- The elements that occur in a result. -/
  elements : Result → SortedSet Element
  /-- The result that is reported for an element. -/
  main? : Element → Result → Option Main
  /-- The result of an element that does not occur. -/
  absent : Main

end RuleSlicing
