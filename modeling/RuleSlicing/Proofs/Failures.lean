import RuleSlicing.Analysis.Buildability
import RuleSlicing.Analysis.Consistency
import RuleSlicing.Proofs.Attempts

/-!
# Failures of one set of slices

What fails in the analysis of one set is not fatal, neither for consistency nor for
buildability, so their runs succeed as soon as the slices of the request can be
made. A set that fails has the fallback as its result and leaves an error.
-/

set_option autoImplicit false

namespace RuleSlicing

/-! ## Errors that are not fatal -/

namespace SliceTask

/-- What can go wrong with one set: a constraint of the request has no meaning, or the
solver gives no answer. -/
inductive Fault (task : SliceTask) : AnalysisError → Prop where
  | constraint {text reason : String} (asked : text ∈ task.request.constraints) :
      Fault task (.constraint text reason)
  | solver {reason : String} : Fault task (.solver reason)

variable {task : SliceTask} {error : AnalysisError}

theorem Fault.mild (fault : task.Fault error) : error.isFatal = false := by
  cases fault <;> rfl

theorem fault_of_solve {formulas : List Formula} (failed : task.solve formulas = .error error) :
    task.Fault error := by
  obtain ⟨_, _, rfl⟩ := error_of_mapError failed
  exact .solver

theorem fault_of_constraints (failed : task.constraints = .error error) : task.Fault error := by
  obtain ⟨text, asked, failed⟩ := error_of_mapM failed
  obtain ⟨_, _, rfl⟩ := error_of_mapError failed
  exact .constraint asked

end SliceTask

/-- A conflict is not shrunk only if the test fails on some of its items. -/
theorem Conflict.error_of_shrinkFrom {Item Error : Type}
    {inConflict : List Item → Except Error Bool} {necessary items : List Item} {error : Error}
    (failed : shrinkFrom inConflict necessary items = .error error) :
    ∃ tested, tested.Sublist (necessary ++ items) ∧ inConflict tested = .error error := by
  induction items generalizing necessary with
  | nil => cases failed
  | cons item rest ih =>
      have fewer : (necessary ++ rest).Sublist (necessary ++ item :: rest) :=
        (List.sublist_cons_self item rest).append_left necessary
      rcases error_of_bind failed with here | ⟨conflicting, _, failed⟩
      · exact ⟨_, fewer, here⟩
      · split at failed
        · obtain ⟨tested, part, failed⟩ := ih failed
          exact ⟨tested, part.trans fewer, failed⟩
        · obtain ⟨tested, part, failed⟩ := ih failed
          rw [List.append_assoc] at part
          exact ⟨tested, part, failed⟩

namespace Consistency

variable {task : SliceTask} {error : AnalysisError}

/-- The ways in which a set has no result: what it takes to decide about the rules, or
about the rules with the constraints, fails, or an explanation does. -/
theorem outcome_eq_error (failed : (compute task).outcome = .error error) :
    task.solve task.theory.formulas = .error error ∨
    (task.solve task.theory.formulas = .ok none ∧ inconsistent task [] = .error error) ∨
    ∃ assignment, task.solve task.theory.formulas = .ok (some assignment) ∧
      (task.constraints = .error error ∨
        ∃ constraints, task.constraints = .ok constraints ∧ constraints ≠ [] ∧
          (task.solve (task.theory.formulas ++ constraints) = .error error ∨
            task.solve (task.theory.formulas ++ constraints) = .ok none ∧
              inconsistent task constraints = .error error)) := by
  unfold compute at failed
  simp only at failed
  split at failed
  · rename_i unsolved
    cases failed
    exact .inl unsolved
  · rename_i unsatisfiable
    exact .inr (.inl ⟨unsatisfiable, failed⟩)
  · rename_i assignment solved
    refine .inr (.inr ⟨assignment, solved, ?_⟩)
    split at failed
    · rename_i untranslated
      cases failed
      exact .inl untranslated
    · cases failed
    · rename_i constraints present translated
      refine .inr ⟨constraints, translated, present, ?_⟩
      split at failed
      · rename_i unsolved
        cases failed
        exact .inl unsolved
      · cases failed
      · rename_i unsatisfiable
        exact .inr ⟨unsatisfiable, failed⟩

private theorem fault_of_inconsistent {constraints : List Formula}
    (failed : inconsistent task constraints = .error error) : task.Fault error := by
  unfold inconsistent at failed
  split at failed
  · rcases error_of_bind (error_of_map failed) with failed | ⟨_, _, failed⟩
    · obtain ⟨_, _, failed⟩ := Conflict.error_of_shrinkFrom failed
      exact SliceTask.fault_of_solve (error_of_map failed)
    · cases failed
  · cases failed

theorem fault_of_compute (failed : (compute task).outcome = .error error) : task.Fault error := by
  rcases outcome_eq_error failed with unsolved | ⟨_, unexplained⟩ |
    ⟨_, _, untranslated | ⟨_, _, _, unsolved | ⟨_, unexplained⟩⟩⟩
  · exact SliceTask.fault_of_solve unsolved
  · exact fault_of_inconsistent unexplained
  · exact SliceTask.fault_of_constraints untranslated
  · exact SliceTask.fault_of_solve unsolved
  · exact fault_of_inconsistent unexplained

theorem mild_of_compute (failed : (compute task).outcome = .error error) :
    error.isFatal = false := (fault_of_compute failed).mild

end Consistency

namespace Buildability

variable {task : SliceTask} {error : AnalysisError}

/-- The ways in which a set has no result: the rules and constraints are not decided, or
they have a solution and some feature is not decided under them. -/
theorem outcome_eq_error (failed : (compute task).outcome = .error error) :
    task.constraints = .error error ∨
    ∃ constraints, task.constraints = .ok constraints ∧
      (task.solve (task.theory.formulas ++ constraints) = .error error ∨
        ∃ assignment, task.solve (task.theory.formulas ++ constraints) = .ok (some assignment) ∧
          ∃ code ∈ task.theory.codes, ∃ phase,
            task.solveUnder (task.theory.formulas ++ constraints) ⟨code, phase⟩ =
              .error error) := by
  unfold compute at failed
  split at failed
  · rename_i undecided
    cases failed
    rcases error_of_bind undecided with untranslated | ⟨constraints, translated, undecided⟩
    · exact .inl untranslated
    · rcases error_of_bind undecided with unsolved | ⟨_, _, undecided⟩
      · exact .inr ⟨constraints, translated, .inl unsolved⟩
      · cases undecided
  · rename_i formulas decided
    obtain ⟨constraints, translated, decided⟩ := ok_of_bind decided
    obtain ⟨solution, solved, made⟩ := ok_of_bind decided
    cases solution with
    | none => cases made
    | some assignment =>
        cases made
        refine .inr ⟨constraints, translated, .inr ⟨assignment, solved, ?_⟩⟩
        rcases error_of_bind failed with failed | ⟨_, _, failed⟩
        · obtain ⟨code, active, failed⟩ := error_of_mapM failed
          refine ⟨code, active, ?_⟩
          rcases error_of_bind failed with failed | ⟨_, _, failed⟩
          · rcases error_of_bind failed with present | ⟨_, _, failed⟩
            · exact ⟨true, present⟩
            · rcases error_of_bind failed with absent | ⟨_, _, failed⟩
              · exact ⟨false, absent⟩
              · cases failed
          · cases failed
        · cases failed
  · cases failed

theorem fault_of_compute (failed : (compute task).outcome = .error error) : task.Fault error := by
  rcases outcome_eq_error failed with untranslated | ⟨_, _, unsolved | ⟨_, _, _, _, _, unsolved⟩⟩
  · exact SliceTask.fault_of_constraints untranslated
  · exact SliceTask.fault_of_solve unsolved
  · exact SliceTask.fault_of_solve unsolved

theorem mild_of_compute (failed : (compute task).outcome = .error error) :
    error.isFatal = false := (fault_of_compute failed).mild

end Buildability

/-! ## Runs without failures -/

namespace Computation

variable {Result : Type} {computation : Computation Result}

/-- A set has its own result, or the fallback and an error. -/
theorem attempt_eq_ok {task : SliceTask} {result : Result} {notices : Notices}
    (attempted : computation.attempt task = .ok (result, notices)) :
    (computation.compute task).outcome = .ok result ∨
      (∃ error, (computation.compute task).outcome = .error error) ∧
        result = computation.fallback ∧ notices.errors ≠ [] := by
  unfold attempt at attempted
  simp only at attempted
  split at attempted
  · rename_i done
    cases attempted
    exact .inl done
  · rename_i failed
    split at attempted
    · cases attempted
    · cases attempted
      exact .inr ⟨⟨_, failed⟩, rfl, List.append_ne_nil_of_right_ne_nil _ (List.cons_ne_nil _ _)⟩

section Runs

variable {request : Request} {model : Model} {limits : Limits}

/-- Without fatal errors a run succeeds on the slices of the request. -/
theorem exists_run (mild : ∀ task error, (computation.compute task).outcome = .error error →
      error.isFatal = false) {selectors : List Selector}
    (resolved : request.resolve model.space computation.allows computation.defaultDiscipline =
      .ok selectors)
    {slices : List Slice}
    (made : Slice.all selectors model.space.dimensions limits.maxSlices = .ok slices) :
    ∃ run, computation.run request model limits = .ok run :=
  ⟨_, run_of_noneFatal resolved made (noneFatal_of_mild (fun _ => mild _) _)⟩

theorem errors_of_run {run : Run Result}
    (success : computation.run request model limits = .ok run)
    (quiet : ∀ slices, ∀ set ∈ SliceSet.group model slices, ∃ result,
      (computation.compute ⟨request, set, limits⟩).outcome = .ok result ∧
        (computation.compute ⟨request, set, limits⟩).notices.errors = []) :
    run.notices.errors = [] := by
  obtain ⟨_, slices, _, _, _, rfl⟩ := eq_completeRun_of_run success
  refine List.append_eq_nil_iff.mpr ⟨rfl, List.flatMap_eq_nil_iff.mpr fun left member => ?_⟩
  obtain ⟨set, inGroup, rfl⟩ := List.mem_map.mp member
  obtain ⟨result, succeeds, silent⟩ := quiet slices set inGroup
  unfold noticesOf failure?
  simp [succeeds, silent]

end Runs

end Computation

end RuleSlicing
