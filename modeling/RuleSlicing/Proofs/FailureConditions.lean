import RuleSlicing.Proofs.Details
import RuleSlicing.Proofs.LeastSolution

/-!
# When the analysis of a set fails

The solver fails exactly beyond its limit, and a constraint without meaning fails whatever
else is asked. Consistency decides about the rules first, so it looks at the constraints
only if the rules have a solution, and its explanations have no variables beyond those that
the solver has taken before. Buildability needs the constraints from the start, and asks for
one feature at a time, which is one variable more if no rule and no constraint names it.
-/

set_option autoImplicit false

namespace RuleSlicing

/-! ## One more variable -/

namespace SortedSet

variable {α : Type} [LinearOrdered α] {set : SortedSet α} {value : α}

theorem union_singleton_of_mem (member : value ∈ set) : set.union (.ofList [value]) = set := by
  ext other
  rw [mem_union_iff, mem_ofList_iff, List.mem_singleton]
  exact ⟨fun given => given.elim id fun same => same ▸ member, .inl⟩

theorem size_union_singleton_of_not_mem (missing : value ∉ set) :
    (set.union (.ofList [value])).size = set.size + 1 := by
  have distinct : (value :: set.toList).Nodup := List.nodup_cons.mpr ⟨missing, set.nodup⟩
  have listed : (set.union (.ofList [value])).toList.Perm (value :: set.toList) := by
    refine (List.perm_ext_iff_of_nodup (nodup _) distinct).mpr fun other => ?_
    rw [← mem_def, mem_union_iff, mem_ofList_iff, List.mem_singleton, List.mem_cons, or_comm,
      mem_def]
  exact listed.length_eq

end SortedSet

theorem Activation.unknowns_nil (activation : Activation) :
    activation.unknowns [] = activation.ruleVariables := by
  ext name
  unfold unknowns
  rw [SortedSet.mem_union_iff, SortedSet.mem_ofList_iff, List.flatMap_nil]
  exact or_iff_left List.not_mem_nil

/-! ## Single steps -/

namespace SliceTask

/-- The number of variables that the solver takes. -/
def capacity (task : SliceTask) : Nat :=
  Nat.min task.limits.maxVariables TruthTable.wordVariables

variable {task : SliceTask} {constraints : List String}

theorem constraints_fail_iff :
    (∃ error, task.constraints = .error error) ↔
      ¬task.set.activation.Interprets task.request.constraints := by
  constructor
  · intro failed interprets
    obtain ⟨error, untranslated⟩ := failed
    rw [constraints_eq_ok_iff.mpr ⟨interprets, rfl⟩] at untranslated
    cases untranslated
  · intro meaningless
    cases translated : task.constraints with
    | error error => exact ⟨error, rfl⟩
    | ok formulas => exact absurd (constraints_eq_ok_iff.mp translated).1 meaningless

theorem solve_fails_iff {formulas : List Formula} :
    (∃ error, task.solve formulas = .error error) ↔
      task.capacity < (Formula.varsOfAll formulas).size := by
  rw [← Nat.not_le]
  constructor
  · rintro ⟨error, unsolved⟩ small
    exact not_allows_of_solve unsolved (decide_eq_true small)
  · intro large
    cases solved : task.solve formulas with
    | error error => exact ⟨error, rfl⟩
    | ok solution => exact absurd (of_decide_eq_true (solve_eq_ok solved).1) large

theorem small_of_solve {solution : Option Assignment}
    (solved : task.solve (task.set.activation.formulas constraints) = .ok solution) :
    (task.set.activation.unknowns constraints).size ≤ task.capacity := by
  rw [← Activation.varsOfAll_formulas]
  exact of_decide_eq_true (solve_eq_ok solved).1

theorem satisfiable_of_solve {assignment : Assignment}
    (solved : task.solve (task.set.activation.formulas constraints) = .ok (some assignment)) :
    ∃ valuation, task.set.activation.Satisfies constraints valuation := by
  obtain ⟨valuation, solves⟩ := (solve_eq_ok solved).2.mp rfl
  exact ⟨valuation, Activation.solves_formulas_iff.mp solves⟩

/-- The solver fails, or it finds a solution if there is one. -/
theorem solve_of_satisfiable
    (satisfiable : ∃ valuation, task.set.activation.Satisfies constraints valuation) :
    (∃ error, task.solve (task.set.activation.formulas constraints) = .error error) ∨
      ∃ assignment, task.solve (task.set.activation.formulas constraints) =
        .ok (some assignment) := by
  obtain ⟨valuation, satisfies⟩ := satisfiable
  cases solved : task.solve (task.set.activation.formulas constraints) with
  | error error => exact .inl ⟨error, rfl⟩
  | ok solution =>
      cases solution with
      | some assignment => exact .inr ⟨assignment, rfl⟩
      | none =>
          cases (solve_eq_ok solved).2.mpr ⟨valuation, Activation.solves_formulas_iff.mpr satisfies⟩

/-- Whether a feature is asked to be there or not, the solver fails if its limit is reached
and the feature is one variable more. -/
theorem solveUnder_fails_iff {code : String} {phase : Bool}
    (small : (task.set.activation.unknowns constraints).size ≤ task.capacity) :
    (∃ error, task.solveUnder (task.set.activation.formulas constraints) ⟨code, phase⟩ =
        .error error) ↔
      (task.set.activation.unknowns constraints).size = task.capacity ∧
        code ∉ task.set.activation.unknowns constraints := by
  have vars : Formula.varsOfAll ([(⟨code, phase⟩ : Literal)].map Literal.toFormula ++
      task.set.activation.formulas constraints) =
        (task.set.activation.unknowns constraints).union (.ofList [code]) := by
    rw [TruthTable.varsOfAll_assumed, TruthTable.unknowns, Activation.varsOfAll_formulas]
    rfl
  show (∃ error, task.solve ([(⟨code, phase⟩ : Literal)].map Literal.toFormula ++
    task.set.activation.formulas constraints) = .error error) ↔ _
  rw [solve_fails_iff, vars]
  by_cases member : code ∈ task.set.activation.unknowns constraints
  · rw [SortedSet.union_singleton_of_mem member]
    exact iff_of_false (Nat.not_lt_of_le small) fun given => given.2 member
  · rw [SortedSet.size_union_singleton_of_not_mem member, and_iff_left member]
    omega

end SliceTask

/-! ## Consistency -/

namespace Consistency

variable {task : SliceTask}

/-- No failure is one of an explanation. -/
theorem outcome_eq_error_iff {error : AnalysisError} :
    (compute task).outcome = .error error ↔
      task.solve (task.set.activation.formulas []) = .error error ∨
      ∃ assignment, task.solve (task.set.activation.formulas []) = .ok (some assignment) ∧
        (task.constraints = .error error ∨
          task.set.activation.Interprets task.request.constraints ∧
            task.request.constraints ≠ [] ∧
            task.solve (task.set.activation.formulas task.request.constraints) =
              .error error) := by
  have alone : task.set.activation.formulas [] = task.theory.formulas := List.append_nil _
  rw [alone]
  constructor
  · intro failed
    rcases outcome_eq_error failed with unsolved | ⟨unsatisfiable, unexplained⟩ |
      ⟨assignment, solved, untranslated | ⟨constraints, translated, present, failed⟩⟩
    · exact .inl unsolved
    · rw [← List.append_nil task.theory.formulas] at unsatisfiable
      obtain ⟨result, explained⟩ := exists_inconsistent unsatisfiable
      rw [explained] at unexplained
      cases unexplained
    · exact .inr ⟨assignment, solved, .inl untranslated⟩
    · obtain ⟨interprets, rfl⟩ := SliceTask.constraints_eq_ok_iff.mp translated
      rcases failed with unsolved | ⟨unsatisfiable, unexplained⟩
      · exact .inr ⟨assignment, solved,
          .inr ⟨interprets, mt List.map_eq_nil_iff.mpr present, unsolved⟩⟩
      · obtain ⟨result, explained⟩ := exists_inconsistent unsatisfiable
        rw [explained] at unexplained
        cases unexplained
  · unfold compute
    rintro (unsolved | ⟨assignment, solved, untranslated | ⟨interprets, present, unsolved⟩⟩)
    · simp only [unsolved]
    · simp only [solved, untranslated]
    · have translated := SliceTask.constraints_eq_ok_iff.mpr ⟨interprets, rfl⟩
      obtain ⟨text, rest, listed⟩ := List.exists_cons_of_ne_nil present
      rw [listed, List.map_cons] at translated
      rw [listed] at unsolved
      change task.solve (task.theory.formulas ++ Constraint.formula text :: _) = _ at unsolved
      simp only [solved, translated, unsolved]

theorem fails_iff (task : SliceTask) :
    (∃ error, (compute task).outcome = .error error) ↔
      task.capacity < task.set.activation.ruleVariables.size ∨
        (∃ valuation, task.set.activation.Satisfies [] valuation) ∧
          (¬task.set.activation.Interprets task.request.constraints ∨
            task.request.constraints ≠ [] ∧
              task.capacity < (task.set.activation.unknowns task.request.constraints).size) := by
  simp only [outcome_eq_error_iff]
  rw [← Activation.unknowns_nil, ← Activation.varsOfAll_formulas, ← Activation.varsOfAll_formulas,
    ← SliceTask.solve_fails_iff, ← SliceTask.solve_fails_iff]
  constructor
  · rintro ⟨error, unsolved | ⟨assignment, solved, untranslated | ⟨_, present, unsolved⟩⟩⟩
    · exact .inl ⟨error, unsolved⟩
    · exact .inr ⟨SliceTask.satisfiable_of_solve solved,
        .inl (SliceTask.constraints_fail_iff.mp ⟨error, untranslated⟩)⟩
    · exact .inr ⟨SliceTask.satisfiable_of_solve solved, .inr ⟨present, error, unsolved⟩⟩
  · rintro (⟨error, unsolved⟩ | ⟨satisfiable, failed⟩)
    · exact ⟨error, .inl unsolved⟩
    · rcases SliceTask.solve_of_satisfiable satisfiable
        with ⟨error, unsolved⟩ | ⟨assignment, solved⟩
      · exact ⟨error, .inl unsolved⟩
      · by_cases interprets : task.set.activation.Interprets task.request.constraints
        · obtain ⟨present, error, unsolved⟩ := failed.resolve_left (not_not_intro interprets)
          exact ⟨error, .inr ⟨assignment, solved, .inr ⟨interprets, present, unsolved⟩⟩⟩
        · obtain ⟨error, untranslated⟩ := SliceTask.constraints_fail_iff.mpr interprets
          exact ⟨error, .inr ⟨assignment, solved, .inl untranslated⟩⟩

/-- Whether an explanation is asked for makes no difference to what fails, and how. -/
theorem outcome_brief_eq_error_iff {error : AnalysisError} :
    (compute task.brief).outcome = .error error ↔ (compute task).outcome = .error error := by
  rw [compute_brief]
  unfold Attempt.map
  cases (compute task).outcome <;> simp [Except.map]

end Consistency

/-! ## Buildability -/

namespace Buildability

variable {task : SliceTask}

private theorem featureStatuses_fail {formulas : List Formula} {code : String} {phase : Bool}
    {error : AnalysisError} (active : code ∈ task.theory.codes)
    (unsolved : task.solveUnder formulas ⟨code, phase⟩ = .error error) :
    ∃ error, featureStatuses task formulas = .error error := by
  cases decided : featureStatuses task formulas with
  | error error => exact ⟨error, rfl⟩
  | ok result =>
      obtain ⟨statuses, listed, _⟩ := ok_of_bind decided
      obtain ⟨_, _, done⟩ := exists_right_of_forall₂ ((mapM_eq_ok_iff _ _ _).mp listed) active
      obtain ⟨status, done, _⟩ := ok_of_bind done
      obtain ⟨_, present, done⟩ := ok_of_bind done
      obtain ⟨_, absent, _⟩ := ok_of_bind done
      cases phase with
      | true =>
          rw [present] at unsolved
          cases unsolved
      | false =>
          rw [absent] at unsolved
          cases unsolved

private theorem fails_of_constraints {error : AnalysisError}
    (untranslated : task.constraints = .error error) : (compute task).outcome = .error error := by
  have undecided : satisfiable task = .error error := by
    unfold satisfiable
    rw [untranslated]
    rfl
  unfold compute
  rw [undecided]

private theorem fails_of_solve {formulas : List Formula} {error : AnalysisError}
    (translated : task.constraints = .ok formulas)
    (unsolved : task.solve (task.theory.formulas ++ formulas) = .error error) :
    (compute task).outcome = .error error := by
  have undecided : satisfiable task = .error error := by
    unfold satisfiable
    rw [translated]
    show (task.solve (task.theory.formulas ++ formulas) >>= _) = _
    rw [unsolved]
    rfl
  unfold compute
  rw [undecided]

private theorem outcome_of_solve {formulas : List Formula} {assignment : Assignment}
    (translated : task.constraints = .ok formulas)
    (solved : task.solve (task.theory.formulas ++ formulas) = .ok (some assignment)) :
    (compute task).outcome = featureStatuses task (task.theory.formulas ++ formulas) := by
  have decided : satisfiable task = .ok (task.theory.formulas ++ formulas, true) := by
    unfold satisfiable
    rw [translated]
    show (task.solve (task.theory.formulas ++ formulas) >>= _) = _
    rw [solved]
    rfl
  unfold compute
  rw [decided]

theorem fails_iff (task : SliceTask) :
    (∃ error, (compute task).outcome = .error error) ↔
      ¬task.set.activation.Interprets task.request.constraints ∨
      task.capacity < (task.set.activation.unknowns task.request.constraints).size ∨
      (∃ valuation, task.set.activation.Satisfies task.request.constraints valuation) ∧
        (task.set.activation.unknowns task.request.constraints).size = task.capacity ∧
        ∃ code ∈ task.set.activation.codes,
          code ∉ task.set.activation.unknowns task.request.constraints := by
  have tooMany := @SliceTask.solve_fails_iff task
    (task.set.activation.formulas task.request.constraints)
  rw [Activation.varsOfAll_formulas] at tooMany
  rw [← SliceTask.constraints_fail_iff, ← tooMany]
  constructor
  · rintro ⟨error, failed⟩
    rcases outcome_eq_error failed with untranslated | ⟨_, translated, failed⟩
    · exact .inl ⟨error, untranslated⟩
    · obtain ⟨_, rfl⟩ := SliceTask.constraints_eq_ok_iff.mp translated
      rcases failed with unsolved | ⟨assignment, solved, code, active, phase, unsolved⟩
      · exact .inr (.inl ⟨error, unsolved⟩)
      · obtain ⟨full, missing⟩ :=
          (SliceTask.solveUnder_fails_iff (SliceTask.small_of_solve solved)).mp ⟨error, unsolved⟩
        exact .inr (.inr ⟨SliceTask.satisfiable_of_solve solved, full, code, active, missing⟩)
  · cases translated : task.constraints with
    | error error => exact fun _ => ⟨error, fails_of_constraints translated⟩
    | ok formulas =>
        obtain ⟨_, rfl⟩ := SliceTask.constraints_eq_ok_iff.mp translated
        rintro (⟨_, ⟨⟩⟩ | ⟨error, unsolved⟩ | ⟨satisfiable, full, code, active, missing⟩)
        · exact ⟨error, fails_of_solve translated unsolved⟩
        · rcases SliceTask.solve_of_satisfiable satisfiable with
            ⟨error, unsolved⟩ | ⟨assignment, solved⟩
          · exact ⟨error, fails_of_solve translated unsolved⟩
          · rw [outcome_of_solve translated solved]
            obtain ⟨error, unsolved⟩ : ∃ error, task.solveUnder
                (task.set.activation.formulas task.request.constraints) ⟨code, true⟩ =
                  .error error :=
              (SliceTask.solveUnder_fails_iff (SliceTask.small_of_solve solved)).mpr
                ⟨full, missing⟩
            exact featureStatuses_fail active unsolved

end Buildability

/-! ## Both analyses -/

/-- Consistency fails exactly if the rules have too many variables, or they have a solution
and the constraints mean nothing or bring in too many variables; explanations do not matter.
Buildability fails exactly if the constraints mean nothing, or they and the rules have too many
variables, or these have a solution, reach the limit and miss an active feature. What fails is
a constraint or the solver, which is not fatal. -/
theorem SliceTask.analyses_fail_iff (task : SliceTask) :
    ((∃ error, (Consistency.compute task).outcome = .error error) ↔
      task.capacity < task.set.activation.ruleVariables.size ∨
        (∃ valuation, task.set.activation.Satisfies [] valuation) ∧
          (¬task.set.activation.Interprets task.request.constraints ∨
            task.request.constraints ≠ [] ∧
              task.capacity < (task.set.activation.unknowns task.request.constraints).size)) ∧
    (∀ error, (Consistency.compute task.brief).outcome = .error error ↔
      (Consistency.compute task).outcome = .error error) ∧
    ((∃ error, (Buildability.compute task).outcome = .error error) ↔
      ¬task.set.activation.Interprets task.request.constraints ∨
      task.capacity < (task.set.activation.unknowns task.request.constraints).size ∨
      (∃ valuation, task.set.activation.Satisfies task.request.constraints valuation) ∧
        (task.set.activation.unknowns task.request.constraints).size = task.capacity ∧
        ∃ code ∈ task.set.activation.codes,
          code ∉ task.set.activation.unknowns task.request.constraints) ∧
    ∀ error, (Consistency.compute task).outcome = .error error ∨
        (Buildability.compute task).outcome = .error error →
      task.Fault error ∧ error.isFatal = false := by
  refine ⟨Consistency.fails_iff task, fun error => Consistency.outcome_brief_eq_error_iff,
    Buildability.fails_iff task, fun error failed => ?_⟩
  have fault : task.Fault error :=
    failed.elim Consistency.fault_of_compute Buildability.fault_of_compute
  exact ⟨fault, fault.mild⟩

/-- The rules are in conflict whatever is asked, so only buildability looks at a constraint
that names no feature. -/
theorem SliceTask.analyses_fail_iff_sample : ∃ model slices set result error,
    Model.compile Sample.conflictDocument = .ok model ∧ set ∈ SliceSet.group model slices ∧
    (Consistency.compute
      ⟨{ Sample.conflictRequest with constraints := ["B"] }, set, .standard⟩).outcome =
        .ok result ∧
    (Buildability.compute
      ⟨{ Sample.conflictRequest with constraints := ["B"] }, set, .standard⟩).outcome =
        .error error ∧
    SliceTask.Fault ⟨{ Sample.conflictRequest with constraints := ["B"] }, set, .standard⟩ error ∧
    error.isFatal = false := by
  refine ⟨_, [.empty], _, _, _, rfl, SliceSet.group_singleton _ _ ▸ List.Mem.head _, rfl, rfl, ?_⟩
  exact (SliceTask.analyses_fail_iff _).2.2.2 _ (.inr rfl)

end RuleSlicing
