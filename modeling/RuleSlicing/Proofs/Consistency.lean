import RuleSlicing.Proofs.Fibers
import RuleSlicing.Proofs.Meaning
import RuleSlicing.Proofs.Partition

/-!
# What consistency says

A set of slices is found consistent exactly if its rules and the constraints can be
satisfied within the limit of the solver; whatever fails counts as inconsistent. The
result that is reported for a combination of values says this of all selected points
over it, including those that have no relevant values.
-/

set_option autoImplicit false

namespace RuleSlicing

/-- The constraints mean something for what is active, there are not too many
variables, and some choice satisfies the rules and the constraints. -/
structure Activation.Consistent (activation : Activation) (constraints : List String)
    (limits : Limits) : Prop where
  interprets : activation.Interprets constraints
  small : (activation.unknowns constraints).size ≤
    Nat.min limits.maxVariables TruthTable.wordVariables
  satisfiable : ∃ valuation, activation.Satisfies constraints valuation

theorem Activation.Consistent.of_subset {activation : Activation} {constraints fewer : List String}
    {limits : Limits} (consistent : activation.Consistent constraints limits)
    (part : fewer ⊆ constraints) : activation.Consistent fewer limits where
  interprets text member := consistent.interprets text (part member)
  small := Nat.le_trans (size_unknowns_le_of_subset part) consistent.small
  satisfiable := consistent.satisfiable.imp fun _ satisfies => satisfies.of_subset part

/-! ## One set of slices -/

namespace Consistency

variable {task : SliceTask}

/-- A limit on some variables is a limit on fewer. -/
private theorem not_consistent_of_not_allows {constraints : List String}
    (excess : ¬task.limits.solver.allows
      (Formula.varsOfAll (task.set.activation.formulas constraints)).size = true)
    (fewer : (task.set.activation.unknowns constraints).size ≤
      (task.set.activation.unknowns task.request.constraints).size) :
    ¬task.set.activation.Consistent task.request.constraints task.limits := by
  intro consistent
  rw [Activation.varsOfAll_formulas] at excess
  exact excess (decide_eq_true (Nat.le_trans fewer consistent.small))

private theorem not_consistent_of_solve {constraints : List String}
    (solved : task.solve (task.set.activation.formulas constraints) = .ok none)
    (weaker : ∀ valuation, task.set.activation.Satisfies task.request.constraints valuation →
      task.set.activation.Satisfies constraints valuation) :
    ¬task.set.activation.Consistent task.request.constraints task.limits := by
  intro consistent
  obtain ⟨valuation, satisfies⟩ := consistent.satisfiable
  have found := (SliceTask.solve_eq_ok solved).2.mpr
    ⟨valuation, Activation.solves_formulas_iff.mpr (weaker valuation satisfies)⟩
  cases found

private theorem consistent_of_solve {assignment : Assignment}
    (interprets : task.set.activation.Interprets task.request.constraints)
    (solved : task.solve (task.set.activation.formulas task.request.constraints) =
      .ok (some assignment)) :
    task.set.activation.Consistent task.request.constraints task.limits := by
  obtain ⟨allows, decides⟩ := SliceTask.solve_eq_ok solved
  obtain ⟨valuation, solves⟩ := decides.mp rfl
  rw [Activation.varsOfAll_formulas] at allows
  exact ⟨interprets, of_decide_eq_true allows, valuation, Activation.solves_formulas_iff.mp solves⟩

theorem consistent_of_inconsistent {constraints : List Formula}
    {result : ConsistencyResult} (made : inconsistent task constraints = .ok result) :
    result.consistent = false := by
  unfold inconsistent at made
  split at made
  · obtain ⟨_, _, rfl⟩ := ok_of_map made
    rfl
  · cases made
    rfl

/-- A result is consistent exactly if what is active is, if a failure counts as
inconsistent. -/
theorem consistent_iff_of_compute {result : ConsistencyResult}
    (computed : (compute task).outcome = .ok result ∨
      (∃ error, (compute task).outcome = .error error) ∧ result.consistent = false) :
    result.consistent = true ↔
      task.set.activation.Consistent task.request.constraints task.limits := by
  have alone : task.theory.formulas = task.set.activation.formulas [] :=
    (List.append_nil _).symm
  have negative : result.consistent = false →
      ¬task.set.activation.Consistent task.request.constraints task.limits →
        (result.consistent = true ↔
          task.set.activation.Consistent task.request.constraints task.limits) := by
    intro isFalse not
    rw [isFalse]
    exact iff_of_false Bool.false_ne_true not
  unfold compute at computed
  simp only at computed
  split at computed
  · rename_i error unsolved
    obtain ⟨⟨⟩⟩ | ⟨_, isFalse⟩ := computed
    rw [alone] at unsolved
    exact negative isFalse <| not_consistent_of_not_allows (SliceTask.not_allows_of_solve unsolved)
      (Activation.size_unknowns_le_of_subset (List.nil_subset _))
  · rename_i solved
    rw [alone] at solved
    refine negative ?_ (not_consistent_of_solve solved fun valuation satisfies =>
      satisfies.of_subset (List.nil_subset _))
    exact computed.elim consistent_of_inconsistent And.right
  · rename_i assignment solved
    split at computed
    · rename_i error meaningless
      obtain ⟨⟨⟩⟩ | ⟨_, isFalse⟩ := computed
      refine negative isFalse fun consistent => ?_
      have translated := SliceTask.constraints_eq_ok_iff.mpr ⟨consistent.interprets, rfl⟩
      rw [meaningless] at translated
      cases translated
    · rename_i translated
      obtain ⟨⟨⟩⟩ | ⟨⟨_, ⟨⟩⟩, _⟩ := computed
      obtain ⟨interprets, none⟩ := SliceTask.constraints_eq_ok_iff.mp translated
      rw [alone, ← List.map_eq_nil_iff.mp none] at solved
      exact iff_of_true rfl (consistent_of_solve interprets solved)
    · rename_i constraints _ translated
      obtain ⟨interprets, rfl⟩ := SliceTask.constraints_eq_ok_iff.mp translated
      split at computed
      · rename_i error unsolved
        obtain ⟨⟨⟩⟩ | ⟨_, isFalse⟩ := computed
        exact negative isFalse <|
          not_consistent_of_not_allows (SliceTask.not_allows_of_solve unsolved) (Nat.le_refl _)
      · rename_i assignment solved
        obtain ⟨⟨⟩⟩ | ⟨⟨_, ⟨⟩⟩, _⟩ := computed
        exact iff_of_true rfl (consistent_of_solve interprets solved)
      · rename_i solved
        refine negative ?_ (not_consistent_of_solve solved fun _ satisfies => satisfies)
        exact computed.elim consistent_of_inconsistent And.right

end Consistency

/-! ## Responses -/

namespace ConsistencyResult

theorem merge_all_iff {left right : ConsistencyResult} :
    (merge .all left right).consistent = true ↔
      left.consistent = true ∧ right.consistent = true := by
  show (if left.consistent = true then right else left).consistent = true ↔ _
  cases verdict : left.consistent with
  | true => simp
  | false => simp [verdict]

theorem merge_any_iff {left right : ConsistencyResult} :
    (merge .any left right).consistent = true ↔
      left.consistent = true ∨ right.consistent = true := by
  show (if left.consistent = true then left else right).consistent = true ↔ _
  cases verdict : left.consistent with
  | true => simp [verdict]
  | false => simp

end ConsistencyResult

theorem consistent_iff_of_ran {request : Request} {model : Model} {limits : Limits}
    {run : Run ConsistencyResult} {results : List (Slice × ConsistencyResult)}
    (ran : consistency.Ran request model limits run results) :
    ∀ entry ∈ results, entry.2.consistent = true ↔
      (model.activation entry.1).Consistent request.constraints limits := by
  intro entry member
  obtain ⟨set, notices, active, attempted, _⟩ := ran.attempted entry member
  rw [← active]
  refine Consistency.consistent_iff_of_compute ((Computation.attempt_eq_ok attempted).imp_right ?_)
  intro given
  obtain ⟨failed, isFallback, _⟩ := given
  exact ⟨failed, congrArg ConsistencyResult.consistent isFallback⟩

/-- The entry of a combination of selected values is true exactly if, for some values
where one is enough, what is active is consistent for all values where each counts. -/
theorem entry_result_iff_consistent {document : ModelDocument} {model : Model}
    (compiled : Model.compile document = .ok model) {jobId : String} {request : Request}
    {limits : Limits} {response : SingleResponse Bool ConsistencyDetail}
    (responded : consistency.respond jobId request model limits = .ok response) :
    ∃ selectors, request.resolve model.space consistency.allows consistency.defaultDiscipline =
        .ok selectors ∧
      ∀ chosen : Point, chosen.Within (Axis.having .split (model.axes selectors)) →
        (response.entries.flatMap (·.slices)).countP (·.covers chosen) = 1 ∧
        ∀ entry ∈ response.entries, ∀ slice ∈ entry.slices, slice.covers chosen = true →
          (entry.result = true ↔
            ∃ one : Point, one.Within (Axis.having .any (model.axes selectors)) ∧
              ∀ point : Point, point.Within (model.axes selectors) →
                point.Agrees chosen (Axis.having .split (model.axes selectors)) →
                point.Agrees one (Axis.having .any (model.axes selectors)) →
                  (model.activation (point.slice (model.axes selectors))).Consistent
                    request.constraints limits) := by
  have sound := Model.sound_of_compile compiled
  obtain ⟨run, results, _, ran, partition⟩ := SingleComputation.exists_partition sound responded
  refine ⟨run.selectors, ran.resolved, fun chosen within => ⟨partition.once chosen within, ?_⟩⟩
  intro entry member slice inEntry covers
  obtain ⟨key, result, inKeys, represents, _, faithful⟩ := partition.faithful chosen within
  have same : result.consistent = entry.result :=
    eq_of_beq (faithful entry member slice inEntry covers)
  have all : ∀ left right : ConsistencyResult,
      (consistency.merge .all left right).consistent = true ↔
        left.consistent = true ∧ right.consistent = true :=
    fun _ _ => ConsistencyResult.merge_all_iff
  have any : ∀ left right : ConsistencyResult,
      (consistency.merge .any left right).consistent = true ↔
        left.consistent = true ∨ right.consistent = true :=
    fun _ _ => ConsistencyResult.merge_any_iff
  rw [← same]
  exact ran.holds_iff_exists_forall sound (·.consistent = true)
    (·.Consistent request.constraints limits) (consistent_iff_of_ran ran) inKeys within represents
    all any

theorem entry_result_iff_consistent_sample : ∃ model response selectors,
    Model.compile Sample.document = .ok model ∧
    consistency.respond "job" Sample.request model .standard = .ok response ∧
    Sample.request.resolve model.space consistency.allows consistency.defaultDiscipline =
      .ok selectors ∧
    ∀ chosen : Point, chosen.Within (Axis.having .split (model.axes selectors)) →
      (response.entries.flatMap (·.slices)).countP (·.covers chosen) = 1 ∧
      ∀ entry ∈ response.entries, ∀ slice ∈ entry.slices, slice.covers chosen = true →
        (entry.result = true ↔
          ∃ one : Point, one.Within (Axis.having .any (model.axes selectors)) ∧
            ∀ point : Point, point.Within (model.axes selectors) →
              point.Agrees chosen (Axis.having .split (model.axes selectors)) →
              point.Agrees one (Axis.having .any (model.axes selectors)) →
                (model.activation (point.slice (model.axes selectors))).Consistent
                  Sample.request.constraints .standard) := by
  obtain ⟨model, response, compiled, responded⟩ := Sample.exists_response
  obtain ⟨selectors, resolved, meaning⟩ := entry_result_iff_consistent compiled responded
  exact ⟨model, response, selectors, compiled, responded, resolved, meaning⟩

end RuleSlicing
