import RuleSlicing.Proofs.Conflicts
import RuleSlicing.Proofs.FiledDetails
import RuleSlicing.Proofs.Isolation

/-!
# Explanations are all that details add

To ask for all details changes nothing about a run but the explanations in its results.
An explanation is always found where the analysis came to a result, and which results are
combined and reported does not depend on it, so without it a response has the same
entries and status, and of the details those with an example.
-/

set_option autoImplicit false

namespace RuleSlicing

def Attempt.map {Result Other : Type} (transform : Result → Other) (attempt : Attempt Result) :
    Attempt Other :=
  ⟨attempt.outcome.map transform, attempt.notices⟩

def Run.map {Result Other : Type} (transform : Result → Other) (run : Run Result) : Run Other :=
  { run with keys := run.keys.map fun entry => (entry.1, transform entry.2) }

/-! ## Requests for less -/

namespace Computation

variable {Result : Type} {computation : Computation Result} {request brief : Request}
  {limits : Limits}

/-- A request gives the results of another one after a change that combining respects. -/
structure Gives (computation : Computation Result) (transform : Result → Result)
    (request brief : Request) (limits : Limits) : Prop where
  compute : ∀ set, computation.compute ⟨brief, set, limits⟩ =
    (computation.compute ⟨request, set, limits⟩).map transform
  merge : ∀ discipline left right, transform (computation.merge discipline left right) =
    computation.merge discipline (transform left) (transform right)
  fallback : transform computation.fallback = computation.fallback

variable {transform : Result → Result}
  (gives : computation.Gives transform request brief limits)

include gives

private theorem attempt_brief (set : SliceSet) :
    computation.attempt ⟨brief, set, limits⟩ =
      (computation.attempt ⟨request, set, limits⟩).map fun (result, notices) =>
        (transform result, notices) := by
  unfold attempt
  rw [gives.compute set]
  unfold Attempt.map
  simp only
  cases (computation.compute ⟨request, set, limits⟩).outcome with
  | ok result => rfl
  | error error =>
      simp only [Except.map]
      split
      · rfl
      · show _ = Except.ok (transform computation.fallback, _)
        rw [gives.fallback]
        rfl

private theorem attemptAll_brief (sets : List SliceSet) :
    computation.attemptAll brief limits sets =
      (computation.attemptAll request limits sets).map fun (results, notices) =>
        (results.map fun (set, result) => (set, transform result), notices) := by
  induction sets with
  | nil => rfl
  | cons set rest ih =>
      rw [attemptAll, attemptAll, attempt_brief gives, ih]
      cases computation.attempt ⟨request, set, limits⟩ with
      | error error => rfl
      | ok first => cases computation.attemptAll request limits rest <;> rfl

omit gives in
private theorem fanOut_map (results : List (SliceSet × Result)) :
    fanOut (results.map fun (set, result) => (set, transform result)) =
      (fanOut results).map fun entry => (entry.1, transform entry.2) := by
  unfold fanOut
  rw [List.flatMap_map, List.map_flatMap]
  refine List.flatMap_congr fun entry _ => ?_
  rw [List.map_map]
  rfl

/-- The runs fail alike, or that of the brief request is what is left of the other. -/
theorem run_brief {model : Model} (resolved :
    brief.resolve model.space computation.allows computation.defaultDiscipline =
      request.resolve model.space computation.allows computation.defaultDiscipline) :
    computation.run brief model limits =
      (computation.run request model limits).map (·.map transform) := by
  cases selected : request.resolve model.space computation.allows
      computation.defaultDiscipline with
  | error fault =>
      rw [run_of_unresolved selected, run_of_unresolved (resolved.trans selected)]
      rfl
  | ok selectors =>
      cases made : Slice.all selectors model.space.dimensions limits.maxSlices with
      | error error =>
          rw [run_of_unmade selected made, run_of_unmade (resolved.trans selected) made]
          rfl
      | ok slices =>
          rw [run_eq_map_attemptAll selected made,
            run_eq_map_attemptAll (resolved.trans selected) made, attemptAll_brief gives]
          cases computation.attemptAll request limits (SliceSet.group model slices) with
          | error error => rfl
          | ok done =>
              simp only [Except.map, fanOut_map, mergeBySplit_map gives.merge]
              rfl

omit gives in
/-- What holds of every result of a set and is kept by combining holds of all results that
are reported. -/
theorem holds_of_run {model : Model} {Holds : Result → Prop}
    (computed : ∀ task result, (computation.compute task).outcome = .ok result → Holds result)
    (fallback : Holds computation.fallback)
    (kept : ∀ discipline left right, Holds left → Holds right →
      Holds (computation.merge discipline left right))
    {run : Run Result} (success : computation.run request model limits = .ok run) :
    ∀ entry ∈ run.keys, Holds entry.2 := by
  obtain ⟨selectors, slices, _, _, _, rfl⟩ := eq_completeRun_of_run success
  rintro ⟨key, result⟩ member
  refine holds_of_mergeKey? kept (fun entry inKey => ?_) ((mem_mergeBySplit_iff _ _).mp member)
  obtain ⟨set, _, _, same⟩ := mem_resultsOf_iff.mp (List.mem_filter.mp inKey).1
  rw [← same]
  unfold resultOf
  split
  · rename_i outcome
    exact computed _ _ outcome
  · exact fallback

end Computation

/-! ## Results without explanations -/

/-- The same request without the wish for all details. -/
def Request.brief (request : Request) : Request := { request with allDetails := false }

def SliceTask.brief (task : SliceTask) : SliceTask := { task with request := task.request.brief }

namespace ConsistencyResult

/-- The same result without its explanation. -/
def brief (result : ConsistencyResult) : ConsistencyResult := { result with explanation? := none }

/-- What has an example has no explanation. -/
def Exclusive (result : ConsistencyResult) : Prop :=
  result.example?.isSome = true → result.explanation? = none

theorem merge_eq_or (discipline : Discipline) (left right : ConsistencyResult) :
    merge discipline left right = left ∨ merge discipline left right = right := by
  cases discipline with
  | any => exact ite_eq_or_eq _ _ _
  | all => exact (ite_eq_or_eq _ _ _).symm
  | split => exact ite_eq_or_eq _ _ _

theorem brief_merge (discipline : Discipline) (left right : ConsistencyResult) :
    (merge discipline left right).brief = merge discipline left.brief right.brief := by
  cases discipline <;> exact apply_ite brief _ _ _

end ConsistencyResult

namespace Consistency

variable {task : SliceTask}

/-- An explanation is found if the solver can take all rules and constraints. -/
theorem exists_explain {constraints : List Formula}
    (allows : task.limits.solver.allows
      (Formula.varsOfAll (task.theory.formulas ++ constraints)).size = true) :
    ∃ labels, explain task constraints = .ok labels := by
  cases explained : explain task constraints with
  | ok labels => exact ⟨labels, rfl⟩
  | error error =>
      rcases error_of_bind explained with failed | ⟨_, _, failed⟩
      · obtain ⟨tested, part, failed⟩ := Conflict.error_of_shrinkFrom failed
        refine absurd (TruthTable.Limit.allows_of_subset (fun formula member => ?_) allows)
          (SliceTask.not_allows_of_solve (error_of_map failed))
        rcases List.mem_append.mp member with fixed | rule
        · rcases List.mem_append.mp fixed with excluded | asked
          · exact List.mem_append_left _ (List.mem_append_right _ excluded)
          · exact List.mem_append_right _ asked
        · exact List.mem_append_left _ (List.mem_append_left _ ((part.map _).subset rule))
      · cases failed

theorem exists_inconsistent {constraints : List Formula} {solution : Option Assignment}
    (solved : task.solve (task.theory.formulas ++ constraints) = .ok solution) :
    ∃ result, inconsistent task constraints = .ok result := by
  unfold inconsistent
  split
  · obtain ⟨labels, explained⟩ := exists_explain (SliceTask.solve_eq_ok solved).1
    rw [explained]
    exact ⟨_, rfl⟩
  · exact ⟨_, rfl⟩

/-- The analysis succeeds if the constraints mean something and the variables are not too
many. -/
theorem exists_outcome (interprets : task.set.activation.Interprets task.request.constraints)
    (small : (task.set.activation.unknowns task.request.constraints).size ≤
      Nat.min task.limits.maxVariables TruthTable.wordVariables) :
    ∃ result, (compute task).outcome = .ok result := by
  have allows : task.limits.solver.allows (Formula.varsOfAll (task.theory.formulas ++
      task.request.constraints.map Constraint.formula)).size = true := by
    rw [← Activation.varsOfAll_formulas] at small
    exact decide_eq_true small
  obtain ⟨alone, solvedAlone⟩ := SliceTask.exists_solution <|
    TruthTable.Limit.allows_of_subset (List.subset_append_left _ _) allows
  obtain ⟨together, solvedTogether⟩ := SliceTask.exists_solution allows
  have translated := SliceTask.constraints_eq_ok_iff.mpr ⟨interprets, rfl⟩
  unfold compute
  simp only [solvedAlone, translated]
  cases alone with
  | none =>
      rw [← List.append_nil task.theory.formulas] at solvedAlone
      exact exists_inconsistent solvedAlone
  | some assignment =>
      simp only
      split
      · rename_i failed
        cases failed
      · exact ⟨_, rfl⟩
      · rename_i formulas _ same
        cases same
        simp only [solvedTogether]
        cases together with
        | none => exact exists_inconsistent solvedTogether
        | some other => exact ⟨_, rfl⟩

theorem errors_of_compute (task : SliceTask) : (compute task).notices.errors = [] := by
  unfold compute
  simp only
  split
  · rfl
  · rfl
  · split
    · rfl
    · rfl
    · split <;> rfl

private theorem inconsistent_brief {constraints : List Formula} {solution : Option Assignment}
    (solved : task.solve (task.theory.formulas ++ constraints) = .ok solution) :
    inconsistent task.brief constraints = (inconsistent task constraints).map (·.brief) := by
  have short : inconsistent task.brief constraints = .ok (.inconsistent none) := rfl
  rw [short]
  unfold inconsistent
  split
  · obtain ⟨labels, explained⟩ := exists_explain (SliceTask.solve_eq_ok solved).1
    rw [explained]
    rfl
  · rfl

theorem compute_brief (task : SliceTask) :
    compute task.brief = (compute task).map ConsistencyResult.brief := by
  have solve : task.brief.solve = task.solve := rfl
  have constraints : task.brief.constraints = task.constraints := rfl
  have theory : task.brief.theory = task.theory := rfl
  have slice : task.brief.slice = task.slice := rfl
  unfold compute
  simp only [solve, constraints, theory, slice]
  cases alone : task.solve task.theory.formulas with
  | error error => rfl
  | ok solution =>
      cases solution with
      | none =>
          -- The solver took these variables, so it takes those of an explanation.
          rw [← List.append_nil task.theory.formulas] at alone
          simp only [inconsistent_brief alone]
          rfl
      | some assignment =>
          cases translated : task.constraints with
          | error error => rfl
          | ok formulas =>
              cases formulas with
              | nil => rfl
              | cons first rest =>
                  cases together : task.solve (task.theory.formulas ++ first :: rest) with
                  | error error => simp only [together]; rfl
                  | ok solution =>
                      cases solution with
                      | none =>
                          simp only [together, inconsistent_brief together]
                          rfl
                      | some assignment => simp only [together]; rfl

theorem exclusive_of_compute {result : ConsistencyResult}
    (computed : (compute task).outcome = .ok result) : result.Exclusive := by
  have ofInconsistent : ∀ {constraints}, inconsistent task constraints = .ok result →
      result.Exclusive := by
    intro constraints made
    unfold inconsistent at made
    split at made
    · obtain ⟨_, _, rfl⟩ := ok_of_map made
      exact fun isSome => nomatch isSome
    · cases made
      exact fun isSome => nomatch isSome
  rcases outcome_eq_ok computed with ⟨_, made⟩ | ⟨_, _, _, _, _, made⟩ | ⟨_, _, _, _, rfl⟩
  · exact ofInconsistent made
  · exact ofInconsistent made
  · exact fun _ => rfl

theorem detail?_brief {result : ConsistencyResult} (exclusive : result.Exclusive) :
    detail? result.brief = (detail? result).filter (·.example?.isSome) := by
  obtain ⟨consistent, example?, explanation?⟩ := result
  cases example? with
  | none => cases explanation? <;> rfl
  | some codes =>
      obtain rfl : explanation? = none := exclusive rfl
      rfl

theorem gives_brief (request : Request) (limits : Limits) :
    consistency.Gives ConsistencyResult.brief request request.brief limits where
  compute set := compute_brief ⟨request, set, limits⟩
  merge := ConsistencyResult.brief_merge
  fallback := rfl

theorem exclusive_of_run {request : Request} {model : Model} {limits : Limits}
    {run : Run ConsistencyResult} (success : consistency.run request model limits = .ok run) :
    ∀ entry ∈ run.keys, entry.2.Exclusive := by
  refine Computation.holds_of_run (fun _ _ => exclusive_of_compute) (fun _ => rfl) ?_ success
  intro discipline left right leftExclusive rightExclusive
  show (ConsistencyResult.merge discipline left right).Exclusive
  rcases ConsistencyResult.merge_eq_or discipline left right with same | same
  · rwa [same]
  · rwa [same]

end Consistency

/-! ## Responses without explanations -/

namespace SingleComputation

variable {Result Main Detail : Type} [BEq Main] {computation : SingleComputation Result Main Detail}

theorem groups_map {transform : Result → Result}
    (same : ∀ result, computation.main (transform result) = computation.main result)
    (run : Run Result) :
    computation.groups (run.map transform) =
      (computation.groups run).map fun (id, result, keys) =>
        (id, result, keys.map fun entry => (entry.1, transform entry.2)) := by
  unfold groups Run.map
  simp only
  rw [groupBy_map, numbered_map]
  simp only [same]

theorem reported_map (model : Model) (transform : Result → Result) (run : Run Result) :
    (run.map transform).reported model = run.reported model := by
  unfold Run.reported Run.map
  rw [List.map_map]
  rfl

variable (computation) in
/-- The response that reports a run. -/
def report (jobId : String) (request : Request) (model : Model) (run : Run Result) :
    SingleResponse Main Detail where
  status := .ofRun jobId request .single run
  entries := computation.entriesOf run (run.reported model)
  details := (computation.fileDetails (computation.entriesOf run (run.reported model))
    run.keys).entries

theorem respond_eq_map_report (jobId : String) (request : Request) (model : Model)
    (limits : Limits) : computation.respond jobId request model limits =
      (computation.run request model limits).map (computation.report jobId request model) := by
  unfold respond
  cases computation.run request model limits <;> rfl

/-- The details of each group are reported under its number. -/
theorem details_report [EquivBEq Main] (jobId : String) (request : Request) (model : Model)
    (run : Run Result) : (computation.report jobId request model run).details =
      ((computation.groups run).map fun (id, _, keys) => (id, computation.detailsOf keys)).filter
        fun (_, details) => !details.isEmpty :=
  entries_fileDetails

/-- Entries without details have nothing to contribute. -/
theorem flatMap_occupied {Target : Type} {make : Nat × List (SliceDetail Detail) → List Target}
    (none : ∀ id, make (id, []) = []) (filed : List (Nat × List (SliceDetail Detail))) :
    (filed.filter fun (_, details) => !details.isEmpty).flatMap make = filed.flatMap make := by
  induction filed with
  | nil => rfl
  | cons first rest ih =>
      obtain ⟨id, details⟩ := first
      cases details with
      | nil => rw [List.flatMap_cons, none, List.nil_append, ← ih, List.filter_cons_of_neg (by simp)]
      | cons detail others =>
          rw [List.filter_cons_of_pos (by simp), List.flatMap_cons, List.flatMap_cons, ih]

end SingleComputation

/-- The same response with no details but those with an example. -/
def SingleResponse.onlyExamples (response : SingleResponse Bool ConsistencyDetail) :
    SingleResponse Bool ConsistencyDetail :=
  { response with
    details := (response.details.map fun (id, details) =>
      (id, details.filter (·.detail.example?.isSome))).filter fun (_, details) =>
        !details.isEmpty }

private theorem detailsOf_brief {keys : List (Slice × ConsistencyResult)}
    (exclusive : ∀ entry ∈ keys, entry.2.Exclusive) :
    consistency.detailsOf (keys.map fun entry => (entry.1, entry.2.brief)) =
      (consistency.detailsOf keys).filter (·.detail.example?.isSome) := by
  unfold SingleComputation.detailsOf
  rw [List.filterMap_map, List.filter_filterMap]
  refine List.filterMap_congr fun entry member => ?_
  show (Consistency.detail? entry.2.brief).map _ = _
  rw [Consistency.detail?_brief (exclusive entry member), Option.filter_map]
  rfl

/-- What is dropped first would be dropped later as well. -/
private theorem filter_map_filter {Item : Type} {keep : Item → Bool} {change : Item → Item}
    (dropped : ∀ item, keep (change item) = true → keep item = true) (items : List Item) :
    ((items.filter keep).map change).filter keep = (items.map change).filter keep := by
  rw [List.filter_map, List.filter_map, List.filter_filter]
  refine congrArg (List.map change) (List.filter_congr fun item _ => ?_)
  rw [Bool.and_eq_left_iff_imp]
  exact dropped item

private theorem report_brief (jobId : String) (request : Request) (model : Model)
    {run : Run ConsistencyResult} (exclusive : ∀ entry ∈ run.keys, entry.2.Exclusive) :
    consistency.report jobId request.brief model (run.map ConsistencyResult.brief) =
      (consistency.report jobId request model run).onlyExamples := by
  have groups := @SingleComputation.groups_map _ _ _ _ consistency ConsistencyResult.brief
    (fun _ => rfl) run
  refine SingleResponse.ext rfl ?_ ?_
  · show SingleComputation.entriesOf _ _ _ = SingleComputation.entriesOf _ _ _
    unfold SingleComputation.entriesOf
    rw [groups, SingleComputation.reported_map, List.map_map]
    refine List.map_congr_left fun group _ => ?_
    show Entry.ofKeys _ _ _ ((group.2.2.map _).map _) = _
    rw [List.map_map]
    rfl
  · -- Entries without details are left out, before and after details are dropped.
    unfold SingleResponse.onlyExamples
    rw [SingleComputation.details_report, SingleComputation.details_report, groups,
      filter_map_filter ?_, List.map_map, List.map_map]
    · refine congrArg (List.filter _) (List.map_congr_left fun group member => ?_)
      exact congrArg (Prod.mk group.1) <| detailsOf_brief fun entry inGroup =>
        exclusive entry (SingleComputation.mem_keys_of_mem_groups member inGroup)
    · rintro ⟨id, details⟩ occupied
      cases details with
      | nil => exact occupied
      | cons detail rest => rfl

/-- Two requests that differ in the wish for all details only fail alike or have the same
response but for the details, which without the wish are those with an example. -/
theorem Consistency.respond_without_details (jobId : String) (request : Request) (model : Model)
    (limits : Limits) :
    consistency.respond jobId { request with allDetails := false } model limits =
      (consistency.respond jobId { request with allDetails := true } model limits).map
        (·.onlyExamples) := by
  have ran : consistency.run { request with allDetails := false } model limits =
      (consistency.run { request with allDetails := true } model limits).map
        (·.map ConsistencyResult.brief) :=
    Computation.run_brief (gives_brief { request with allDetails := true } limits) rfl
  rw [SingleComputation.respond_eq_map_report, SingleComputation.respond_eq_map_report, ran]
  cases success : consistency.run { request with allDetails := true } model limits with
  | error error => rfl
  | ok run =>
      exact congrArg Except.ok (report_brief jobId { request with allDetails := true } model
        (exclusive_of_run success))

end RuleSlicing
