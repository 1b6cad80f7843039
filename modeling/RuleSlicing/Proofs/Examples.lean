import RuleSlicing.Proofs.Buildability
import RuleSlicing.Proofs.Consistency
import RuleSlicing.Proofs.Details
import RuleSlicing.Proofs.Solutions

/-!
# What an example shows

A set of slices is found consistent by a solution of its rules and the constraints. The
features that the solution makes true are active, and to choose exactly these satisfies
the rules and the constraints. Combining results keeps one of them, so the example that is
reported for a combination of values is one of a slice with these values.
-/

set_option autoImplicit false

namespace RuleSlicing

/-- The constraints mean something, and to choose some active features and no others
satisfies the rules and the constraints. -/
structure Activation.ShownBy (activation : Activation) (constraints codes : List String) :
    Prop where
  interprets : activation.Interprets constraints
  active : ∀ code ∈ codes, code ∈ activation.codes
  satisfies : activation.Satisfies constraints (.ofTrue codes)

/-! ## One set of slices -/

namespace Consistency

variable {task : SliceTask}

theorem shownBy_of_solve {constraints : List String} {assignment : Assignment}
    (interprets : task.set.activation.Interprets constraints)
    (solved : task.solve (task.set.activation.formulas constraints) = .ok (some assignment)) :
    task.set.activation.ShownBy constraints assignment.positive := by
  have solved := ok_of_mapError solved
  have satisfies : task.set.activation.Satisfies constraints (.ofTrue assignment.positive) := by
    rw [assignment.ofTrue_positive]
    exact Activation.solves_formulas_iff.mp (TruthTable.solves_of_solve solved)
  refine ⟨interprets, fun code positive => ?_, satisfies⟩
  have unknown := TruthTable.mem_varsOfAll_of_positive solved positive
  rw [Activation.varsOfAll_formulas] at unknown
  rcases (SortedSet.mem_union_iff _ _ _).mp unknown with inRules | asked
  · -- A rule variable that is not active has been excluded.
    by_contra inactive
    have isFalse := satisfies.absent code inRules inactive
    have isTrue : Valuation.ofTrue assignment.positive code = true :=
      List.contains_iff_mem.mpr positive
    exact Bool.false_ne_true (isFalse.symm.trans isTrue)
  · obtain ⟨text, inConstraints, named⟩ := List.mem_flatMap.mp
      ((SortedSet.mem_ofList_iff _ _).mp asked)
    obtain ⟨literal, inText, rfl⟩ := List.mem_map.mp named
    obtain ⟨literals, parsed, active⟩ := interprets text inConstraints
    rw [Constraint.literals_of_parse parsed] at inText
    exact active literal inText

/-- A positive result has no explanation, and an example that shows it. -/
theorem shownBy_of_compute {result : ConsistencyResult}
    (computed : (compute task).outcome = .ok result) (positive : result.consistent = true) :
    ∃ codes, result = ⟨true, some codes, none⟩ ∧
      task.set.activation.ShownBy task.request.constraints codes := by
  rcases outcome_eq_ok computed with ⟨_, made⟩ | ⟨_, _, _, _, _, made⟩ |
    ⟨assignment, constraints, translated, solved, rfl⟩
  · rw [consistent_of_inconsistent made] at positive
    cases positive
  · rw [consistent_of_inconsistent made] at positive
    cases positive
  · obtain ⟨interprets, rfl⟩ := SliceTask.constraints_eq_ok_iff.mp translated
    exact ⟨assignment.positive, rfl, shownBy_of_solve interprets solved⟩

end Consistency

/-! ## Combinations of values -/

section Ran

variable {request : Request} {model : Model} {limits : Limits} {run : Run ConsistencyResult}
  {results : List (Slice × ConsistencyResult)}
  (ran : consistency.Ran request model limits run results)

include ran

/-- The result of a combination is that of a slice with its values. -/
theorem Consistency.exists_slice_of_key {key : Slice} {result : ConsistencyResult}
    (member : (key, result) ∈ run.keys) :
    ∃ slice, (slice, result) ∈ results ∧ slice.project .split = key := by
  have merged := (Computation.mem_mergeBySplit_iff _ _).mp (ran.keys ▸ member)
  obtain ⟨slice, inFiber⟩ := Computation.exists_of_mergeKey? ConsistencyResult.merge_eq_or merged
  obtain ⟨inResults, isKey⟩ := List.mem_filter.mp inFiber
  exact ⟨slice, inResults, eq_of_beq isKey⟩

theorem Consistency.shownBy_of_ran {slice : Slice} {result : ConsistencyResult}
    (member : (slice, result) ∈ results) (positive : result.consistent = true) :
    ∃ codes, result = ⟨true, some codes, none⟩ ∧
      (model.activation slice).ShownBy request.constraints codes := by
  obtain ⟨set, _, active, attempted, _⟩ := ran.attempted _ member
  rw [← active]
  rcases Computation.attempt_eq_ok attempted with computed | ⟨_, isFallback, _⟩
  · exact shownBy_of_compute computed positive
  · rw [show result = consistency.fallback from isFallback] at positive
    cases positive

end Ran

/-! ## Details of a combination -/

namespace SingleComputation

variable {Result Main Detail : Type} [BEq Main] [EquivBEq Main]
  {computation : SingleComputation Result Main Detail}

variable (computation) (jobId : String) (request : Request) (model : Model) (run : Run Result)

/-- All details together are those of the combinations. -/
theorem perm_details :
    ((computation.report jobId request model run).details.flatMap (·.2)).Perm
      (computation.detailsOf run.keys) := by
  have filed : (computation.report jobId request model run).details.flatMap (·.2) =
      computation.detailsOf ((computation.groups run).flatMap (·.2.2)) := by
    unfold detailsOf
    rw [details_report, flatMap_occupied fun _ => rfl, List.flatMap_map, List.filterMap_flatMap]
    rfl
  rw [filed]
  exact (perm_groups run).filterMap _

variable {run}

/-- The details of a combination are what its result has to report. -/
theorem details_of_key (unique : (run.keys.map (·.1)).Nodup) {key : Slice} {result : Result}
    (member : (key, result) ∈ run.keys) :
    ((computation.report jobId request model run).details.flatMap (·.2)).filter (·.slice = key) =
      ((computation.detail? result).map (SliceDetail.mk key)).toList := by
  have perm := (perm_details computation jobId request model run).filter (·.slice = key)
  have alone : (computation.detailsOf run.keys).filter (·.slice = key) =
      ((computation.detail? result).map (SliceDetail.mk key)).toList := by
    refine filter_filterMap_key unique (fun entry record made => ?_) member
    obtain ⟨_, _, rfl⟩ := Option.map_eq_some_iff.mp made
    rfl
  rw [alone] at perm
  cases reported : computation.detail? result with
  | none =>
      rw [reported] at perm
      exact perm.eq_nil
  | some detail =>
      rw [reported] at perm
      exact List.perm_singleton.mp perm

end SingleComputation

/-! ## Responses -/

/-- A combination of values that is found consistent has one detail: an example, which is
shown in one of the slices with these values, and no explanation. -/
theorem detail_of_consistent_key {document : ModelDocument} {model : Model}
    (compiled : Model.compile document = .ok model) {jobId : String} {request : Request}
    {limits : Limits} {response : SingleResponse Bool ConsistencyDetail}
    (responded : consistency.respond jobId request model limits = .ok response) :
    ∃ run slices, consistency.run request model limits = .ok run ∧
      request.resolve model.space consistency.allows consistency.defaultDiscipline =
        .ok run.selectors ∧
      Slice.all run.selectors model.space.dimensions limits.maxSlices = .ok slices ∧
      ∀ key result, (key, result) ∈ run.keys → result.consistent = true → ∃ codes,
        (response.details.flatMap (·.2)).filter (·.slice = key) = [⟨key, some codes, none⟩] ∧
        ∃ slice ∈ slices, slice.project .split = key ∧
          (model.activation slice).ShownBy request.constraints codes := by
  rw [SingleComputation.respond_eq_map_report] at responded
  obtain ⟨run, success, rfl⟩ := ok_of_map responded
  obtain ⟨results, ran⟩ := Computation.exists_ran (Model.sound_of_compile compiled) success
  obtain ⟨slices, made, perm⟩ := ran.made
  refine ⟨run, slices, success, ran.resolved, made, fun key result member positive => ?_⟩
  obtain ⟨slice, inResults, isKey⟩ := Consistency.exists_slice_of_key ran member
  obtain ⟨codes, rfl, shown⟩ := Consistency.shownBy_of_ran ran inResults positive
  refine ⟨codes, ?_, slice, ?_, isKey, shown⟩
  · exact SingleComputation.details_of_key consistency jobId request model ran.nodup_keys member
  · exact perm.mem_iff.mp (List.mem_map_of_mem (f := (·.1)) inResults)

namespace Sample

variable {model : Model} (compiled : Model.compile document = .ok model)

include compiled

/-- Whatever is active, to choose nothing satisfies the only rule. -/
theorem consistent_activation (slice : Slice) :
    (model.activation slice).Consistent [] .standard := by
  refine ⟨fun _ none => absurd none List.not_mem_nil, ?_, fun _ => false, ?_, fun _ _ _ => rfl,
    fun _ none => absurd none List.not_mem_nil⟩
  · refine Nat.le_trans (SortedSet.size_le_of_subset fun name member => ?_)
      (unknowns_small compiled)
    exact Model.mem_unknowns_of_activation ((SortedSet.mem_union_iff _ _ _).mpr (.inl member))
  · intro rule active
    have inModel := (List.mem_filter.mp active).1
    cases compiled
    rw [List.mem_singleton.mp inModel]
    rfl

theorem exists_consistent_key {run : Run ConsistencyResult}
    (success : consistency.run request model .standard = .ok run) :
    ∃ key result, (key, result) ∈ run.keys ∧ result.consistent = true := by
  have sound := Model.sound_of_compile compiled
  obtain ⟨results, ran⟩ := Computation.exists_ran sound success
  obtain ⟨point, relevant⟩ := ran.exists_relevant sound
  obtain ⟨⟨key, result⟩, member, _⟩ := List.mem_map.mp <| (ran.mem_map_keys_iff sound).mpr
    ⟨point, fun axis inSplit => relevant axis (Axis.mem_having_iff.mp inSplit).1, rfl⟩
  obtain ⟨slice, inResults, _⟩ := Consistency.exists_slice_of_key ran member
  exact ⟨key, result, member, (consistent_iff_of_ran ran _ inResults).mpr
    (consistent_activation compiled slice)⟩

end Sample

theorem detail_of_consistent_key_sample : ∃ model response run slices key result codes,
    Model.compile Sample.document = .ok model ∧
    consistency.respond "job" Sample.request model .standard = .ok response ∧
    consistency.run Sample.request model .standard = .ok run ∧
    Sample.request.resolve model.space consistency.allows consistency.defaultDiscipline =
      .ok run.selectors ∧
    Slice.all run.selectors model.space.dimensions Limits.standard.maxSlices = .ok slices ∧
    (key, result) ∈ run.keys ∧ result.consistent = true ∧
    (response.details.flatMap (·.2)).filter (·.slice = key) = [⟨key, some codes, none⟩] ∧
    ∃ slice ∈ slices, slice.project .split = key ∧
      (model.activation slice).ShownBy Sample.request.constraints codes := by
  obtain ⟨model, response, compiled, responded⟩ := Sample.exists_response
  obtain ⟨run, slices, success, resolved, made, shown⟩ :=
    detail_of_consistent_key compiled responded
  obtain ⟨key, result, member, positive⟩ := Sample.exists_consistent_key compiled success
  obtain ⟨codes, reported, inSlice⟩ := shown key result member positive
  exact ⟨model, response, run, slices, key, result, codes, compiled, responded, success, resolved,
    made, member, positive, reported, inSlice⟩

end RuleSlicing
