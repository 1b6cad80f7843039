import RuleSlicing.Analysis.Run
import RuleSlicing.Proofs.Outcomes

/-!
# What becomes of the sets of a run

The result of a set is its own or, after a failure, the fallback, and a failure that
is not fatal adds one error to what the analysis itself reports. A run attempts its
sets in order: the first fatal failure ends it, and without one it has a result for
every set.
-/

set_option autoImplicit false

namespace RuleSlicing

/-- The messages of several sets, one after another. -/
def Notices.all (parts : List Notices) : Notices :=
  ⟨parts.flatMap (·.errors), parts.flatMap (·.warnings), parts.flatMap (·.infos)⟩

namespace Computation

variable {Result : Type} (computation : Computation Result)

/-! ## One set of slices -/

/-- What counts as the result of a set: its own, or the fallback if it failed. -/
def resultOf (task : SliceTask) : Result :=
  match (computation.compute task).outcome with
  | .ok result => result
  | .error _ => computation.fallback

def failure? (task : SliceTask) : Option AnalysisError :=
  match (computation.compute task).outcome with
  | .ok _ => none
  | .error error => some error

/-- The messages of a set: those of its analysis and, if it failed, an error that names
its slice. -/
def noticesOf (task : SliceTask) : Notices where
  errors := (computation.compute task).notices.errors ++
    (computation.failure? task).toList.map fun error =>
      "slice " ++ task.slice.render ++ ": " ++ error.message
  warnings := (computation.compute task).notices.warnings
  infos := (computation.compute task).notices.infos

/-- The analysis of a set fails in a way that ends the whole run. -/
def FailsFatally (task : SliceTask) (error : AnalysisError) : Prop :=
  (computation.compute task).outcome = .error error ∧ error.isFatal = true

/-- No set fails in a way that ends the whole run. -/
def NoneFatal (request : Request) (limits : Limits) (sets : List SliceSet) : Prop :=
  ∀ set ∈ sets, ∀ error, ¬computation.FailsFatally ⟨request, set, limits⟩ error

variable {computation} {task : SliceTask}

theorem resultOf_congr {other : Computation Result} {otherTask : SliceTask}
    (outcome : (computation.compute task).outcome = (other.compute otherTask).outcome)
    (fallback : computation.fallback = other.fallback) :
    computation.resultOf task = other.resultOf otherTask := by
  unfold resultOf
  rw [outcome, fallback]

theorem attempt_of_failsFatally {error : AnalysisError}
    (fatal : computation.FailsFatally task error) : computation.attempt task = .error error := by
  unfold attempt
  simp only [fatal.1, fatal.2, if_true]

theorem attempt_of_not_failsFatally (mild : ∀ error, ¬computation.FailsFatally task error) :
    computation.attempt task = .ok (computation.resultOf task, computation.noticesOf task) := by
  unfold attempt resultOf noticesOf failure?
  simp only
  cases outcome : (computation.compute task).outcome with
  | ok result =>
      simp only [Option.toList_none, List.map_nil, List.append_nil]
  | error error =>
      have notFatal : ¬error.isFatal = true := fun isFatal => mild error ⟨outcome, isFatal⟩
      simp only [if_neg notFatal]
      show Except.ok (_, Notices.mk _ (_ ++ []) (_ ++ [])) = _
      rw [List.append_nil, List.append_nil]
      rfl

/-! ## Sets in order -/

section Sets

variable {request : Request} {limits : Limits}

theorem attemptAll_of_noneFatal {sets : List SliceSet}
    (mild : computation.NoneFatal request limits sets) :
    computation.attemptAll request limits sets = .ok
      (sets.map fun set => (set, computation.resultOf ⟨request, set, limits⟩),
        .all (sets.map fun set => computation.noticesOf ⟨request, set, limits⟩)) := by
  induction sets with
  | nil => rfl
  | cons set rest ih =>
      obtain ⟨setMild, restMild⟩ := List.forall_mem_cons.mp mild
      rw [attemptAll, attempt_of_not_failsFatally setMild, ih restMild]
      rfl

theorem attemptAll_of_failsFatally {before after : List SliceSet} {set : SliceSet}
    {error : AnalysisError} (mild : computation.NoneFatal request limits before)
    (fatal : computation.FailsFatally ⟨request, set, limits⟩ error) :
    computation.attemptAll request limits (before ++ set :: after) = .error error := by
  induction before with
  | nil =>
      rw [List.nil_append, attemptAll, attempt_of_failsFatally fatal]
      rfl
  | cons first rest ih =>
      obtain ⟨firstMild, restMild⟩ := List.forall_mem_cons.mp mild
      rw [List.cons_append, attemptAll, attempt_of_not_failsFatally firstMild, ih restMild]
      rfl

theorem noneFatal_of_mild (mild : ∀ set error,
      (computation.compute ⟨request, set, limits⟩).outcome = .error error → error.isFatal = false)
    (sets : List SliceSet) : computation.NoneFatal request limits sets :=
  fun set _ error fatal => Bool.false_ne_true ((mild set error fatal.1).symm.trans fatal.2)

variable (computation request limits) in
/-- Either no set fails fatally, or there is a first one that does. -/
theorem noneFatal_or_exists_first (sets : List SliceSet) :
    computation.NoneFatal request limits sets ∨
      ∃ before set after error, sets = before ++ set :: after ∧
        computation.NoneFatal request limits before ∧
        computation.FailsFatally ⟨request, set, limits⟩ error := by
  induction sets with
  | nil => exact .inl fun _ member => absurd member List.not_mem_nil
  | cons set rest ih =>
      by_cases fatal : ∃ error, computation.FailsFatally ⟨request, set, limits⟩ error
      · obtain ⟨error, fatal⟩ := fatal
        exact .inr ⟨[], set, rest, error, rfl, fun _ member => absurd member List.not_mem_nil,
          fatal⟩
      · have setMild := not_exists.mp fatal
        rcases ih with mild | ⟨before, later, after, error, rfl, mild, fatal⟩
        · exact .inl (List.forall_mem_cons.mpr ⟨setMild, mild⟩)
        · exact .inr ⟨set :: before, later, after, error, rfl,
            List.forall_mem_cons.mpr ⟨setMild, mild⟩, fatal⟩

end Sets

/-! ## Runs -/

section Runs

variable {request : Request} {model : Model} {limits : Limits} {selectors : List Selector}
  {slices : List Slice}

variable (computation request limits) in
/-- The results of the slices of some sets, set by set. -/
def resultsOf (sets : List SliceSet) : List (Slice × Result) :=
  sets.flatMap fun set => set.slices.map fun slice =>
    (slice, computation.resultOf ⟨request, set, limits⟩)

theorem mem_resultsOf_iff {sets : List SliceSet} {slice : Slice} {result : Result} :
    (slice, result) ∈ computation.resultsOf request limits sets ↔
      ∃ set ∈ sets, slice ∈ set.slices ∧ computation.resultOf ⟨request, set, limits⟩ = result := by
  unfold resultsOf
  rw [List.mem_flatMap]
  refine exists_congr fun set => and_congr_right fun _ => ?_
  rw [List.mem_map]
  constructor
  · intro given
    obtain ⟨_, member, same⟩ := given
    cases same
    exact ⟨member, rfl⟩
  · intro given
    obtain ⟨member, rfl⟩ := given
    exact ⟨slice, member, rfl⟩

theorem map_fst_resultsOf (sets : List SliceSet) :
    (computation.resultsOf request limits sets).map (·.1) = sets.flatMap (·.slices) := by
  unfold resultsOf
  rw [List.map_flatMap]
  refine List.flatMap_congr fun set _ => ?_
  rw [List.map_map]
  exact List.map_id _

variable (computation request model limits selectors slices) in
/-- The run on the slices of a request, if none of their sets fails fatally. -/
def completeRun : Run Result where
  selectors
  sets := SliceSet.group model slices
  keys := computation.mergeBySplit
    (computation.resultsOf request limits (SliceSet.group model slices))
  notices := unusedNotices model.space ++
    .all ((SliceSet.group model slices).map fun set =>
      computation.noticesOf ⟨request, set, limits⟩)

theorem run_of_unresolved {fault : RequestFault}
    (unresolved : request.resolve model.space computation.allows computation.defaultDiscipline =
      .error fault) : computation.run request model limits = .error fault.toError := by
  unfold run
  rw [unresolved]
  rfl

variable (resolved : request.resolve model.space computation.allows computation.defaultDiscipline =
  .ok selectors)

include resolved

theorem run_of_unmade {error : AnalysisError}
    (unmade : Slice.all selectors model.space.dimensions limits.maxSlices = .error error) :
    computation.run request model limits = .error error := by
  unfold run
  rw [resolved]
  show (Slice.all selectors model.space.dimensions limits.maxSlices >>= _) = _
  rw [unmade]
  rfl

variable (made : Slice.all selectors model.space.dimensions limits.maxSlices = .ok slices)

include made

/-- On slices that could be made a run is what becomes of their sets. -/
theorem run_eq_map_attemptAll :
    computation.run request model limits =
      (computation.attemptAll request limits (SliceSet.group model slices)).map
        fun (results, notices) =>
          { selectors, sets := SliceSet.group model slices
            keys := computation.mergeBySplit (fanOut results)
            notices := unusedNotices model.space ++ notices } := by
  unfold run
  rw [resolved]
  show (Slice.all selectors model.space.dimensions limits.maxSlices >>= _) = _
  rw [made]
  show (computation.attemptAll request limits (SliceSet.group model slices) >>= _) = _
  cases computation.attemptAll request limits (SliceSet.group model slices) <;> rfl

theorem run_of_failsFatally {before after : List SliceSet} {set : SliceSet} {error : AnalysisError}
    (sets : SliceSet.group model slices = before ++ set :: after)
    (mild : computation.NoneFatal request limits before)
    (fatal : computation.FailsFatally ⟨request, set, limits⟩ error) :
    computation.run request model limits = .error error := by
  rw [run_eq_map_attemptAll resolved made, sets, attemptAll_of_failsFatally mild fatal]
  rfl

theorem run_of_noneFatal
    (mild : computation.NoneFatal request limits (SliceSet.group model slices)) :
    computation.run request model limits =
      .ok (computation.completeRun request model limits selectors slices) := by
  rw [run_eq_map_attemptAll resolved made, attemptAll_of_noneFatal mild]
  unfold completeRun resultsOf fanOut
  simp only [Except.map, List.flatMap_map]

omit resolved made in
/-- A run that succeeds is the one without fatal failures. -/
theorem eq_completeRun_of_run {run : Run Result}
    (success : computation.run request model limits = .ok run) :
    ∃ selectors slices,
      request.resolve model.space computation.allows computation.defaultDiscipline =
        .ok selectors ∧
      Slice.all selectors model.space.dimensions limits.maxSlices = .ok slices ∧
      computation.NoneFatal request limits (SliceSet.group model slices) ∧
      run = computation.completeRun request model limits selectors slices := by
  obtain ⟨selectors, found, rest⟩ := ok_of_bind success
  obtain ⟨slices, made, _⟩ := ok_of_bind rest
  have resolved := ok_of_mapError found
  refine ⟨selectors, slices, resolved, made, ?_⟩
  rcases computation.noneFatal_or_exists_first request limits (SliceSet.group model slices) with
    mild | ⟨_, _, _, _, sets, mild, fatal⟩
  · rw [run_of_noneFatal resolved made mild] at success
    exact ⟨mild, (Except.ok.inj success).symm⟩
  · rw [run_of_failsFatally resolved made sets mild fatal] at success
    cases success

end Runs

end Computation

end RuleSlicing
