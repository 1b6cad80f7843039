import RuleSlicing.Proofs.Calls
import RuleSlicing.Proofs.Failures
import RuleSlicing.Proofs.Runs
import RuleSlicing.Response.Status

/-!
# Failures stay with their sets

A run analyses its sets in order, each once, up to the first fatal failure. If there
is none, it accounts for every set: in its numbers, in its messages, and in what it
combines, where a set that failed counts with the fallback. What happens to a set does
not change the results of combinations that have no slice in it.
-/

set_option autoImplicit false

namespace RuleSlicing

namespace Computation

variable {Result : Type} {computation : Computation Result} {request : Request} {model : Model}
  {limits : Limits}

/-! ## Two runs -/

/-- Computations that give the same results to the sets of a combination give it the
same results of slices. -/
private theorem filter_resultsOf_congr {other : Computation Result} {sets : List SliceSet}
    {key : Slice}
    (same : ∀ set ∈ sets, (∃ slice ∈ set.slices, slice.project .split = key) →
      computation.resultOf ⟨request, set, limits⟩ = other.resultOf ⟨request, set, limits⟩) :
    (computation.resultsOf request limits sets).filter (fun entry => entry.1.project .split == key) =
      (other.resultsOf request limits sets).filter fun entry => entry.1.project .split == key := by
  unfold resultsOf
  rw [List.filter_flatMap, List.filter_flatMap]
  refine List.flatMap_congr fun set member => ?_
  rw [List.filter_map, List.filter_map]
  refine List.map_congr_left fun slice inFilter => ?_
  obtain ⟨inSet, hasKey⟩ := List.mem_filter.mp inFilter
  rw [same set member ⟨slice, inSet, eq_of_beq hasKey⟩]

/-- Which combinations are reported depends on the slices alone. -/
private theorem map_fst_keys (computation : Computation Result) (sets : List SliceSet) :
    (computation.mergeBySplit (computation.resultsOf request limits sets)).map (·.1) =
      keysFrom (·.project .split) ∅ (sets.flatMap (·.slices)) := by
  rw [map_fst_mergeBySplit, map_fst_groupByHash, ← @map_fst_resultsOf _ computation request limits,
    keysFrom_map]

/-! ## What a run accounts for -/

/-- A run that succeeds counts its sets and their slices, and reports and combines what
each set gives. -/
structure Accounts (computation : Computation Result) (request : Request) (model : Model)
    (limits : Limits) (slices : List Slice) (run : Run Result) : Prop where
  sets : run.sets = SliceSet.group model slices
  computationCount : ∀ jobId variant,
    (Status.ofRun jobId request variant run).computationCount = run.sets.length
  sliceCount : ∀ jobId variant,
    (Status.ofRun jobId request variant run).sliceCount = slices.length
  sizes : slices.length = run.sets.foldr (fun set total => set.slices.length + total) 0
  /-- Each set leaves its own errors, and one that names its slice if it failed. -/
  errors : run.notices.errors = run.sets.flatMap fun set =>
    (computation.compute ⟨request, set, limits⟩).notices.errors ++
      (computation.failure? ⟨request, set, limits⟩).toList.map fun error =>
        "slice " ++ set.representative.render ++ ": " ++ error.message
  /-- Each slice has the result of its set, which is the fallback if the set failed. -/
  keys : run.keys = computation.mergeBySplit (computation.resultsOf request limits run.sets)
  /-- What becomes of other sets does not matter to a combination. -/
  isolated : ∀ (compute : SliceTask → Attempt Result) (other : Run Result),
    Computation.run { computation with compute } request model limits = .ok other →
      other.keys.map (·.1) = run.keys.map (·.1) ∧
      ∀ key, (∀ set ∈ run.sets, (∃ slice ∈ set.slices, slice.project .split = key) →
          (compute ⟨request, set, limits⟩).outcome =
            (computation.compute ⟨request, set, limits⟩).outcome) →
        ∀ result, (key, result) ∈ other.keys ↔ (key, result) ∈ run.keys

private theorem length_flatMap_slices (sets : List SliceSet) :
    (sets.flatMap (·.slices)).length =
      sets.foldr (fun set total => set.slices.length + total) 0 := by
  induction sets with
  | nil => rfl
  | cons set rest ih => rw [List.flatMap_cons, List.length_append, ih, List.foldr_cons]

theorem accounts_completeRun {selectors : List Selector} {slices : List Slice}
    (resolved : request.resolve model.space computation.allows computation.defaultDiscipline =
      .ok selectors)
    (made : Slice.all selectors model.space.dimensions limits.maxSlices = .ok slices) :
    computation.Accounts request model limits slices
      (computation.completeRun request model limits selectors slices) := by
  have whole := (@SliceSet.perm_group model slices).length_eq
  constructor
  · rfl
  · exact fun _ _ => rfl
  · exact fun _ _ => whole
  · exact whole.symm.trans (length_flatMap_slices _)
  · exact (List.nil_append _).trans (List.flatMap_map _ _ _)
  · rfl
  · intro compute other success
    obtain ⟨_, _, resolvedAgain, madeAgain, _, rfl⟩ := eq_completeRun_of_run success
    obtain rfl := Except.ok.inj (resolved.symm.trans resolvedAgain)
    obtain rfl := Except.ok.inj (made.symm.trans madeAgain)
    constructor
    · exact (map_fst_keys _ _).trans (map_fst_keys _ _).symm
    · intro key same result
      unfold completeRun
      rw [mem_mergeBySplit_iff, mem_mergeBySplit_iff, filter_resultsOf_congr]
      · rfl
      · exact fun set member inKey => resultOf_congr (same set member inKey) rfl

/-! ## The course of a run -/

/-- A run announces the tasks that it analyses. It analyses none if the slices of the
request cannot be made, and else its sets up to the first fatal failure, which is its
error. Without a fatal failure it succeeds and accounts for all sets. -/
theorem sets_analysed_in_order (computation : Computation Result) (request : Request)
    (model : Model) (limits : Limits) :
    (∀ {m : Type → Type} [Monad m] [LawfulMonad m] (announce : SliceTask → m Unit),
      computation.runIn (computation.announced announce) request model limits = do
        (computation.calls request model limits).forM announce
        return computation.run request model limits) ∧
    (∀ fault,
      request.resolve model.space computation.allows computation.defaultDiscipline =
        .error fault →
      computation.calls request model limits = [] ∧
        computation.run request model limits = .error fault.toError) ∧
    ∀ selectors,
      request.resolve model.space computation.allows computation.defaultDiscipline =
        .ok selectors →
      (∀ error, Slice.all selectors model.space.dimensions limits.maxSlices = .error error →
        computation.calls request model limits = [] ∧
          computation.run request model limits = .error error) ∧
      ∀ slices, Slice.all selectors model.space.dimensions limits.maxSlices = .ok slices →
        (∀ before set after error, SliceSet.group model slices = before ++ set :: after →
          computation.NoneFatal request limits before →
          computation.FailsFatally ⟨request, set, limits⟩ error →
            computation.calls request model limits =
              (before ++ [set]).map (fun set => ⟨request, set, limits⟩) ∧
            computation.run request model limits = .error error) ∧
        (computation.NoneFatal request limits (SliceSet.group model slices) →
          computation.calls request model limits =
            (SliceSet.group model slices).map (fun set => ⟨request, set, limits⟩) ∧
          ∃ run, computation.run request model limits = .ok run ∧
            computation.Accounts request model limits slices run) := by
  refine ⟨fun announce => runIn_announced computation announce request model limits, ?_, ?_⟩
  · exact fun fault unresolved => ⟨calls_of_unresolved unresolved, run_of_unresolved unresolved⟩
  · intro selectors resolved
    refine ⟨fun error unmade =>
      ⟨calls_of_unmade resolved unmade, run_of_unmade resolved unmade⟩, ?_⟩
    intro slices made
    constructor
    · intro before set after error sets mild fatal
      refine ⟨?_, run_of_failsFatally resolved made sets mild fatal⟩
      rw [calls_of_made resolved made, sets, callsOf_of_failsFatally mild fatal]
    · intro mild
      refine ⟨?_, _, run_of_noneFatal resolved made mild, accounts_completeRun resolved made⟩
      rw [calls_of_made resolved made, callsOf_of_noneFatal mild]

theorem sets_analysed_in_order_sample : ∃ model selectors slices run,
    Model.compile Sample.document = .ok model ∧
    Sample.request.resolve model.space (fun _ => true) .any = .ok selectors ∧
    Slice.all selectors model.space.dimensions Limits.standard.maxSlices = .ok slices ∧
    consistency.calls Sample.request model .standard =
      (SliceSet.group model slices).map (fun set => ⟨Sample.request, set, .standard⟩) ∧
    consistency.run Sample.request model .standard = .ok run ∧
    consistency.Accounts Sample.request model .standard slices run := by
  obtain ⟨model, selectors, compiled, resolved, _⟩ := Sample.exists_within
  obtain ⟨slices, made⟩ : ∃ slices, Slice.all selectors model.space.dimensions
      Limits.standard.maxSlices = .ok slices := by
    cases compiled
    cases resolved
    exact ⟨_, rfl⟩
  have mild : consistency.NoneFatal Sample.request .standard (SliceSet.group model slices) :=
    noneFatal_of_mild (fun _ _ => Consistency.mild_of_compute) _
  obtain ⟨_, _, course⟩ :=
    sets_analysed_in_order consistency.toComputation Sample.request model .standard
  obtain ⟨calls, run, success, accounts⟩ := ((course selectors resolved).2 slices made).2 mild
  exact ⟨model, selectors, slices, run, compiled, resolved, made, calls, success, accounts⟩

end Computation

end RuleSlicing
