import RuleSlicing.Proofs.Examples

/-!
# Larger limits change no answer

A limit is only ever compared with what would exceed it, and a comparison that is passed
is passed by larger limits as well. So what succeeds gives the same result under larger
limits: the solver, an explanation, the analysis of a set, the slices of a request. If no
set has failed, nothing of a response changes.
-/

set_option autoImplicit false

namespace RuleSlicing

/-! ## Steps that give the same -/

section Steps

variable {Error Value Result : Type}

/-- What one step gives, another one gives as well. -/
def KeptBy (step other : Except Error Value) : Prop :=
  ∀ value, step = .ok value → other = .ok value

namespace KeptBy

theorem refl (step : Except Error Value) : KeptBy step step := fun _ success => success

theorem map {step other : Except Error Value} (kept : KeptBy step other)
    (transform : Value → Result) : KeptBy (step.map transform) (other.map transform) := by
  intro result success
  obtain ⟨value, done, rfl⟩ := ok_of_map success
  rw [kept value done]
  rfl

theorem bind {step other : Except Error Value} {next otherNext : Value → Except Error Result}
    (kept : KeptBy step other) (nextKept : ∀ value, KeptBy (next value) (otherNext value)) :
    KeptBy (step >>= next) (other >>= otherNext) := by
  intro result success
  obtain ⟨value, done, success⟩ := ok_of_bind success
  rw [kept value done]
  exact nextKept value result success

theorem mapM {Item : Type} {step other : Item → Except Error Value} (items : List Item)
    (kept : ∀ item, KeptBy (step item) (other item)) :
    KeptBy (items.mapM step) (items.mapM other) := by
  intro results success
  rw [mapM_eq_ok_iff] at success ⊢
  exact success.imp fun item result => kept item result

theorem shrinkFrom {Item : Type} {inConflict other : List Item → Except Error Bool}
    (kept : ∀ items, KeptBy (inConflict items) (other items)) (necessary items : List Item) :
    KeptBy (Conflict.shrinkFrom inConflict necessary items)
      (Conflict.shrinkFrom other necessary items) := by
  induction items generalizing necessary with
  | nil => exact refl _
  | cons item rest ih =>
      refine bind (kept _) fun verdict => ?_
      cases verdict with
      | true => exact ih necessary
      | false => exact ih (necessary ++ [item])

end KeptBy

end Steps

/-! ## The solver -/

theorem TruthTable.solve_of_larger {limit larger : Limit}
    (wider : limit.maxVariables ≤ larger.maxVariables) (formulas : List Formula) :
    KeptBy (solve limit formulas) (solve larger formulas) := by
  intro solution solved
  have few : (Formula.varsOfAll formulas).size ≤ Nat.min limit.maxVariables wordVariables :=
    of_decide_eq_true (allows_of_solve solved)
  have allows : larger.allows (Formula.varsOfAll formulas).size = true :=
    decide_eq_true (Nat.le_min.mpr
      ⟨Nat.le_trans (Nat.le_trans few (Nat.min_le_left _ _)) wider,
        Nat.le_trans few (Nat.min_le_right _ _)⟩)
  unfold solve at solved ⊢
  simp only at solved ⊢
  rw [if_pos (allows_of_solve solved)] at solved
  rw [if_pos allows]
  exact solved

namespace SliceTask

/-- The same task under other limits. -/
def under (task : SliceTask) (limits : Limits) : SliceTask := { task with limits }

variable {task : SliceTask} {larger : Limits}
  (wider : task.limits.maxVariables ≤ larger.maxVariables)

include wider

theorem solve_under (formulas : List Formula) :
    KeptBy (task.solve formulas) ((task.under larger).solve formulas) := by
  intro solution solved
  unfold solve
  rw [TruthTable.solve_of_larger wider formulas solution (ok_of_mapError solved)]
  rfl

theorem solveUnder_under (formulas : List Formula) (literal : Literal) :
    KeptBy (task.solveUnder formulas literal) ((task.under larger).solveUnder formulas literal) :=
  solve_under wider (literal.toFormula :: formulas)

end SliceTask

/-! ## One set of slices -/

namespace Consistency

variable {task : SliceTask} {larger : Limits}
  (wider : task.limits.maxVariables ≤ larger.maxVariables)

include wider

theorem explain_under (constraints : List Formula) :
    KeptBy (explain task constraints) (explain (task.under larger) constraints) :=
  (KeptBy.shrinkFrom (fun _ => (SliceTask.solve_under wider _).map _) [] task.rules).bind
    fun _ => .refl _

theorem inconsistent_under (constraints : List Formula) :
    KeptBy (inconsistent task constraints) (inconsistent (task.under larger) constraints) := by
  unfold inconsistent
  have same : (task.under larger).request.allDetails = task.request.allDetails := rfl
  rw [same]
  split
  · exact (explain_under wider constraints).map _
  · exact .refl _

/-- What a set is found to be within a limit, it is found to be within larger ones. -/
theorem compute_under {result : ConsistencyResult}
    (computed : (compute task).outcome = .ok result) :
    compute (task.under larger) = compute task := by
  have kept := fun formulas => @SliceTask.solve_under task larger wider formulas
  have theory : (task.under larger).theory = task.theory := rfl
  have constraints : (task.under larger).constraints = task.constraints := rfl
  have slice : (task.under larger).slice = task.slice := rfl
  unfold compute at computed ⊢
  simp only [theory, constraints, slice]
  cases alone : task.solve task.theory.formulas with
  | error error =>
      simp only [alone] at computed
      cases computed
  | ok solution =>
      simp only [alone] at computed
      simp only [kept _ _ alone]
      cases solution with
      | none =>
          have made : inconsistent task [] = .ok result := computed
          simp only [inconsistent_under wider [] result made, made]
      | some assignment =>
          cases translated : task.constraints with
          | error error =>
              simp only [translated] at computed
              cases computed
          | ok formulas =>
              cases formulas with
              | nil => rfl
              | cons first rest =>
                  simp only [translated] at computed ⊢
                  cases together : task.solve (task.theory.formulas ++ first :: rest) with
                  | error error =>
                      simp only [together] at computed
                      cases computed
                  | ok solution =>
                      simp only [together] at computed
                      simp only [kept _ _ together]
                      cases solution with
                      | none =>
                          have made : inconsistent task (first :: rest) = .ok result := computed
                          simp only [inconsistent_under wider _ result made, made]
                      | some other => rfl

end Consistency

namespace Buildability

variable {task : SliceTask} {larger : Limits}
  (wider : task.limits.maxVariables ≤ larger.maxVariables)

include wider

theorem satisfiable_under : KeptBy (satisfiable task) (satisfiable (task.under larger)) :=
  (KeptBy.refl task.constraints).bind fun _ =>
    (SliceTask.solve_under wider _).bind fun _ => .refl _

theorem featureStatuses_under (formulas : List Formula) :
    KeptBy (featureStatuses task formulas) (featureStatuses (task.under larger) formulas) := by
  refine KeptBy.bind (.mapM _ fun code => ?_) fun _ => .refl _
  refine KeptBy.bind ?_ fun _ => .refl _
  exact (SliceTask.solveUnder_under wider formulas _).bind fun _ =>
    (SliceTask.solveUnder_under wider formulas _).bind fun _ => .refl _

theorem compute_under {result : BuildabilityResult}
    (computed : (compute task).outcome = .ok result) :
    compute (task.under larger) = compute task := by
  have theory : (task.under larger).theory = task.theory := rfl
  have slice : (task.under larger).slice = task.slice := rfl
  unfold compute at computed ⊢
  simp only [theory, slice]
  cases decided : satisfiable task with
  | error error =>
      simp only [decided] at computed
      cases computed
  | ok decision =>
      obtain ⟨formulas, verdict⟩ := decision
      simp only [decided] at computed
      simp only [satisfiable_under wider _ decided]
      cases verdict with
      | true =>
          have made : featureStatuses task formulas = .ok result := computed
          simp only [featureStatuses_under wider formulas result made, made]
      | false => rfl

end Buildability

/-! ## The slices of a request -/

namespace Factorization

theorem extendAll_of_larger {selectors : List Selector} {maxSlices larger : Nat}
    (more : maxSlices ≤ larger) (dimensions : List Dimension) (slices : List Slice) :
    KeptBy (extendAll selectors maxSlices dimensions slices)
      (extendAll selectors larger dimensions slices) := by
  induction dimensions generalizing slices with
  | nil => exact .refl _
  | cons dimension rest ih =>
      intro result made
      unfold extendAll at made ⊢
      simp only at made ⊢
      split at made
      · rename_i unused
        rw [if_pos unused]
        exact ih slices result made
      · rename_i used
        rw [if_neg used]
        split at made
        · cases made
        · rename_i occupied
          rw [if_neg occupied]
          split at made
          · cases made
          · rename_i fits
            rw [if_neg fun exceeds => fits (Nat.lt_of_le_of_lt more exceeds)]
            exact ih _ result made

end Factorization

/-! ## Runs -/

namespace Computation

variable {Result : Type} {computation : Computation Result} {request : Request} {model : Model}
  {limits larger : Limits}

/-- Without errors every set has a result of its own. -/
theorem outcome_of_quiet {selectors : List Selector} {slices : List Slice}
    (quiet : (computation.completeRun request model limits selectors slices).notices.errors = [])
    {set : SliceSet} (member : set ∈ SliceSet.group model slices) :
    ∃ result, (computation.compute ⟨request, set, limits⟩).outcome = .ok result := by
  have silent : (computation.noticesOf ⟨request, set, limits⟩).errors = [] :=
    List.flatMap_eq_nil_iff.mp (List.append_eq_nil_iff.mp quiet).2 _ (List.mem_map_of_mem member)
  cases outcome : (computation.compute ⟨request, set, limits⟩).outcome with
  | ok result => exact ⟨result, rfl⟩
  | error error =>
      unfold noticesOf failure? at silent
      simp [outcome] at silent

section Sets

variable {selectors : List Selector} {slices : List Slice}
  (same : ∀ set ∈ SliceSet.group model slices,
    computation.compute ⟨request, set, larger⟩ = computation.compute ⟨request, set, limits⟩)

include same

private theorem noneFatal_congr
    (mild : computation.NoneFatal request limits (SliceSet.group model slices)) :
    computation.NoneFatal request larger (SliceSet.group model slices) := by
  intro set member error fatal
  refine mild set member error ⟨?_, fatal.2⟩
  rw [← same set member]
  exact fatal.1

private theorem completeRun_congr :
    computation.completeRun request model larger selectors slices =
      computation.completeRun request model limits selectors slices := by
  have results : computation.resultsOf request larger (SliceSet.group model slices) =
      computation.resultsOf request limits (SliceSet.group model slices) := by
    refine List.flatMap_congr fun set member => ?_
    rw [resultOf_congr (congrArg Attempt.outcome (same set member)) rfl]
  have notices : (SliceSet.group model slices).map
        (fun set => computation.noticesOf ⟨request, set, larger⟩) =
      (SliceSet.group model slices).map fun set =>
        computation.noticesOf ⟨request, set, limits⟩ := by
    refine List.map_congr_left fun set member => ?_
    unfold noticesOf failure?
    rw [same set member]
    rfl
  unfold completeRun
  rw [results, notices]

end Sets

theorem run_of_larger (computed : ∀ set result,
      (computation.compute ⟨request, set, limits⟩).outcome = .ok result →
        computation.compute ⟨request, set, larger⟩ = computation.compute ⟨request, set, limits⟩)
    (more : limits.maxSlices ≤ larger.maxSlices) {run : Run Result}
    (success : computation.run request model limits = .ok run) (quiet : run.notices.errors = []) :
    computation.run request model larger = .ok run := by
  obtain ⟨selectors, slices, resolved, made, mild, rfl⟩ := eq_completeRun_of_run success
  have madeAgain : Slice.all selectors model.space.dimensions larger.maxSlices = .ok slices :=
    Factorization.extendAll_of_larger more _ _ slices made
  have same : ∀ set ∈ SliceSet.group model slices, computation.compute ⟨request, set, larger⟩ =
      computation.compute ⟨request, set, limits⟩ := by
    intro set member
    obtain ⟨result, outcome⟩ := outcome_of_quiet quiet member
    exact computed set result outcome
  rw [run_of_noneFatal resolved madeAgain (noneFatal_congr same mild), completeRun_congr same]

end Computation

/-! ## Responses -/

theorem Consistency.errors_of_respond {model : Model} (sound : model.Sound) {jobId : String}
    {request : Request} {limits : Limits} {response : SingleResponse Bool ConsistencyDetail}
    (responded : consistency.respond jobId request model limits = .ok response)
    (unconstrained : request.constraints = [])
    (small : model.unknowns.size ≤ Nat.min limits.maxVariables TruthTable.wordVariables) :
    response.status.notices.errors = [] := by
  rw [SingleComputation.respond_eq_map_report] at responded
  obtain ⟨run, success, rfl⟩ := ok_of_map responded
  refine Computation.errors_of_unconstrained (fun task interprets few => ?_)
    Consistency.errors_of_compute sound success unconstrained small
  refine Consistency.exists_outcome interprets (Nat.le_trans ?_ few)
  exact SortedSet.size_le_of_subset fun _ member =>
    (SortedSet.mem_union_iff _ _ _).mpr (.inl member)

/-- Larger limits leave a response without errors as it is. -/
theorem respond_of_larger_limits (jobId : String) (request : Request) (model : Model)
    {limits larger : Limits} (more : limits.maxSlices ≤ larger.maxSlices)
    (wider : limits.maxVariables ≤ larger.maxVariables) :
    (∀ response, consistency.respond jobId request model limits = .ok response →
      response.status.notices.errors = [] →
        consistency.respond jobId request model larger = .ok response) ∧
    ∀ response, buildability.respond jobId request model limits = .ok response →
      response.status.notices.errors = [] →
        buildability.respond jobId request model larger = .ok response := by
  constructor
  · intro response responded quiet
    have computed := fun set result =>
      @Consistency.compute_under ⟨request, set, limits⟩ larger wider result
    rw [SingleComputation.respond_eq_map_report] at responded ⊢
    obtain ⟨run, success, rfl⟩ := ok_of_map responded
    rw [Computation.run_of_larger computed more success quiet]
    rfl
  · intro response responded quiet
    have computed := fun set result =>
      @Buildability.compute_under ⟨request, set, limits⟩ larger wider result
    unfold ListComputation.respond at responded ⊢
    obtain ⟨run, success, made⟩ := ok_of_bind responded
    cases made
    rw [Computation.run_of_larger computed more success quiet]
    rfl

theorem respond_of_larger_limits_sample : ∃ model single list,
    Model.compile Sample.document = .ok model ∧
    consistency.respond "job" Sample.request model .standard = .ok single ∧
    single.status.notices.errors = [] ∧
    consistency.respond "job" Sample.request model ⟨20000, 30⟩ = .ok single ∧
    buildability.respond "job" Sample.request model .standard = .ok list ∧
    list.status.notices.errors = [] ∧
    buildability.respond "job" Sample.request model ⟨20000, 30⟩ = .ok list := by
  obtain ⟨model, list, compiled, listed, listQuiet⟩ := Sample.exists_buildability
  obtain ⟨other, single, compiledAgain, responded⟩ := Sample.exists_response
  obtain rfl := Except.ok.inj (compiled.symm.trans compiledAgain)
  have quiet := Consistency.errors_of_respond (Model.sound_of_compile compiled) responded rfl
    (Sample.unknowns_small compiled)
  obtain ⟨sameSingle, sameList⟩ :=
    @respond_of_larger_limits "job" Sample.request model .standard ⟨20000, 30⟩ (by decide)
      (by decide)
  exact ⟨model, single, list, compiled, responded, quiet, sameSingle single responded quiet, listed,
    listQuiet, sameList list listed listQuiet⟩

end RuleSlicing
