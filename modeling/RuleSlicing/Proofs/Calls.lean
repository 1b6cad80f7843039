import RuleSlicing.Proofs.Attempts

/-!
# The analyses that a run calls for

The course of a run, with the analysis of a set as an action of any monad: an action
may count its calls or write a log. If each analysis announces its task first, the
announcements of a run are a list of tasks, in order and each once, and nothing else
of the run changes.
-/

set_option autoImplicit false

namespace RuleSlicing

namespace Computation

variable {Result : Type} (computation : Computation Result)

/-! ## Runs with actions -/

/-- What a run makes of the outcome of an analysis. -/
def settle (task : SliceTask) (attempt : Attempt Result) :
    Except AnalysisError (Result × Notices) :=
  Computation.attempt { computation with compute := fun _ => attempt } task

section Actions

variable {m : Type → Type} [Monad m] (analyse : SliceTask → m (Attempt Result))

/-- Attempt sets of slices one after another, up to the first fatal error. -/
def attemptAllIn (request : Request) (limits : Limits) :
    List SliceSet → m (Except AnalysisError (List (SliceSet × Result) × Notices))
  | [] => return .ok ([], .none)
  | set :: rest => do
      let attempt ← analyse ⟨request, set, limits⟩
      match computation.settle ⟨request, set, limits⟩ attempt with
      | .error error => return .error error
      | .ok (result, notices) =>
          let remaining ← attemptAllIn request limits rest
          return remaining.map fun (results, later) =>
            ((set, result) :: results, notices ++ later)

def runIn (request : Request) (model : Model) (limits : Limits) :
    m (Except AnalysisError (Run Result)) :=
  match request.resolve model.space computation.allows computation.defaultDiscipline with
  | .error fault => return .error fault.toError
  | .ok selectors =>
      match Slice.all selectors model.space.dimensions limits.maxSlices with
      | .error error => return .error error
      | .ok slices => do
          let sets := SliceSet.group model slices
          let attempted ← computation.attemptAllIn analyse request limits sets
          return attempted.map fun (results, notices) =>
            { selectors
              sets
              keys := computation.mergeBySplit (fanOut results)
              notices := unusedNotices model.space ++ notices }

end Actions

/-! ## Announced tasks -/

/-- The analysis of a task, announced beforehand. -/
def announced {m : Type → Type} [Monad m] (announce : SliceTask → m Unit) (task : SliceTask) :
    m (Attempt Result) := do
  announce task
  return computation.compute task

/-- The tasks of some sets up to the first fatal error, whose task is the last. -/
def callsOf (request : Request) (limits : Limits) : List SliceSet → List SliceTask
  | [] => []
  | set :: rest =>
      match computation.attempt ⟨request, set, limits⟩ with
      | .error _ => [⟨request, set, limits⟩]
      | .ok _ => ⟨request, set, limits⟩ :: callsOf request limits rest

/-- The tasks that a run analyses. -/
def calls (request : Request) (model : Model) (limits : Limits) : List SliceTask :=
  match request.resolve model.space computation.allows computation.defaultDiscipline with
  | .error _ => []
  | .ok selectors =>
      match Slice.all selectors model.space.dimensions limits.maxSlices with
      | .error _ => []
      | .ok slices => computation.callsOf request limits (SliceSet.group model slices)

section Announced

variable {m : Type → Type} [Monad m] [LawfulMonad m] (announce : SliceTask → m Unit)

private theorem attemptAllIn_announced (request : Request) (limits : Limits)
    (sets : List SliceSet) :
    computation.attemptAllIn (computation.announced announce) request limits sets = do
      (computation.callsOf request limits sets).forM announce
      return computation.attemptAll request limits sets := by
  induction sets with
  | nil => simp only [attemptAllIn, callsOf, attemptAll, List.forM_eq_forM, List.forM_nil, pure_bind]
  | cons set rest ih =>
      have settled : computation.settle ⟨request, set, limits⟩
          (computation.compute ⟨request, set, limits⟩) =
            computation.attempt ⟨request, set, limits⟩ := rfl
      simp only [attemptAllIn, announced, callsOf, attemptAll, bind_assoc, pure_bind, settled]
      cases computation.attempt ⟨request, set, limits⟩ with
      | error error =>
          simp only [List.forM_eq_forM, List.forM_cons, List.forM_nil, bind_assoc, pure_bind]
          rfl
      | ok done =>
          simp only [ih, List.forM_eq_forM, List.forM_cons, bind_assoc, pure_bind]
          cases computation.attemptAll request limits rest <;> rfl

/-- A run makes its announcements, one for each task, and gives what it gives without
them. -/
theorem runIn_announced (request : Request) (model : Model) (limits : Limits) :
    computation.runIn (computation.announced announce) request model limits = do
      (computation.calls request model limits).forM announce
      return computation.run request model limits := by
  unfold runIn calls
  cases resolved : request.resolve model.space computation.allows
      computation.defaultDiscipline with
  | error fault =>
      simp only [run_of_unresolved resolved, List.forM_eq_forM, List.forM_nil, pure_bind]
  | ok selectors =>
      cases made : Slice.all selectors model.space.dimensions limits.maxSlices with
      | error error =>
          simp only [made, run_of_unmade resolved made, List.forM_eq_forM, List.forM_nil,
            pure_bind]
      | ok slices =>
          simp only [made, attemptAllIn_announced, bind_assoc, pure_bind,
            run_eq_map_attemptAll resolved made]

end Announced

/-! ## Which tasks are analysed -/

section Tasks

variable {computation} {request : Request} {limits : Limits}

theorem callsOf_of_noneFatal {sets : List SliceSet}
    (mild : computation.NoneFatal request limits sets) :
    computation.callsOf request limits sets = sets.map fun set => ⟨request, set, limits⟩ := by
  induction sets with
  | nil => rfl
  | cons set rest ih =>
      obtain ⟨setMild, restMild⟩ := List.forall_mem_cons.mp mild
      rw [callsOf, attempt_of_not_failsFatally setMild, ih restMild]
      rfl

theorem callsOf_of_failsFatally {before after : List SliceSet} {set : SliceSet}
    {error : AnalysisError} (mild : computation.NoneFatal request limits before)
    (fatal : computation.FailsFatally ⟨request, set, limits⟩ error) :
    computation.callsOf request limits (before ++ set :: after) =
      (before ++ [set]).map fun set => ⟨request, set, limits⟩ := by
  induction before with
  | nil =>
      rw [List.nil_append, callsOf, attempt_of_failsFatally fatal]
      rfl
  | cons first rest ih =>
      obtain ⟨firstMild, restMild⟩ := List.forall_mem_cons.mp mild
      rw [List.cons_append, callsOf, attempt_of_not_failsFatally firstMild, ih restMild]
      rfl

variable {model : Model}

theorem calls_of_unresolved {fault : RequestFault}
    (unresolved : request.resolve model.space computation.allows computation.defaultDiscipline =
      .error fault) : computation.calls request model limits = [] := by
  unfold calls
  rw [unresolved]

variable {selectors : List Selector}
  (resolved : request.resolve model.space computation.allows computation.defaultDiscipline =
    .ok selectors)

include resolved

theorem calls_of_unmade {error : AnalysisError}
    (unmade : Slice.all selectors model.space.dimensions limits.maxSlices = .error error) :
    computation.calls request model limits = [] := by
  unfold calls
  simp only [resolved, unmade]

theorem calls_of_made {slices : List Slice}
    (made : Slice.all selectors model.space.dimensions limits.maxSlices = .ok slices) :
    computation.calls request model limits =
      computation.callsOf request limits (SliceSet.group model slices) := by
  unfold calls
  simp only [resolved, made]

end Tasks

end Computation

end RuleSlicing
