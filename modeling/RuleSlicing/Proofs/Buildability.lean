import RuleSlicing.Proofs.Fibers
import RuleSlicing.Proofs.Meaning
import RuleSlicing.Proofs.Partition

/-!
# What buildability says

The status of a feature in a set of slices says whether all, none or some of the
allowed choices have it; a feature that is not active is missing from the result,
which counts as forbidden. The status that is reported for a combination of values
says this of all selected points over it, including those that have no relevant
values.
-/

set_option autoImplicit false

namespace RuleSlicing

namespace Activation

/-- A feature is active and some choice is allowed, and all allowed choices have the
feature. -/
structure Requires (activation : Activation) (constraints : List String) (code : String) :
    Prop where
  active : code ∈ activation.codes
  satisfiable : ∃ valuation, activation.Satisfies constraints valuation
  always : ∀ valuation, activation.Satisfies constraints valuation → valuation code = true

/-- A feature is not active, or no allowed choice has it. -/
def Rejects (activation : Activation) (constraints : List String) (code : String) : Prop :=
  code ∉ activation.codes ∨
    ∀ valuation, activation.Satisfies constraints valuation → valuation code = false

end Activation

/-- A status says what a feature is in all of some activations. -/
structure FeatureStatus.Sums (status : FeatureStatus) (activations : Activation → Prop)
    (constraints : List String) (code : String) : Prop where
  mandatory : status = .mandatory ↔
    ∀ activation, activations activation → activation.Requires constraints code
  forbidden : status = .forbidden ↔
    ∀ activation, activations activation → activation.Rejects constraints code
  optional : status = .optional ↔
    (¬∀ activation, activations activation → activation.Requires constraints code) ∧
      ¬∀ activation, activations activation → activation.Rejects constraints code

/-! ## Statuses -/

namespace FeatureStatus

theorem combine_eq_mandatory_iff {first second : FeatureStatus} :
    first.combine second = .mandatory ↔ first = .mandatory ∧ second = .mandatory := by
  cases first <;> cases second <;> decide

theorem combine_eq_forbidden_iff {first second : FeatureStatus} :
    first.combine second = .forbidden ↔ first = .forbidden ∧ second = .forbidden := by
  cases first <;> cases second <;> decide

theorem ofPossible_eq_mandatory_iff {present absent : Bool} :
    ofPossible present absent = .mandatory ↔ present = true ∧ ¬absent = true := by
  cases present <;> cases absent <;> decide

theorem ofPossible_eq_forbidden_iff {present absent : Bool} :
    ofPossible present absent = .forbidden ↔ ¬present = true := by
  cases present <;> cases absent <;> decide

end FeatureStatus

namespace Buildability

/-! ## One set of slices -/

theorem statusOf_of_not_mem {result : BuildabilityResult} {code : String}
    (missing : code ∉ result.keys) : statusOf result code = .forbidden := by
  unfold statusOf
  cases found : result.get? code with
  | none => rfl
  | some status => exact absurd ((SortedMap.mem_keys_iff _ _).mpr ⟨status, found⟩) missing

/-- A result has the statuses of the active features. -/
structure Describes (result : BuildabilityResult) (activation : Activation)
    (constraints : List String) : Prop where
  keys : ∀ code, code ∈ result.keys ↔ code ∈ activation.codes
  mandatory : ∀ code, statusOf result code = .mandatory ↔ activation.Requires constraints code
  forbidden : ∀ code, statusOf result code = .forbidden ↔ activation.Rejects constraints code

section Lookup

variable {result : BuildabilityResult} {activation : Activation} {constraints : List String}

private theorem describes_of_active (keys : ∀ code, code ∈ result.keys ↔ code ∈ activation.codes)
    (mandatory : ∀ code ∈ activation.codes, statusOf result code = .mandatory ↔
      (∃ valuation, activation.Satisfies constraints valuation) ∧
        ∀ valuation, activation.Satisfies constraints valuation → valuation code = true)
    (forbidden : ∀ code ∈ activation.codes, statusOf result code = .forbidden ↔
      ∀ valuation, activation.Satisfies constraints valuation → valuation code = false) :
    Describes result activation constraints := by
  refine ⟨keys, fun code => ?_, fun code => ?_⟩
  · by_cases active : code ∈ activation.codes
    · rw [mandatory code active]
      exact ⟨fun ⟨satisfiable, always⟩ => ⟨active, satisfiable, always⟩,
        fun required => ⟨required.satisfiable, required.always⟩⟩
    · rw [statusOf_of_not_mem fun member => active ((keys code).mp member)]
      exact iff_of_false (fun same => nomatch same) fun required => active required.active
  · by_cases active : code ∈ activation.codes
    · rw [forbidden code active]
      exact (or_iff_right (not_not_intro active)).symm
    · rw [statusOf_of_not_mem fun member => active ((keys code).mp member)]
      exact iff_of_true rfl (.inl active)

private theorem describes_allWith
    (unsatisfiable : ¬∃ valuation, activation.Satisfies constraints valuation) :
    Describes (allWith .forbidden activation.codes) activation constraints := by
  have lookup := SortedMap.get?_tabulate activation.codes fun _ => FeatureStatus.forbidden
  have status : ∀ code, statusOf (allWith .forbidden activation.codes) code = .forbidden := by
    intro code
    unfold statusOf
    cases found : (allWith .forbidden activation.codes).get? code with
    | none => rfl
    | some status => exact ((lookup code status).mp found).2.symm
  refine describes_of_active (fun code => ?_) (fun code _ => ?_) fun code _ => ?_
  · rw [SortedMap.mem_keys_iff]
    exact ⟨fun ⟨status, found⟩ => ((lookup code status).mp found).1,
      fun active => ⟨_, (lookup code _).mpr ⟨active, rfl⟩⟩⟩
  · rw [status]
    exact iff_of_false (fun same => nomatch same) fun required => unsatisfiable required.1
  · exact iff_of_true (status code) fun valuation satisfies =>
      absurd ⟨valuation, satisfies⟩ unsatisfiable

variable {task : SliceTask}

private theorem featureStatus_eq_ok {code : String} {status : FeatureStatus}
    (satisfiable : ∃ valuation, task.set.activation.Satisfies constraints valuation)
    (decided : featureStatus task (task.set.activation.formulas constraints) code = .ok status) :
    (status = .mandatory ↔
      ∀ valuation, task.set.activation.Satisfies constraints valuation → valuation code = true) ∧
    (status = .forbidden ↔
      ∀ valuation, task.set.activation.Satisfies constraints valuation →
        valuation code = false) := by
  obtain ⟨present, presentDecided, decided⟩ := ok_of_bind decided
  obtain ⟨absent, absentDecided, decided⟩ := ok_of_bind decided
  cases decided
  have presentIff := SliceTask.solveUnder_eq_ok presentDecided
  have absentIff := SliceTask.solveUnder_eq_ok absentDecided
  simp only [Activation.solves_formulas_iff] at presentIff absentIff
  rw [FeatureStatus.ofPossible_eq_mandatory_iff, FeatureStatus.ofPossible_eq_forbidden_iff,
    presentIff, absentIff]
  obtain ⟨witness, witnessSatisfies⟩ := satisfiable
  constructor
  · constructor
    · rintro ⟨_, never⟩ valuation satisfies
      exact Bool.of_not_eq_false fun isFalse => never ⟨valuation, satisfies, isFalse⟩
    · intro always
      refine ⟨⟨witness, witnessSatisfies, always witness witnessSatisfies⟩, ?_⟩
      intro given
      obtain ⟨valuation, satisfies, isFalse⟩ := given
      exact Bool.false_ne_true (isFalse.symm.trans (always valuation satisfies))
  · constructor
    · intro never valuation satisfies
      exact Bool.of_not_eq_true fun isTrue => never ⟨valuation, satisfies, isTrue⟩
    · rintro always ⟨valuation, satisfies, isTrue⟩
      exact Bool.false_ne_true ((always valuation satisfies).symm.trans isTrue)

private theorem featureStatuses_eq_ok {formulas : List Formula}
    (decided : featureStatuses task formulas = .ok result) :
    (∀ code, code ∈ result.keys ↔ code ∈ task.set.activation.codes) ∧
      ∀ code ∈ task.set.activation.codes,
        featureStatus task formulas code = .ok (statusOf result code) := by
  obtain ⟨statuses, listed, made⟩ := ok_of_bind decided
  cases made
  have paired : List.Forall₂ (fun code entry =>
      code = entry.1 ∧ featureStatus task formulas code = .ok entry.2)
      task.set.activation.codes.toList statuses := by
    refine ((mapM_eq_ok_iff _ _ _).mp listed).imp fun code entry paired => ?_
    obtain ⟨status, done, same⟩ := ok_of_bind paired
    cases same
    exact ⟨rfl, done⟩
  have codes : task.set.activation.codes.toList = statuses.map (·.1) := by
    rw [← List.forall₂_eq_eq_eq, List.forall₂_map_right_iff]
    exact paired.imp fun _ _ => And.left
  have lookup := SortedMap.get?_ofList (codes ▸ task.set.activation.codes.nodup)
  constructor
  · intro code
    simp only [SortedMap.mem_keys_iff, lookup]
    rw [SortedSet.mem_def, codes]
    simp
  · intro code active
    obtain ⟨⟨_, status⟩, member, rfl, done⟩ := exists_right_of_forall₂ paired active
    unfold statusOf
    rw [(lookup code status).mpr member]
    exact done

theorem describes_of_compute (computed : (compute task).outcome = .ok result) :
    Describes result task.set.activation task.request.constraints := by
  unfold compute at computed
  split at computed
  · cases computed
  · rename_i formulas decided
    obtain ⟨constraints, translated, decided⟩ := ok_of_bind decided
    obtain ⟨solution, solved, made⟩ := ok_of_bind decided
    obtain ⟨_, rfl⟩ := SliceTask.constraints_eq_ok_iff.mp translated
    cases solution with
    | none => cases made
    | some assignment =>
        cases made
        obtain ⟨valuation, solves⟩ := (SliceTask.solve_eq_ok solved).2.mp rfl
        have satisfiable : ∃ valuation,
            task.set.activation.Satisfies task.request.constraints valuation :=
          ⟨valuation, Activation.solves_formulas_iff.mp solves⟩
        obtain ⟨keys, statuses⟩ := featureStatuses_eq_ok computed
        have meaning := fun code active => featureStatus_eq_ok satisfiable (statuses code active)
        refine describes_of_active keys (fun code active => ?_) fun code active => ?_
        · rw [(meaning code active).1]
          exact (and_iff_right satisfiable).symm
        · exact (meaning code active).2
  · rename_i formulas decided
    obtain ⟨constraints, translated, decided⟩ := ok_of_bind decided
    obtain ⟨solution, solved, made⟩ := ok_of_bind decided
    obtain ⟨_, rfl⟩ := SliceTask.constraints_eq_ok_iff.mp translated
    cases solution with
    | some assignment => cases made
    | none =>
        cases made
        cases computed
        refine describes_allWith ?_
        intro given
        obtain ⟨valuation, satisfies⟩ := given
        cases (SliceTask.solve_eq_ok solved).2.mpr
          ⟨valuation, Activation.solves_formulas_iff.mpr satisfies⟩

end Lookup

/-! ## Success -/

section Success

variable {task : SliceTask}
  (interprets : task.set.activation.Interprets task.request.constraints)
  (small : ((task.set.activation.unknowns task.request.constraints).union
    task.set.activation.codes).size ≤ Nat.min task.limits.maxVariables TruthTable.wordVariables)

include small

/-- Asking for an active feature brings in no variable but its code. -/
private theorem allows_under (literals : List Literal)
    (active : ∀ literal ∈ literals, literal.name ∈ task.set.activation.codes) :
    task.limits.solver.allows (Formula.varsOfAll (literals.map Literal.toFormula ++
      task.set.activation.formulas task.request.constraints)).size = true := by
  refine decide_eq_true (Nat.le_trans (SortedSet.size_le_of_subset fun name member => ?_) small)
  rw [SortedSet.mem_union_iff]
  obtain ⟨formula, listed, inVars⟩ := Formula.mem_varsOfAll_iff.mp member
  rcases List.mem_append.mp listed with asked | given
  · obtain ⟨literal, inLiterals, rfl⟩ := List.mem_map.mp asked
    exact .inr (Constraint.mem_vars_toFormula.mp inVars ▸ active literal inLiterals)
  · rw [← Activation.varsOfAll_formulas]
    exact .inl (Formula.mem_varsOfAll_iff.mpr ⟨formula, given, inVars⟩)

private theorem exists_featureStatuses : ∃ result,
    featureStatuses task (task.set.activation.formulas task.request.constraints) = .ok result := by
  have each : ∀ code ∈ task.set.activation.codes.toList, ∃ entry, (do
      let status ← featureStatus task (task.set.activation.formulas task.request.constraints) code
      return (code, status) : Except AnalysisError (String × FeatureStatus)) = .ok entry := by
    intro code active
    have solvable : ∀ phase, ∃ solution, task.solveUnder
        (task.set.activation.formulas task.request.constraints) ⟨code, phase⟩ = .ok solution := by
      intro phase
      refine SliceTask.exists_solution (allows_under small [⟨code, phase⟩] ?_)
      exact fun literal member => List.mem_singleton.mp member ▸ active
    obtain ⟨present, presentDecided⟩ := solvable true
    obtain ⟨absent, absentDecided⟩ := solvable false
    unfold featureStatus
    rw [presentDecided, absentDecided]
    exact ⟨_, rfl⟩
  obtain ⟨statuses, listed⟩ := exists_of_mapM each
  refine ⟨.ofList statuses, ?_⟩
  show (List.mapM _ task.set.activation.codes.toList >>= _) = _
  rw [listed]
  rfl

include interprets

/-- The analysis succeeds if the constraints mean something and the variables and the
active features are not too many. -/
theorem exists_outcome : ∃ result, (compute task).outcome = .ok result := by
  obtain ⟨solution, solved⟩ : ∃ solution,
      task.solve (task.set.activation.formulas task.request.constraints) = .ok solution :=
    SliceTask.exists_solution (allows_under small [] fun _ member => nomatch member)
  have decided : satisfiable task =
      .ok (task.set.activation.formulas task.request.constraints, solution.isSome) := by
    unfold satisfiable
    rw [SliceTask.constraints_eq_ok_iff.mpr ⟨interprets, rfl⟩]
    show (task.solve (task.set.activation.formulas task.request.constraints) >>= _) = _
    rw [solved]
    rfl
  unfold compute
  rw [decided]
  cases solution with
  | none => exact ⟨_, rfl⟩
  | some assignment => exact exists_featureStatuses small

end Success

theorem errors_of_compute (task : SliceTask) : (compute task).notices.errors = [] := by
  unfold compute
  split <;> rfl

/-! ## Combined statuses -/

section Merge

variable {left right : BuildabilityResult} {code : String}

theorem mem_keys_merge : code ∈ (merge left right).keys ↔ code ∈ left.keys ∨ code ∈ right.keys := by
  unfold merge
  simp only [SortedMap.mem_keys_iff (SortedMap.tabulate _ _), SortedMap.get?_tabulate]
  rw [← SortedSet.mem_union_iff]
  simp

/-- A feature that is missing from both results is forbidden in all three. -/
theorem statusOf_merge :
    statusOf (merge left right) code = (statusOf left code).combine (statusOf right code) := by
  by_cases member : code ∈ (merge left right).keys
  · obtain ⟨status, found⟩ := (SortedMap.mem_keys_iff _ _).mp member
    conv_lhs => unfold statusOf
    rw [found]
    exact ((SortedMap.get?_tabulate _ _ _ _).mp found).2.symm
  · have missing := not_or.mp (mt mem_keys_merge.mpr member)
    rw [statusOf_of_not_mem member, statusOf_of_not_mem missing.1, statusOf_of_not_mem missing.2]
    rfl

theorem mandatory_merge_iff : statusOf (merge left right) code = .mandatory ↔
    statusOf left code = .mandatory ∧ statusOf right code = .mandatory := by
  rw [statusOf_merge, FeatureStatus.combine_eq_mandatory_iff]

theorem forbidden_merge_iff : statusOf (merge left right) code = .forbidden ↔
    statusOf left code = .forbidden ∧ statusOf right code = .forbidden := by
  rw [statusOf_merge, FeatureStatus.combine_eq_forbidden_iff]

/-- Two results for what is active are combined to one for it. -/
theorem Describes.merge {activation : Activation} {constraints : List String}
    (leftDescribes : Describes left activation constraints)
    (rightDescribes : Describes right activation constraints) :
    Describes (merge left right) activation constraints where
  keys code := by rw [mem_keys_merge, leftDescribes.keys, rightDescribes.keys, or_self]
  mandatory code := by
    rw [mandatory_merge_iff, leftDescribes.mandatory, rightDescribes.mandatory, and_self]
  forbidden code := by
    rw [forbidden_merge_iff, leftDescribes.forbidden, rightDescribes.forbidden, and_self]

end Merge

theorem discipline_of_resolve {model : Model} {request : Request} {selectors : List Selector}
    (resolved : request.resolve model.space buildability.allows buildability.defaultDiscipline =
      .ok selectors)
    {axis : Axis} (member : axis ∈ model.axes selectors) :
    axis.discipline = .split ∨ axis.discipline = .all := by
  rcases RuleSlicing.discipline_of_resolve resolved member with allowed | isDefault
  · cases isDiscipline : axis.discipline with
    | split => exact .inl rfl
    | all => exact .inr rfl
    | any =>
        rw [isDiscipline] at allowed
        cases allowed
  · exact .inr isDefault

end Buildability

/-! ## Responses without errors -/

def Model.unknowns (model : Model) : SortedSet String :=
  (Formula.varsOfAll (model.rules.map (·.formula))).union (.ofList (model.features.map (·.code)))

theorem Model.mem_unknowns_of_activation {model : Model} {slice : Slice} {name : String}
    (member : name ∈ ((model.activation slice).unknowns []).union (model.activation slice).codes) :
    name ∈ model.unknowns := by
  unfold unknowns
  rw [SortedSet.mem_union_iff] at member ⊢
  rcases member with inUnknowns | active
  · rcases (SortedSet.mem_union_iff _ _ _).mp inUnknowns with inRules | asked
    · obtain ⟨_, listed, inVars⟩ := Formula.mem_varsOfAll_iff.mp inRules
      obtain ⟨rule, isActive, rfl⟩ := List.mem_map.mp listed
      exact .inl (Formula.mem_varsOfAll_iff.mpr
        ⟨_, List.mem_map_of_mem (List.mem_filter.mp isActive).1, inVars⟩)
    · exact absurd asked (SortedSet.not_mem_empty name)
  · obtain ⟨feature, isActive, rfl⟩ := Activation.mem_codes_iff.mp active
    exact .inr ((SortedSet.mem_ofList_iff _ _).mpr
      (List.mem_map_of_mem (List.mem_filter.mp isActive).1))

/-- Without constraints a run leaves no error if the limit is large enough for the whole
model. -/
theorem Computation.errors_of_unconstrained {Result : Type} {computation : Computation Result}
    (succeeds : ∀ task : SliceTask, task.set.activation.Interprets task.request.constraints →
      ((task.set.activation.unknowns task.request.constraints).union
        task.set.activation.codes).size ≤
          Nat.min task.limits.maxVariables TruthTable.wordVariables →
      ∃ result, (computation.compute task).outcome = .ok result)
    (silent : ∀ task, (computation.compute task).notices.errors = []) {model : Model}
    (sound : model.Sound) {request : Request} {limits : Limits} {run : Run Result}
    (success : computation.run request model limits = .ok run)
    (unconstrained : request.constraints = [])
    (small : model.unknowns.size ≤ Nat.min limits.maxVariables TruthTable.wordVariables) :
    run.notices.errors = [] := by
  refine errors_of_run success fun slices set member => ?_
  have active := SliceSet.activation_of_mem_group sound member (.head _)
  have interprets : set.activation.Interprets request.constraints := by
    intro text inConstraints
    rw [unconstrained] at inConstraints
    cases inConstraints
  have fewer : ((set.activation.unknowns request.constraints).union set.activation.codes).size ≤
      model.unknowns.size := by
    refine SortedSet.size_le_of_subset fun name inUnknowns => ?_
    rw [unconstrained, ← active] at inUnknowns
    exact Model.mem_unknowns_of_activation inUnknowns
  obtain ⟨result, computed⟩ :=
    succeeds ⟨request, set, limits⟩ interprets (Nat.le_trans fewer small)
  exact ⟨result, computed, silent _⟩

theorem Buildability.errors_of_respond {model : Model} (sound : model.Sound) {jobId : String}
    {request : Request} {limits : Limits} {response : ListResponse String FeatureStatus}
    (responded : buildability.respond jobId request model limits = .ok response)
    (unconstrained : request.constraints = [])
    (small : model.unknowns.size ≤ Nat.min limits.maxVariables TruthTable.wordVariables) :
    response.status.notices.errors = [] := by
  obtain ⟨run, success, responded⟩ := ok_of_bind responded
  cases responded
  exact Computation.errors_of_unconstrained (fun _ => Buildability.exists_outcome)
    Buildability.errors_of_compute sound success unconstrained small

theorem Sample.unknowns_small {model : Model} (compiled : Model.compile document = .ok model) :
    model.unknowns.size ≤ Nat.min Limits.standard.maxVariables TruthTable.wordVariables := by
  cases compiled
  decide

theorem Sample.exists_buildability : ∃ model response, Model.compile document = .ok model ∧
    buildability.respond "job" request model .standard = .ok response ∧
    response.status.notices.errors = [] := by
  obtain ⟨model, _, compiled, _⟩ := exists_within
  obtain ⟨selectors, slices, resolved, made⟩ : ∃ selectors slices,
      request.resolve model.space buildability.allows buildability.defaultDiscipline =
        .ok selectors ∧
      Slice.all selectors model.space.dimensions Limits.standard.maxSlices = .ok slices := by
    cases compiled
    exact ⟨_, _, rfl, rfl⟩
  obtain ⟨response, responded⟩ := ListComputation.exists_response made buildability
    (fun _ _ => Buildability.mild_of_compute) resolved "job"
  exact ⟨model, response, compiled, responded, Buildability.errors_of_respond
    (Model.sound_of_compile compiled) responded rfl (unknowns_small compiled)⟩

/-! ## Responses -/

theorem ListComputation.mem_occurring_iff {Result Element Main : Type} [LinearOrdered Element]
    {computation : ListComputation Result Element Main} {run : Run Result} {element : Element} :
    element ∈ computation.occurring run ↔
      ∃ entry ∈ run.keys, element ∈ computation.elements entry.2 := by
  unfold occurring
  induction run.keys with
  | nil => simp [SortedSet.not_mem_empty]
  | cons entry rest ih =>
      rw [List.foldr_cons, SortedSet.mem_union_iff, ih, List.exists_mem_cons_iff]

theorem Buildability.describes_of_ran {request : Request} {model : Model} {limits : Limits}
    {run : Run BuildabilityResult} {results : List (Slice × BuildabilityResult)}
    (ran : buildability.Ran request model limits run results) (quiet : run.notices.errors = []) :
    ∀ entry ∈ results,
      Describes entry.2 (model.activation entry.1) request.constraints := by
  intro entry member
  obtain ⟨set, notices, active, attempted, quietly⟩ := ran.attempted entry member
  rw [← active]
  rcases Computation.attempt_eq_ok attempted with computed | ⟨_, _, loud⟩
  · exact describes_of_compute computed
  · exact absurd (quietly quiet) loud

/-- The features and rules that are active at the selected points over a combination of
values. -/
def Model.ActiveOver (model : Model) (axes : List Axis) (chosen : Point)
    (activation : Activation) : Prop :=
  ∃ point : Point, point.Within axes ∧ point.Agrees chosen (Axis.having .split axes) ∧
    model.activation (point.slice axes) = activation

private theorem forall_activeOver_iff {model : Model} {axes : List Axis} {chosen : Point}
    {Meets : Activation → Prop} :
    (∀ activation, model.ActiveOver axes chosen activation → Meets activation) ↔
      ∀ point : Point, point.Within axes → point.Agrees chosen (Axis.having .split axes) →
        Meets (model.activation (point.slice axes)) := by
  constructor
  · intro every point inside agrees
    exact every _ ⟨point, inside, agrees, rfl⟩
  · rintro every _ ⟨point, inside, agrees, rfl⟩
    exact every point inside agrees

private theorem sums_of_iff {status : FeatureStatus} {activations : Activation → Prop}
    {constraints : List String} {code : String}
    (mandatory : status = .mandatory ↔
      ∀ activation, activations activation → activation.Requires constraints code)
    (forbidden : status = .forbidden ↔
      ∀ activation, activations activation → activation.Rejects constraints code) :
    status.Sums activations constraints code := by
  refine ⟨mandatory, forbidden, ?_⟩
  rw [← mandatory, ← forbidden]
  cases status <;> decide

/-- A response without errors lists the features that are active at some selected
point. The entry of a combination of selected values is mandatory exactly if the
feature is required at all points over the combination, forbidden if it is rejected
at all of them, and optional otherwise. -/
theorem entry_result_iff_buildable {document : ModelDocument} {model : Model}
    (compiled : Model.compile document = .ok model) {jobId : String} {request : Request}
    {limits : Limits} {response : ListResponse String FeatureStatus}
    (responded : buildability.respond jobId request model limits = .ok response)
    (quiet : response.status.notices.errors = []) :
    ∃ selectors, request.resolve model.space buildability.allows buildability.defaultDiscipline =
        .ok selectors ∧
      (∀ axis ∈ model.axes selectors, axis.discipline = .split ∨ axis.discipline = .all) ∧
      response.elements.map (·.id) = List.range' 1 response.elements.length ∧
      (response.elements.map (·.element)).Pairwise (· < ·) ∧
      (∀ code, code ∈ response.elements.map (·.element) ↔
        ∃ point : Point, point.Within (model.axes selectors) ∧
          code ∈ (model.activation (point.slice (model.axes selectors))).codes) ∧
      ∀ element ∈ response.elements, ∀ chosen : Point,
        chosen.Within (Axis.having .split (model.axes selectors)) →
        (element.entries.flatMap (·.slices)).countP (·.covers chosen) = 1 ∧
        ∀ entry ∈ element.entries, ∀ slice ∈ entry.slices, slice.covers chosen = true →
          entry.result.Sums (model.ActiveOver (model.axes selectors) chosen) request.constraints
            element.element := by
  have sound := Model.sound_of_compile compiled
  obtain ⟨run, results, _, ran, notices, elements, ids, partition⟩ :=
    ListComputation.exists_partition sound responded
  have describes := Buildability.describes_of_ran ran (notices ▸ quiet)
  have disciplines := fun axis (member : axis ∈ model.axes run.selectors) =>
    Buildability.discipline_of_resolve ran.resolved member
  refine ⟨run.selectors, ran.resolved, disciplines, ids, ?_, fun code => ?_, ?_⟩
  · rw [elements]
    exact (buildability.occurring run).ascending
  · rw [elements]
    refine ListComputation.mem_occurring_iff.trans ?_
    exact ran.exists_key_iff sound (code ∈ ·.keys) (code ∈ ·.codes)
      (fun entry member => (describes entry member).keys code) fun _ _ _ =>
        Buildability.mem_keys_merge
  · intro element member chosen within
    refine ⟨(partition element member).once chosen within, ?_⟩
    intro entry inElement slice inEntry covers
    obtain ⟨key, result, inKeys, represents, _, faithful⟩ :=
      (partition element member).faithful chosen within
    have same : Buildability.statusOf result element.element = entry.result :=
      eq_of_beq (faithful entry inElement slice inEntry covers)
    rw [← same]
    have mandatory := ran.holds_iff_forall sound
      (Buildability.statusOf · element.element = .mandatory)
      (·.Requires request.constraints element.element)
      (fun entry inResults => (describes entry inResults).mandatory element.element) inKeys within
      represents fun _ _ _ => Buildability.mandatory_merge_iff
    have forbidden := ran.holds_iff_forall sound
      (Buildability.statusOf · element.element = .forbidden)
      (·.Rejects request.constraints element.element)
      (fun entry inResults => (describes entry inResults).forbidden element.element) inKeys within
      represents fun _ _ _ => Buildability.forbidden_merge_iff
    refine sums_of_iff ?_ ?_
    · rw [forall_activeOver_iff]
      exact mandatory
    · rw [forall_activeOver_iff]
      exact forbidden

theorem entry_result_iff_buildable_sample : ∃ model response selectors,
    Model.compile Sample.document = .ok model ∧
    buildability.respond "job" Sample.request model .standard = .ok response ∧
    response.status.notices.errors = [] ∧
    Sample.request.resolve model.space buildability.allows buildability.defaultDiscipline =
      .ok selectors ∧
    (∀ axis ∈ model.axes selectors, axis.discipline = .split ∨ axis.discipline = .all) ∧
    response.elements.map (·.id) = List.range' 1 response.elements.length ∧
    (response.elements.map (·.element)).Pairwise (· < ·) ∧
    (∀ code, code ∈ response.elements.map (·.element) ↔
      ∃ point : Point, point.Within (model.axes selectors) ∧
        code ∈ (model.activation (point.slice (model.axes selectors))).codes) ∧
    ∀ element ∈ response.elements, ∀ chosen : Point,
      chosen.Within (Axis.having .split (model.axes selectors)) →
      (element.entries.flatMap (·.slices)).countP (·.covers chosen) = 1 ∧
      ∀ entry ∈ element.entries, ∀ slice ∈ entry.slices, slice.covers chosen = true →
        entry.result.Sums (model.ActiveOver (model.axes selectors) chosen)
          Sample.request.constraints element.element := by
  obtain ⟨model, response, compiled, responded, quiet⟩ := Sample.exists_buildability
  obtain ⟨selectors, meaning⟩ := entry_result_iff_buildable compiled responded quiet
  exact ⟨model, response, selectors, compiled, responded, quiet, meaning⟩

end RuleSlicing
