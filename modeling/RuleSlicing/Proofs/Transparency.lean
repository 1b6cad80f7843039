import Mathlib.Data.List.Dedup
import RuleSlicing.Proofs.Buildability
import RuleSlicing.Proofs.Isolation

/-!
# Analysing a set once changes nothing

The plain course of an analysis takes each slice by itself, in the order in which the
slices are made. If the analysis of a set depends on what is active only, and the order
in which results are combined does not matter, a run gives each combination of values
the result of the plain course.
-/

set_option autoImplicit false

namespace RuleSlicing

/-! ## Combining in any order -/

/-- Neither the order nor the nesting of what is combined matters. -/
structure Orderless {Result : Type} (merge : Result → Result → Result) : Prop where
  assoc : ∀ first second third, merge (merge first second) third = merge first (merge second third)
  comm : ∀ first second, merge first second = merge second first

theorem reduce?_perm {Result : Type} {merge : Result → Result → Result}
    (orderless : Orderless merge) {left right : List Result} (perm : left.Perm right) :
    reduce? merge left = reduce? merge right := by
  have : Std.Associative merge := ⟨orderless.assoc⟩
  have : Std.Commutative merge := ⟨orderless.comm⟩
  induction perm with
  | nil => rfl
  | cons first rest => exact congrArg some rest.foldl_op_eq
  | swap first second rest =>
      show some (rest.foldl merge (merge second first)) = some (rest.foldl merge (merge first second))
      rw [orderless.comm]
  | trans _ _ earlier later => exact earlier.trans later

namespace Computation

variable {Result : Type} (computation : Computation Result)

/-! ## The plain course -/

/-- Combine the results of slices that belong together: for each choice of values where
one is enough those of all slices with it, then what these choices give. -/
def plainKey? (members : List (Slice × Result)) : Option Result :=
  let choices := (members.map fun entry => entry.1.project .any).dedup
  reduce? (computation.merge .any) <| choices.filterMap fun choice =>
    let chosen := members.filter fun entry => entry.1.project .any = choice
    reduce? (computation.merge .all) (chosen.map (·.2))

def plainKeys (results : List (Slice × Result)) : List (Slice × Result) :=
  let keys := (results.map fun entry => entry.1.project .split).dedup
  keys.filterMap fun key =>
    let members := results.filter fun entry => entry.1.project .split = key
    (computation.plainKey? members).map fun result => (key, result)

/-- The result of a slice that is analysed by itself, or the fallback. -/
def resultAlone (request : Request) (model : Model) (limits : Limits) (slice : Slice) : Result :=
  computation.resultOf ⟨request, ⟨slice, [], model.activation slice⟩, limits⟩

/-- Analyse each slice of a request by itself and combine the results. -/
def runPlain (request : Request) (model : Model) (limits : Limits) :
    Except AnalysisError (List (Slice × Result)) := do
  let selectors ←
    (request.resolve model.space computation.allows computation.defaultDiscipline).mapError
      RequestFault.toError
  let slices ← Slice.all selectors model.space.dimensions limits.maxSlices
  return computation.plainKeys <| slices.map fun slice =>
    (slice, computation.resultAlone request model limits slice)

/-! ## Both courses -/

/-- The analysis of a set depends on its active rules and feature codes only, and does
not fail fatally. -/
structure DependsOnActive (request : Request) (limits : Limits) : Prop where
  determined : ∀ left right : SliceSet, left.activation.rules = right.activation.rules →
    left.activation.codes = right.activation.codes →
      (computation.compute ⟨request, left, limits⟩).outcome =
        (computation.compute ⟨request, right, limits⟩).outcome
  mild : ∀ set error, (computation.compute ⟨request, set, limits⟩).outcome = .error error →
    error.isFatal = false

variable {computation}

private theorem perm_keysFrom_dedup {Item : Type} (keyOf : Item → Slice)
    {left right : List Item} (perm : left.Perm right) :
    (keysFrom keyOf ∅ left).Perm (right.map keyOf).dedup := by
  refine (List.perm_ext_iff_of_nodup (nodup_keysFrom keyOf left ∅) (List.nodup_dedup _)).mpr ?_
  intro key
  rw [mem_keysFrom_iff, List.mem_dedup, List.mem_map]
  constructor
  · rintro ⟨_, item, member, same⟩
    exact ⟨item, perm.mem_iff.mp member, same⟩
  · rintro ⟨item, member, same⟩
    exact ⟨Std.HashSet.not_mem_empty, item, perm.mem_iff.mpr member, same⟩

theorem mem_plainKeys_iff {results : List (Slice × Result)} {key : Slice} {result : Result} :
    (key, result) ∈ computation.plainKeys results ↔
      computation.plainKey? (results.filter fun entry => entry.1.project .split = key) =
        some result := by
  unfold plainKeys
  rw [List.mem_filterMap]
  constructor
  · rintro ⟨_, _, made⟩
    obtain ⟨_, merged, same⟩ := Option.map_eq_some_iff.mp made
    cases same
    exact merged
  · intro merged
    refine ⟨key, ?_, Option.map_eq_some_iff.mpr ⟨result, merged, rfl⟩⟩
    rw [List.mem_dedup, List.mem_map]
    by_contra absent
    rw [List.filter_eq_nil_iff.mpr fun entry member same =>
      absent ⟨entry, member, of_decide_eq_true same⟩] at merged
    cases merged

theorem nodup_plainKeys (results : List (Slice × Result)) :
    ((computation.plainKeys results).map (·.1)).Nodup := by
  unfold plainKeys
  rw [List.map_filterMap]
  refine (List.nodup_dedup _).filterMap fun left right key inLeft inRight => ?_
  have isKey : ∀ {other : Slice}, key ∈ (Option.map (fun result => (other, result))
      (computation.plainKey? (results.filter fun entry => entry.1.project .split = other))).map
        (·.1) → other = key := by
    intro other member
    obtain ⟨_, found, same⟩ := Option.map_eq_some_iff.mp member
    obtain ⟨_, _, rfl⟩ := Option.map_eq_some_iff.mp found
    exact same
  exact (isKey inLeft).trans (isKey inRight).symm

section Orderless

variable (all : Orderless (computation.merge .all)) (any : Orderless (computation.merge .any))

include all any

private theorem mergeKey?_eq_plainKey? {left right : List (Slice × Result)}
    (perm : left.Perm right) : computation.mergeKey? left = computation.plainKey? right := by
  unfold mergeKey? plainKey?
  simp only
  rw [groupByHash_eq_map, List.filterMap_map]
  have choices := perm_keysFrom_dedup (fun entry : Slice × Result => entry.1.project .any) perm
  refine (reduce?_perm any (choices.filterMap _)).trans ?_
  congr 1
  refine List.filterMap_congr fun choice _ => ?_
  exact reduce?_perm all ((perm.filter _).map _)

theorem mem_mergeBySplit_iff_mem_plainKeys {left right : List (Slice × Result)}
    (perm : left.Perm right) {key : Slice} {result : Result} :
    (key, result) ∈ computation.mergeBySplit left ↔
      (key, result) ∈ computation.plainKeys right := by
  rw [mem_mergeBySplit_iff, mem_plainKeys_iff]
  exact Eq.congr_left (mergeKey?_eq_plainKey? all any (perm.filter _))

end Orderless

section Active

variable {request : Request} {model : Model} {limits : Limits}
  (active : computation.DependsOnActive request limits) (sound : model.Sound)

include active sound

/-- Set by set or one by one, the slices have the same results. -/
private theorem perm_resultsOf (slices : List Slice) :
    (computation.resultsOf request limits (SliceSet.group model slices)).Perm
      (slices.map fun slice => (slice, computation.resultAlone request model limits slice)) := by
  have alone : computation.resultsOf request limits (SliceSet.group model slices) =
      ((SliceSet.group model slices).flatMap (·.slices)).map fun slice =>
        (slice, computation.resultAlone request model limits slice) := by
    unfold resultsOf
    rw [List.map_flatMap]
    refine List.flatMap_congr fun set member => List.map_congr_left fun slice inSet => ?_
    have same := SliceSet.activation_of_mem_group sound member inSet
    exact congrArg (Prod.mk slice) <| resultOf_congr
      (active.determined set ⟨slice, [], model.activation slice⟩
        (congrArg Activation.rules same).symm (congrArg Activation.codes same).symm) rfl
  rw [alone]
  exact (SliceSet.perm_group slices).map _

end Active

end Computation

/-! ## Buildability -/

theorem Activation.theory_congr {left right : Activation} (rules : left.rules = right.rules)
    (codes : left.codes = right.codes) : left.theory = right.theory := by
  unfold theory exclusions ruleVariables
  rw [rules, codes]

namespace FeatureStatus

theorem combine_comm (first second : FeatureStatus) :
    first.combine second = second.combine first := by
  cases first <;> cases second <;> rfl

theorem combine_assoc (first second third : FeatureStatus) :
    (first.combine second).combine third = first.combine (second.combine third) := by
  cases first <;> cases second <;> cases third <;> rfl

end FeatureStatus

namespace Buildability

/-- A result is known by its features and their statuses. -/
theorem result_ext {left right : BuildabilityResult}
    (keys : ∀ code, code ∈ left.keys ↔ code ∈ right.keys)
    (statuses : ∀ code, statusOf left code = statusOf right code) : left = right := by
  ext1 code
  have listed := keys code
  have status := statuses code
  unfold statusOf at status
  rw [SortedMap.mem_keys_iff, SortedMap.mem_keys_iff] at listed
  cases inLeft : left.get? code with
  | none =>
      cases inRight : right.get? code with
      | none => rfl
      | some found =>
          obtain ⟨_, stored⟩ := listed.mpr ⟨found, inRight⟩
          rw [inLeft] at stored
          cases stored
  | some found =>
      obtain ⟨other, stored⟩ := listed.mp ⟨found, inLeft⟩
      rw [inLeft, stored] at status
      rw [stored]
      exact congrArg some status

theorem orderless_merge : Orderless merge where
  assoc first second third := by
    refine result_ext (fun code => ?_) fun code => ?_
    · simp only [mem_keys_merge, or_assoc]
    · simp only [statusOf_merge, FeatureStatus.combine_assoc]
  comm first second := by
    refine result_ext (fun code => ?_) fun code => ?_
    · simp only [mem_keys_merge, or_comm]
    · rw [statusOf_merge, statusOf_merge, FeatureStatus.combine_comm]

theorem outcome_congr {request : Request} {limits : Limits} {left right : SliceSet}
    (same : left.activation.theory = right.activation.theory) :
    (compute ⟨request, left, limits⟩).outcome = (compute ⟨request, right, limits⟩).outcome := by
  have satisfiable : satisfiable ⟨request, left, limits⟩ = satisfiable ⟨request, right, limits⟩ := by
    unfold Buildability.satisfiable SliceTask.constraints SliceTask.theory
    simp only [same]
    rfl
  have statuses : ∀ formulas, featureStatuses ⟨request, left, limits⟩ formulas =
      featureStatuses ⟨request, right, limits⟩ formulas := by
    intro formulas
    unfold featureStatuses SliceTask.theory
    simp only [same]
    rfl
  unfold compute
  rw [satisfiable]
  split
  · rfl
  · exact statuses _
  · exact congrArg (fun theory : Theory => Except.ok (allWith .forbidden theory.codes)) same

theorem dependsOnActive (request : Request) (limits : Limits) :
    buildability.DependsOnActive request limits where
  determined _ _ rules codes := outcome_congr (Activation.theory_congr rules codes)
  mild _ _ := mild_of_compute

end Buildability

/-! ## Runs -/

namespace Computation

private theorem runPlain_of_resolve {Result : Type} (computation : Computation Result)
    (limits : Limits) {request : Request} {model : Model} {selectors : List Selector}
    (resolved : request.resolve model.space computation.allows computation.defaultDiscipline =
      .ok selectors) :
    computation.runPlain request model limits =
      (Slice.all selectors model.space.dimensions limits.maxSlices).map fun slices =>
        computation.plainKeys <| slices.map fun slice =>
          (slice, computation.resultAlone request model limits slice) := by
  unfold runPlain
  rw [resolved]
  rfl

/-- A run fails as the plain course does, and otherwise reports the same combinations,
each once, with the same results. -/
theorem run_keys_iff_plain {document : ModelDocument} {model : Model}
    (compiled : Model.compile document = .ok model) {Result : Type}
    {computation : Computation Result} {request : Request} {limits : Limits}
    (active : computation.DependsOnActive request limits)
    (all : Orderless (computation.merge .all)) (any : Orderless (computation.merge .any)) :
    (∃ error, computation.run request model limits = .error error ∧
      computation.runPlain request model limits = .error error) ∨
    ∃ run keys, computation.run request model limits = .ok run ∧
      computation.runPlain request model limits = .ok keys ∧
      (run.keys.map (·.1)).Nodup ∧ (keys.map (·.1)).Nodup ∧
      ∀ key result, (key, result) ∈ run.keys ↔ (key, result) ∈ keys := by
  have sound := Model.sound_of_compile compiled
  cases resolved : request.resolve model.space computation.allows
      computation.defaultDiscipline with
  | error fault =>
      refine .inl ⟨_, run_of_unresolved resolved, ?_⟩
      unfold runPlain
      rw [resolved]
      rfl
  | ok selectors =>
      cases made : Slice.all selectors model.space.dimensions limits.maxSlices with
      | error error =>
          refine .inl ⟨_, run_of_unmade resolved made, ?_⟩
          rw [runPlain_of_resolve computation limits resolved, made]
          rfl
      | ok slices =>
          have mild := noneFatal_of_mild active.mild (SliceSet.group model slices)
          have plain := runPlain_of_resolve computation limits resolved
          rw [made] at plain
          exact .inr ⟨_, _, run_of_noneFatal resolved made mild, plain, nodup_mergeBySplit _ _,
            nodup_plainKeys _, fun _ _ =>
              mem_mergeBySplit_iff_mem_plainKeys all any (perm_resultsOf active sound slices)⟩

theorem run_keys_iff_plain_sample : ∃ model run keys,
    Model.compile Sample.document = .ok model ∧
    buildability.DependsOnActive Sample.request .standard ∧
    Orderless (buildability.merge .all) ∧ Orderless (buildability.merge .any) ∧
    buildability.run Sample.request model .standard = .ok run ∧
    buildability.runPlain Sample.request model .standard = .ok keys ∧
    (run.keys.map (·.1)).Nodup ∧ (keys.map (·.1)).Nodup ∧
    ∀ key result, (key, result) ∈ run.keys ↔ (key, result) ∈ keys := by
  obtain ⟨model, response, compiled, responded, _⟩ := Sample.exists_buildability
  obtain ⟨_, success, _⟩ := ok_of_bind responded
  have active := Buildability.dependsOnActive Sample.request .standard
  have orderless := Buildability.orderless_merge
  rcases run_keys_iff_plain compiled active orderless orderless with
    ⟨_, failed, _⟩ | ⟨run, keys, same⟩
  · rw [success] at failed
    cases failed
  · exact ⟨model, run, keys, compiled, active, orderless, orderless, same⟩

end Computation

end RuleSlicing
