import RuleSlicing.Proofs.Attempts
import RuleSlicing.Proofs.Merging
import RuleSlicing.Proofs.Representatives

/-!
# What a run establishes

The slices of a set have the features and rules of the set active, and every slice
of a request is in a set. A run analyses each set, so each slice has a result that
was computed for what is active in it. Each combination of values that is reported
by itself has one result, which combines those of the slices with these values.
-/

set_option autoImplicit false

namespace RuleSlicing

/-! ## Sets of slices -/

private theorem filter_eq_of_ids {Item : Type} {idOf : Item → Nat} {items : List Item}
    (unique : (items.map idOf).Nodup) {left right : Item → Bool}
    (same : ∀ id, id ∈ (items.filter left).map idOf ↔ id ∈ (items.filter right).map idOf) :
    items.filter left = items.filter right := by
  have kept : ∀ (test : Item → Bool), ∀ item ∈ items,
      idOf item ∈ (items.filter test).map idOf ↔ test item = true := by
    intro test item member
    rw [List.mem_map]
    constructor
    · intro given
      obtain ⟨other, otherMember, equal⟩ := given
      obtain ⟨inItems, passes⟩ := List.mem_filter.mp otherMember
      exact List.inj_on_of_nodup_map unique inItems member equal ▸ passes
    · intro passes
      exact ⟨item, List.mem_filter.mpr ⟨member, passes⟩, rfl⟩
  refine List.filter_congr fun item member => ?_
  rw [Bool.eq_iff_iff, ← kept left item member, same, kept right item member]

/-- Two activations have features and rules with the same numbers. -/
structure Activation.SameObjects (left right : Activation) : Prop where
  features : ∀ id, id ∈ left.features.map (·.id) ↔ id ∈ right.features.map (·.id)
  rules : ∀ id, id ∈ left.rules.map (·.id) ↔ id ∈ right.rules.map (·.id)

namespace SliceSet

variable {model : Model} (sound : model.Sound)

include sound

/-- Features and rules with the same numbers are the same. -/
theorem activation_eq_of_sameObjects {left right : Slice}
    (same : (model.activation left).SameObjects (model.activation right)) :
    model.activation left = model.activation right := by
  have features : (model.features.map (·.id)).Nodup := sound.featureIds ▸ List.nodup_range'
  have rules : (model.rules.map (·.id)).Nodup := sound.ruleIds ▸ List.nodup_range'
  unfold Model.activation
  congr 1
  · exact filter_eq_of_ids features same.features
  · exact filter_eq_of_ids rules same.rules

private theorem activation_eq_of_key {left right : Slice}
    (same : (model.activation left).key = (model.activation right).key) :
    model.activation left = model.activation right := by
  apply activation_eq_of_sameObjects sound
  constructor
  · intro id
    exact iff_of_eq (congrArg (id ∈ ·) (congrArg Prod.fst same))
  · intro id
    exact iff_of_eq (congrArg (id ∈ ·) (congrArg Prod.snd same))

omit sound in
theorem slices_ofGroup? {members : List (Slice × Activation)} {set : SliceSet}
    (made : ofGroup? members = some set) :
    set.slices = members.map (·.1) ∧ ∃ slice, (slice, set.activation) ∈ members := by
  cases members with
  | nil => cases made
  | cons first rest =>
      obtain rfl := Option.some.inj made
      exact ⟨rfl, first.1, .head _⟩

theorem activation_of_mem_group {slices : List Slice} {set : SliceSet}
    (member : set ∈ group model slices) {slice : Slice} (inSet : slice ∈ set.slices) :
    model.activation slice = set.activation := by
  obtain ⟨⟨key, members⟩, inGroups, made⟩ := List.mem_filterMap.mp member
  obtain ⟨_, rfl⟩ := (mem_groupByHash_iff _ _ _ _).mp inGroups
  obtain ⟨setSlices, representative, inMembers⟩ := slices_ofGroup? made
  have active : ∀ other activation, (other, activation) ∈ (slices.map fun slice =>
      (slice, model.activation slice)).filter (fun entry => entry.2.key == key) →
        activation = model.activation other ∧ activation.key = key := by
    intro other activation inGroup
    obtain ⟨activated, same⟩ := List.mem_filter.mp inGroup
    obtain ⟨_, _, equal⟩ := List.mem_map.mp activated
    cases equal
    exact ⟨rfl, eq_of_beq same⟩
  rw [setSlices] at inSet
  obtain ⟨⟨_, activation⟩, inGroup, rfl⟩ := List.mem_map.mp inSet
  obtain ⟨rfl, sliceKey⟩ := active _ _ inGroup
  obtain ⟨representativeActive, setKey⟩ := active _ _ inMembers
  rw [representativeActive] at setKey ⊢
  exact activation_eq_of_key sound (sliceKey.trans setKey.symm)

omit sound in
theorem perm_group (slices : List Slice) :
    ((group model slices).flatMap (·.slices)).Perm slices := by
  have whole : ∀ members : List (Slice × Activation),
      (ofGroup? members).toList.flatMap (·.slices) = members.map (·.1) := by
    intro members
    cases members with
    | nil => rfl
    | cons first rest => exact List.append_nil _
  unfold group
  rw [List.filterMap_eq_flatMap_toList, List.flatMap_assoc,
    List.flatMap_congr fun grouped _ => whole grouped.2, ← List.map_flatMap]
  have regrouped := (perm_groupByHash (fun entry => entry.2.key)
    (slices.map fun slice => (slice, model.activation slice))).map (·.1)
  rw [List.map_map] at regrouped
  exact regrouped.trans (.of_eq (List.map_id _))

end SliceSet

/-! ## Results of slices -/

namespace Computation

variable {Result : Type} {computation : Computation Result} {request : Request} {limits : Limits}

/-- The results of the slices of a run. Each was computed for what is active in its
slice. -/
structure Ran (computation : Computation Result) (request : Request) (model : Model)
    (limits : Limits) (run : Run Result) (results : List (Slice × Result)) : Prop where
  resolved : request.resolve model.space computation.allows computation.defaultDiscipline =
    .ok run.selectors
  made : ∃ slices, Slice.all run.selectors model.space.dimensions limits.maxSlices = .ok slices ∧
    (results.map (·.1)).Perm slices
  attempted : ∀ entry ∈ results, ∃ set notices, set.activation = model.activation entry.1 ∧
    computation.attempt ⟨request, set, limits⟩ = .ok (entry.2, notices) ∧
      (run.notices.errors = [] → notices.errors = [])
  keys : run.keys = computation.mergeBySplit results

variable {model : Model} {run : Run Result}

theorem exists_ran (sound : model.Sound)
    (success : computation.run request model limits = .ok run) :
    ∃ results, computation.Ran request model limits run results := by
  obtain ⟨selectors, slices, resolved, made, mild, rfl⟩ := eq_completeRun_of_run success
  refine ⟨computation.resultsOf request limits (SliceSet.group model slices), resolved,
    ⟨slices, made, ?_⟩, ?_, rfl⟩
  · rw [map_fst_resultsOf]
    exact SliceSet.perm_group slices
  · rintro ⟨slice, result⟩ member
    obtain ⟨set, inGroup, inSet, rfl⟩ := mem_resultsOf_iff.mp member
    refine ⟨set, _, (SliceSet.activation_of_mem_group sound inGroup inSet).symm,
      attempt_of_not_failsFatally (mild set inGroup), fun quiet => ?_⟩
    exact List.flatMap_eq_nil_iff.mp (List.append_eq_nil_iff.mp quiet).2 _
      (List.mem_map_of_mem inGroup)

/-! ## Combinations that are reported by themselves -/

section Keys

variable (computation) (results : List (Slice × Result))

private theorem merged_of_group {key : Slice} {members : List (Slice × Result)}
    (group : (key, members) ∈ groupByHash (fun entry => entry.1.project .split) results) :
    ∃ result, computation.mergeKey? members = some result := by
  obtain ⟨⟨entry, member, same⟩, rfl⟩ := (mem_groupByHash_iff _ _ _ _).mp group
  exact exists_mergeKey? (List.ne_nil_of_mem (List.mem_filter.mpr ⟨member, beq_iff_eq.mpr same⟩))

theorem map_fst_mergeBySplit :
    (computation.mergeBySplit results).map (·.1) =
      (groupByHash (fun entry => entry.1.project .split) results).map (·.1) := by
  unfold mergeBySplit
  rw [List.map_filterMap, ← List.filterMap_eq_map]
  refine List.filterMap_congr ?_
  rintro ⟨key, members⟩ group
  obtain ⟨result, merged⟩ := merged_of_group computation results group
  simp [merged]

theorem nodup_mergeBySplit : ((computation.mergeBySplit results).map (·.1)).Nodup := by
  rw [map_fst_mergeBySplit]
  exact nodup_groupByHash _ results

theorem mem_map_mergeBySplit_iff {key : Slice} :
    key ∈ (computation.mergeBySplit results).map (·.1) ↔
      ∃ entry ∈ results, entry.1.project .split = key := by
  rw [map_fst_mergeBySplit, List.mem_map]
  constructor
  · intro given
    obtain ⟨⟨_, members⟩, group, rfl⟩ := given
    exact ((mem_groupByHash_iff _ _ _ _).mp group).1
  · intro occurs
    exact ⟨(key, _), (mem_groupByHash_iff _ _ _ _).mpr ⟨occurs, rfl⟩, rfl⟩

/-- The result of a combination is that of the slices with its values. -/
theorem mem_mergeBySplit_iff {key : Slice} {result : Result} :
    (key, result) ∈ computation.mergeBySplit results ↔
      computation.mergeKey? (results.filter fun entry => entry.1.project .split == key) =
        some result := by
  constructor
  · intro member
    obtain ⟨⟨_, members⟩, group, made⟩ := List.mem_filterMap.mp member
    obtain ⟨_, rfl⟩ := (mem_groupByHash_iff _ _ _ _).mp group
    obtain ⟨_, merged, same⟩ := Option.map_eq_some_iff.mp made
    cases same
    exact merged
  · intro merged
    have occurs : ∃ entry ∈ results, entry.1.project .split = key := by
      by_contra absent
      rw [List.filter_eq_nil_iff.mpr fun entry member same =>
        absent ⟨entry, member, eq_of_beq same⟩] at merged
      cases merged
    exact List.mem_filterMap.mpr ⟨_, (mem_groupByHash_iff _ _ _ _).mpr ⟨occurs, rfl⟩,
      Option.map_eq_some_iff.mpr ⟨result, merged, rfl⟩⟩

end Keys

end Computation

/-! ## The points of a run -/

def Run.axes {Result : Type} (run : Run Result) (model : Model) : List Axis :=
  model.axes run.selectors

/-- The axes that a run reports value by value. -/
def Run.splitAxes {Result : Type} (run : Run Result) (model : Model) : List Axis :=
  Axis.having .split (run.axes model)

section Known

variable {Result : Type} {model : Model} (sound : model.Sound) (run : Run Result)

include sound

theorem Run.known_axes : model.KnownTo (run.axes model) := sound.known run.selectors

theorem Run.known_splitAxes : model.KnownTo (run.splitAxes model) :=
  (sound.known run.selectors).having .split

end Known

namespace Computation.Ran

variable {Result : Type} {computation : Computation Result} {request : Request} {limits : Limits}
  {model : Model} {run : Run Result} {results : List (Slice × Result)}
  (ran : computation.Ran request model limits run results) (sound : model.Sound)

include ran sound

/-- The results are those of the points of relevant values. -/
theorem exists_result_iff {slice : Slice} :
    (∃ result, (slice, result) ∈ results) ↔ ∃ point : Point,
      (∀ axis ∈ run.axes model, point axis.name ∈ axis.values) ∧
        point.slice (run.axes model) = slice := by
  obtain ⟨slices, made, perm⟩ := ran.made
  rw [show run.axes model = model.axes run.selectors from rfl,
    ← mem_slices_iff sound ran.resolved made, ← perm.mem_iff, List.mem_map]
  constructor
  · intro given
    obtain ⟨result, member⟩ := given
    exact ⟨_, member, rfl⟩
  · intro given
    obtain ⟨⟨_, result⟩, member, rfl⟩ := given
    exact ⟨result, member⟩

theorem exists_relevant :
    ∃ point : Point, ∀ axis ∈ run.axes model, point axis.name ∈ axis.values := by
  obtain ⟨slices, made, _⟩ := ran.made
  refine Point.exists_forall (fun axis value => value ∈ axis.values) (run.known_axes sound).distinct
    fun axis member => ?_
  exact List.exists_mem_of_ne_nil _
    (Slice.values_ne_nil_of_all (selected_of_resolve ran.resolved sound) made member)

/-- The combinations are the slices of the points of relevant values. -/
theorem mem_map_keys_iff {key : Slice} :
    key ∈ run.keys.map (·.1) ↔ ∃ point : Point,
      (∀ axis ∈ run.splitAxes model, point axis.name ∈ axis.values) ∧
        point.slice (run.splitAxes model) = key := by
  have distinct := (run.known_axes sound).distinct
  rw [ran.keys, mem_map_mergeBySplit_iff]
  constructor
  · intro given
    obtain ⟨⟨slice, result⟩, member, rfl⟩ := given
    obtain ⟨point, relevant, rfl⟩ := (ran.exists_result_iff sound).mp ⟨result, member⟩
    exact ⟨point, fun axis inSplit => relevant axis (Axis.mem_having_iff.mp inSplit).1,
      (Point.project_slice distinct point .split).symm⟩
  · intro given
    obtain ⟨point, relevant, rfl⟩ := given
    obtain ⟨base, baseRelevant⟩ := ran.exists_relevant sound
    -- The other axes get any relevant values.
    obtain ⟨extended, chosen⟩ : ∃ extended : Point, ∀ axis ∈ run.axes model,
        extended axis.name ∈ axis.values ∧
          (axis.discipline = .split → extended axis.name = point axis.name) := by
      refine Point.exists_forall (fun axis value => value ∈ axis.values ∧
        (axis.discipline = .split → value = point axis.name)) distinct fun axis member => ?_
      by_cases split : axis.discipline = .split
      · exact ⟨_, relevant axis (Axis.mem_having_iff.mpr ⟨member, split⟩), fun _ => rfl⟩
      · exact ⟨_, baseRelevant axis member, fun isSplit => absurd isSplit split⟩
    obtain ⟨result, member⟩ := (ran.exists_result_iff sound).mpr
      ⟨extended, fun axis inAxes => (chosen axis inAxes).1, rfl⟩
    refine ⟨_, member, ?_⟩
    rw [Point.project_slice distinct]
    refine (Point.slice_eq_iff (Axis.distinct_having .split distinct)).mpr fun axis inSplit => ?_
    obtain ⟨inAxes, split⟩ := Axis.mem_having_iff.mp inSplit
    exact (chosen axis inAxes).2 split

omit sound in
theorem nodup_keys : (run.keys.map (·.1)).Nodup := by
  rw [ran.keys]
  exact nodup_mergeBySplit computation results

end Computation.Ran

end RuleSlicing
