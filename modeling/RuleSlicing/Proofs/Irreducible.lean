import RuleSlicing.Proofs.Buildability
import RuleSlicing.Proofs.Gaps

/-!
# Reported slices are irreducible

Two slices of an entry that differ in one dimension only could not have been reported
as one: a selected value that belongs elsewhere lies between their ranges. Merging
along one dimension after another keeps this for the dimensions merged before, as each
merged slice stands for slices that fix a single value for the dimension merged last.
-/

set_option autoImplicit false

namespace RuleSlicing

namespace Slice

def PartedBy (axis : Axis) (value : PropertyValue) (left right : Slice) : Prop :=
  ∃ leftRange rightRange, left.range? axis.name = some leftRange ∧
    right.range? axis.name = some rightRange ∧ axis.LiesBetween value leftRange rightRange

/-- Slices cannot be merged further along an axis. -/
structure MergedAlong (axis : Axis) (slices : List Slice) : Prop where
  windows : ∀ slice ∈ slices, ∀ range, slice.range? axis.name = some range → axis.HasWindow range
  /-- Between two slices lies a relevant value that no slice beside them has. -/
  parted : ∀ left ∈ slices, ∀ right ∈ slices, left ≠ right →
    left.without axis.name = right.without axis.name →
      ∃ value ∈ axis.values, PartedBy axis value left right ∧
        ∀ other ∈ slices, other.without axis.name = left.without axis.name →
          ∀ range, other.range? axis.name = some range → value ∉ range

/-! ## Fixing a single value -/

def pin (axis : Axis) (value : PropertyValue) (slice : Slice) : Slice :=
  (slice.without axis.name).fix ⟨axis.name, .single value⟩ .split

section Pin

variable {axis along : Axis} {value : PropertyValue}

theorem get?_pin (slice : Slice) (name : String) :
    (slice.pin axis value).get? name =
      if name = axis.name then some ⟨.single value, .split⟩ else slice.get? name := by
  unfold pin
  rw [get?_fix, get?_without]
  split
  · rfl
  · rfl

theorem pin_congr {left right : Slice} (agree : left.without along.name = right.without along.name) :
    (left.pin axis value).without along.name = (right.pin axis value).without along.name := by
  apply without_congr
  intro name beyond
  rw [get?_pin, get?_pin]
  split
  · rfl
  · exact get?_congr agree beyond

variable (different : along.name ≠ axis.name)

include different

theorem range?_pin (slice : Slice) :
    (slice.pin axis value).range? along.name = slice.range? along.name := by
  unfold range?
  rw [get?_pin, if_neg different]

theorem eq_of_pin {left right : Slice} (agree : left.without along.name = right.without along.name)
    (same : left.pin axis value = right.pin axis value) : left = right := by
  ext1 name
  by_cases here : name = along.name
  · have fixed := congrArg (·.get? name) same
    have elsewhere : name ≠ axis.name := here ▸ different
    simpa only [get?_pin, if_neg elsewhere] using fixed
  · exact get?_congr agree here

end Pin

end Slice

/-! ## Merging along one axis -/

namespace ReportedDimension

section Step

variable {axes pending : List Axis} {axis : Axis} {slices : List Slice}

private theorem Gathered.eq {rest : Slice} {left right : List PropertyValue}
    (leftGathered : Gathered axis slices rest left)
    (rightGathered : Gathered axis slices rest right) : left = right := by
  have leftWhole := ((mem_groupByHash_iff _ _ _ _).mp leftGathered.group).2
  have rightWhole := ((mem_groupByHash_iff _ _ _ _).mp rightGathered.group).2
  apply List.map_injective_iff.mpr _ (leftWhole.trans rightWhole.symm)
  intro first second same
  have fixed := congrArg (·.get? axis.name) same
  simp only [Slice.get?_fix, if_true] at fixed
  exact PropertyRange.single_inj (congrArg Coordinate.range (Option.some.inj fixed))

private theorem Gathered.pin_mem {slice : Slice} {values : List PropertyValue}
    (gathered : Gathered axis slices (slice.without axis.name) values) {value : PropertyValue}
    (member : value ∈ values) : slice.pin axis value ∈ slices := by
  have whole := ((mem_groupByHash_iff _ _ _ _).mp gathered.group).2
  have inGroup : slice.pin axis value ∈ slices.filter
      (fun other => other.without axis.name == slice.without axis.name) :=
    whole ▸ List.mem_map.mpr ⟨value, member, rfl⟩
  exact (List.mem_filter.mp inGroup).1

variable {rule : MergeRule} (collects : rule.Collects axis) (grounded : axis.Grounded)

include collects grounded

private theorem mem_values_of_mem_merge {values : List PropertyValue}
    (relevant : ∀ value ∈ values, value ∈ axis.values) {range : PropertyRange}
    (merged : range ∈ rule.merge (values.map .single)) {value : PropertyValue}
    (isRelevant : value ∈ axis.values) (inside : value ∈ range) : value ∈ values := by
  obtain ⟨selected, stands⟩ := (Axis.mem_values_iff grounded).mp isRelevant
  have counted := collects.covers values relevant value selected
  rw [stands] at counted
  by_contra absent
  rw [if_neg absent] at counted
  exact List.countP_eq_zero.mp counted range merged ((PropertyRange.mem_def _ _).mp inside)

variable (shaped : ∀ slice ∈ slices, slice.Shaped axes (axis :: pending))

include shaped

private theorem exists_gathered_range {slice : Slice} {range : PropertyRange}
    (member : slice ∈ merge ⟨axis.name, rule⟩ slices)
    (fixed : slice.range? axis.name = some range) :
    ∃ values, Gathered axis slices (slice.without axis.name) values ∧
      range ∈ rule.merge (values.map .single) := by
  obtain ⟨values, other, gathered, merged, here⟩ := exists_gathered shaped collects grounded member
  have same := Slice.range?_of_get? here
  rw [fixed] at same
  cases same
  exact ⟨values, gathered, merged⟩

variable (exhausts : rule.Exhausts axis)

include exhausts

/-- Merged slices with the same range for the axis stand for slices that fix the same
single value for it. -/
private theorem exists_pin {slice : Slice} (member : slice ∈ merge ⟨axis.name, rule⟩ slices) :
    ∃ value, ∀ other ∈ merge ⟨axis.name, rule⟩ slices,
      other.get? axis.name = slice.get? axis.name → other.pin axis value ∈ slices := by
  obtain ⟨values, range, gathered, merged, here⟩ := exists_gathered shaped collects grounded member
  obtain ⟨value, chosen, inside⟩ := exhausts.occupied values gathered.relevant range merged
  refine ⟨value, fun other otherMember same => ?_⟩
  have fixed := Slice.range?_of_get? (same.trans here)
  obtain ⟨others, otherGathered, otherMerged⟩ :=
    exists_gathered_range collects grounded shaped otherMember fixed
  exact otherGathered.pin_mem <| mem_values_of_mem_merge collects grounded otherGathered.relevant
    otherMerged (gathered.relevant value chosen) inside

theorem mergedAlong_merge_self : Slice.MergedAlong axis (merge ⟨axis.name, rule⟩ slices) := by
  constructor
  · intro slice member range fixed
    obtain ⟨values, gathered, merged⟩ :=
      exists_gathered_range collects grounded shaped member fixed
    exact exhausts.windows values gathered.relevant range merged
  · intro left leftMember right rightMember different agree
    obtain ⟨values, leftRange, gathered, leftMerged, leftFixed⟩ :=
      exists_gathered shaped collects grounded leftMember
    obtain ⟨others, rightRange, rightGathered, rightMerged, rightFixed⟩ :=
      exists_gathered shaped collects grounded rightMember
    obtain rfl := (agree ▸ gathered).eq rightGathered
    have rangesDiffer : leftRange ≠ rightRange := by
      rintro rfl
      rw [← Slice.fix_without leftFixed, ← Slice.fix_without rightFixed, agree] at different
      exact different rfl
    obtain ⟨value, relevant, free, between⟩ :=
      exhausts.exists_between gathered.relevant leftMerged rightMerged rangesDiffer
    refine ⟨value, relevant, ⟨leftRange, rightRange, ?_, ?_, between⟩, ?_⟩
    · exact Slice.range?_of_get? leftFixed
    · exact Slice.range?_of_get? rightFixed
    · intro other otherMember same range fixed inside
      obtain ⟨others, otherGathered, otherMerged⟩ :=
        exists_gathered_range collects grounded shaped otherMember fixed
      obtain rfl := (same ▸ otherGathered).eq gathered
      exact free (mem_values_of_mem_merge collects grounded gathered.relevant otherMerged relevant
        inside)

/-- What cannot be merged further along an axis cannot be so after merging along another
one. -/
theorem mergedAlong_merge {along : Axis} (different : along.name ≠ axis.name)
    (settled : Slice.MergedAlong along slices) :
    Slice.MergedAlong along (merge ⟨axis.name, rule⟩ slices) := by
  -- Slices that differ along one axis have the same range for the other, so the same value
  -- can be fixed for it, and what parted the slices before still parts them.
  constructor
  · intro slice member range fixed
    obtain ⟨value, pinned⟩ := exists_pin collects grounded shaped exhausts member
    apply settled.windows _ (pinned slice member rfl)
    rwa [Slice.range?_pin different]
  · intro left leftMember right rightMember leftNeRight agree
    obtain ⟨value, pinned⟩ := exists_pin collects grounded shaped exhausts leftMember
    have pinOf : ∀ other ∈ merge ⟨axis.name, rule⟩ slices,
        other.without along.name = left.without along.name → other.pin axis value ∈ slices :=
      fun other member same => pinned other member (Slice.get?_congr same different.symm)
    obtain ⟨between, relevant, parted, free⟩ := settled.parted _ (pinOf left leftMember rfl)
      _ (pinOf right rightMember agree.symm)
      (fun same => leftNeRight (Slice.eq_of_pin different agree same))
      (Slice.pin_congr agree)
    refine ⟨between, relevant, ?_, ?_⟩
    · unfold Slice.PartedBy at parted ⊢
      rwa [Slice.range?_pin different, Slice.range?_pin different] at parted
    · intro other member same range fixed
      apply free _ (pinOf other member same) (Slice.pin_congr same)
      rwa [Slice.range?_pin different]

end Step

/-! ## Merging along all axes -/

section All

variable {axes : List Axis} (distinct : (axes.map Axis.name).Nodup)
  (grounded : ∀ axis ∈ axes, axis.Grounded) {ruleOf : Axis → MergeRule}
  (collects : ∀ axis ∈ axes, (ruleOf axis).Collects axis)
  (exhausts : ∀ axis ∈ axes, (ruleOf axis).Exhausts axis)

include distinct grounded collects exhausts

private theorem mergedAlong_pending {pending : List Axis} (subset : ∀ axis ∈ pending, axis ∈ axes)
    (pendingDistinct : (pending.map Axis.name).Nodup) {slices : List Slice}
    (shaped : ∀ slice ∈ slices, slice.Shaped axes pending) {axis : Axis} (inAxes : axis ∈ axes)
    (reached : axis ∈ pending ∨ Slice.MergedAlong axis slices) :
    Slice.MergedAlong axis
      (mergeAll (pending.map fun other => ⟨other.name, ruleOf other⟩) slices) := by
  induction pending generalizing slices with
  | nil => exact reached.resolve_left List.not_mem_nil
  | cons first rest ih =>
      obtain ⟨absent, restDistinct⟩ := List.nodup_cons.mp pendingDistinct
      have fresh : ∀ other ∈ rest, other.name ≠ first.name := fun other member same =>
        absent (same ▸ List.mem_map_of_mem member)
      have firstInAxes := subset first (.head _)
      have firstCollects := collects first firstInAxes
      have firstGrounded := grounded first firstInAxes
      have firstExhausts := exhausts first firstInAxes
      apply ih (fun other member => subset other (.tail _ member)) restDistinct
        (shaped_merge shaped firstCollects firstGrounded distinct firstInAxes fresh)
      by_cases here : axis.name = first.name
      · right
        cases List.inj_on_of_nodup_map distinct inAxes firstInAxes here
        exact mergedAlong_merge_self firstCollects firstGrounded shaped firstExhausts
      · rcases reached with pending | settled
        · left
          exact (List.mem_cons.mp pending).resolve_left fun same => here (congrArg Axis.name same)
        · right
          exact mergedAlong_merge firstCollects firstGrounded shaped firstExhausts here settled

theorem mergedAlong_mergeAll (split : ∀ axis ∈ axes, axis.discipline = .split) {keys : List Slice}
    (made : ∀ key ∈ keys, ∃ point : Point,
      (∀ axis ∈ axes, point axis.name ∈ axis.values) ∧ point.slice axes = key)
    {axis : Axis} (inAxes : axis ∈ axes) :
    Slice.MergedAlong axis
      (mergeAll (axes.map fun other => ⟨other.name, ruleOf other⟩) keys) :=
  mergedAlong_pending distinct grounded collects exhausts (fun _ member => member) distinct
    (shaped_keys distinct grounded split made) inAxes (.inl inAxes)

end All

end ReportedDimension

/-! ## Entries -/

/-- No two slices of an entry could have been reported as one. -/
structure Entry.Irreducible {Main : Type} (axes : List Axis) (entries : List (Entry Main)) :
    Prop where
  windows : ∀ entry ∈ entries, ∀ slice ∈ entry.slices, ∀ axis ∈ axes,
    ∃ range, slice.range? axis.name = some range ∧ axis.HasWindow range
  /-- Listed values are reported together. -/
  together : ∀ entry ∈ entries, ∀ left ∈ entry.slices, ∀ right ∈ entry.slices,
    ∀ axis ∈ axes, axis.range.isDiscrete = true →
      (∀ other ∈ axes, other ≠ axis → left.get? other.name = right.get? other.name) →
        left = right
  /-- Slices that agree on all axes but one are parted by a selected value. If there is
  no other axis, a different entry has this value. -/
  parted : ∀ entry ∈ entries, ∀ left ∈ entry.slices, ∀ right ∈ entry.slices, left ≠ right →
    ∀ axis ∈ axes,
      (∀ other ∈ axes, other ≠ axis → left.get? other.name = right.get? other.name) →
        ∃ value, axis.Selects value ∧ Slice.PartedBy axis value left right ∧
          (axes = [axis] → ∃ other ∈ entries, other.id ≠ entry.id ∧
            ∃ slice ∈ other.slices, ∃ range, slice.range? axis.name = some range ∧ value ∈ range)

namespace Slice.Shaped

theorem without_eq {axes : List Axis} {left right : Slice} (leftShaped : left.Shaped axes [])
    (rightShaped : right.Shaped axes []) {axis : Axis}
    (agree : ∀ other ∈ axes, other ≠ axis → left.get? other.name = right.get? other.name) :
    left.without axis.name = right.without axis.name := by
  apply Slice.without_congr
  intro name different
  by_cases named : ∃ other ∈ axes, other.name = name
  · obtain ⟨other, member, rfl⟩ := named
    exact agree other member fun same => different (congrArg Axis.name same)
  · have free : ∀ slice : Slice, slice.Shaped axes [] → slice.get? name = none := by
      intro slice shaped
      apply Option.eq_none_iff_forall_ne_some.mpr
      intro coordinate fixed
      exact named (shaped.named name coordinate fixed)
    rw [free left leftShaped, free right rightShaped]

end Slice.Shaped

namespace Computation.Ran

variable {Result : Type} {computation : Computation Result} {request : Request} {limits : Limits}
  {model : Model} {run : Run Result} {results : List (Slice × Result)}
  (ran : computation.Ran request model limits run results) (sound : model.Sound)

include ran sound

private theorem reported_exhausts {axis : Axis} (inSplit : axis ∈ run.splitAxes model) :
    (MergeRule.of axis.dimension.domain axis.range
      ((run.keys.map (·.1)).filterMap (·.range? axis.name))).Exhausts axis := by
  obtain ⟨occurring, ranges, complete⟩ := exists_occurring ran sound inSplit
  rw [ranges]
  exact MergeRule.of_exhausts ((run.known_splitAxes sound).grounded axis inSplit) complete

private theorem mergedAlong_of_keys {keys : List Slice}
    (subset : ∀ key ∈ keys, key ∈ run.keys.map (·.1)) {axis : Axis}
    (inSplit : axis ∈ run.splitAxes model) :
    Slice.MergedAlong axis (ReportedDimension.mergeAll (run.reported model) keys) := by
  have known := run.known_splitAxes sound
  rw [reported_eq ran sound]
  apply ReportedDimension.mergedAlong_mergeAll known.distinct known.grounded
    (fun _ => reported_collects ran sound) (fun _ => reported_exhausts ran sound)
    (fun other member => (Axis.mem_having_iff.mp member).2) _ inSplit
  intro key member
  exact (ran.mem_map_keys_iff sound).mp (subset key member)

section Entries

variable {Main : Type} [BEq Main] {mainOf : Result → Main} {entries : List (Entry Main)}
  (made : entries = Entry.ofGroups (run.reported model)
    (groupBy (fun (_, result) => mainOf result) run.keys))

include made

/-- If one axis is reported, a selected value that an entry leaves out is in another one. -/
private theorem exists_elsewhere {axis : Axis} (only : run.splitAxes model = [axis])
    {value : PropertyValue} (selects : axis.Selects value) {entry : Entry Main}
    (member : entry ∈ entries) (free : ∀ slice ∈ entry.slices, ∀ range,
      slice.range? axis.name = some range → value ∉ range) :
    ∃ other ∈ entries, other.id ≠ entry.id ∧
      ∃ slice ∈ other.slices, ∃ range, slice.range? axis.name = some range ∧ value ∈ range := by
  have perm := perm_groupBy (fun ((_, result) : Slice × Result) => mainOf result) run.keys
  have within : Point.Within (fun _ => value) (run.splitAxes model) := by
    intro other inAxes
    rw [only] at inAxes
    exact List.mem_singleton.mp inAxes ▸ selects
  have once := count_ofGroups ran sound perm within
  rw [← made] at once
  obtain ⟨slice, inSlices, covers⟩ := List.countP_pos_iff.mp (once ▸ Nat.one_pos)
  obtain ⟨other, inEntries, inOther⟩ := List.mem_flatMap.mp inSlices
  obtain ⟨_, _, _, shaped⟩ := exists_merged_of_entry ran sound (made ▸ inEntries)
  obtain ⟨range, fixed, _⟩ := (shaped slice inOther).selected axis (only ▸ .head _)
  have found := Slice.range?_of_get? fixed
  have inside : value ∈ range := Slice.covers_iff.mp covers axis.name _ fixed
  have ids : (entries.map (·.id)).Nodup := by
    rw [made, ids_ofGroups]
    exact List.nodup_range'
  refine ⟨other, inEntries, fun same => ?_, slice, inOther, range, found, inside⟩
  obtain rfl := List.inj_on_of_nodup_map ids inEntries member same
  exact free slice inOther range found inside

private theorem mergedAlong_of_entry {entry : Entry Main} (member : entry ∈ entries) {axis : Axis}
    (inSplit : axis ∈ run.splitAxes model) : Slice.MergedAlong axis entry.slices := by
  obtain ⟨keys, subset, slices, _⟩ := exists_merged_of_entry ran sound (made ▸ member)
  rw [slices]
  exact mergedAlong_of_keys ran sound subset inSplit

private theorem parted_of_entry {entry : Entry Main} (member : entry ∈ entries)
    {left right : Slice} (inLeft : left ∈ entry.slices) (inRight : right ∈ entry.slices)
    (different : left ≠ right) {axis : Axis} (inSplit : axis ∈ run.splitAxes model)
    (agree : ∀ other ∈ run.splitAxes model, other ≠ axis →
      left.get? other.name = right.get? other.name) :
    ∃ value, axis.Selects value ∧ Slice.PartedBy axis value left right ∧
      (run.splitAxes model = [axis] → ∃ other ∈ entries, other.id ≠ entry.id ∧
        ∃ slice ∈ other.slices, ∃ range, slice.range? axis.name = some range ∧ value ∈ range) := by
  obtain ⟨_, _, _, shaped⟩ := exists_merged_of_entry ran sound (made ▸ member)
  have beyond := (shaped left inLeft).without_eq (shaped right inRight) agree
  have settled := mergedAlong_of_entry ran sound made member inSplit
  obtain ⟨value, relevant, parted, free⟩ :=
    settled.parted left inLeft right inRight different beyond
  have grounded := (run.known_splitAxes sound).grounded axis inSplit
  have selects := ((Axis.mem_values_iff grounded).mp relevant).1
  refine ⟨value, selects, parted, fun only => ?_⟩
  apply exists_elsewhere ran sound made only selects member
  intro slice inSlices range fixed
  apply free slice inSlices _ range fixed
  apply (shaped slice inSlices).without_eq (shaped left inLeft)
  intro other inAxes beside
  exact absurd (List.mem_singleton.mp (only ▸ inAxes)) beside

theorem irreducible : Entry.Irreducible (run.splitAxes model) entries := by
  constructor
  · intro entry member slice inEntry axis inSplit
    obtain ⟨_, _, _, shaped⟩ := exists_merged_of_entry ran sound (made ▸ member)
    obtain ⟨range, fixed, _⟩ := (shaped slice inEntry).selected axis inSplit
    have found := Slice.range?_of_get? fixed
    have settled := mergedAlong_of_entry ran sound made member inSplit
    exact ⟨range, found, settled.windows slice inEntry range found⟩
  · intro entry member left inLeft right inRight axis inSplit discrete agree
    by_contra different
    obtain ⟨_, _, ⟨_, _, _, _, between⟩, _⟩ :=
      parted_of_entry ran sound made member inLeft inRight different inSplit agree
    rw [between.isDiscrete_eq_false] at discrete
    cases discrete
  · intro entry member left inLeft right inRight different axis inSplit agree
    exact parted_of_entry ran sound made member inLeft inRight different inSplit agree

end Entries

end Computation.Ran

/-- In every response, no two slices of an entry could have been reported as one; for a
list of elements, no two slices of an entry of an element. -/
theorem reported_slices_irreducible {document : ModelDocument} {model : Model}
    (compiled : Model.compile document = .ok model) (jobId : String) (request : Request)
    (limits : Limits) :
    (∀ {Result Main Detail : Type} [BEq Main]
      (computation : SingleComputation Result Main Detail) (response : SingleResponse Main Detail),
      computation.respond jobId request model limits = .ok response →
        ∃ run results, computation.run request model limits = .ok run ∧
          computation.Ran request model limits run results ∧
          Entry.Irreducible (run.splitAxes model) response.entries) ∧
    ∀ {Result Element Main : Type} [LinearOrdered Element] [BEq Main]
      (computation : ListComputation Result Element Main) (response : ListResponse Element Main),
      computation.respond jobId request model limits = .ok response →
        ∃ run results, computation.run request model limits = .ok run ∧
          computation.Ran request model limits run results ∧
          ∀ element ∈ response.elements,
            Entry.Irreducible (run.splitAxes model) element.entries := by
  have sound := Model.sound_of_compile compiled
  constructor
  · intro _ _ _ _ computation response responded
    obtain ⟨run, success, responded⟩ := ok_of_bind responded
    cases responded
    obtain ⟨results, ran⟩ := Computation.exists_ran sound success
    exact ⟨run, results, success, ran, ran.irreducible sound rfl⟩
  · intro _ _ _ _ _ computation response responded
    obtain ⟨run, success, responded⟩ := ok_of_bind responded
    cases responded
    obtain ⟨results, ran⟩ := Computation.exists_ran sound success
    refine ⟨run, results, success, ran, fun element member => ?_⟩
    obtain ⟨⟨id, code⟩, _, rfl⟩ := List.mem_map.mp member
    exact ran.irreducible sound rfl

theorem reported_slices_irreducible_sample : ∃ model single list,
    Model.compile Sample.document = .ok model ∧
    consistency.respond "job" Sample.request model .standard = .ok single ∧
    (∃ run results, consistency.run Sample.request model .standard = .ok run ∧
      consistency.Ran Sample.request model .standard run results ∧
      Entry.Irreducible (run.splitAxes model) single.entries) ∧
    buildability.respond "job" Sample.request model .standard = .ok list ∧
    ∃ run results, buildability.run Sample.request model .standard = .ok run ∧
      buildability.Ran Sample.request model .standard run results ∧
      ∀ element ∈ list.elements, Entry.Irreducible (run.splitAxes model) element.entries := by
  obtain ⟨model, single, compiled, responded⟩ := Sample.exists_response
  obtain ⟨other, list, compiledAgain, listed, _⟩ := Sample.exists_buildability
  obtain rfl := Except.ok.inj (compiled.symm.trans compiledAgain)
  obtain ⟨ofSingle, ofList⟩ := reported_slices_irreducible compiled "job" Sample.request .standard
  exact ⟨model, single, list, compiled, responded, ofSingle _ single responded, listed,
    ofList _ list listed⟩

end RuleSlicing
