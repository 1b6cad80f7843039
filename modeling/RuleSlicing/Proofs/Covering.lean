import RuleSlicing.Proofs.Grouping
import RuleSlicing.Proofs.Points
import RuleSlicing.Proofs.Windows

/-!
# What reported slices cover

A slice covers a point if its ranges hold the values of the point. Merging slices
along an axis covers a point as often as the slices cover the point that stands
for it on this axis. Merged along all axes, the slices of relevant values cover a
point once if they have the slice that stands for it, and hold selected values
only.
-/

set_option autoImplicit false

namespace RuleSlicing

namespace Slice

/-- Whether each range of a slice holds the value of a point. -/
def covers (slice : Slice) (point : Point) : Bool :=
  slice.coordinates.entries.all fun (name, coordinate) => coordinate.range.contains (point name)

theorem covers_iff {slice : Slice} {point : Point} :
    slice.covers point = true ↔
      ∀ name coordinate, slice.get? name = some coordinate → point name ∈ coordinate.range := by
  unfold covers get?
  rw [List.all_eq_true]
  constructor
  · intro all name coordinate fixed
    exact all (name, coordinate) ((SortedMap.get?_eq_some_iff _ _ _).mp fixed)
  · rintro all ⟨name, coordinate⟩ member
    exact all name coordinate ((SortedMap.get?_eq_some_iff _ _ _).mpr member)

theorem covers_fix_iff {rest : Slice} {name : String} (free : rest.get? name = none)
    (range : PropertyRange) (discipline : Discipline) {point : Point} :
    (rest.fix ⟨name, range⟩ discipline).covers point = true ↔
      rest.covers point = true ∧ point name ∈ range := by
  rw [covers_iff, covers_iff]
  constructor
  · intro all
    refine ⟨fun other coordinate fixed => all other coordinate ?_, ?_⟩
    · have different : other ≠ name := fun same => by rw [same, free] at fixed; cases fixed
      rwa [get?_fix, if_neg different]
    · exact all name ⟨range, discipline⟩ (by rw [get?_fix, if_pos rfl])
  · rintro ⟨all, inside⟩ other coordinate fixed
    rw [get?_fix] at fixed
    split at fixed
    · rename_i same
      cases fixed
      exact same ▸ inside
    · exact all other coordinate fixed

theorem covers_congr {slice : Slice} {left right : Point}
    (agree : ∀ name coordinate, slice.get? name = some coordinate → left name = right name) :
    slice.covers left = slice.covers right := by
  rw [Bool.eq_iff_iff, covers_iff, covers_iff]
  exact forall₃_congr fun name coordinate fixed => by rw [agree name coordinate fixed]

/-- The slice of a point covers the points that agree with it on the axes. -/
theorem covers_slice_iff {axes : List Axis} (distinct : (axes.map Axis.name).Nodup)
    {point other : Point} :
    (point.slice axes).covers other = true ↔ point.slice axes = other.slice axes := by
  rw [covers_iff, Point.slice_eq_iff distinct]
  constructor
  · intro all axis member
    have inside := all axis.name _ (Point.get?_slice_of_mem distinct point member)
    exact ((PropertyRange.mem_single_iff _ _).mp inside).symm
  · intro agree name coordinate fixed
    obtain ⟨axis, member, rfl, rfl⟩ := Point.exists_of_get?_slice distinct fixed
    exact (PropertyRange.mem_single_iff _ _).mpr (agree axis member).symm

/-! ## The shape of merged slices -/

/-- A slice that fixes selected values for all axes, and a single relevant value for
those that have not been merged yet. -/
structure Shaped (axes pending : List Axis) (slice : Slice) : Prop where
  named : ∀ name coordinate, slice.get? name = some coordinate → ∃ axis ∈ axes, axis.name = name
  selected : ∀ axis ∈ axes, ∃ range, slice.get? axis.name = some ⟨range, .split⟩ ∧
    ∀ value ∈ range, axis.Selects value
  relevant : ∀ axis ∈ pending, ∃ value ∈ axis.values,
    slice.get? axis.name = some ⟨.single value, .split⟩

end Slice

/-! ## Merging along one axis -/

theorem exists_eq_map {Source Target : Type} {Chosen : Source → Prop}
    {make : Source → Target} {targets : List Target}
    (made : ∀ target ∈ targets, ∃ source, Chosen source ∧ make source = target) :
    ∃ sources : List Source, (∀ source ∈ sources, Chosen source) ∧ targets = sources.map make := by
  induction targets with
  | nil => exact ⟨[], fun _ member => absurd member List.not_mem_nil, rfl⟩
  | cons target rest ih =>
      obtain ⟨source, chosen, rfl⟩ := made target (.head _)
      obtain ⟨others, othersChosen, rfl⟩ := ih fun other member => made other (.tail _ member)
      exact ⟨source :: others, List.forall_mem_cons.mpr ⟨chosen, othersChosen⟩, rfl⟩

namespace ReportedDimension

/-- The slices that a group of slices that agree elsewhere is merged into. -/
private def mergeGroup (dimension : ReportedDimension) (group : Slice × List Slice) : List Slice :=
  let merged := dimension.rule.merge (group.2.filterMap (·.range? dimension.name))
  if merged.isEmpty then [group.1]
  else merged.map fun range => group.1.fix ⟨dimension.name, range⟩ .split

private theorem merge_eq_flatMap (dimension : ReportedDimension) (slices : List Slice) :
    dimension.merge slices =
      (groupByHash (·.without dimension.name) slices).flatMap dimension.mergeGroup := rfl

/-- Of some slices, those that agree beyond an axis fix these values for it. -/
structure Gathered (axis : Axis) (slices : List Slice) (rest : Slice)
    (values : List PropertyValue) : Prop where
  occupied : values ≠ []
  relevant : ∀ value ∈ values, value ∈ axis.values
  group : (rest, values.map fun value => rest.fix ⟨axis.name, .single value⟩ .split) ∈
    groupByHash (·.without axis.name) slices

section Step

variable {axes pending : List Axis} {axis : Axis} {slices : List Slice}
  (shaped : ∀ slice ∈ slices, slice.Shaped axes (axis :: pending))

include shaped in
private theorem exists_values {rest : Slice} {members : List Slice}
    (group : (rest, members) ∈ groupByHash (·.without axis.name) slices) :
    ∃ values : List PropertyValue, values ≠ [] ∧ (∀ value ∈ values, value ∈ axis.values) ∧
      members = values.map fun value => rest.fix ⟨axis.name, .single value⟩ .split := by
  obtain ⟨⟨first, inSlices, firstKey⟩, rfl⟩ := (mem_groupByHash_iff _ _ _ _).mp group
  have made : ∀ member ∈ slices.filter (fun slice => slice.without axis.name == rest),
      ∃ value, value ∈ axis.values ∧ rest.fix ⟨axis.name, .single value⟩ .split = member := by
    intro member inGroup
    obtain ⟨inSlices, key⟩ := List.mem_filter.mp inGroup
    obtain ⟨value, relevant, coordinate⟩ := (shaped member inSlices).relevant axis (.head _)
    exact ⟨value, relevant, eq_of_beq key ▸ Slice.fix_without coordinate⟩
  obtain ⟨values, relevant, members⟩ := exists_eq_map made
  refine ⟨values, ?_, relevant, members⟩
  rintro rfl
  have inGroup : first ∈ slices.filter (fun slice => slice.without axis.name == rest) :=
    List.mem_filter.mpr ⟨inSlices, by simpa using firstKey⟩
  rw [members] at inGroup
  cases inGroup

private theorem free_of_group {rest : Slice} {members : List Slice}
    (group : (rest, members) ∈ groupByHash (·.without axis.name) slices) :
    rest.get? axis.name = none := by
  obtain ⟨⟨first, _, rfl⟩, _⟩ := (mem_groupByHash_iff _ _ _ _).mp group
  rw [Slice.get?_without, if_pos rfl]

variable {rule : MergeRule} (collects : rule.Collects axis) (grounded : axis.Grounded)

include collects grounded

private theorem mergeGroup_eq {rest : Slice} {values : List PropertyValue} (occupied : values ≠ [])
    (relevant : ∀ value ∈ values, value ∈ axis.values) :
    mergeGroup ⟨axis.name, rule⟩
        (rest, values.map fun value => rest.fix ⟨axis.name, .single value⟩ .split) =
      (rule.merge (values.map .single)).map fun range => rest.fix ⟨axis.name, range⟩ .split := by
  have ranges : (values.map fun value => rest.fix ⟨axis.name, .single value⟩ .split).filterMap
      (·.range? axis.name) = values.map .single := by
    rw [List.filterMap_map, ← List.filterMap_eq_map]
    refine List.filterMap_congr fun value _ => ?_
    simp [Slice.range?, Slice.get?_fix]
  obtain ⟨first, member⟩ := List.exists_mem_of_ne_nil values occupied
  obtain ⟨selected, stands⟩ := (Axis.mem_values_iff grounded).mp (relevant first member)
  have once := collects.covers values relevant first selected
  rw [stands, if_pos member] at once
  have nonempty : (rule.merge (values.map .single)).isEmpty = false := by
    cases merged : rule.merge (values.map .single) with
    | nil =>
        rw [merged] at once
        cases once
    | cons _ _ => rfl
  unfold mergeGroup
  simp only [ranges, nonempty, Bool.false_eq_true, if_false]

omit collects grounded in
private theorem countP_fix {rest : Slice} {name : String} (free : rest.get? name = none)
    (ranges : List PropertyRange) (point : Point) :
    (ranges.map fun range => rest.fix ⟨name, range⟩ .split).countP (·.covers point) =
      if rest.covers point then ranges.countP (·.contains (point name)) else 0 := by
  rw [List.countP_map]
  split
  · rename_i covered
    refine List.countP_congr fun range _ => ?_
    rw [Function.comp_apply, Slice.covers_fix_iff free, PropertyRange.mem_def,
      and_iff_right covered]
  · rename_i missed
    refine List.countP_eq_zero.mpr fun range _ => ?_
    rw [Function.comp_apply, Slice.covers_fix_iff free]
    exact fun both => missed both.1

omit collects grounded in
private theorem countP_fix_single {rest : Slice} (free : rest.get? axis.name = none)
    (values : List PropertyValue) (point : Point) :
    (values.map fun value => rest.fix ⟨axis.name, .single value⟩ .split).countP
        (·.covers (point.standIn [axis])) =
      if rest.covers point then values.count (axis.standIn (point axis.name)) else 0 := by
  have alone : ([axis].map Axis.name).Nodup := List.nodup_singleton _
  have same : rest.covers (point.standIn [axis]) = rest.covers point := by
    refine Slice.covers_congr fun name coordinate fixed => Point.standIn_of_forall_ne ?_
    intro other member equal
    rw [List.mem_singleton.mp member] at equal
    rw [← equal, free] at fixed
    cases fixed
  have here : point.standIn [axis] axis.name = axis.standIn (point axis.name) :=
    Point.standIn_of_mem alone (.head _)
  have counted := countP_fix free (values.map .single) (point.standIn [axis])
  rw [List.map_map] at counted
  refine counted.trans ?_
  rw [same, here, List.countP_map]
  refine if_congr .rfl (List.countP_congr fun value _ => ?_) rfl
  rw [Function.comp_apply, ← PropertyRange.mem_def, PropertyRange.mem_single_iff, beq_iff_eq]
  exact eq_comm

private theorem countP_mergeGroup {rest : Slice} (free : rest.get? axis.name = none)
    {values : List PropertyValue} (occupied : values ≠ [])
    (relevant : ∀ value ∈ values, value ∈ axis.values) {point : Point}
    (selected : axis.Selects (point axis.name))
    (once : (values.map fun value => rest.fix ⟨axis.name, .single value⟩ .split).countP
      (·.covers (point.standIn [axis])) ≤ 1) :
    (mergeGroup ⟨axis.name, rule⟩
        (rest, values.map fun value => rest.fix ⟨axis.name, .single value⟩ .split)).countP
        (·.covers point) =
      (values.map fun value => rest.fix ⟨axis.name, .single value⟩ .split).countP
        (·.covers (point.standIn [axis])) := by
  rw [mergeGroup_eq collects grounded occupied relevant, countP_fix free]
  rw [countP_fix_single free] at once ⊢
  split
  · rename_i covered
    rw [if_pos covered] at once
    rw [collects.covers values relevant _ selected]
    split
    · rename_i member
      have positive := List.count_pos_iff.mpr member
      omega
    · rename_i absent
      exact (List.count_eq_zero.mpr absent).symm
  · rfl

include shaped

/-- Merged along an axis, slices cover a point as often as before they cover the point
that stands for it on this axis, if that is at most once. -/
theorem countP_merge {point : Point} (selected : axis.Selects (point axis.name))
    (once : slices.countP (·.covers (point.standIn [axis])) ≤ 1) :
    (merge ⟨axis.name, rule⟩ slices).countP (·.covers point) =
      slices.countP (·.covers (point.standIn [axis])) := by
  have regrouped := perm_groupByHash (·.without axis.name) slices
  rw [merge_eq_flatMap, ← regrouped.countP_eq, List.countP_flatMap, List.countP_flatMap]
  refine congrArg List.sum (List.map_congr_left ?_)
  rintro ⟨rest, members⟩ group
  have few : members.countP (·.covers (point.standIn [axis])) ≤ 1 := by
    obtain ⟨_, rfl⟩ := (mem_groupByHash_iff _ _ _ _).mp group
    exact Nat.le_trans List.filter_sublist.countP_le once
  obtain ⟨values, occupied, relevant, rfl⟩ := exists_values shaped group
  exact countP_mergeGroup collects grounded (free_of_group group) occupied relevant selected few

/-- A merged slice fixes a range that is merged from the values of its group. -/
theorem exists_gathered {slice : Slice} (member : slice ∈ merge ⟨axis.name, rule⟩ slices) :
    ∃ values range, Gathered axis slices (slice.without axis.name) values ∧
      range ∈ rule.merge (values.map .single) ∧ slice.get? axis.name = some ⟨range, .split⟩ := by
  rw [merge_eq_flatMap] at member
  obtain ⟨⟨rest, members⟩, group, member⟩ := List.mem_flatMap.mp member
  have free := free_of_group group
  obtain ⟨values, occupied, relevant, rfl⟩ := exists_values shaped group
  rw [mergeGroup_eq collects grounded occupied relevant] at member
  obtain ⟨range, inMerged, rfl⟩ := List.mem_map.mp member
  rw [Slice.without_fix free]
  exact ⟨values, range, ⟨occupied, relevant, group⟩, inMerged, by rw [Slice.get?_fix, if_pos rfl]⟩

variable (distinct : (axes.map Axis.name).Nodup) (inAxes : axis ∈ axes)
  (fresh : ∀ other ∈ pending, other.name ≠ axis.name)

include distinct inAxes fresh

theorem shaped_merge :
    ∀ slice ∈ merge ⟨axis.name, rule⟩ slices, slice.Shaped axes pending := by
  intro slice member
  obtain ⟨values, range, gathered, inMerged, here⟩ := exists_gathered shaped collects grounded member
  obtain ⟨⟨origin, inSlices, without⟩, _⟩ := (mem_groupByHash_iff _ _ _ _).mp gathered.group
  have shape := shaped origin inSlices
  have elsewhere : ∀ name, name ≠ axis.name → slice.get? name = origin.get? name :=
    fun name different => Slice.get?_congr without.symm different
  constructor
  · intro name coordinate fixed
    by_cases same : name = axis.name
    · exact ⟨axis, inAxes, same.symm⟩
    · rw [elsewhere name same] at fixed
      exact shape.named name coordinate fixed
  · intro other otherMember
    by_cases same : other.name = axis.name
    · cases List.inj_on_of_nodup_map distinct otherMember inAxes same
      exact ⟨range, here, collects.inside values gathered.relevant range inMerged⟩
    · rw [elsewhere other.name same]
      exact shape.selected other otherMember
  · intro other inPending
    rw [elsewhere other.name (fresh other inPending)]
    exact shape.relevant other (.tail _ inPending)

end Step

/-! ## Merging along all axes -/

section All

variable {axes : List Axis} (distinct : (axes.map Axis.name).Nodup)
  (grounded : ∀ axis ∈ axes, axis.Grounded) {ruleOf : Axis → MergeRule}
  (collects : ∀ axis ∈ axes, (ruleOf axis).Collects axis)

include distinct grounded collects

private theorem mergeAll_pending {pending : List Axis} (subset : ∀ axis ∈ pending, axis ∈ axes)
    (pendingDistinct : (pending.map Axis.name).Nodup) {slices : List Slice}
    (shaped : ∀ slice ∈ slices, slice.Shaped axes pending) :
    (∀ slice ∈ mergeAll (pending.map fun axis => ⟨axis.name, ruleOf axis⟩) slices,
        slice.Shaped axes []) ∧
      ∀ point : Point, point.Within pending →
        slices.countP (·.covers (point.standIn pending)) ≤ 1 →
        (mergeAll (pending.map fun axis => ⟨axis.name, ruleOf axis⟩) slices).countP
            (·.covers point) =
          slices.countP (·.covers (point.standIn pending)) := by
  induction pending generalizing slices with
  | nil => exact ⟨shaped, fun _ _ _ => rfl⟩
  | cons axis rest ih =>
      obtain ⟨absent, restDistinct⟩ := List.nodup_cons.mp pendingDistinct
      have fresh : ∀ other ∈ rest, other.name ≠ axis.name := fun other member same =>
        absent (same ▸ List.mem_map_of_mem member)
      have inAxes := subset axis (.head _)
      have stepShaped := shaped_merge shaped (collects axis inAxes) (grounded axis inAxes)
        distinct inAxes fresh
      obtain ⟨restShaped, restCounts⟩ := ih (fun other member => subset other (.tail _ member))
        restDistinct stepShaped
      refine ⟨restShaped, fun point within once => ?_⟩
      have here : point.standIn rest axis.name = point axis.name :=
        Point.standIn_of_forall_ne fresh
      have selected : axis.Selects (point.standIn rest axis.name) :=
        here.symm ▸ within axis (.head _)
      rw [Point.standIn_cons fresh] at once ⊢
      have step := countP_merge shaped (collects axis inAxes) (grounded axis inAxes) selected once
      rw [← step] at once ⊢
      exact restCounts point (fun other member => within other (.tail _ member)) once

variable (split : ∀ axis ∈ axes, axis.discipline = .split) {keys : List Slice}
  (made : ∀ key ∈ keys, ∃ point : Point,
    (∀ axis ∈ axes, point axis.name ∈ axis.values) ∧ point.slice axes = key)

include split made

omit collects in
theorem shaped_keys : ∀ key ∈ keys, key.Shaped axes axes := by
  intro key member
  obtain ⟨point, relevant, rfl⟩ := made key member
  have fixed : ∀ axis ∈ axes, (point.slice axes).get? axis.name =
      some ⟨.single (point axis.name), .split⟩ := fun axis inAxes =>
    split axis inAxes ▸ Point.get?_slice_of_mem distinct point inAxes
  constructor
  · intro name coordinate found
    obtain ⟨axis, inAxes, same, _⟩ := Point.exists_of_get?_slice distinct found
    exact ⟨axis, inAxes, same⟩
  · intro axis inAxes
    refine ⟨_, fixed axis inAxes, fun value inRange => ?_⟩
    rw [(PropertyRange.mem_single_iff _ _).mp inRange]
    exact ((Axis.mem_values_iff (grounded axis inAxes)).mp (relevant axis inAxes)).1
  · intro axis inAxes
    exact ⟨point axis.name, relevant axis inAxes, fixed axis inAxes⟩

theorem shaped_mergeAll :
    ∀ slice ∈ mergeAll (axes.map fun axis => ⟨axis.name, ruleOf axis⟩) keys,
      slice.Shaped axes [] :=
  (mergeAll_pending distinct grounded collects (fun _ member => member) distinct
    (shaped_keys distinct grounded split made)).1

/-- Merged slices cover a selected point as often as the slice that stands for it is
among the merged ones. -/
theorem countP_mergeAll (unique : keys.Nodup) {point : Point} (within : point.Within axes) :
    (mergeAll (axes.map fun axis => ⟨axis.name, ruleOf axis⟩) keys).countP (·.covers point) =
      keys.count ((point.standIn axes).slice axes) := by
  have counted : keys.countP (·.covers (point.standIn axes)) =
      keys.count ((point.standIn axes).slice axes) := by
    refine List.countP_congr fun key member => ?_
    obtain ⟨other, _, rfl⟩ := made key member
    rw [Slice.covers_slice_iff distinct, beq_iff_eq]
  have once : keys.countP (·.covers (point.standIn axes)) ≤ 1 :=
    counted ▸ List.nodup_iff_count_le_one.mp unique _
  rw [← counted]
  exact (mergeAll_pending distinct grounded collects (fun _ member => member) distinct
    (shaped_keys distinct grounded split made)).2 point within once

end All

end ReportedDimension

end RuleSlicing
