import Mathlib.Data.List.Nodup
import RuleSlicing.Analysis.Factorization
import RuleSlicing.Proofs.Points

/-!
# What slices are made

The slices of a request are the slices of the points whose values are relevant on
all axes, each once.
-/

set_option autoImplicit false

namespace RuleSlicing

/-! ## The axes of a selection -/

namespace Axis

/-- The axis that selectors make of a dimension. Unused dimensions have none. -/
def of? (selectors : List Selector) (dimension : Dimension) : Option Axis :=
  if dimension.isUnused then none
  else (selectors.find? (·.property.name = dimension.name)).map fun selector =>
    ⟨dimension, selector.property.range, selector.discipline⟩

def ofSelectors (selectors : List Selector) (dimensions : List Dimension) : List Axis :=
  dimensions.filterMap (of? selectors)

variable {selectors : List Selector} {dimensions : List Dimension}

theorem of?_eq_some_iff {dimension : Dimension} {axis : Axis} :
    of? selectors dimension = some axis ↔ dimension.isUnused = false ∧
      ∃ selector, selectors.find? (·.property.name = dimension.name) = some selector ∧
        ⟨dimension, selector.property.range, selector.discipline⟩ = axis := by
  unfold of?
  cases dimension.isUnused with
  | true => simp
  | false => simp [Option.map_eq_some_iff]

theorem mem_ofSelectors_iff {axis : Axis} :
    axis ∈ ofSelectors selectors dimensions ↔ axis.dimension ∈ dimensions ∧
      axis.dimension.isUnused = false ∧
      ∃ selector, selectors.find? (·.property.name = axis.name) = some selector ∧
        axis.range = selector.property.range ∧ axis.discipline = selector.discipline := by
  unfold ofSelectors
  rw [List.mem_filterMap]
  constructor
  · intro given
    obtain ⟨dimension, member, made⟩ := given
    obtain ⟨used, selector, found, rfl⟩ := of?_eq_some_iff.mp made
    exact ⟨member, used, selector, found, rfl, rfl⟩
  · intro given
    obtain ⟨member, used, selector, found, range, discipline⟩ := given
    refine ⟨axis.dimension, member, of?_eq_some_iff.mpr ⟨used, selector, found, ?_⟩⟩
    rw [← range, ← discipline]

theorem distinct_ofSelectors (distinct : (dimensions.map (·.name)).Nodup) :
    ((ofSelectors selectors dimensions).map name).Nodup := by
  induction dimensions with
  | nil => exact .nil
  | cons dimension rest ih =>
      obtain ⟨fresh, restDistinct⟩ := List.nodup_cons.mp distinct
      unfold ofSelectors
      cases made : of? selectors dimension with
      | none =>
          rw [List.filterMap_cons_none made]
          exact ih restDistinct
      | some axis =>
          rw [List.filterMap_cons_some made, List.map_cons]
          refine List.nodup_cons.mpr ⟨fun member => ?_, ih restDistinct⟩
          obtain ⟨other, inRest, same⟩ := List.mem_map.mp member
          obtain ⟨_, selector, _, rfl⟩ := of?_eq_some_iff.mp made
          exact fresh (List.mem_map.mpr
            ⟨other.dimension, (mem_ofSelectors_iff.mp inRest).1, same⟩)

end Axis

/-! ## Extending slices -/

namespace Factorization

def extendAlong (axes : List Axis) (slices : List Slice) : List Slice :=
  axes.foldl (fun slices axis => extend slices axis.name axis.values axis.discipline) slices

variable {selectors : List Selector} {maxSlices : Nat}

/-- Without a fault, slices are extended along the axes of the selectors, and each
axis has a relevant value. -/
theorem extendAll_eq_ok {dimensions : List Dimension}
    (selected : ∀ dimension ∈ dimensions,
      (selectors.find? (·.property.name = dimension.name)).isSome = true)
    {slices result : List Slice}
    (made : extendAll selectors maxSlices dimensions slices = .ok result) :
    result = extendAlong (Axis.ofSelectors selectors dimensions) slices ∧
      ∀ axis ∈ Axis.ofSelectors selectors dimensions, axis.values ≠ [] := by
  induction dimensions generalizing slices with
  | nil =>
      cases made
      exact ⟨rfl, fun axis member => absurd member List.not_mem_nil⟩
  | cons dimension rest ih =>
      have restSelected := fun other member => selected other (.tail dimension member)
      unfold extendAll at made
      split at made
      · rename_i unused
        have skipped : Axis.of? selectors dimension = none := if_pos unused
        unfold Axis.ofSelectors
        rw [List.filterMap_cons_none skipped]
        exact ih restSelected made
      · rename_i used
        obtain ⟨selector, found⟩ := Option.isSome_iff_exists.mp (selected dimension (.head rest))
        let axis : Axis := ⟨dimension, selector.property.range, selector.discipline⟩
        have taken : Axis.of? selectors dimension = some axis :=
          Axis.of?_eq_some_iff.mpr ⟨by simpa using used, selector, found, rfl⟩
        have chosen : choices selectors dimension = (axis.values, axis.discipline) := by
          unfold choices
          rw [found]
          rfl
        rw [chosen] at made
        simp only at made
        split at made
        · cases made
        · rename_i occupied
          split at made
          · cases made
          · unfold Axis.ofSelectors
            rw [List.filterMap_cons_some taken]
            obtain ⟨equal, others⟩ := ih restSelected made
            refine ⟨equal, fun other member => ?_⟩
            rcases List.mem_cons.mp member with rfl | inRest
            · simpa using occupied
            · exact others other inRest

theorem mem_extend_iff {slices : List Slice} {name : String} {values : List PropertyValue}
    {discipline : Discipline} {slice : Slice} :
    slice ∈ extend slices name values discipline ↔ ∃ start ∈ slices, ∃ value ∈ values,
      start.fix ⟨name, .single value⟩ discipline = slice := by
  simp [extend]

private def chosenOf (point : Point) (axes : List Axis) : List (Property × Discipline) :=
  axes.map fun axis => (⟨axis.name, .single (point axis.name)⟩, axis.discipline)

/-- Every extended slice comes from a slice and a choice of relevant values. -/
private theorem mem_extendAlong_iff {axes : List Axis} (distinct : (axes.map Axis.name).Nodup)
    {slices : List Slice} {slice : Slice} :
    slice ∈ extendAlong axes slices ↔ ∃ start ∈ slices, ∃ point : Point,
      (∀ axis ∈ axes, point axis.name ∈ axis.values) ∧
        (chosenOf point axes).foldl
          (fun slice (property, discipline) => slice.fix property discipline) start = slice := by
  induction axes generalizing slices with
  | nil =>
      constructor
      · intro member
        exact ⟨slice, member, fun _ => .boolean false,
          fun axis absent => absurd absent List.not_mem_nil, rfl⟩
      · intro given
        obtain ⟨start, member, _, _, rfl⟩ := given
        exact member
  | cons axis rest ih =>
      obtain ⟨fresh, restDistinct⟩ := List.nodup_cons.mp distinct
      have different : ∀ other ∈ rest, other.name ≠ axis.name := fun other member same =>
        fresh (same ▸ List.mem_map_of_mem member)
      refine (ih restDistinct).trans ?_
      constructor
      · intro given
        obtain ⟨extended, member, point, relevant, rfl⟩ := given
        obtain ⟨start, inSlices, value, inValues, rfl⟩ := mem_extend_iff.mp member
        -- The point of the remaining axes gets the chosen value for this one.
        let chosen : Point := fun name => if name = axis.name then value else point name
        have here : chosen axis.name = value := if_pos rfl
        have elsewhere : ∀ other ∈ rest, chosen other.name = point other.name :=
          fun other inRest => if_neg (different other inRest)
        refine ⟨start, inSlices, chosen, fun other inAxes => ?_, ?_⟩
        · rcases List.mem_cons.mp inAxes with rfl | inRest
          · rwa [here]
          · rw [elsewhere other inRest]
            exact relevant other inRest
        · have same : chosenOf chosen rest = chosenOf point rest :=
            List.map_congr_left fun other inRest => by rw [elsewhere other inRest]
          rw [chosenOf, List.map_cons, List.foldl_cons, here]
          exact congrArg (List.foldl _ _) same
      · intro given
        obtain ⟨start, inSlices, point, relevant, rfl⟩ := given
        exact ⟨start.fix ⟨axis.name, .single (point axis.name)⟩ axis.discipline,
          mem_extend_iff.mpr ⟨start, inSlices, point axis.name, relevant axis (.head rest), rfl⟩,
          point, fun other inRest => relevant other (.tail axis inRest), rfl⟩

private theorem fix_inj {left right : Slice} {name : String} {leftValue rightValue : PropertyValue}
    {discipline : Discipline} (leftFree : left.get? name = none)
    (rightFree : right.get? name = none)
    (same : left.fix ⟨name, .single leftValue⟩ discipline =
      right.fix ⟨name, .single rightValue⟩ discipline) :
    left = right ∧ leftValue = rightValue := by
  have fixed := fun other => congrArg (Slice.get? · other) same
  simp only [Slice.get?_fix] at fixed
  constructor
  · ext1 other
    by_cases here : other = name
    · rw [here, leftFree, rightFree]
    · have agree := fixed other
      rwa [if_neg here, if_neg here] at agree
  · have agree := fixed name
    rw [if_pos rfl, if_pos rfl] at agree
    exact PropertyRange.single_inj (congrArg Coordinate.range (Option.some.inj agree))

private theorem nodup_extend {slices : List Slice} (unique : slices.Nodup) {axis : Axis}
    (free : ∀ slice ∈ slices, slice.get? axis.name = none) :
    (extend slices axis.name axis.values axis.discipline).Nodup := by
  refine List.nodup_flatMap.mpr ⟨fun slice member => ?_, ?_⟩
  · exact List.pairwise_map.mpr <| axis.nodup_values.imp fun different same =>
      different (fix_inj (free slice member) (free slice member) same).2
  · refine List.Pairwise.imp_of_mem (fun leftMember rightMember different => ?_) unique
    intro slice inLeft inRight
    obtain ⟨leftValue, _, rfl⟩ := List.mem_map.mp inLeft
    obtain ⟨rightValue, _, same⟩ := List.mem_map.mp inRight
    exact different (fix_inj (free _ rightMember) (free _ leftMember) same).1.symm

private theorem nodup_extendAlong {axes : List Axis} (distinct : (axes.map Axis.name).Nodup)
    {slices : List Slice} (unique : slices.Nodup)
    (free : ∀ slice ∈ slices, ∀ axis ∈ axes, slice.get? axis.name = none) :
    (extendAlong axes slices).Nodup := by
  induction axes generalizing slices with
  | nil => exact unique
  | cons axis rest ih =>
      obtain ⟨fresh, restDistinct⟩ := List.nodup_cons.mp distinct
      refine ih restDistinct
        (nodup_extend unique fun slice member => free slice member axis (.head rest)) ?_
      intro extended member other inRest
      obtain ⟨start, inSlices, value, _, rfl⟩ := mem_extend_iff.mp member
      have different : other.name ≠ axis.name := fun same =>
        fresh (same ▸ List.mem_map_of_mem inRest)
      rw [Slice.get?_fix, if_neg different]
      exact free start inSlices other (.tail axis inRest)

end Factorization

/-! ## All slices -/

namespace Slice

open Factorization

variable {selectors : List Selector} {dimensions : List Dimension} {maxSlices : Nat}
  {slices : List Slice}
  (selected : ∀ dimension ∈ dimensions,
    (selectors.find? (·.property.name = dimension.name)).isSome = true)
  (made : Slice.all selectors dimensions maxSlices = .ok slices)

include selected made

theorem values_ne_nil_of_all {axis : Axis}
    (member : axis ∈ Axis.ofSelectors selectors dimensions) : axis.values ≠ [] :=
  (extendAll_eq_ok selected made).2 axis member

variable (distinct : (dimensions.map (·.name)).Nodup)

include distinct

/-- The slices are those of the points of relevant values. -/
theorem mem_all_iff {slice : Slice} :
    slice ∈ slices ↔ ∃ point : Point,
      (∀ axis ∈ Axis.ofSelectors selectors dimensions, point axis.name ∈ axis.values) ∧
        point.slice (Axis.ofSelectors selectors dimensions) = slice := by
  rw [(extendAll_eq_ok selected made).1, mem_extendAlong_iff (Axis.distinct_ofSelectors distinct)]
  simp only [List.mem_singleton, exists_eq_left]
  rfl

theorem nodup_all : slices.Nodup := by
  rw [(extendAll_eq_ok selected made).1]
  refine nodup_extendAlong (Axis.distinct_ofSelectors distinct) (List.nodup_singleton _) ?_
  intro slice member axis _
  rw [List.mem_singleton.mp member, get?_empty]

end Slice

end RuleSlicing
