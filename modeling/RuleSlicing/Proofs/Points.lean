import Mathlib.Data.List.Nodup
import RuleSlicing.Model.Activation
import RuleSlicing.Proofs.Axis
import RuleSlicing.Proofs.Outcomes

/-!
# Points of a selection

A point has a value for every dimension. Its slice fixes these values for the
axes of a selection. Moving a point to the relevant values that stand for its own
does not change what is active.
-/

set_option autoImplicit false

namespace RuleSlicing

namespace Axis

def having (discipline : Discipline) (axes : List Axis) : List Axis :=
  axes.filter (·.discipline = discipline)

theorem mem_having_iff {discipline : Discipline} {axes : List Axis} {axis : Axis} :
    axis ∈ having discipline axes ↔ axis ∈ axes ∧ axis.discipline = discipline := by
  simp [having]

theorem distinct_having (discipline : Discipline) {axes : List Axis}
    (distinct : (axes.map name).Nodup) : ((having discipline axes).map name).Nodup :=
  (List.filter_sublist.map name).nodup distinct

end Axis

/-- A value for every dimension. -/
abbrev Point : Type := String → PropertyValue

namespace Point

/-- Every axis selects the value of the point. -/
def Within (point : Point) (axes : List Axis) : Prop :=
  ∀ axis ∈ axes, axis.Selects (point axis.name)

/-- The slice that fixes the values of the point for some axes. -/
def slice (point : Point) (axes : List Axis) : Slice :=
  .ofList <| axes.map fun axis => (⟨axis.name, .single (point axis.name)⟩, axis.discipline)

/-- The point of the relevant values that stand for the values of a point. -/
def standIn (point : Point) (axes : List Axis) : Point := fun name =>
  match axes.find? (·.name = name) with
  | some axis => axis.standIn (point name)
  | none => point name

/-! ## Coordinates -/

theorem standIn_of_mem {point : Point} {axes : List Axis} (distinct : (axes.map Axis.name).Nodup)
    {axis : Axis} (member : axis ∈ axes) :
    point.standIn axes axis.name = axis.standIn (point axis.name) := by
  simp only [standIn, find?_name distinct member]

theorem standIn_of_forall_ne {point : Point} {axes : List Axis} {name : String}
    (absent : ∀ axis ∈ axes, axis.name ≠ name) : point.standIn axes name = point name := by
  have missing : axes.find? (·.name = name) = none :=
    List.find?_eq_none.mpr fun axis member => by simpa using absent axis member
  simp only [standIn, missing]

/-- A point is moved along its axes one after another. -/
theorem standIn_cons {point : Point} {axis : Axis} {rest : List Axis}
    (fresh : ∀ other ∈ rest, other.name ≠ axis.name) :
    point.standIn (axis :: rest) = (point.standIn rest).standIn [axis] := by
  have alone : ([axis].map Axis.name).Nodup := by simp
  funext name
  by_cases same : axis.name = name
  · subst same
    rw [standIn_of_mem alone (.head _), standIn_of_forall_ne fresh]
    simp [standIn]
  · have absent : ∀ other ∈ [axis], other.name ≠ name :=
      fun other member => List.mem_singleton.mp member ▸ same
    rw [standIn_of_forall_ne absent]
    simp [standIn, same]

private theorem get?_fixAll (point : Point) {axes : List Axis}
    (distinct : (axes.map Axis.name).Nodup) (start : Slice) (name : String) :
    ((axes.map fun axis => ((⟨axis.name, .single (point axis.name)⟩ : Property),
        axis.discipline)).foldl (fun slice (property, discipline) => slice.fix property discipline)
        start).get? name =
      match axes.find? (·.name = name) with
      | some axis => some ⟨.single (point name), axis.discipline⟩
      | none => start.get? name := by
  induction axes generalizing start with
  | nil => rfl
  | cons axis rest ih =>
      obtain ⟨fresh, restDistinct⟩ := List.nodup_cons.mp distinct
      rw [List.map_cons, List.foldl_cons, ih restDistinct]
      by_cases same : axis.name = name
      · subst same
        have missing : rest.find? (·.name = axis.name) = none :=
          List.find?_eq_none.mpr fun other member equal =>
            fresh (of_decide_eq_true equal ▸ List.mem_map_of_mem member)
        rw [missing, List.find?_cons_of_pos (by simp)]
        simp [Slice.get?_fix]
      · rw [List.find?_cons_of_neg (by simpa using same)]
        cases rest.find? (·.name = name) with
        | some other => rfl
        | none => simp [Slice.get?_fix, Ne.symm same]

section Distinct

variable {axes : List Axis} (distinct : (axes.map Axis.name).Nodup)

include distinct

theorem get?_slice (point : Point) (name : String) :
    (point.slice axes).get? name =
      (axes.find? (·.name = name)).map fun axis => ⟨.single (point name), axis.discipline⟩ := by
  refine (get?_fixAll point distinct .empty name).trans ?_
  cases axes.find? (·.name = name) <;> rfl

theorem get?_slice_of_mem (point : Point) {axis : Axis} (member : axis ∈ axes) :
    (point.slice axes).get? axis.name =
      some ⟨.single (point axis.name), axis.discipline⟩ := by
  rw [get?_slice distinct, find?_name distinct member]
  rfl

theorem exists_of_get?_slice {point : Point} {name : String} {coordinate : Coordinate}
    (fixed : (point.slice axes).get? name = some coordinate) :
    ∃ axis ∈ axes, axis.name = name ∧
      coordinate = ⟨.single (point axis.name), axis.discipline⟩ := by
  rw [get?_slice distinct] at fixed
  obtain ⟨axis, found, rfl⟩ := Option.map_eq_some_iff.mp fixed
  have same : axis.name = name := by simpa using List.find?_some found
  exact ⟨axis, List.mem_of_find?_eq_some found, same, by rw [same]⟩

theorem slice_eq_iff {left right : Point} :
    left.slice axes = right.slice axes ↔ ∀ axis ∈ axes, left axis.name = right axis.name := by
  constructor
  · intro same axis member
    have fixed := get?_slice_of_mem distinct left member
    rw [same, get?_slice_of_mem distinct right member] at fixed
    exact (PropertyRange.single_inj (congrArg Coordinate.range (Option.some.inj fixed))).symm
  · intro agree
    unfold slice
    refine congrArg Slice.ofList (List.map_congr_left fun axis member => ?_)
    rw [agree axis member]

theorem project_slice (point : Point) (discipline : Discipline) :
    (point.slice axes).project discipline = point.slice (Axis.having discipline axes) := by
  ext name coordinate
  rw [Slice.get?_project, Option.filter_eq_some_iff, decide_eq_true_eq]
  constructor
  · intro given
    obtain ⟨fixed, same⟩ := given
    obtain ⟨axis, member, rfl, rfl⟩ := exists_of_get?_slice distinct fixed
    exact get?_slice_of_mem (Axis.distinct_having discipline distinct) point
      (Axis.mem_having_iff.mpr ⟨member, same⟩)
  · intro fixed
    obtain ⟨axis, member, rfl, rfl⟩ :=
      exists_of_get?_slice (Axis.distinct_having discipline distinct) fixed
    obtain ⟨inAxes, same⟩ := Axis.mem_having_iff.mp member
    exact ⟨get?_slice_of_mem distinct point inAxes, same⟩

omit distinct in
/-- Values chosen for all axes make a point. -/
theorem exists_forall (Chosen : Axis → PropertyValue → Prop)
    (distinct : (axes.map Axis.name).Nodup) (choice : ∀ axis ∈ axes, ∃ value, Chosen axis value) :
    ∃ point : Point, ∀ axis ∈ axes, Chosen axis (point axis.name) := by
  induction axes with
  | nil => exact ⟨fun _ => .boolean false, fun _ member => absurd member List.not_mem_nil⟩
  | cons axis rest ih =>
      obtain ⟨fresh, restDistinct⟩ := List.nodup_cons.mp distinct
      obtain ⟨point, chosen⟩ := ih restDistinct fun other member => choice other (.tail _ member)
      obtain ⟨value, here⟩ := choice axis (.head _)
      refine ⟨fun name => if name = axis.name then value else point name, fun other member => ?_⟩
      beta_reduce
      rcases List.mem_cons.mp member with rfl | inRest
      · rwa [if_pos rfl]
      · have different : other.name ≠ axis.name := fun same =>
          fresh (same ▸ List.mem_map_of_mem inRest)
        rw [if_neg different]
        exact chosen other inRest

/-! ## What is active at a point -/

theorem admits_slice_iff (point : Point) (property : Property) :
    (point.slice axes).admits property = true ↔
      ∀ axis ∈ axes, axis.name = property.name → point axis.name ∈ property.range := by
  unfold Slice.admits Slice.range?
  cases fixed : (point.slice axes).get? property.name with
  | none =>
      refine iff_of_true rfl fun axis member same => ?_
      rw [← same, get?_slice_of_mem distinct point member] at fixed
      cases fixed
  | some coordinate =>
      obtain ⟨axis, member, same, rfl⟩ := exists_of_get?_slice distinct fixed
      refine (PropertyRange.single_intersects_iff _ _).trans ?_
      constructor
      · intro inside other otherMember otherSame
        cases List.inj_on_of_nodup_map distinct otherMember member (otherSame.trans same.symm)
        exact inside
      · intro inside
        exact inside axis member same

end Distinct

end Point

/-- The axes know every range that a model declares for them. -/
structure Model.KnownTo (model : Model) (axes : List Axis) : Prop where
  distinct : (axes.map Axis.name).Nodup
  grounded : ∀ axis ∈ axes, axis.Grounded
  features : ∀ feature ∈ model.features, ∀ property ∈ feature.properties, ∀ axis ∈ axes,
    axis.name = property.name → axis.dimension.domain.Knows property.range
  rules : ∀ rule ∈ model.rules, ∀ property ∈ rule.properties, ∀ axis ∈ axes,
    axis.name = property.name → axis.dimension.domain.Knows property.range

theorem Model.KnownTo.having {model : Model} {axes : List Axis} (known : model.KnownTo axes)
    (discipline : Discipline) : model.KnownTo (Axis.having discipline axes) where
  distinct := Axis.distinct_having discipline known.distinct
  grounded axis member := known.grounded axis (Axis.mem_having_iff.mp member).1
  features feature inModel property declared axis member :=
    known.features feature inModel property declared axis (Axis.mem_having_iff.mp member).1
  rules rule inModel property declared axis member :=
    known.rules rule inModel property declared axis (Axis.mem_having_iff.mp member).1

namespace Point

variable {model : Model} {axes : List Axis}

private theorem all_admits_standIn (distinct : (axes.map Axis.name).Nodup)
    (grounded : ∀ axis ∈ axes, axis.Grounded) {point : Point} (within : point.Within axes)
    {properties : List Property} (knows : ∀ property ∈ properties, ∀ axis ∈ axes,
      axis.name = property.name → axis.dimension.domain.Knows property.range) :
    properties.all ((point.standIn axes).slice axes).admits =
      properties.all (point.slice axes).admits := by
  rw [Bool.eq_iff_iff, List.all_eq_true, List.all_eq_true]
  refine forall₂_congr fun property declared => ?_
  rw [admits_slice_iff distinct, admits_slice_iff distinct]
  refine forall₃_congr fun axis member same => ?_
  rw [standIn_of_mem distinct member]
  exact Axis.standIn_mem_iff (grounded axis member) (within axis member)
    (knows property declared axis member same)

/-- The same features and rules are active at a point and at the point that stands
for it. -/
theorem activation_standIn (known : model.KnownTo axes) {point : Point}
    (within : point.Within axes) :
    model.activation ((point.standIn axes).slice axes) = model.activation (point.slice axes) := by
  unfold Model.activation
  congr 1
  · exact List.filter_congr fun feature member =>
      all_admits_standIn known.distinct known.grounded within (known.features feature member)
  · exact List.filter_congr fun rule member =>
      all_admits_standIn known.distinct known.grounded within (known.rules rule member)

end Point

end RuleSlicing
