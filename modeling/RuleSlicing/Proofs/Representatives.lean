import RuleSlicing.Proofs.Resolution

/-!
# Slices that represent points

The slices of a request represent the points of its selection: each point lies in
one slice, up to the segments of selected intervals, and the same features and
rules are active in it.
-/

set_option autoImplicit false

namespace RuleSlicing

/-- A slice represents a point if it fixes, for each axis, one value that stands for
the value of the point. -/
def Slice.Represents (slice : Slice) (axes : List Axis) (point : Point) : Prop :=
  ∀ axis ∈ axes, ∃ value, slice.get? axis.name = some ⟨.single value, axis.discipline⟩ ∧
    axis.StandsFor value (point axis.name)

/-! ## The slice of a point -/

section Known

variable {model : Model} {axes : List Axis} (known : model.KnownTo axes)

include known

theorem represents_slice_iff {point representative : Point} (within : point.Within axes)
    (relevant : ∀ axis ∈ axes, representative axis.name ∈ axis.values) :
    (representative.slice axes).Represents axes point ↔
      representative.slice axes = (point.standIn axes).slice axes := by
  rw [Point.slice_eq_iff known.distinct]
  refine forall₂_congr fun axis member => ?_
  have stands := Axis.standsFor_iff (known.grounded axis member) (relevant axis member)
    (within axis member)
  rw [Point.get?_slice_of_mem known.distinct representative member,
    Point.standIn_of_mem known.distinct member, ← stands]
  constructor
  · intro given
    obtain ⟨value, fixed, standsFor⟩ := given
    have same := congrArg Coordinate.range (Option.some.inj fixed)
    rwa [PropertyRange.single_inj same]
  · intro standsFor
    exact ⟨representative axis.name, rfl, standsFor⟩

theorem Point.standIn_mem_values {point : Point} (within : point.Within axes) :
    ∀ axis ∈ axes, point.standIn axes axis.name ∈ axis.values := by
  intro axis member
  rw [Point.standIn_of_mem known.distinct member]
  exact Axis.standIn_mem_values (known.grounded axis member) (within axis member)

end Known

/-! ## The slices of a request -/

section Request

variable {model : Model} (sound : model.Sound) {request : Request}
  {allowed : Discipline → Bool} {default : Discipline} {selectors : List Selector}
  (resolved : request.resolve model.space allowed default = .ok selectors)
  {maxSlices : Nat} {slices : List Slice}
  (made : Slice.all selectors model.space.dimensions maxSlices = .ok slices)

include sound resolved made

theorem mem_slices_iff {slice : Slice} :
    slice ∈ slices ↔ ∃ point : Point,
      (∀ axis ∈ model.axes selectors, point axis.name ∈ axis.values) ∧
        point.slice (model.axes selectors) = slice :=
  Slice.mem_all_iff (selected_of_resolve resolved sound) made sound.distinct

theorem standIn_mem_slices {point : Point} (within : point.Within (model.axes selectors)) :
    (point.standIn (model.axes selectors)).slice (model.axes selectors) ∈ slices :=
  (mem_slices_iff sound resolved made).mpr
    ⟨_, Point.standIn_mem_values (sound.known selectors) within, rfl⟩

end Request

/-- Exactly one slice represents a point of the selection, and the same features and
rules are active in the slice and at the point. -/
theorem exists_unique_representative {document : ModelDocument} {model : Model}
    (compiled : Model.compile document = .ok model) {request : Request}
    {allowed : Discipline → Bool} {default : Discipline} {selectors : List Selector}
    (resolved : request.resolve model.space allowed default = .ok selectors)
    {maxSlices : Nat} {slices : List Slice}
    (made : Slice.all selectors model.space.dimensions maxSlices = .ok slices)
    {point : Point} (within : point.Within (model.axes selectors)) :
    ∃ slice, slices.count slice = 1 ∧ slice.Represents (model.axes selectors) point ∧
      (∀ other ∈ slices, other.Represents (model.axes selectors) point → other = slice) ∧
      model.activation slice = model.activation (point.slice (model.axes selectors)) := by
  have sound := Model.sound_of_compile compiled
  have known := sound.known selectors
  have relevant := Point.standIn_mem_values known within
  have unique := Slice.nodup_all (selected_of_resolve resolved sound) made sound.distinct
  have member := standIn_mem_slices sound resolved made within
  refine ⟨(point.standIn (model.axes selectors)).slice (model.axes selectors), ?_, ?_, ?_, ?_⟩
  · exact List.count_eq_one_of_mem unique member
  · exact (represents_slice_iff known within relevant).mpr rfl
  · intro other inSlices represents
    obtain ⟨representative, otherRelevant, rfl⟩ := (mem_slices_iff sound resolved made).mp inSlices
    exact (represents_slice_iff known within otherRelevant).mp represents
  · exact Point.activation_standIn known within

/-! ## A small rule file -/

namespace Sample

/-- Two features over a year and a market, of which the first excludes the second. -/
def document : ModelDocument where
  dimensions := [⟨"year", .integer⟩, ⟨"market", .enumeration⟩]
  features := [
    ⟨"A", [⟨"year", .integer, ⟨none, some (.integer 1), some (.integer 3)⟩⟩]⟩,
    ⟨"B", [⟨"market", .enumeration, ⟨some [.string "home"], none, none⟩⟩]⟩]
  rules := [⟨none, none, .implies (.var "A") (.not (.var "B")),
    [⟨"year", .integer, ⟨some [.integer 5], none, none⟩⟩]⟩]

/-- All years are reported one by one. -/
def request : Request where
  ruleFileId := "rules"
  selections := [⟨"year", .integer, ⟨none, none, none⟩, some .split⟩]
  constraints := []
  allDetails := false

def point : Point := fun name =>
  if name = "year" then .integer ⟨2, by decide, by decide⟩ else .enumeration "home"

theorem exists_within : ∃ model selectors, Model.compile document = .ok model ∧
    request.resolve model.space (fun _ => true) .any = .ok selectors ∧
    point.Within (model.axes selectors) := by
  refine ⟨_, _, rfl, rfl, ?_⟩
  intro axis member
  rcases List.mem_cons.mp member with rfl | inRest
  · exact ⟨⟨_, _, rfl, rfl, by decide⟩, by decide⟩
  · rw [List.mem_singleton.mp inRest]
    exact ⟨List.Mem.head _, by decide⟩

end Sample

theorem exists_unique_representative_sample : ∃ model selectors slices,
    Model.compile Sample.document = .ok model ∧
    Sample.request.resolve model.space (fun _ => true) .any = .ok selectors ∧
    Slice.all selectors model.space.dimensions 100 = .ok slices ∧
    Sample.point.Within (model.axes selectors) ∧
    ∃ slice, slices.count slice = 1 ∧
      slice.Represents (model.axes selectors) Sample.point ∧
      (∀ other ∈ slices, other.Represents (model.axes selectors) Sample.point → other = slice) ∧
      model.activation slice = model.activation (Sample.point.slice (model.axes selectors)) := by
  obtain ⟨model, selectors, compiled, resolved, within⟩ := Sample.exists_within
  obtain ⟨slices, made⟩ : ∃ slices, Slice.all selectors model.space.dimensions 100 = .ok slices := by
    cases compiled
    cases resolved
    exact ⟨_, rfl⟩
  exact ⟨model, selectors, slices, compiled, resolved, made, within,
    exists_unique_representative compiled resolved made within⟩

end RuleSlicing
