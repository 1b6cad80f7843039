import RuleSlicing.Proofs.Runs

/-!
# The points over a combination of values

The result that is reported for a combination combines the results of the slices
with its values. These slices represent the selected points over the combination,
so what the result says is said of all of these points, whether or not they have
relevant values.
-/

set_option autoImplicit false

namespace RuleSlicing

namespace Point

/-- Two points have the same values for some axes. -/
def Agrees (left right : Point) (axes : List Axis) : Prop :=
  ∀ axis ∈ axes, left axis.name = right axis.name

/-- The point that the axes of a discipline take their values from. -/
private def source (split any all : Point) : Discipline → Point
  | .split => split
  | .any => any
  | .all => all

/-- The same relevant values stand for two points. -/
def Alike (left right : Point) (axes : List Axis) : Prop :=
  ∀ axis ∈ axes, axis.standIn (left axis.name) = axis.standIn (right axis.name)

theorem Agrees.alike {left right : Point} {axes : List Axis} (agrees : left.Agrees right axes) :
    left.Alike right axes :=
  fun axis member => congrArg axis.standIn (agrees axis member)

theorem Alike.trans_agrees {left right other : Point} {axes : List Axis}
    (alike : left.Alike right axes) (agrees : other.Agrees right axes) : left.Alike other axes :=
  fun axis member => (alike axis member).trans (agrees.alike axis member).symm

section Distinct

variable {axes : List Axis} (distinct : (axes.map Axis.name).Nodup) {left right : Point}

include distinct

theorem slice_standIn_eq_iff :
    (left.standIn axes).slice axes = (right.standIn axes).slice axes ↔ left.Alike right axes := by
  rw [slice_eq_iff distinct]
  refine forall₂_congr fun axis member => ?_
  rw [standIn_of_mem distinct member, standIn_of_mem distinct member]

theorem project_standIn (discipline : Discipline) :
    ((left.standIn axes).slice axes).project discipline =
      (left.standIn (Axis.having discipline axes)).slice (Axis.having discipline axes) := by
  have remaining := Axis.distinct_having discipline distinct
  rw [project_slice distinct, slice_eq_iff remaining]
  intro axis member
  rw [standIn_of_mem distinct (Axis.mem_having_iff.mp member).1, standIn_of_mem remaining member]

omit distinct in
private theorem forall_of_having {Has : Axis → Prop}
    (split : ∀ axis ∈ Axis.having .split axes, Has axis)
    (any : ∀ axis ∈ Axis.having .any axes, Has axis)
    (all : ∀ axis ∈ Axis.having .all axes, Has axis) : ∀ axis ∈ axes, Has axis := by
  intro axis member
  cases isDiscipline : axis.discipline with
  | split => exact split axis (Axis.mem_having_iff.mpr ⟨member, isDiscipline⟩)
  | any => exact any axis (Axis.mem_having_iff.mpr ⟨member, isDiscipline⟩)
  | all => exact all axis (Axis.mem_having_iff.mpr ⟨member, isDiscipline⟩)

/-- A selected point can be moved to other selected values for the axes of two
disciplines. It stays alike if the same relevant values stand for the new ones. -/
theorem exists_moved {point chosen one : Point} (within : point.Within axes)
    (chosenWithin : chosen.Within (Axis.having .split axes))
    (oneWithin : one.Within (Axis.having .any axes)) :
    ∃ moved : Point, moved.Within axes ∧ moved.Agrees chosen (Axis.having .split axes) ∧
      moved.Agrees one (Axis.having .any axes) ∧
      (point.Alike chosen (Axis.having .split axes) → point.Alike one (Axis.having .any axes) →
        point.Alike moved axes) := by
  obtain ⟨moved, isSource⟩ := exists_forall
    (fun axis value => value = source chosen one point axis.discipline axis.name) distinct
    fun _ _ => ⟨_, rfl⟩
  have agrees : ∀ discipline,
      moved.Agrees (source chosen one point discipline) (Axis.having discipline axes) := by
    intro discipline axis member
    obtain ⟨inAxes, rfl⟩ := Axis.mem_having_iff.mp member
    exact isSource axis inAxes
  have same : moved.Agrees point (Axis.having .all axes) := agrees .all
  refine ⟨moved, ?_, agrees .split, agrees .any, fun chosenAlike oneAlike => ?_⟩
  · refine forall_of_having (fun axis member => ?_) (fun axis member => ?_) fun axis member => ?_
    · exact agrees .split axis member ▸ chosenWithin axis member
    · exact agrees .any axis member ▸ oneWithin axis member
    · exact agrees .all axis member ▸ within axis (Axis.mem_having_iff.mp member).1
  · refine forall_of_having (chosenAlike.trans_agrees (agrees .split))
      (oneAlike.trans_agrees (agrees .any)) fun axis member => ?_
    exact (same.alike axis member).symm

end Distinct

theorem Within.having {point : Point} {axes : List Axis} (within : point.Within axes)
    (discipline : Discipline) : point.Within (Axis.having discipline axes) :=
  fun axis member => within axis (Axis.mem_having_iff.mp member).1

end Point

namespace Computation.Ran

variable {Result : Type} {computation : Computation Result} {request : Request} {limits : Limits}
  {model : Model} {run : Run Result} {results : List (Slice × Result)}
  (ran : computation.Ran request model limits run results) (sound : model.Sound)

include ran sound

theorem exists_result {point : Point} (within : point.Within (run.axes model)) :
    ∃ result, ((point.standIn (run.axes model)).slice (run.axes model), result) ∈ results :=
  (ran.exists_result_iff sound).mpr
    ⟨_, Point.standIn_mem_values (run.known_axes sound) within, rfl⟩

theorem exists_within : ∃ point : Point, point.Within (run.axes model) := by
  obtain ⟨point, relevant⟩ := ran.exists_relevant sound
  refine ⟨point, fun axis member => ?_⟩
  have grounded := (run.known_axes sound).grounded axis member
  exact ((Axis.mem_values_iff grounded).mp (relevant axis member)).1

theorem exists_point {slice : Slice} {result : Result} (member : (slice, result) ∈ results) :
    ∃ point : Point, point.Within (run.axes model) ∧
      slice = (point.standIn (run.axes model)).slice (run.axes model) := by
  have known := run.known_axes sound
  obtain ⟨point, relevant, rfl⟩ := (ran.exists_result_iff sound).mp ⟨result, member⟩
  have standing := fun axis (inAxes : axis ∈ run.axes model) =>
    (Axis.mem_values_iff (known.grounded axis inAxes)).mp (relevant axis inAxes)
  refine ⟨point, fun axis inAxes => (standing axis inAxes).1, ?_⟩
  rw [Point.slice_eq_iff known.distinct]
  intro axis inAxes
  rw [Point.standIn_of_mem known.distinct inAxes]
  exact (standing axis inAxes).2.symm

theorem key_of_represents {key : Slice} {result : Result} (member : (key, result) ∈ run.keys)
    {chosen : Point} (within : chosen.Within (run.splitAxes model))
    (represents : key.Represents (run.splitAxes model) chosen) :
    key = (chosen.standIn (run.splitAxes model)).slice (run.splitAxes model) := by
  obtain ⟨point, relevant, rfl⟩ :=
    (ran.mem_map_keys_iff sound).mp (List.mem_map_of_mem (f := (·.1)) member)
  exact (represents_slice_iff (run.known_splitAxes sound) within relevant).mp represents

section Meaning

variable {Holds : Result → Prop} {Meets : Activation → Prop}
  (meaning : ∀ entry ∈ results, Holds entry.2 ↔ Meets (model.activation entry.1))

include meaning

omit ran in
private theorem holds_iff_of_point {point : Point} (inside : point.Within (run.axes model))
    {result : Result}
    (found : ((point.standIn (run.axes model)).slice (run.axes model), result) ∈ results) :
    Holds result ↔ Meets (model.activation (point.slice (run.axes model))) := by
  rw [← Point.activation_standIn (run.known_axes sound) inside]
  exact meaning _ found

variable (Holds Meets)

/-- What is enough for one value holds of some combination exactly if it does of some
selected point. -/
theorem exists_key_iff (either : ∀ discipline left right,
      Holds (computation.merge discipline left right) ↔ Holds left ∨ Holds right) :
    (∃ entry ∈ run.keys, Holds entry.2) ↔ ∃ point : Point, point.Within (run.axes model) ∧
      Meets (model.activation (point.slice (run.axes model))) := by
  constructor
  · intro given
    obtain ⟨⟨key, result⟩, member, holds⟩ := given
    have merged := (mem_mergeBySplit_iff _ _).mp (ran.keys ▸ member)
    obtain ⟨⟨slice, value⟩, isOver, holds⟩ := (mergeKey?_exists merged either).mp holds
    have found := (List.mem_filter.mp isOver).1
    obtain ⟨point, inside, rfl⟩ := ran.exists_point sound found
    exact ⟨point, inside, (holds_iff_of_point sound meaning inside found).mp holds⟩
  · intro given
    obtain ⟨point, inside, meets⟩ := given
    obtain ⟨value, found⟩ := ran.exists_result sound inside
    obtain ⟨⟨key, result⟩, member, isKey⟩ := List.mem_map.mp
      ((mem_map_mergeBySplit_iff computation results).mpr ⟨_, found, rfl⟩)
    have merged := (mem_mergeBySplit_iff computation results).mp member
    have isOver : (_, value) ∈ results.filter fun entry => entry.1.project .split == key :=
      List.mem_filter.mpr ⟨found, beq_iff_eq.mpr isKey.symm⟩
    refine ⟨(key, result), ran.keys ▸ member,
      (mergeKey?_exists merged either).mpr ⟨_, isOver, ?_⟩⟩
    exact (holds_iff_of_point sound meaning inside found).mpr meets

variable {key : Slice} {result : Result} (member : (key, result) ∈ run.keys)
  {chosen : Point} (within : chosen.Within (run.splitAxes model))
  (represents : key.Represents (run.splitAxes model) chosen)

include member within represents

omit meaning in
/-- The slices with the values of a combination are those of the points over it. -/
private theorem mem_fiber_iff {point : Point} {value : Result} :
    ((point.standIn (run.axes model)).slice (run.axes model), value) ∈
        results.filter (fun entry => entry.1.project .split == key) ↔
      ((point.standIn (run.axes model)).slice (run.axes model), value) ∈ results ∧
        point.Alike chosen (run.splitAxes model) := by
  have distinct := (run.known_axes sound).distinct
  rw [List.mem_filter, beq_iff_eq, ran.key_of_represents sound member within represents,
    Point.project_standIn distinct]
  exact and_congr_right' (Point.slice_standIn_eq_iff (Axis.distinct_having .split distinct))

/-- What has to hold for every value of some axes and is enough for one value of
others holds of a combination exactly if it does of the points over it. -/
theorem holds_iff_exists_forall
    (all : ∀ left right, Holds (computation.merge .all left right) ↔ Holds left ∧ Holds right)
    (any : ∀ left right, Holds (computation.merge .any left right) ↔ Holds left ∨ Holds right) :
    Holds result ↔ ∃ one : Point, one.Within (Axis.having .any (run.axes model)) ∧
      ∀ point : Point, point.Within (run.axes model) → point.Agrees chosen (run.splitAxes model) →
        point.Agrees one (Axis.having .any (run.axes model)) →
          Meets (model.activation (point.slice (run.axes model))) := by
  have distinct := (run.known_axes sound).distinct
  have inFiber := fun {point : Point} {value : Result} =>
    @mem_fiber_iff _ _ _ _ _ _ _ ran sound _ _ member _ within represents point value
  rw [mergeKey?_exists_forall ((mem_mergeBySplit_iff _ _).mp (ran.keys ▸ member)) all any]
  constructor
  · intro given
    obtain ⟨⟨slice, value⟩, isOver, every⟩ := given
    obtain ⟨one, oneWithin, rfl⟩ := ran.exists_point sound (List.mem_filter.mp isOver).1
    refine ⟨one, oneWithin.having .any, fun point inside agrees oneAgrees => ?_⟩
    obtain ⟨other, found⟩ := ran.exists_result sound inside
    refine (holds_iff_of_point sound meaning inside found).mp
      (every _ (inFiber.mpr ⟨found, agrees.alike⟩) ?_)
    rw [Point.project_standIn distinct, Point.project_standIn distinct]
    exact (Point.slice_standIn_eq_iff (Axis.distinct_having .any distinct)).mpr oneAgrees.alike
  · intro given
    obtain ⟨one, oneWithin, every⟩ := given
    obtain ⟨base, baseWithin⟩ := ran.exists_within sound
    obtain ⟨first, inside, agrees, oneAgrees, _⟩ :=
      Point.exists_moved distinct baseWithin within oneWithin
    obtain ⟨value, found⟩ := ran.exists_result sound inside
    refine ⟨(_, value), inFiber.mpr ⟨found, agrees.alike⟩, ?_⟩
    rintro ⟨slice, other⟩ isOver same
    obtain ⟨point, pointInside, rfl⟩ := ran.exists_point sound (List.mem_filter.mp isOver).1
    obtain ⟨inResults, chosenAlike⟩ := inFiber.mp isOver
    rw [Point.project_standIn distinct, Point.project_standIn distinct,
      Point.slice_standIn_eq_iff (Axis.distinct_having .any distinct)] at same
    -- The point may differ from the chosen values where others stand for both.
    obtain ⟨moved, movedInside, movedAgrees, movedOne, alike⟩ :=
      Point.exists_moved distinct pointInside within oneWithin
    have alike := alike chosenAlike fun axis member =>
      (same axis member).trans (oneAgrees.alike axis member)
    rw [(Point.slice_standIn_eq_iff distinct).mpr alike] at inResults
    exact (holds_iff_of_point sound meaning movedInside inResults).mpr
      (every moved movedInside movedAgrees movedOne)

/-- What has to hold for every value holds of a combination exactly if it does of the
points over it. -/
theorem holds_iff_forall (both : ∀ discipline left right,
      Holds (computation.merge discipline left right) ↔ Holds left ∧ Holds right) :
    Holds result ↔ ∀ point : Point, point.Within (run.axes model) →
      point.Agrees chosen (run.splitAxes model) →
        Meets (model.activation (point.slice (run.axes model))) := by
  have distinct := (run.known_axes sound).distinct
  have inFiber := fun {point : Point} {value : Result} =>
    @mem_fiber_iff _ _ _ _ _ _ _ ran sound _ _ member _ within represents point value
  rw [mergeKey?_forall ((mem_mergeBySplit_iff _ _).mp (ran.keys ▸ member)) both]
  constructor
  · intro every point inside agrees
    obtain ⟨value, found⟩ := ran.exists_result sound inside
    exact (holds_iff_of_point sound meaning inside found).mp
      (every _ (inFiber.mpr ⟨found, agrees.alike⟩))
  · rintro every ⟨slice, value⟩ isOver
    obtain ⟨point, inside, rfl⟩ := ran.exists_point sound (List.mem_filter.mp isOver).1
    obtain ⟨inResults, chosenAlike⟩ := inFiber.mp isOver
    obtain ⟨moved, movedInside, agrees, _, alike⟩ :=
      Point.exists_moved distinct inside within (inside.having .any)
    have alike := alike chosenAlike fun _ _ => rfl
    rw [(Point.slice_standIn_eq_iff distinct).mpr alike] at inResults
    exact (holds_iff_of_point sound meaning movedInside inResults).mpr
      (every moved movedInside agrees)

end Meaning

end Computation.Ran

end RuleSlicing
