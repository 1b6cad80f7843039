import RuleSlicing.Property.Range

/-!
# Common parts of ranges

The common part of two ranges and their overlap are what their values make of them, whatever the
shapes. Two ranges with the same values and the same shape are equal, so the laws of the common
part follow from its values and its shape. Typed ranges obey the same laws within one type.
-/

set_option autoImplicit false

namespace RuleSlicing

/-- What ranges of some kind show of themselves: their values and their shape. -/
structure RangeView (Kind Value : Type) where
  contains : Kind → Value → Bool
  isEmpty : Kind → Bool
  isDiscrete : Kind → Bool

/-- A range is the common part of two others, of which it is known whether they overlap. -/
structure RangeView.IsCommonPart {Kind Value : Type} (view : RangeView Kind Value)
    (left right common : Kind) (overlap : Bool) : Prop where
  members : ∀ value, view.contains common value = true ↔
    view.contains left value = true ∧ view.contains right value = true
  overlaps : overlap = true ↔ view.isEmpty common = false
  shares : overlap = true ↔
    ∃ value, view.contains left value = true ∧ view.contains right value = true
  /-- Only the empty range has no values: there is no list without members, and no interval with
  crossed ends. -/
  canonical : view.isEmpty common = true ↔ ∀ value, view.contains common value = false
  /-- An interval is the common part of overlapping intervals only. -/
  shape : view.isDiscrete common = (view.isDiscrete left || view.isDiscrete right || !overlap)

/-- Ranges of one kind, seen as ranges of another one, keep their values and their shape. -/
structure RangeView.Embeds {Kind Value OtherKind OtherValue : Type} (view : RangeView Kind Value)
    (other : RangeView OtherKind OtherValue) (lift : Kind → OtherKind) (wrap : Value → OtherValue) :
    Prop where
  injective : Function.Injective wrap
  contains : ∀ range value, other.contains (lift range) value = true ↔
    ∃ inner, wrap inner = value ∧ view.contains range inner = true
  isEmpty : ∀ range, other.isEmpty (lift range) = view.isEmpty range
  isDiscrete : ∀ range, other.isDiscrete (lift range) = view.isDiscrete range

theorem RangeView.Embeds.isCommonPart {Kind Value OtherKind OtherValue : Type}
    {view : RangeView Kind Value} {other : RangeView OtherKind OtherValue}
    {lift : Kind → OtherKind} {wrap : Value → OtherValue} (embeds : view.Embeds other lift wrap)
    {left right common : Kind} {overlap : Bool}
    (isCommonPart : view.IsCommonPart left right common overlap) :
    other.IsCommonPart (lift left) (lift right) (lift common) overlap := by
  have both : ∀ value, (∃ inner, wrap inner = value ∧ view.contains common inner = true) ↔
      (∃ inner, wrap inner = value ∧ view.contains left inner = true) ∧
        ∃ inner, wrap inner = value ∧ view.contains right inner = true := by
    intro value
    constructor
    · intro given
      obtain ⟨inner, same, inside⟩ := given
      obtain ⟨inLeft, inRight⟩ := (isCommonPart.members inner).mp inside
      exact ⟨⟨inner, same, inLeft⟩, inner, same, inRight⟩
    · intro given
      obtain ⟨⟨inner, same, inLeft⟩, found, foundSame, inRight⟩ := given
      obtain rfl := embeds.injective (foundSame.trans same.symm)
      exact ⟨found, same, (isCommonPart.members found).mpr ⟨inLeft, inRight⟩⟩
  constructor
  · intro value
    rw [embeds.contains, embeds.contains, embeds.contains]
    exact both value
  · rw [embeds.isEmpty]
    exact isCommonPart.overlaps
  · rw [isCommonPart.shares]
    simp only [embeds.contains, ← both, ← isCommonPart.members]
    exact ⟨fun ⟨inner, inside⟩ => ⟨_, inner, rfl, inside⟩,
      fun ⟨_, inner, _, inside⟩ => ⟨inner, inside⟩⟩
  · rw [embeds.isEmpty, isCommonPart.canonical]
    simp only [← Bool.not_eq_true, embeds.contains]
    exact ⟨fun none _ ⟨inner, _, inside⟩ => none inner inside,
      fun none inner inside => none _ ⟨inner, rfl, inside⟩⟩
  · rw [embeds.isDiscrete, embeds.isDiscrete, embeds.isDiscrete]
    exact isCommonPart.shape

/-! ## Ranges of one order -/

namespace Range

def view (Value : Type) [LinearOrdered Value] [DecidableEq Value] : RangeView (Range Value) Value :=
  ⟨contains, isEmpty, isDiscrete⟩

variable {Value : Type} [LinearOrdered Value]

/-- The values and the shape of a range determine it. -/
theorem eq_of_mem_iff {left right : Range Value} (same : ∀ value, value ∈ left ↔ value ∈ right)
    (shape : left.isDiscrete = right.isDiscrete) : left = right := by
  have occupied : left.isEmpty = right.isEmpty := by
    rw [← Bool.not_inj_iff, Bool.eq_iff_iff]
    simp only [Bool.not_eq_true', isEmpty_eq_false_iff, same]
  cases left with
  | empty =>
      cases right with
      | empty => rfl
      | list | interval => cases occupied
  | list values _ =>
      cases right with
      | empty => cases occupied
      | list others _ =>
          obtain rfl : values = others := SortedSet.ext same
          rfl
      | interval => cases shape
  | interval min max ordered =>
      cases right with
      | empty => cases occupied
      | list => cases shape
      | interval otherMin otherMax otherOrdered =>
          have low := (same min).mp ⟨Std.le_refl min, ordered⟩
          have high := (same max).mp ⟨ordered, Std.le_refl max⟩
          have otherLow := (same otherMin).mpr ⟨Std.le_refl otherMin, otherOrdered⟩
          have otherHigh := (same otherMax).mpr ⟨otherOrdered, Std.le_refl otherMax⟩
          obtain rfl : min = otherMin := Std.le_antisymm otherLow.1 low.1
          obtain rfl : max = otherMax := Std.le_antisymm high.2 otherHigh.2
          rfl

theorem isDiscrete_between (min max : Value) :
    (between min max).isDiscrete = !(min ≤ max : Bool) := by
  unfold between
  split
  · rename_i ordered
    simp [isDiscrete, ordered]
  · rename_i crossed
    simp [isDiscrete, crossed]

variable [DecidableEq Value]

theorem isEmpty_intersection (left right : Range Value) :
    (left.intersection right).isEmpty = !left.intersects right := by
  rw [← Bool.not_inj_iff, Bool.not_not, Bool.eq_iff_iff, Bool.not_eq_true', isEmpty_eq_false_iff,
    intersects_iff]
  simp only [mem_intersection_iff]

theorem isDiscrete_intersection (left right : Range Value) :
    (left.intersection right).isDiscrete =
      (left.isDiscrete || right.isDiscrete || !left.intersects right) := by
  cases left with
  | empty => rfl
  | list values occupied => exact isDiscrete_ofSet _
  | interval min max ordered =>
      cases right with
      | empty => rfl
      | list values occupied => exact isDiscrete_ofSet _
      | interval otherMin otherMax otherOrdered =>
          -- The later beginning is not behind the earlier end if neither end is before the other
          -- beginning, since the ends of each interval are in order.
          have crossing : LinearOrdered.larger min otherMin ≤ LinearOrdered.smaller max otherMax ↔
              min ≤ otherMax ∧ otherMin ≤ max := by
            rw [LinearOrdered.larger_le_iff, LinearOrdered.le_smaller_iff,
              LinearOrdered.le_smaller_iff]
            exact ⟨fun given => ⟨given.1.2, given.2.1⟩,
              fun given => ⟨⟨ordered, given.1⟩, given.2, otherOrdered⟩⟩
          simp only [intersection, intersects]
          rw [isDiscrete_between, decide_eq_decide.mpr crossing, Bool.decide_and]
          rfl

theorem intersects_comm (left right : Range Value) :
    left.intersects right = right.intersects left := by
  rw [Bool.eq_iff_iff, intersects_iff, intersects_iff]
  exact exists_congr fun value => and_comm

theorem intersection_comm (left right : Range Value) :
    left.intersection right = right.intersection left := by
  apply eq_of_mem_iff
  · intro value
    rw [mem_intersection_iff, mem_intersection_iff, and_comm]
  · rw [isDiscrete_intersection, isDiscrete_intersection, intersects_comm,
      Bool.or_comm left.isDiscrete]

theorem intersection_assoc (left middle right : Range Value) :
    (left.intersection middle).intersection right =
      left.intersection (middle.intersection right) := by
  apply eq_of_mem_iff
  · intro value
    simp only [mem_intersection_iff, and_assoc]
  · have overlap : (left.intersection middle).intersects right =
        left.intersects (middle.intersection right) := by
      rw [Bool.eq_iff_iff, intersects_iff, intersects_iff]
      simp only [mem_intersection_iff, and_assoc]
    cases common : (left.intersection middle).intersects right with
    | false => simp [isDiscrete_intersection, ← overlap, common]
    | true =>
        obtain ⟨value, inBoth, inRight⟩ := (intersects_iff _ _).mp common
        obtain ⟨inLeft, inMiddle⟩ := (mem_intersection_iff _ _ _).mp inBoth
        have first := (intersects_iff left middle).mpr ⟨value, inLeft, inMiddle⟩
        have last := (intersects_iff middle right).mpr ⟨value, inMiddle, inRight⟩
        simp [isDiscrete_intersection, ← overlap, common, first, last, Bool.or_assoc]

theorem isCommonPart (left right : Range Value) :
    (view Value).IsCommonPart left right (left.intersection right) (left.intersects right) where
  members value := by
    simp only [view, contains_iff, mem_intersection_iff]
  overlaps := by
    simp only [view, isEmpty_intersection, Bool.not_eq_false']
  shares := by
    simp only [view, contains_iff, intersects_iff]
  canonical := by
    simp only [view, ← Bool.not_eq_true, contains_iff, ← not_exists, ← isEmpty_eq_false_iff]
    simp
  shape := isDiscrete_intersection left right

end Range

/-! ## Typed ranges -/

namespace PropertyRange

def view : RangeView PropertyRange PropertyValue := ⟨contains, isEmpty, isDiscrete⟩

theorem embeds_boolean : (Range.view Bool).Embeds view boolean PropertyValue.boolean where
  injective _ _ := PropertyValue.boolean.inj
  contains range value := by
    cases value <;> simp [view, Range.view, contains]
  isEmpty _ := rfl
  isDiscrete _ := rfl

theorem embeds_integer : (Range.view Whole).Embeds view integer PropertyValue.integer where
  injective _ _ := PropertyValue.integer.inj
  contains range value := by
    cases value <;> simp [view, Range.view, contains]
  isEmpty _ := rfl
  isDiscrete _ := rfl

theorem embeds_enumeration :
    (Range.view String).Embeds view enumeration PropertyValue.enumeration where
  injective _ _ := PropertyValue.enumeration.inj
  contains range value := by
    cases value <;> simp [view, Range.view, contains]
  isEmpty _ := rfl
  isDiscrete _ := rfl

theorem embeds_date : (Range.view Date).Embeds view date PropertyValue.date where
  injective _ _ := PropertyValue.date.inj
  contains range value := by
    cases value <;> simp [view, Range.view, contains]
  isEmpty _ := rfl
  isDiscrete _ := rfl

/-- Typed ranges of one type have a common part, which is one of their values. -/
theorem exists_isCommonPart {left right : PropertyRange} (same : left.type = right.type) :
    ∃ common, left.intersection? right = some common ∧ common.type = left.type ∧
      view.IsCommonPart left right common (left.intersects right) := by
  cases left with
  | boolean left =>
      cases right with
      | boolean right => exact ⟨_, rfl, rfl, embeds_boolean.isCommonPart (left.isCommonPart right)⟩
      | integer | enumeration | date => cases same
  | integer left =>
      cases right with
      | integer right => exact ⟨_, rfl, rfl, embeds_integer.isCommonPart (left.isCommonPart right)⟩
      | boolean | enumeration | date => cases same
  | enumeration left =>
      cases right with
      | enumeration right =>
          exact ⟨_, rfl, rfl, embeds_enumeration.isCommonPart (left.isCommonPart right)⟩
      | boolean | integer | date => cases same
  | date left =>
      cases right with
      | date right => exact ⟨_, rfl, rfl, embeds_date.isCommonPart (left.isCommonPart right)⟩
      | boolean | integer | enumeration => cases same

theorem disjoint_of_type_ne {left right : PropertyRange} (different : left.type ≠ right.type) :
    left.intersection? right = none ∧ left.intersects right = false := by
  cases left <;> cases right <;> first
    | exact absurd rfl different
    | exact ⟨rfl, rfl⟩

theorem intersection?_comm (left right : PropertyRange) :
    left.intersection? right = right.intersection? left := by
  cases left <;> cases right <;> first
    | rfl
    | simp only [intersection?, Range.intersection_comm]

theorem intersects_comm (left right : PropertyRange) :
    left.intersects right = right.intersects left := by
  cases left <;> cases right <;> first
    | rfl
    | exact Range.intersects_comm _ _

theorem intersection?_assoc (left middle right : PropertyRange) :
    (left.intersection? middle).bind (·.intersection? right) =
      (middle.intersection? right).bind left.intersection? := by
  cases left <;> cases middle <;> cases right <;> first
    | rfl
    | simp only [intersection?, Option.bind_some, Range.intersection_assoc]

end PropertyRange

/-- The common part of two ranges has the values that both have, and there are any exactly if the
ranges overlap; neither depends on the order. Typed ranges of one type obey the same laws, and
ranges of different types have nothing in common. -/
theorem ranges_meet_in_shared_values :
    (∀ {Value : Type} [LinearOrdered Value] [DecidableEq Value] (left right : Range Value),
      (Range.view Value).IsCommonPart left right (left.intersection right)
        (left.intersects right) ∧
      left.intersection right = right.intersection left ∧
      left.intersects right = right.intersects left ∧
      ∀ last, (left.intersection right).intersection last =
        left.intersection (right.intersection last)) ∧
    ∀ left right : PropertyRange,
      (left.type = right.type → ∃ common, left.intersection? right = some common ∧
        common.type = left.type ∧
        PropertyRange.view.IsCommonPart left right common (left.intersects right)) ∧
      (left.type ≠ right.type →
        left.intersection? right = none ∧ left.intersects right = false) ∧
      left.intersection? right = right.intersection? left ∧
      left.intersects right = right.intersects left ∧
      ∀ last, (left.intersection? right).bind (·.intersection? last) =
        (right.intersection? last).bind left.intersection? := by
  constructor
  · intro Value _ _ left right
    exact ⟨left.isCommonPart right, left.intersection_comm right, left.intersects_comm right,
      left.intersection_assoc right⟩
  · intro left right
    exact ⟨PropertyRange.exists_isCommonPart, PropertyRange.disjoint_of_type_ne,
      left.intersection?_comm right, left.intersects_comm right, left.intersection?_assoc right⟩

namespace Sample

def firstYears : PropertyRange :=
  .integer (.between ⟨1, by decide, by decide⟩ ⟨4, by decide, by decide⟩)

def otherYears : PropertyRange :=
  .integer (.ofList [⟨9, by decide, by decide⟩, ⟨3, by decide, by decide⟩])

end Sample

theorem ranges_meet_in_shared_values_sample :
    Sample.firstYears.type = Sample.otherYears.type ∧
    Sample.firstYears.type ≠ (PropertyRange.single (.enumeration "3")).type ∧
    Sample.firstYears.intersection? (.single (.enumeration "3")) = none ∧
    ∃ common, Sample.firstYears.intersection? Sample.otherYears = some common ∧
      common.listed = [.integer ⟨3, by decide, by decide⟩] ∧
      PropertyRange.view.IsCommonPart Sample.firstYears Sample.otherYears common true := by
  obtain ⟨_, typed⟩ := ranges_meet_in_shared_values
  have different : Sample.firstYears.type ≠ (PropertyRange.single (.enumeration "3")).type := by
    decide
  obtain ⟨common, found, _, isCommonPart⟩ := (typed Sample.firstYears Sample.otherYears).1 rfl
  have listed : (Sample.firstYears.intersection? Sample.otherYears).map (·.listed) =
      some [.integer ⟨3, by decide, by decide⟩] := by
    decide
  rw [found] at listed
  exact ⟨rfl, different, ((typed _ _).2.1 different).1, common, found, Option.some.inj listed,
    isCommonPart⟩

end RuleSlicing
