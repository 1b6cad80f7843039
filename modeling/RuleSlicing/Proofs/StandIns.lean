import RuleSlicing.Proofs.Breakpoints

/-!
# Values that stand for others

Of a selected interval, the first selected value of a segment stands for all
selected values of the segment; a listed value stands for itself. The relevant
values of a selection are those that stand for themselves, each selected value has
one of them, and no declared range tells the two apart.
-/

set_option autoImplicit false

namespace RuleSlicing.Breakpoints

variable {low high : Int}

/-- The value that stands for a selected value. -/
def standIn (points : Breakpoints low high) :
    Range (Bounded low high) → Bounded low high → Bounded low high
  | .interval lower _ _, value =>
      ((points.segments.find? (·.contains value)).map fun segment =>
        LinearOrdered.larger lower segment.first).getD value
  | _, value => value

/-- Of an interval, values of one segment stand for each other. -/
def StandsFor (points : Breakpoints low high) :
    Range (Bounded low high) → Bounded low high → Bounded low high → Prop
  | .interval _ _ _, representative, value => ∃ segment ∈ points.segments,
      segment.contains representative = true ∧ segment.contains value = true
  | _, representative, value => representative = value

variable {points : Breakpoints low high} {lower upper : Bounded low high}
  {ordered : lower ≤ upper}

theorem standIn_interval {segment : Segment low high} (member : segment ∈ points.segments)
    {value : Bounded low high} (inside : segment.contains value = true) :
    points.standIn (.interval lower upper ordered) value =
      LinearOrdered.larger lower segment.first := by
  simp only [standIn]
  rw [segments, Segment.find?_contains points.relevant.ascending member inside]
  rfl

private theorem first?_between {left right : Bounded low high} {value : Bounded low high} :
    (Range.between left right).first? = some value ↔ left = value ∧ left ≤ right := by
  unfold Range.between
  split
  · rename_i below
    simp [Range.first?, below]
  · rename_i crossed
    simp [Range.first?, crossed]

/-- An interval is represented by the first selected value of each of its segments. -/
theorem mem_relevantIn_interval_iff {value : Bounded low high} :
    value ∈ points.relevantIn (.interval lower upper ordered) ↔ ∃ segment ∈ points.segments,
      LinearOrdered.larger lower segment.first = value ∧ value ≤ segment.last ∧
        value ≤ upper := by
  simp only [relevantIn, SortedSet.mem_ofList_iff, List.mem_filterMap]
  refine exists_congr fun segment => and_congr_right fun member => ?_
  have forward := Segment.first_le_last points.relevant.ascending segment member
  have shape : segment.range = .interval segment.first segment.last forward := dif_pos forward
  rw [shape]
  simp only [Range.intersection, first?_between, LinearOrdered.le_smaller_iff]
  constructor
  · intro given
    obtain ⟨rfl, below, inside⟩ := given
    exact ⟨rfl, inside, below⟩
  · intro given
    obtain ⟨rfl, inside, below⟩ := given
    exact ⟨rfl, below, inside⟩

theorem contains_standIn {segment : Segment low high} {value : Bounded low high}
    (inside : segment.contains value = true) (above : lower ≤ value) :
    segment.contains (LinearOrdered.larger lower segment.first) = true ∧
      LinearOrdered.larger lower segment.first ≤ value := by
  obtain ⟨first, last⟩ := (Segment.contains_iff segment value).mp inside
  have bounded := (LinearOrdered.larger_le_iff lower segment.first value).mpr ⟨above, first⟩
  have least := (LinearOrdered.larger_le_iff lower segment.first _).mp (Std.le_refl _)
  exact ⟨(Segment.contains_iff segment _).mpr ⟨least.2, Std.le_trans bounded last⟩, bounded⟩

theorem mem_relevantIn_list_iff {values : SortedSet (Bounded low high)}
    {occupied : values.isEmpty = false} {value : Bounded low high} :
    value ∈ points.relevantIn (.list values occupied) ↔ value ∈ points.span ∧ value ∈ values := by
  simp only [relevantIn]
  rw [mem_span_iff]
  cases least : points.min? with
  | none => simp [SortedSet.not_mem_empty]
  | some min =>
      cases greatest : points.max? with
      | none => simp [SortedSet.not_mem_empty]
      | some max =>
          simp only [SortedSet.mem_filter_iff, Bool.and_eq_true, decide_eq_true_eq]
          constructor
          · intro given
            obtain ⟨listed, bounds⟩ := given
            exact ⟨⟨min, max, rfl, rfl, bounds⟩, listed⟩
          · intro given
            obtain ⟨⟨_, _, ⟨⟩, ⟨⟩, bounds⟩, listed⟩ := given
            exact ⟨listed, bounds⟩

variable (grounded : points.Grounded) {selected : Range (Bounded low high)}
  {value : Bounded low high}

include grounded

/-- The relevant values are the selected values of the span that stand for themselves. -/
theorem mem_relevantIn_iff :
    value ∈ points.relevantIn selected ↔
      value ∈ points.span ∧ value ∈ selected ∧ points.standIn selected value = value := by
  cases selected with
  | empty => simp [relevantIn, SortedSet.not_mem_empty, Range.not_mem_empty]
  | list values occupied =>
      rw [mem_relevantIn_list_iff]
      simp [standIn]
  | interval lower upper ordered =>
      rw [mem_relevantIn_interval_iff]
      constructor
      · intro given
        obtain ⟨segment, member, rfl, inside, below⟩ := given
        have least := (LinearOrdered.larger_le_iff lower segment.first _).mp (Std.le_refl _)
        have contained := (Segment.contains_iff segment _).mpr ⟨least.2, inside⟩
        exact ⟨mem_span_of_contains member contained, ⟨least.1, below⟩,
          standIn_interval member contained⟩
      · intro given
        obtain ⟨inSpan, ⟨_, below⟩, same⟩ := given
        obtain ⟨segment, member, inside⟩ := exists_segment grounded inSpan
        refine ⟨segment, member, ?_, ((Segment.contains_iff segment value).mp inside).2, below⟩
        rwa [standIn_interval member inside] at same

variable (inSpan : value ∈ points.span) (inSelected : value ∈ selected)

include inSpan inSelected

theorem standIn_mem_relevantIn : points.standIn selected value ∈ points.relevantIn selected := by
  cases selected with
  | empty => exact absurd inSelected (Range.not_mem_empty value)
  | list values occupied => exact mem_relevantIn_list_iff.mpr ⟨inSpan, inSelected⟩
  | interval lower upper ordered =>
      obtain ⟨segment, member, inside⟩ := exists_segment grounded inSpan
      obtain ⟨contained, bounded⟩ := contains_standIn inside inSelected.1
      rw [standIn_interval member inside]
      exact mem_relevantIn_interval_iff.mpr ⟨segment, member, rfl,
        ((Segment.contains_iff segment _).mp contained).2, Std.le_trans bounded inSelected.2⟩

/-- A declared range holds a selected value exactly if it holds the one that stands
for it. -/
theorem standIn_mem_iff {range : Range (Bounded low high)} (knows : points.Knows range) :
    points.standIn selected value ∈ range ↔ value ∈ range := by
  cases selected with
  | empty => exact .rfl
  | list values occupied => exact .rfl
  | interval lower upper ordered =>
      obtain ⟨segment, member, inside⟩ := exists_segment grounded inSpan
      rw [standIn_interval member inside]
      exact mem_congr_of_contains knows member (contains_standIn inside inSelected.1).1 inside

/-- Exactly one relevant value stands for a selected value. -/
theorem standsFor_iff {representative : Bounded low high}
    (relevant : representative ∈ points.relevantIn selected) :
    points.StandsFor selected representative value ↔
      representative = points.standIn selected value := by
  cases selected with
  | empty => exact .rfl
  | list values occupied => exact .rfl
  | interval lower upper ordered =>
      obtain ⟨_, _, same⟩ := (mem_relevantIn_iff grounded).mp relevant
      constructor
      · intro given
        obtain ⟨segment, member, representativeInside, inside⟩ := given
        rw [← same, standIn_interval member representativeInside, standIn_interval member inside]
      · intro equal
        obtain ⟨segment, member, inside⟩ := exists_segment grounded inSpan
        rw [standIn_interval member inside] at equal
        exact ⟨segment, member, equal ▸ (contains_standIn inside inSelected.1).1, inside⟩

end RuleSlicing.Breakpoints
