import Mathlib.Data.List.Chain
import RuleSlicing.Proofs.StandIns
import RuleSlicing.Space.Basic

/-!
# Segments tile the span

Whatever ranges are declared for a dimension of numbers or dates, its segments lie
side by side, cover the span from the least to the greatest declared value, and
are not cut by a declared range. The order in which ranges are declared does not
matter, nor does declaring one again.
-/

set_option autoImplicit false

namespace RuleSlicing

/-! ## First values -/

namespace Range

variable {Value : Type} [LinearOrdered Value]

theorem first?_eq_some_iff (range : Range Value) (value : Value) :
    range.first? = some value ↔ value ∈ range ∧ ∀ other ∈ range, value ≤ other := by
  cases range with
  | empty => simp [first?, not_mem_empty]
  | list values occupied => exact SortedSet.first?_eq_some_iff values value
  | interval min max ordered =>
      simp only [first?, Option.some.injEq, mem_interval_iff]
      constructor
      · rintro rfl
        exact ⟨⟨Std.le_refl _, ordered⟩, fun other inside => inside.1⟩
      · intro given
        obtain ⟨inside, least⟩ := given
        exact Std.le_antisymm inside.1 (least min ⟨Std.le_refl _, ordered⟩)

theorem isSome_first?_iff (range : Range Value) :
    range.first?.isSome = true ↔ ∃ value, value ∈ range := by
  constructor
  · intro found
    obtain ⟨value, first⟩ := Option.isSome_iff_exists.mp found
    exact ⟨value, ((first?_eq_some_iff range value).mp first).1⟩
  · intro given
    obtain ⟨value, member⟩ := given
    cases range with
    | empty => exact absurd member (not_mem_empty value)
    | list values occupied =>
        have listed : values.toList ≠ [] := List.ne_nil_of_mem member
        simp [first?, SortedSet.first?, List.head?_eq_some_head listed]
    | interval min max ordered => rfl

end Range

variable {low high : Int}

namespace Segment

/-- The least value that a segment has in common with a range. -/
structure IsFirstIn (range : Range (Bounded low high)) (segment : Segment low high)
    (value : Bounded low high) : Prop where
  contained : segment.contains value = true
  selected : value ∈ range
  least : ∀ other ∈ range, segment.contains other = true → value ≤ other

private theorem mem_common_iff (range : Range (Bounded low high)) (segment : Segment low high)
    (value : Bounded low high) :
    value ∈ range.intersection segment.range ↔ value ∈ range ∧ segment.contains value = true := by
  rw [Range.mem_intersection_iff, contains_iff]
  exact and_congr_right' (Range.mem_between_iff _ _ _)

theorem first?_eq_some_iff (range : Range (Bounded low high)) (segment : Segment low high)
    (value : Bounded low high) :
    (range.intersection segment.range).first? = some value ↔
      segment.IsFirstIn range value := by
  rw [Range.first?_eq_some_iff]
  simp only [mem_common_iff]
  constructor
  · intro given
    obtain ⟨⟨selected, contained⟩, least⟩ := given
    exact ⟨contained, selected, fun other inRange inSegment => least other ⟨inRange, inSegment⟩⟩
  · intro first
    exact ⟨⟨first.selected, first.contained⟩, fun other both => first.least other both.1 both.2⟩

theorem isSome_first?_iff (range : Range (Bounded low high)) (segment : Segment low high) :
    (range.intersection segment.range).first?.isSome = range.intersects segment.range := by
  rw [Bool.eq_iff_iff, Range.isSome_first?_iff, Range.intersects_iff]
  simp only [Range.mem_intersection_iff]

theorem isChain_ofBeginnings {beginnings : List (Bounded low high)}
    (ascending : beginnings.Pairwise (· < ·)) :
    (ofBeginnings beginnings).IsChain fun left right => right.first.val = left.last.val + 1 := by
  induction beginnings with
  | nil => exact .nil
  | cons first rest ih =>
      obtain ⟨below, restAscending⟩ := List.pairwise_cons.mp ascending
      cases rest with
      | nil => exact .singleton _
      | cons next others =>
          have final := val_last first next (below next (.head _))
          have restChain := ih restAscending
          cases others with
          | nil =>
              apply List.IsChain.cons_cons _ restChain
              simp only
              omega
          | cons _ _ =>
              apply List.IsChain.cons_cons _ restChain
              simp only
              omega

end Segment

/-! ## What declaring ranges leaves behind -/

theorem SortedSet.toList_ofList {α : Type} [LinearOrdered α] {list : List α}
    (ascending : list.Pairwise (· < ·)) : (ofList list).toList = list :=
  eq_of_ascending (ofList list).ascending ascending (mem_ofList_iff list)

namespace Breakpoints

def ofRanges (ranges : List (Range (Bounded low high))) : Breakpoints low high :=
  ranges.foldl add empty

section Marks

variable {ranges : List (Range (Bounded low high))} {value : Bounded low high}

private theorem mem_foldl_add {marks : Breakpoints low high → SortedSet (Bounded low high)}
    {Leaves : Range (Bounded low high) → Prop}
    (step : ∀ points range, value ∈ marks (add points range) ↔
      Leaves range ∨ value ∈ marks points) (points : Breakpoints low high) :
    value ∈ marks (ranges.foldl add points) ↔
      (∃ range ∈ ranges, Leaves range) ∨ value ∈ marks points := by
  induction ranges generalizing points with
  | nil => simp
  | cons range rest ih =>
      rw [List.foldl_cons, ih, step, List.exists_mem_cons_iff, ← or_assoc]
      exact or_congr_left or_comm

private theorem mem_marks_iff {marks : Breakpoints low high → SortedSet (Bounded low high)}
    {Leaves : Range (Bounded low high) → Prop}
    (step : ∀ points range, value ∈ marks (add points range) ↔
      Leaves range ∨ value ∈ marks points) (blank : marks empty = ∅) :
    value ∈ marks (ofRanges ranges) ↔ ∃ range ∈ ranges, Leaves range := by
  apply (mem_foldl_add step empty).trans
  rw [blank]
  exact or_iff_left (SortedSet.not_mem_empty value)

theorem mem_starts_iff :
    value ∈ (ofRanges ranges).starts ↔
      ∃ range ∈ ranges, ∃ max ordered, range = .interval value max ordered := by
  apply mem_marks_iff _ rfl
  intro points range
  cases range with
  | empty | list _ _ => simp [add]
  | interval min max ordered => simp [add]; grind

theorem mem_ends_iff :
    value ∈ (ofRanges ranges).ends ↔
      ∃ range ∈ ranges, ∃ min ordered, range = .interval min value ordered := by
  apply mem_marks_iff _ rfl
  intro points range
  cases range with
  | empty | list _ _ => simp [add]
  | interval min max ordered => simp [add]; grind

theorem mem_singles_iff :
    value ∈ (ofRanges ranges).singles ↔
      ∃ range ∈ ranges, ∃ values occupied, range = .list values occupied ∧ value ∈ values := by
  apply mem_marks_iff _ rfl
  intro points range
  cases range with
  | empty | interval _ _ _ => simp [add]
  | list values occupied => simp [add]; grind

end Marks

private theorem eq_of_marks {left right : Breakpoints low high}
    (starts : left.starts = right.starts) (ends : left.ends = right.ends)
    (singles : left.singles = right.singles) : left = right := by
  obtain ⟨_, _, _⟩ := left
  obtain ⟨_, _, _⟩ := right
  cases starts
  cases ends
  cases singles
  rfl

/-- Neither the order nor the repetition of declared ranges matters. -/
theorem ofRanges_congr {left right : List (Range (Bounded low high))}
    (same : ∀ range, range ∈ left ↔ range ∈ right) : ofRanges left = ofRanges right := by
  apply eq_of_marks
  · ext value
    simp only [mem_starts_iff, same]
  · ext value
    simp only [mem_ends_iff, same]
  · ext value
    simp only [mem_singles_iff, same]

variable (ranges : List (Range (Bounded low high)))

theorem grounded_ofRanges : (ofRanges ranges).Grounded := by
  intro last member
  obtain ⟨_, inRanges, first, ordered, rfl⟩ := mem_ends_iff.mp member
  exact ⟨first, mem_starts_iff.mpr ⟨_, inRanges, last, ordered, rfl⟩, ordered⟩

variable {ranges}

theorem knows_ofRanges {range : Range (Bounded low high)} (member : range ∈ ranges) :
    (ofRanges ranges).Knows range := by
  cases range with
  | empty => trivial
  | list values occupied =>
      intro value listed
      exact mem_singles_iff.mpr ⟨_, member, values, occupied, rfl, listed⟩
  | interval min max ordered =>
      constructor
      · exact mem_starts_iff.mpr ⟨_, member, max, ordered, rfl⟩
      · exact mem_ends_iff.mpr ⟨_, member, min, ordered, rfl⟩

/-! ## The extremes -/

private theorem exists_range_of_declared {value : Bounded low high}
    (declared : value ∈ (ofRanges ranges).declared) : ∃ range ∈ ranges, value ∈ range := by
  rcases (mem_declared_iff _ value).mp declared with start | final | single
  · obtain ⟨range, member, max, ordered, rfl⟩ := mem_starts_iff.mp start
    exact ⟨_, member, Std.le_refl value, ordered⟩
  · obtain ⟨range, member, min, ordered, rfl⟩ := mem_ends_iff.mp final
    exact ⟨_, member, ordered, Std.le_refl value⟩
  · obtain ⟨range, member, values, occupied, rfl, listed⟩ := mem_singles_iff.mp single
    exact ⟨_, member, listed⟩

private theorem exists_declared_around {range : Range (Bounded low high)} (member : range ∈ ranges)
    {value : Bounded low high} (inside : value ∈ range) :
    ∃ first ∈ (ofRanges ranges).declared, ∃ last ∈ (ofRanges ranges).declared,
      first ≤ value ∧ value ≤ last := by
  have knows := knows_ofRanges member
  cases range with
  | empty => exact absurd inside (Range.not_mem_empty value)
  | list values occupied =>
      have declared := (mem_declared_iff _ value).mpr (.inr (.inr (knows value inside)))
      exact ⟨value, declared, value, declared, Std.le_refl value, Std.le_refl value⟩
  | interval min max ordered =>
      have first := (mem_declared_iff _ min).mpr (.inl knows.1)
      have last := (mem_declared_iff _ max).mpr (.inr (.inl knows.2))
      exact ⟨min, first, max, last, inside⟩

theorem min?_ofRanges_iff (min : Bounded low high) :
    (ofRanges ranges).min? = some min ↔
      (∃ range ∈ ranges, min ∈ range) ∧ ∀ range ∈ ranges, ∀ value ∈ range, min ≤ value := by
  rw [min?_eq_some_iff]
  constructor
  · intro given
    obtain ⟨declared, least⟩ := given
    refine ⟨exists_range_of_declared declared, fun range member value inside => ?_⟩
    obtain ⟨first, firstDeclared, _, _, below, _⟩ := exists_declared_around member inside
    exact Std.le_trans (least first firstDeclared) below
  · intro given
    obtain ⟨⟨range, member, inside⟩, least⟩ := given
    have below : ∀ value ∈ (ofRanges ranges).declared, min ≤ value := by
      intro value declared
      obtain ⟨other, otherMember, otherInside⟩ := exists_range_of_declared declared
      exact least other otherMember value otherInside
    obtain ⟨first, declared, _, _, before, _⟩ := exists_declared_around member inside
    have same := Std.le_antisymm before (below first declared)
    exact ⟨same ▸ declared, below⟩

theorem max?_ofRanges_iff (max : Bounded low high) :
    (ofRanges ranges).max? = some max ↔
      (∃ range ∈ ranges, max ∈ range) ∧ ∀ range ∈ ranges, ∀ value ∈ range, value ≤ max := by
  rw [max?_eq_some_iff]
  constructor
  · intro given
    obtain ⟨declared, greatest⟩ := given
    refine ⟨exists_range_of_declared declared, fun range member value inside => ?_⟩
    obtain ⟨_, _, last, lastDeclared, _, above⟩ := exists_declared_around member inside
    exact Std.le_trans above (greatest last lastDeclared)
  · intro given
    obtain ⟨⟨range, member, inside⟩, greatest⟩ := given
    have above : ∀ value ∈ (ofRanges ranges).declared, value ≤ max := by
      intro value declared
      obtain ⟨other, otherMember, otherInside⟩ := exists_range_of_declared declared
      exact greatest other otherMember value otherInside
    obtain ⟨_, _, last, declared, _, behind⟩ := exists_declared_around member inside
    have same := Std.le_antisymm (above last declared) behind
    exact ⟨same ▸ declared, above⟩

/-! ## What stands for an interval -/

private theorem forall₂_filterMap {Source Target : Type} {make : Source → Option Target}
    {test : Source → Bool} {Makes : Source → Target → Prop} {sources : List Source}
    (kept : ∀ source ∈ sources, (make source).isSome = test source)
    (made : ∀ source ∈ sources, ∀ target, make source = some target → Makes source target) :
    List.Forall₂ Makes (sources.filter test) (sources.filterMap make) := by
  induction sources with
  | nil => exact .nil
  | cons source rest ih =>
      obtain ⟨here, restKept⟩ := List.forall_mem_cons.mp kept
      obtain ⟨hereMade, restMade⟩ := List.forall_mem_cons.mp made
      cases result : make source with
      | none =>
          rw [result] at here
          rw [List.filter_cons_of_neg (by simp [← here]), List.filterMap_cons_none result]
          exact ih restKept restMade
      | some target =>
          rw [result] at here
          rw [List.filter_cons_of_pos (by simp [← here]), List.filterMap_cons_some result]
          exact .cons (hereMade target result) (ih restKept restMade)

/-- An interval is represented by the first values that it has in common with the
segments that it overlaps, segment by segment. -/
theorem forall₂_relevantIn (points : Breakpoints low high) {lower upper : Bounded low high}
    (ordered : lower ≤ upper) :
    List.Forall₂ (Segment.IsFirstIn (.interval lower upper ordered))
      (points.segments.filter fun segment =>
        (Range.interval lower upper ordered).intersects segment.range)
      (points.relevantIn (.interval lower upper ordered)).toList := by
  have firstOf := fun (segment : Segment low high) value =>
    Segment.first?_eq_some_iff (.interval lower upper ordered) segment value
  have ascending : (points.segments.filterMap fun segment =>
      ((Range.interval lower upper ordered).intersection segment.range).first?).Pairwise
        (· < ·) := by
    rw [List.pairwise_filterMap]
    apply (Segment.pairwise_ofBeginnings points.relevant.ascending).imp
    intro left right before value leftFirst other rightFirst
    have inLeft := ((firstOf left value).mp leftFirst).contained
    have inRight := ((firstOf right other).mp rightFirst).contained
    rw [Segment.contains_iff] at inLeft inRight
    exact Std.lt_of_le_of_lt inLeft.2 (Std.lt_of_lt_of_le before inRight.1)
  simp only [relevantIn]
  rw [SortedSet.toList_ofList ascending]
  apply forall₂_filterMap
  · intro segment _
    exact Segment.isSome_first?_iff _ segment
  · intro segment _ value first
    exact (firstOf segment value).mp first

/-! ## Tilings -/

/-- What the segments of breakpoints make of the ranges declared for them. -/
structure Tiles (points : Breakpoints low high) (ranges : List (Range (Bounded low high))) :
    Prop where
  /-- The span begins with the least declared value and ends with the greatest one. -/
  least : ∀ min, points.min? = some min ↔
    (∃ range ∈ ranges, min ∈ range) ∧ ∀ range ∈ ranges, ∀ value ∈ range, min ≤ value
  greatest : ∀ max, points.max? = some max ↔
    (∃ range ∈ ranges, max ∈ range) ∧ ∀ range ∈ ranges, ∀ value ∈ range, value ≤ max
  occupied : ∀ segment ∈ points.segments, segment.first ≤ segment.last
  ascending : points.segments.Pairwise fun left right => left.last < right.first
  contiguous : points.segments.IsChain fun left right => right.first.val = left.last.val + 1
  beginnings : points.segments.map (·.first) = points.relevant.toList
  /-- Each value of the span lies in one segment, any other value in none. -/
  covers : ∀ value, (∃! segment, segment ∈ points.segments ∧ segment.contains value = true) ↔
    ∃ min max, points.min? = some min ∧ points.max? = some max ∧ min ≤ value ∧ value ≤ max
  outside : ∀ value, (∃ segment ∈ points.segments, segment.contains value = true) →
    ∃ min max, points.min? = some min ∧ points.max? = some max ∧ min ≤ value ∧ value ≤ max
  /-- A declared range has all values of a segment or none. -/
  uniform : ∀ range ∈ ranges, ∀ segment ∈ points.segments,
    (∀ value, segment.contains value = true → value ∈ range) ∨
      ∀ value, segment.contains value = true → value ∉ range
  ends : ∀ value last, points.segmentEnd? value = some last ↔
    ∃ segment ∈ points.segments, segment.contains value = true ∧ segment.last = last
  intervals : ∀ lower upper ordered,
    List.Forall₂ (Segment.IsFirstIn (.interval lower upper ordered))
      (points.segments.filter fun segment =>
        (Range.interval lower upper ordered).intersects segment.range)
      (points.relevantIn (.interval lower upper ordered)).toList
  lists : ∀ values occupied value, value ∈ points.relevantIn (.list values occupied) ↔
    value ∈ values ∧ ∃ min max, points.min? = some min ∧ points.max? = some max ∧
      min ≤ value ∧ value ≤ max

private theorem uniform_of_knows {points : Breakpoints low high} {range : Range (Bounded low high)}
    (knows : points.Knows range) {segment : Segment low high} (member : segment ∈ points.segments) :
    (∀ value, segment.contains value = true → value ∈ range) ∨
      ∀ value, segment.contains value = true → value ∉ range := by
  by_cases shared : ∃ value, segment.contains value = true ∧ value ∈ range
  · obtain ⟨value, inside, inRange⟩ := shared
    left
    intro other otherInside
    exact (mem_congr_of_contains knows member inside otherInside).mp inRange
  · right
    intro value inside inRange
    exact shared ⟨value, inside, inRange⟩

theorem segmentEnd?_eq_some_iff (points : Breakpoints low high) (value last : Bounded low high) :
    points.segmentEnd? value = some last ↔
      ∃ segment ∈ points.segments, segment.contains value = true ∧ segment.last = last := by
  unfold segmentEnd? Segment.endAmong?
  rw [Option.map_eq_some_iff]
  constructor
  · intro given
    obtain ⟨segment, found, rfl⟩ := given
    exact ⟨segment, List.mem_of_find?_eq_some found, by simpa using List.find?_some found, rfl⟩
  · intro given
    obtain ⟨segment, member, inside, rfl⟩ := given
    exact ⟨segment, Segment.find?_contains points.relevant.ascending member inside, rfl⟩

theorem tiles_ofRanges (ranges : List (Range (Bounded low high))) :
    (ofRanges ranges).Tiles ranges where
  least := min?_ofRanges_iff
  greatest := max?_ofRanges_iff
  occupied := Segment.first_le_last (ofRanges ranges).relevant.ascending
  ascending := Segment.pairwise_ofBeginnings (ofRanges ranges).relevant.ascending
  contiguous := Segment.isChain_ofBeginnings (ofRanges ranges).relevant.ascending
  beginnings := Segment.map_first_ofBeginnings _
  covers value := by
    rw [← mem_span_iff]
    constructor
    · intro given
      obtain ⟨segment, ⟨member, inside⟩, _⟩ := given
      exact mem_span_of_contains member inside
    · intro inSpan
      obtain ⟨segment, member, inside⟩ := exists_segment (grounded_ofRanges ranges) inSpan
      refine ⟨segment, ⟨member, inside⟩, ?_⟩
      intro other given
      obtain ⟨otherMember, otherInside⟩ := given
      exact eq_segment otherMember member otherInside inside
  outside value := by
    intro given
    obtain ⟨segment, member, inside⟩ := given
    exact (mem_span_iff _ value).mp (mem_span_of_contains member inside)
  uniform range member segment inSegments := uniform_of_knows (knows_ofRanges member) inSegments
  ends := segmentEnd?_eq_some_iff _
  intervals lower upper ordered := forall₂_relevantIn _ ordered
  lists values occupied value := by
    rw [mem_relevantIn_list_iff, mem_span_iff]
    exact and_comm

example : ((ofRanges [.between ⟨1, by decide, by decide⟩ ⟨5, by decide, by decide⟩,
    .single ⟨9, by decide, by decide⟩] : Breakpoints 0 9).segments.map fun segment =>
      (segment.first.val, segment.last.val)) = [(1, 5), (6, 8), (9, 9)] := by decide

end Breakpoints

/-! ## Dimensions of numbers and dates -/

namespace Dimension

/-- A dimension after some ranges have been offered to it. A range of another type is
refused and changes nothing. -/
def offer (dimension : Dimension) (ranges : List PropertyRange) : Dimension :=
  ranges.foldl (fun current range =>
    match current.add range with
    | .ok extended => extended
    | .error _ => current) dimension

end Dimension

namespace PropertyRange

def integer? : PropertyRange → Option (Range Whole)
  | .integer range => some range
  | _ => none

def date? : PropertyRange → Option (Range Date)
  | .date range => some range
  | _ => none

@[simp] theorem integer?_eq_some_iff (range : PropertyRange) (inner : Range Whole) :
    range.integer? = some inner ↔ range = .integer inner := by
  cases range <;> simp [integer?]

@[simp] theorem date?_eq_some_iff (range : PropertyRange) (inner : Range Date) :
    range.date? = some inner ↔ range = .date inner := by
  cases range <;> simp [date?]

end PropertyRange

section Offer

variable {embed : Breakpoints low high → Domain}
  {read? : PropertyRange → Option (Range (Bounded low high))}
  (adds : ∀ points range, (embed points).add? range =
    (read? range).map fun inner => embed (points.add inner))

include adds

private theorem offer_eq (name : String) (ranges : List PropertyRange)
    (points : Breakpoints low high) :
    Dimension.offer ⟨name, embed points⟩ ranges =
      ⟨name, embed ((ranges.filterMap read?).foldl Breakpoints.add points)⟩ := by
  induction ranges generalizing points with
  | nil => rfl
  | cons range rest ih =>
      have step := adds points range
      unfold Dimension.offer at ih ⊢
      rw [List.foldl_cons]
      simp only [Dimension.add]
      cases read : read? range with
      | none =>
          rw [read, Option.map_none] at step
          rw [step, List.filterMap_cons_none read]
          exact ih points
      | some inner =>
          rw [read, Option.map_some] at step
          rw [step, List.filterMap_cons_some read]
          exact ih (points.add inner)

private theorem exists_tiles {lift : Range (Bounded low high) → PropertyRange}
    (reads : ∀ range inner, read? range = some inner ↔ range = lift inner) (name : String)
    (ranges : List PropertyRange) :
    ∃ points, Dimension.offer ⟨name, embed .empty⟩ ranges = ⟨name, embed points⟩ ∧
      points.Tiles (ranges.filterMap read?) ∧
      ∀ others : List PropertyRange, (∀ range, lift range ∈ others ↔ lift range ∈ ranges) →
        Dimension.offer ⟨name, embed .empty⟩ others = ⟨name, embed points⟩ := by
  refine ⟨_, offer_eq adds name ranges .empty, Breakpoints.tiles_ofRanges _, ?_⟩
  intro others same
  rw [offer_eq adds name others .empty]
  have collected : ∀ inner, inner ∈ others.filterMap read? ↔ inner ∈ ranges.filterMap read? := by
    intro inner
    simpa [List.mem_filterMap, reads] using same inner
  exact congrArg (fun points => Dimension.mk name (embed points))
    (Breakpoints.ofRanges_congr collected)

end Offer

/-- Whatever ranges a dimension of numbers or of dates has been offered, its segments
tile the span of those of its type, and the dimension depends on the set of these
ranges only. -/
theorem segments_tile_span (name : String) (ranges : List PropertyRange) :
    (∃ points, (Dimension.new name .integer).offer ranges = ⟨name, .integer points⟩ ∧
      points.Tiles (ranges.filterMap (·.integer?)) ∧
      ∀ others : List PropertyRange,
        (∀ range, .integer range ∈ others ↔ .integer range ∈ ranges) →
        (Dimension.new name .integer).offer others = ⟨name, .integer points⟩) ∧
    ∃ points, (Dimension.new name .date).offer ranges = ⟨name, .date points⟩ ∧
      points.Tiles (ranges.filterMap (·.date?)) ∧
      ∀ others : List PropertyRange, (∀ range, .date range ∈ others ↔ .date range ∈ ranges) →
        (Dimension.new name .date).offer others = ⟨name, .date points⟩ := by
  constructor
  · apply exists_tiles _ PropertyRange.integer?_eq_some_iff
    intro points range
    cases range <;> rfl
  · apply exists_tiles _ PropertyRange.date?_eq_some_iff
    intro points range
    cases range <;> rfl

end RuleSlicing
