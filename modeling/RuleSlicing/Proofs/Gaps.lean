import RuleSlicing.Proofs.Tiling
import RuleSlicing.Proofs.Windows

/-!
# Gaps between windows

A window of some relevant values begins with one of them and ends with the piece of
another one. Between two windows lies a relevant value that is not among the chosen
ones, so the windows cannot be joined. Merging the relevant values of an axis leaves
such gaps, or a single range where the values are listed.
-/

set_option autoImplicit false

namespace RuleSlicing

variable {low high : Int}

namespace Segment

/-! ## Runs and the pieces between them -/

def Before (left right : Segment low high) : Prop := left.last < right.first

/-- A run reaches from a chosen piece to the end of a piece. -/
structure IsRun (chosen : SortedSet (Bounded low high)) (pieces : List (Segment low high))
    (run : Segment low high) : Prop where
  chosen : chosen.contains run.first = true
  first : ∃ piece ∈ pieces, piece.first = run.first
  last : ∃ piece ∈ pieces, piece.last = run.last
  ordered : run.first ≤ run.last

def Parted (chosen : SortedSet (Bounded low high)) (pieces : List (Segment low high))
    (left right : Segment low high) : Prop :=
  ∃ piece ∈ pieces, ¬chosen.contains piece.first = true ∧
    left.last < piece.first ∧ piece.first < right.first

section Join

variable {chosen : SortedSet (Bounded low high)} {pieces : List (Segment low high)}

private theorem pairwise_extended {first : Bounded low high} {piece : Segment low high}
    {rest : List (Segment low high)} (apart : (piece :: rest).Pairwise Before) :
    (⟨first, piece.last⟩ :: rest).Pairwise Before := by
  obtain ⟨behind, others⟩ := List.pairwise_cons.mp apart
  exact List.pairwise_cons.mpr ⟨behind, others⟩

theorem isRun_of_mem_joinFrom (run : Option (Segment low high)) {whole : List (Segment low high)}
    (subset : pieces ⊆ whole) (opened : ∀ current ∈ run, current.IsRun chosen whole)
    (apart : (run.toList ++ pieces).Pairwise Before)
    (ordered : ∀ piece ∈ pieces, piece.first ≤ piece.last) {window : Segment low high}
    (member : window ∈ joinFrom chosen run pieces) : window.IsRun chosen whole := by
  induction pieces generalizing run with
  | nil => exact opened window (Option.mem_toList.mp member)
  | cons piece rest ih =>
      have here : piece ∈ whole := subset (.head _)
      have restSubset : rest ⊆ whole := fun other inRest => subset (.tail _ inRest)
      obtain ⟨pieceOrdered, restOrdered⟩ := List.forall_mem_cons.mp ordered
      have restApart : (piece :: rest).Pairwise Before := (List.pairwise_append.mp apart).2.1
      unfold joinFrom at member
      split at member
      · rename_i taken
        apply ih (some _) restSubset _ (pairwise_extended restApart) restOrdered member
        intro current extended
        cases extended
        cases run with
        | none => exact ⟨taken, ⟨piece, here, rfl⟩, ⟨piece, here, rfl⟩, pieceOrdered⟩
        | some current =>
            have isRun := opened current rfl
            have before : current.last < piece.first := List.rel_of_pairwise_cons apart (.head _)
            exact ⟨isRun.chosen, isRun.first, ⟨piece, here, rfl⟩, Std.le_trans isRun.ordered
              (Std.le_trans (Std.le_of_lt before) pieceOrdered)⟩
      · rcases List.mem_append.mp member with closed | later
        · exact opened window (Option.mem_toList.mp closed)
        · apply ih none restSubset _ restApart.of_cons restOrdered later
          intro current absent
          cases absent

theorem isRun_of_mem_joinFrom_none (apart : pieces.Pairwise Before)
    (ordered : ∀ piece ∈ pieces, piece.first ≤ piece.last) {window : Segment low high}
    (member : window ∈ joinFrom chosen none pieces) : window.IsRun chosen pieces := by
  apply isRun_of_mem_joinFrom none (List.Subset.refl pieces) _ apart ordered member
  intro current absent
  cases absent

theorem pairwise_joinFrom (run : Option (Segment low high))
    (apart : (run.toList ++ pieces).Pairwise Before)
    (ordered : ∀ piece ∈ pieces, piece.first ≤ piece.last) :
    (joinFrom chosen run pieces).Pairwise (Parted chosen pieces) := by
  -- A run is closed by a piece that is not chosen, which lies before all later runs.
  induction pieces generalizing run with
  | nil =>
      cases run with
      | none => exact .nil
      | some current => exact List.pairwise_singleton _ _
  | cons piece rest ih =>
      obtain ⟨pieceOrdered, restOrdered⟩ := List.forall_mem_cons.mp ordered
      have restApart : (piece :: rest).Pairwise Before := (List.pairwise_append.mp apart).2.1
      have weaker : ∀ {left right}, Parted chosen rest left right →
          Parted chosen (piece :: rest) left right := by
        intro left right parted
        obtain ⟨other, member, parts⟩ := parted
        exact ⟨other, .tail _ member, parts⟩
      unfold joinFrom
      split
      · exact (ih (some _) (pairwise_extended restApart) restOrdered).imp weaker
      · rename_i free
        apply List.pairwise_append.mpr
        constructor
        · cases run with
          | none => exact .nil
          | some current => exact List.pairwise_singleton _ _
        · constructor
          · exact (ih none restApart.of_cons restOrdered).imp weaker
          · intro current isCurrent window later
            have before : current.last < piece.first :=
              (List.pairwise_append.mp apart).2.2 current isCurrent piece (.head _)
            have isRun := isRun_of_mem_joinFrom_none restApart.of_cons restOrdered later
            obtain ⟨first, inRest, same⟩ := isRun.first
            have behind : piece.last < first.first := List.rel_of_pairwise_cons restApart inRest
            exact ⟨piece, .head _, free, before, same ▸ Std.lt_of_le_of_lt pieceOrdered behind⟩

end Join

end Segment

/-! ## Windows of a selected interval -/

namespace Range

variable {Value : Type} [LinearOrdered Value]

structure Separates (value : Value) (left right : Range Value) : Prop where
  behind : ∀ other ∈ left, other < value
  before : ∀ other ∈ right, value < other

end Range

namespace Breakpoints

/-- A window of a selected interval: it begins with a relevant value and ends with the
segment of its last relevant value or with the selection. Of a segment it has all
selected values or none. -/
structure HasWindow (points : Breakpoints low high) {lower upper : Bounded low high}
    (ordered : lower ≤ upper) (first last finish : Bounded low high)
    (window : Range (Bounded low high)) : Prop where
  begins : first ∈ points.relevantIn (.interval lower upper ordered)
  ends : last ∈ points.relevantIn (.interval lower upper ordered)
  last_mem : last ∈ window
  greatest : ∀ value ∈ points.relevantIn (.interval lower upper ordered),
    value ∈ window → value ≤ last
  reaches : points.segmentEnd? last = some finish
  shape : window = .window first (LinearOrdered.smaller finish upper)
  whole : ∀ segment ∈ points.segments, ∀ value ∈ window, segment.contains value = true →
    ∀ other ∈ Range.interval lower upper ordered, segment.contains other = true → other ∈ window

theorem HasWindow.first_mem {points : Breakpoints low high} {lower upper : Bounded low high}
    {ordered : lower ≤ upper} {first last finish : Bounded low high}
    {window : Range (Bounded low high)}
    (has : points.HasWindow ordered first last finish window) : first ∈ window := by
  have last := has.last_mem
  rw [has.shape, Range.mem_window_iff] at last
  rw [has.shape, Range.mem_window_iff]
  exact ⟨Std.le_refl first, Std.le_trans last.1 last.2⟩

end Breakpoints

namespace Segment

section Pieces

variable {points : Breakpoints low high} (grounded : points.Grounded)
  {lower upper : Bounded low high} {ordered : lower ≤ upper}

include grounded

private theorem pairwise_pieces :
    (pieces points upper (points.relevantIn (.interval lower upper ordered))).Pairwise Before := by
  apply List.pairwise_map.mpr
  apply (points.relevantIn (.interval lower upper ordered)).ascending.imp_of_mem
  intro left right leftRelevant rightRelevant below
  exact last_piece_lt grounded leftRelevant rightRelevant below

private theorem ordered_pieces :
    ∀ piece ∈ pieces points upper (points.relevantIn (.interval lower upper ordered)),
      piece.first ≤ piece.last := by
  intro _ member
  obtain ⟨first, relevant, rfl⟩ := List.mem_map.mp member
  exact first_le_last_piece grounded relevant

private theorem mem_own_piece {value : Bounded low high} (inSpan : value ∈ points.span)
    (selected : value ∈ Range.interval lower upper ordered) :
    points.standIn (.interval lower upper ordered) value ≤ value ∧
      value ≤ (piece points upper (points.standIn (.interval lower upper ordered) value)).last := by
  have relevant := Breakpoints.standIn_mem_relevantIn grounded inSpan selected
  exact (contains_iff _ value).mp
    ((contains_piece_iff grounded relevant).mpr ⟨⟨inSpan, selected⟩, rfl⟩)

private theorem le_standIn {first value : Bounded low high}
    (relevant : first ∈ points.relevantIn (.interval lower upper ordered))
    (inSpan : value ∈ points.span) (selected : value ∈ Range.interval lower upper ordered)
    (behind : first ≤ value) :
    first ≤ points.standIn (.interval lower upper ordered) value := by
  have standIn := Breakpoints.standIn_mem_relevantIn grounded inSpan selected
  have reached := (mem_own_piece grounded inSpan selected).2
  apply Std.not_lt.mp
  intro earlier
  have ended := last_piece_lt grounded standIn relevant earlier
  exact Std.not_lt.mpr (Std.le_trans behind reached) ended

omit grounded in
private theorem last_piece {last finish : Bounded low high}
    (reaches : points.segmentEnd? last = some finish) :
    (piece points upper last).last = LinearOrdered.smaller finish upper := by
  have found : endAmong? points.segments last = some finish := reaches
  unfold piece
  rw [found]
  rfl

private theorem le_of_le_last_piece {last value : Bounded low high}
    (ends : last ∈ points.relevantIn (.interval lower upper ordered))
    (relevant : value ∈ points.relevantIn (.interval lower upper ordered))
    (reached : value ≤ (piece points upper last).last) : value ≤ last := by
  apply Std.not_lt.mp
  intro later
  exact Std.not_lt.mpr reached (last_piece_lt grounded ends relevant later)

private theorem last_piece_le {left right : Bounded low high}
    (leftRelevant : left ∈ points.relevantIn (.interval lower upper ordered))
    (rightRelevant : right ∈ points.relevantIn (.interval lower upper ordered))
    (notBehind : left ≤ right) :
    (piece points upper left).last ≤ (piece points upper right).last := by
  rcases Std.le_iff_lt_or_eq.mp notBehind with earlier | same
  · exact Std.le_trans (Std.le_of_lt (last_piece_lt grounded leftRelevant rightRelevant earlier))
      (first_le_last_piece grounded rightRelevant)
  · rw [same]
    exact Std.le_refl _

private theorem whole_of_pieces {first last : Bounded low high}
    (begins : first ∈ points.relevantIn (.interval lower upper ordered))
    (ends : last ∈ points.relevantIn (.interval lower upper ordered))
    {segment : Segment low high} (member : segment ∈ points.segments)
    {value other : Bounded low high} (behind : first ≤ value)
    (reached : value ≤ (piece points upper last).last) (inside : segment.contains value = true)
    (otherSelected : other ∈ Range.interval lower upper ordered)
    (otherInside : segment.contains other = true) :
    first ≤ other ∧ other ≤ (piece points upper last).last := by
  have inSpan := Breakpoints.mem_span_of_contains member inside
  have otherInSpan := Breakpoints.mem_span_of_contains member otherInside
  obtain ⟨_, above, _⟩ := (Breakpoints.mem_relevantIn_iff grounded).mp begins
  have within := ((LinearOrdered.le_smaller_iff _ _ value).mp reached).2
  have selected : value ∈ Range.interval lower upper ordered :=
    ⟨Std.le_trans above.1 behind, within⟩
  -- The same relevant value stands for both, and it lies between `first` and `last`.
  have same : points.standIn (.interval lower upper ordered) other =
      points.standIn (.interval lower upper ordered) value := by
    rw [Breakpoints.standIn_interval member otherInside, Breakpoints.standIn_interval member inside]
  have relevant := Breakpoints.standIn_mem_relevantIn grounded inSpan selected
  have firstBefore := le_standIn grounded begins inSpan selected behind
  have lastBehind := le_of_le_last_piece grounded ends relevant
    (Std.le_trans (mem_own_piece grounded inSpan selected).1 reached)
  obtain ⟨standInBefore, own⟩ := mem_own_piece grounded otherInSpan otherSelected
  rw [same] at standInBefore own
  constructor
  · exact Std.le_trans firstBefore standInBefore
  · exact Std.le_trans own (last_piece_le grounded relevant ends lastBehind)

theorem hasWindow_of_mem_windows {chosen : SortedSet (Bounded low high)}
    {window : Range (Bounded low high)}
    (member : window ∈ windows chosen (pieces points upper
      (points.relevantIn (.interval lower upper ordered)))) :
    ∃ first ∈ chosen, ∃ last finish, points.HasWindow ordered first last finish window := by
  obtain ⟨run, inRuns, rfl⟩ := List.mem_map.mp member
  have isRun := isRun_of_mem_joinFrom_none (pairwise_pieces grounded) (ordered_pieces grounded)
    inRuns
  obtain ⟨_, firstMember, firstSame⟩ := isRun.first
  obtain ⟨first, begins, rfl⟩ := List.mem_map.mp firstMember
  obtain ⟨_, lastMember, lastSame⟩ := isRun.last
  obtain ⟨last, ends, rfl⟩ := List.mem_map.mp lastMember
  have firstSame : first = run.first := firstSame
  have lastSame : (piece points upper last).last = run.last := lastSame
  rw [← lastSame, ← firstSame]
  obtain ⟨inSpan, _, _⟩ := (Breakpoints.mem_relevantIn_iff grounded).mp ends
  obtain ⟨segment, inSegments, inside⟩ := Breakpoints.exists_segment grounded inSpan
  have reaches : points.segmentEnd? last = some segment.last :=
    (Breakpoints.segmentEnd?_eq_some_iff points last _).mpr ⟨segment, inSegments, inside, rfl⟩
  have forward : first ≤ (piece points upper last).last := by
    rw [firstSame, lastSame]
    exact isRun.ordered
  have chosenFirst : first ∈ chosen := (SortedSet.contains_iff _ _).mp (firstSame ▸ isRun.chosen)
  refine ⟨first, chosenFirst, last, segment.last, begins, ends, ?_, ?_, reaches, ?_, ?_⟩
  · rw [Range.mem_window_iff]
    exact ⟨le_of_le_last_piece grounded ends begins forward, first_le_last_piece grounded ends⟩
  · intro value relevant inWindow
    rw [Range.mem_window_iff] at inWindow
    exact le_of_le_last_piece grounded ends relevant inWindow.2
  · rw [last_piece reaches]
  · intro other inOthers value inWindow valueInside further selected furtherInside
    rw [Range.mem_window_iff] at inWindow ⊢
    exact whole_of_pieces grounded begins ends inOthers inWindow.1 inWindow.2 valueInside selected
      furtherInside

/-- Between two windows there is a relevant value that is not chosen. -/
theorem pairwise_windows (chosen : SortedSet (Bounded low high)) :
    (windows chosen (pieces points upper
      (points.relevantIn (.interval lower upper ordered)))).Pairwise fun left right =>
        ∃ value ∈ points.relevantIn (.interval lower upper ordered), value ∉ chosen ∧
          Range.Separates value left right := by
  apply List.pairwise_map.mpr
  apply (pairwise_joinFrom none (pairwise_pieces grounded) (ordered_pieces grounded)).imp
  intro left right parted
  obtain ⟨_, member, free, behind, before⟩ := parted
  obtain ⟨value, relevant, rfl⟩ := List.mem_map.mp member
  refine ⟨value, relevant, fun taken => free ((SortedSet.contains_iff _ _).mpr taken), ?_, ?_⟩
  · intro other inLeft
    exact Std.lt_of_le_of_lt ((Range.mem_window_iff _ _ _).mp inLeft).2 behind
  · intro other inRight
    exact Std.lt_of_lt_of_le before ((Range.mem_window_iff _ _ _).mp inRight).1

end Pieces

/-- Of the segments that begin at 1, 5, 6 and 9, the last two are joined. -/
example :
    let points : Breakpoints 0 9 := .ofRanges [.between ⟨1, by decide, by decide⟩
      ⟨9, by decide, by decide⟩, .single ⟨5, by decide, by decide⟩]
    windows (.ofList ([1, 6, 9].filterMap (Bounded.ofInt? 0 9)))
        (pieces points ⟨9, by decide, by decide⟩ points.relevant) =
      [.window ⟨1, by decide, by decide⟩ ⟨4, by decide, by decide⟩,
        .window ⟨6, by decide, by decide⟩ ⟨9, by decide, by decide⟩] := by decide

end Segment

/-! ## Merge rules -/

namespace Axis

/-- Two ranges of a selected interval of numbers or dates are parted by a value. -/
def Separates (axis : Axis) (value : PropertyValue) (left right : PropertyRange) : Prop :=
  match axis.range, value, left, right with
  | .integer (.interval _ _ _), .integer value, .integer left, .integer right =>
      Range.Separates value left right
  | .date (.interval _ _ _), .date value, .date left, .date right =>
      Range.Separates value left right
  | _, _, _, _ => False

def LiesBetween (axis : Axis) (value : PropertyValue) (left right : PropertyRange) : Prop :=
  axis.Separates value left right ∨ axis.Separates value right left

private theorem Separates.isDiscrete_eq_false {axis : Axis} {value : PropertyValue}
    {left right : PropertyRange} (separates : axis.Separates value left right) :
    axis.range.isDiscrete = false := by
  unfold Separates at separates
  split at separates
  · rename_i selected
    rw [selected]
    rfl
  · rename_i selected
    rw [selected]
    rfl
  · exact separates.elim

theorem LiesBetween.isDiscrete_eq_false {axis : Axis} {value : PropertyValue}
    {left right : PropertyRange} (between : axis.LiesBetween value left right) :
    axis.range.isDiscrete = false := by
  rcases between with separates | separates
  · exact separates.isDiscrete_eq_false
  · exact separates.isDiscrete_eq_false

def HasWindow (axis : Axis) (range : PropertyRange) : Prop :=
  match axis.dimension.domain, axis.range with
  | .integer points, .integer (.interval _ _ ordered) =>
      ∃ first last finish window, range = .integer window ∧
        points.HasWindow ordered first last finish window
  | .date points, .date (.interval _ _ ordered) =>
      ∃ first last finish window, range = .date window ∧
        points.HasWindow ordered first last finish window
  | _, _ => True

end Axis

namespace MergeRule

/-- Merging relevant values of an axis gives ranges around some of them that cannot be
merged any further. -/
structure Exhausts (rule : MergeRule) (axis : Axis) : Prop where
  windows : ∀ values : List PropertyValue, (∀ value ∈ values, value ∈ axis.values) →
    ∀ range ∈ rule.merge (values.map .single), axis.HasWindow range
  occupied : ∀ values : List PropertyValue, (∀ value ∈ values, value ∈ axis.values) →
    ∀ range ∈ rule.merge (values.map .single), ∃ value ∈ values, value ∈ range
  apart : ∀ values : List PropertyValue, (∀ value ∈ values, value ∈ axis.values) →
    (rule.merge (values.map .single)).Pairwise fun left right =>
      ∃ value ∈ axis.values, value ∉ values ∧ axis.Separates value left right

private theorem exhausts_windows {points : Breakpoints low high} (grounded : points.Grounded)
    {lower upper : Bounded low high} (ordered : lower ≤ upper) {axis : Axis} {rule : MergeRule}
    {occurring : List PropertyValue} (embed : Bounded low high → PropertyValue)
    (lift : Range (Bounded low high) → PropertyRange)
    {read : PropertyRange → Option (Bounded low high)}
    (merges : ∀ ranges, rule.merge ranges =
      (Segment.windows (.ofList (ranges.filterMap read)) (Segment.pieces points upper
        (.ofList ((occurring.map .single).filterMap read)))).map lift)
    (reads : ∀ given inner, read (.single given) = some inner ↔ given = embed inner)
    (mem_lift : ∀ range, ∀ inner ∈ range, embed inner ∈ lift range)
    (separates : ∀ value left right, Range.Separates value left right →
      axis.Separates (embed value) (lift left) (lift right))
    (window : ∀ first last finish window, points.HasWindow ordered first last finish window →
      axis.HasWindow (lift window))
    (complete : ∀ inner, embed inner ∈ occurring ↔
      inner ∈ points.relevantIn (.interval lower upper ordered))
    (relevant : ∀ value ∈ occurring, value ∈ axis.values) :
    rule.Exhausts axis := by
  have collected := mem_readAll_iff reads
  have all : SortedSet.ofList ((occurring.map .single).filterMap read) =
      points.relevantIn (.interval lower upper ordered) :=
    SortedSet.ext fun inner => (collected occurring inner).trans (complete inner)
  constructor
  · intro values _ range member
    rw [merges, all] at member
    obtain ⟨inner, inWindows, rfl⟩ := List.mem_map.mp member
    obtain ⟨first, _, last, finish, has⟩ := Segment.hasWindow_of_mem_windows grounded inWindows
    exact window first last finish inner has
  · intro values _ range member
    rw [merges, all] at member
    obtain ⟨inner, inWindows, rfl⟩ := List.mem_map.mp member
    obtain ⟨first, chosen, last, finish, has⟩ :=
      Segment.hasWindow_of_mem_windows grounded inWindows
    exact ⟨embed first, (collected values first).mp chosen, mem_lift inner first has.first_mem⟩
  · intro values _
    rw [merges, all]
    apply List.pairwise_map.mpr
    apply (Segment.pairwise_windows grounded _).imp
    intro left right parted
    obtain ⟨value, inRelevant, free, between⟩ := parted
    exact ⟨embed value, relevant _ ((complete value).mpr inRelevant),
      fun member => free ((collected values value).mpr member), separates _ _ _ between⟩

private theorem exhausts_list {axis : Axis}
    (discrete : ∀ range, axis.HasWindow range) : list.Exhausts axis where
  windows _ _ range _ := discrete range
  occupied values relevant range member := by
    cases values with
    | nil => cases member
    | cons first rest =>
        rw [merge_list_cons, List.mem_singleton] at member
        rw [member]
        exact ⟨first, .head _, (PropertyRange.mem_ofValues_iff _ _ _).mpr ⟨rfl, .head _⟩⟩
  apart values _ := by
    cases values with
    | nil => exact .nil
    | cons first rest =>
        rw [merge_list_cons]
        exact List.pairwise_singleton _ _

/-- The rule of an axis exhausts it, if all relevant values occur. -/
theorem of_exhausts {axis : Axis} (grounded : axis.Grounded) {occurring : List PropertyValue}
    (complete : ∀ value, value ∈ occurring ↔ value ∈ axis.values) :
    (MergeRule.of axis.dimension.domain axis.range (occurring.map .single)).Exhausts axis := by
  have relevant := fun value => (complete value).mp
  obtain ⟨⟨name, domain⟩, range, discipline⟩ := axis
  cases domain with
  | boolean declared | enumeration declared =>
      exact exhausts_list fun _ => trivial
  | integer points =>
      cases range with
      | boolean selected | enumeration selected | date selected =>
          exact exhausts_list fun _ => trivial
      | integer selected =>
          cases selected with
          | empty | list values occupied => exact exhausts_list fun _ => trivial
          | interval lower upper ordered =>
              refine exhausts_windows grounded ordered .integer .integer (fun _ => rfl) ?_ ?_
                (fun _ _ _ separates => separates)
                (fun _ _ _ _ has => ⟨_, _, _, _, rfl, has⟩) ?_ relevant
              · intro given inner
                cases given <;> simp
              · intro range inner
                exact (PropertyRange.integer_mem_iff _ _).mpr
              · intro inner
                apply (complete (.integer inner)).trans
                exact List.mem_map.trans (by simp [SortedSet.mem_def])
  | date points =>
      cases range with
      | boolean selected | enumeration selected | integer selected =>
          exact exhausts_list fun _ => trivial
      | date selected =>
          cases selected with
          | empty | list values occupied => exact exhausts_list fun _ => trivial
          | interval lower upper ordered =>
              refine exhausts_windows grounded ordered .date .date (fun _ => rfl) ?_ ?_
                (fun _ _ _ separates => separates)
                (fun _ _ _ _ has => ⟨_, _, _, _, rfl, has⟩) ?_ relevant
              · intro given inner
                cases given <;> simp
              · intro range inner
                exact (PropertyRange.date_mem_iff _ _).mpr
              · intro inner
                apply (complete (.date inner)).trans
                exact List.mem_map.trans (by simp [SortedSet.mem_def])

theorem Exhausts.exists_between {rule : MergeRule} {axis : Axis} (exhausts : rule.Exhausts axis)
    {values : List PropertyValue} (relevant : ∀ value ∈ values, value ∈ axis.values)
    {left right : PropertyRange} (leftMerged : left ∈ rule.merge (values.map .single))
    (rightMerged : right ∈ rule.merge (values.map .single)) (different : left ≠ right) :
    ∃ value ∈ axis.values, value ∉ values ∧ axis.LiesBetween value left right := by
  let Between (left right : PropertyRange) : Prop :=
    ∃ value ∈ axis.values, value ∉ values ∧ axis.LiesBetween value left right
  have symmetric : Std.Symm Between := by
    constructor
    intro one other between
    obtain ⟨value, inAxis, free, separates⟩ := between
    exact ⟨value, inAxis, free, separates.symm⟩
  have apart : (rule.merge (values.map .single)).Pairwise Between := by
    apply (exhausts.apart values relevant).imp
    intro one other between
    obtain ⟨value, inAxis, free, separates⟩ := between
    exact ⟨value, inAxis, free, .inl separates⟩
  exact apart.forall leftMerged rightMerged different

end MergeRule

end RuleSlicing
