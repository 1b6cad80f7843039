import Mathlib.Data.List.Chain
import Mathlib.Data.List.Nodup
import RuleSlicing.Proofs.Axis
import RuleSlicing.Response.Windows

/-!
# Windows of a selected interval

The pieces of the relevant values of a selected interval lie side by side and hold
exactly the selected values that their first values stand for. A run of pieces is
their union, so the windows of some relevant values hold what these stand for.
Whatever the shape of the selection, merging relevant values of an axis gives
ranges that hold each value that they stand for once, and no other value.
-/

set_option autoImplicit false

namespace RuleSlicing

/-! ## Neighbours -/

/-- No member of a set lies between two neighbours of its list. -/
theorem SortedSet.isChain_toList {α : Type} [LinearOrdered α] (set : SortedSet α) :
    set.toList.IsChain fun left right =>
      left < right ∧ ∀ other ∈ set, other ≤ left ∨ right ≤ other := by
  have ascending := List.pairwise_iff_getElem.mp set.ascending
  refine List.isChain_iff_getElem.mpr fun index bound => ⟨ascending _ _ _ _ (by omega), ?_⟩
  intro other member
  obtain ⟨position, inside, rfl⟩ := List.mem_iff_getElem.mp member
  rcases Nat.lt_trichotomy position index with before | rfl | behind
  · exact .inl (Std.le_of_lt (ascending _ _ _ _ before))
  · exact .inl (Std.le_refl _)
  · rcases Nat.eq_or_lt_of_le (Nat.succ_le_of_lt behind) with rfl | later
    · exact .inr (Std.le_refl _)
    · exact .inr (Std.le_of_lt (ascending _ _ _ _ later))

namespace Segment

variable {low high : Int}

/-- Two pieces without a value between them. -/
structure Adjacent (left right : Segment low high) : Prop where
  below : left.last < right.first
  gapless : ∀ value, left.last < value → right.first ≤ value

/-! ## Runs of pieces -/

private theorem contains_joined {left right : Segment low high} (adjacent : left.Adjacent right)
    (leftOrdered : left.first ≤ left.last) (rightOrdered : right.first ≤ right.last)
    (value : Bounded low high) :
    [(⟨left.first, right.last⟩ : Segment low high)].countP (·.contains value) =
      [left].countP (·.contains value) + [right].countP (·.contains value) := by
  have below := adjacent.below
  have gapless := adjacent.gapless value
  have whole := contains_iff ⟨left.first, right.last⟩ value
  have first := contains_iff left value
  have second := contains_iff right value
  simp only [List.countP_singleton]
  grind

/-- The runs of chosen pieces hold a value as often as the chosen pieces do. -/
theorem countP_joinFrom (chosen : SortedSet (Bounded low high)) (value : Bounded low high)
    (run : Option (Segment low high)) {pieces : List (Segment low high)}
    (adjacent : (run.toList ++ pieces).IsChain Adjacent)
    (ordered : ∀ piece ∈ run.toList ++ pieces, piece.first ≤ piece.last) :
    (joinFrom chosen run pieces).countP (·.contains value) =
      run.toList.countP (·.contains value) +
        (pieces.filter fun piece => chosen.contains piece.first).countP (·.contains value) := by
  induction pieces generalizing run with
  | nil => simp [joinFrom]
  | cons piece rest ih =>
      have restAdjacent : (piece :: rest).IsChain Adjacent := (List.isChain_append.mp adjacent).2.1
      have restOrdered : ∀ other ∈ piece :: rest, other.first ≤ other.last :=
        fun other member => ordered other (List.mem_append_right _ member)
      unfold joinFrom
      split
      · rename_i taken
        have split : (List.filter (fun piece => chosen.contains piece.first)
            (piece :: rest)).countP (·.contains value) =
              [piece].countP (·.contains value) +
                (rest.filter fun piece => chosen.contains piece.first).countP (·.contains value) := by
          rw [List.filter_cons, if_pos taken, List.countP_cons, List.countP_singleton,
            Nat.add_comm]
        rw [split, ← Nat.add_assoc]
        cases run with
        | none => exact (ih (some piece) restAdjacent restOrdered).trans (by simp)
        | some current =>
            have next := (List.isChain_cons_cons.mp adjacent).1
            have currentOrdered := ordered current (.head _)
            have pieceOrdered := restOrdered piece (.head _)
            -- What follows a piece also follows a run that ends with it.
            have joinedAdjacent : ((⟨current.first, piece.last⟩ : Segment low high) :: rest).IsChain
                Adjacent := restAdjacent.imp_head fun behind => ⟨behind.below, behind.gapless⟩
            refine (ih (some ⟨current.first, piece.last⟩) joinedAdjacent
              fun other member => ?_).trans ?_
            · rcases List.mem_cons.mp member with rfl | inRest
              · exact Std.le_trans currentOrdered
                  (Std.le_trans (Std.le_of_lt next.below) pieceOrdered)
              · exact restOrdered other (.tail _ inRest)
            · exact congrArg (· + _) (contains_joined next currentOrdered pieceOrdered value)
      · rename_i left
        rw [List.filter_cons, if_neg left, List.countP_append,
          ih none restAdjacent.of_cons fun other member => restOrdered other (.tail _ member)]
        simp

/-! ## Pieces of relevant values -/

/-- The piece of a value of a selected interval with the given upper end. -/
def piece (points : Breakpoints low high) (upper value : Bounded low high) : Segment low high :=
  ⟨value, LinearOrdered.smaller ((endAmong? points.segments value).getD value) upper⟩

section Pieces

variable {points : Breakpoints low high} (grounded : points.Grounded)
  {lower upper : Bounded low high} {ordered : lower ≤ upper}

include grounded

/-- A piece holds the selected values that its first value stands for. -/
theorem contains_piece_iff {value other : Bounded low high}
    (relevant : value ∈ points.relevantIn (.interval lower upper ordered)) :
    (piece points upper value).contains other = true ↔
      (other ∈ points.span ∧ other ∈ Range.interval lower upper ordered) ∧
        points.standIn (.interval lower upper ordered) other = value := by
  obtain ⟨inSpan, ⟨above, below⟩, same⟩ := (Breakpoints.mem_relevantIn_iff grounded).mp relevant
  obtain ⟨segment, member, inside⟩ := Breakpoints.exists_segment grounded inSpan
  have found : endAmong? points.segments value = some segment.last := by
    unfold endAmong? Breakpoints.segments
    rw [find?_contains points.relevant.ascending member inside]
    rfl
  rw [contains_iff, piece, found, Option.getD_some, LinearOrdered.le_smaller_iff]
  constructor
  · have first := same.symm.trans (Breakpoints.standIn_interval member inside)
    intro given
    obtain ⟨behind, inSegment, inSelection⟩ := given
    have otherInside : segment.contains other = true := (contains_iff segment other).mpr
      ⟨Std.le_trans ((contains_iff segment value).mp inside).1 behind, inSegment⟩
    refine ⟨⟨Breakpoints.mem_span_of_contains member otherInside,
      Std.le_trans above behind, inSelection⟩, ?_⟩
    exact (Breakpoints.standIn_interval member otherInside).trans first.symm
  · intro given
    obtain ⟨⟨otherInSpan, otherAbove, otherBelow⟩, stands⟩ := given
    obtain ⟨otherSegment, otherMember, otherInside⟩ :=
      Breakpoints.exists_segment grounded otherInSpan
    rw [Breakpoints.standIn_interval otherMember otherInside] at stands
    obtain ⟨valueInside, behind⟩ := Breakpoints.contains_standIn otherInside otherAbove
    rw [stands] at valueInside behind
    rw [Breakpoints.eq_segment member otherMember inside valueInside]
    exact ⟨behind, ((contains_iff otherSegment other).mp otherInside).2, otherBelow⟩

theorem contains_first {value : Bounded low high}
    (relevant : value ∈ points.relevantIn (.interval lower upper ordered)) :
    (piece points upper value).contains value = true := by
  obtain ⟨inSpan, selected, same⟩ := (Breakpoints.mem_relevantIn_iff grounded).mp relevant
  exact (contains_piece_iff grounded relevant).mpr ⟨⟨inSpan, selected⟩, same⟩

theorem first_le_last_piece {value : Bounded low high}
    (relevant : value ∈ points.relevantIn (.interval lower upper ordered)) :
    value ≤ (piece points upper value).last :=
  ((contains_iff _ value).mp (contains_first grounded relevant)).2

/-- A relevant value lies in no piece but its own. -/
theorem last_piece_lt {left right : Bounded low high}
    (leftRelevant : left ∈ points.relevantIn (.interval lower upper ordered))
    (rightRelevant : right ∈ points.relevantIn (.interval lower upper ordered))
    (below : left < right) : (piece points upper left).last < right := by
  refine Std.not_le.mp fun reaches => ?_
  have inside : (piece points upper left).contains right = true :=
    (contains_iff _ right).mpr ⟨Std.le_of_lt below, reaches⟩
  have stands := ((contains_piece_iff grounded leftRelevant).mp inside).2
  have same := ((Breakpoints.mem_relevantIn_iff grounded).mp rightRelevant).2.2
  exact Std.ne_of_lt below (stands.symm.trans same)

/-- Between two selected values all values are selected, so neighbouring pieces leave
no gap. -/
private theorem adjacent_pieces {left right : Bounded low high}
    (leftRelevant : left ∈ points.relevantIn (.interval lower upper ordered))
    (rightRelevant : right ∈ points.relevantIn (.interval lower upper ordered))
    (below : left < right)
    (neighbours : ∀ other ∈ points.relevantIn (.interval lower upper ordered),
      other ≤ left ∨ right ≤ other) :
    (piece points upper left).Adjacent (piece points upper right) := by
  refine ⟨last_piece_lt grounded leftRelevant rightRelevant below, fun value behind => ?_⟩
  refine Std.not_lt.mp fun before => ?_
  have before : value < right := before
  obtain ⟨leftSpan, leftSelected, _⟩ := (Breakpoints.mem_relevantIn_iff grounded).mp leftRelevant
  obtain ⟨rightSpan, rightSelected, _⟩ :=
    (Breakpoints.mem_relevantIn_iff grounded).mp rightRelevant
  have above : left < value :=
    Std.lt_of_le_of_lt (first_le_last_piece grounded leftRelevant) behind
  have inSpan := Breakpoints.mem_span_of_between points leftSpan rightSpan (Std.le_of_lt above)
    (Std.le_of_lt before)
  have selected : value ∈ Range.interval lower upper ordered :=
    ⟨Std.le_trans leftSelected.1 (Std.le_of_lt above),
      Std.le_trans (Std.le_of_lt before) rightSelected.2⟩
  have relevant := Breakpoints.standIn_mem_relevantIn grounded inSpan selected
  have inside := (contains_piece_iff grounded relevant).mpr ⟨⟨inSpan, selected⟩, rfl⟩
  obtain ⟨first, last⟩ := (contains_iff _ value).mp inside
  rcases neighbours _ relevant with early | late
  · rcases Std.le_iff_lt_or_eq.mp early with earlier | same
    · have notReached := last_piece_lt grounded relevant leftRelevant earlier
      exact Std.not_lt.mpr last (Std.lt_trans notReached above)
    · rw [same] at last
      exact Std.not_lt.mpr last behind
  · exact Std.not_lt.mpr (Std.le_trans late first) before

private theorem isChain_pieces :
    (pieces points upper (points.relevantIn (.interval lower upper ordered))).IsChain Adjacent := by
  refine (List.isChain_map (piece points upper)).mpr ?_
  have neighbours := (points.relevantIn (.interval lower upper ordered)).isChain_toList
  refine neighbours.imp_of_mem_imp fun left right leftMember rightMember => ?_
  intro given
  obtain ⟨below, between⟩ := given
  exact adjacent_pieces grounded leftMember rightMember below between

private theorem countP_windows_eq (chosen : SortedSet (Bounded low high))
    (value : Bounded low high) :
    (windows chosen (pieces points upper
        (points.relevantIn (.interval lower upper ordered)))).countP (·.contains value) =
      (points.relevantIn (.interval lower upper ordered)).toList.countP fun first =>
        chosen.contains first && (piece points upper first).contains value := by
  have chain := @isChain_pieces _ _ _ grounded _ _ ordered
  have joined := countP_joinFrom chosen value none chain <| by
    intro _ member
    obtain ⟨first, relevant, rfl⟩ := List.mem_map.mp member
    exact first_le_last_piece grounded relevant
  have shape : ∀ run : Segment low high,
      (Range.window run.first run.last).contains value = run.contains value := by
    intro run
    rw [Bool.eq_iff_iff, Range.contains_iff, Range.mem_window_iff, contains_iff]
  unfold windows
  rw [List.countP_map]
  refine (List.countP_congr fun run _ => by rw [Function.comp_apply, shape]).trans
    (joined.trans ?_)
  rw [Option.toList_none, List.countP_nil, Nat.zero_add, List.countP_filter, List.countP_map]
  exact List.countP_congr fun first _ => by rw [Function.comp_apply, Bool.and_comm]; rfl

/-- The windows of some relevant values hold a selected value once if they hold the
one that stands for it. -/
theorem countP_windows {chosen : SortedSet (Bounded low high)} {value : Bounded low high}
    (inSpan : value ∈ points.span) (selected : value ∈ Range.interval lower upper ordered) :
    (windows chosen (pieces points upper
        (points.relevantIn (.interval lower upper ordered)))).countP (·.contains value) =
      if chosen.contains (points.standIn (.interval lower upper ordered) value) then 1 else 0 := by
  rw [countP_windows_eq grounded]
  have relevant := Breakpoints.standIn_mem_relevantIn grounded inSpan selected
  have inside : ∀ first ∈ (points.relevantIn (.interval lower upper ordered)).toList,
      (piece points upper first).contains value =
        (first == points.standIn (.interval lower upper ordered) value) := by
    intro first member
    rw [Bool.eq_iff_iff, contains_piece_iff grounded member, beq_iff_eq]
    constructor
    · intro given
      obtain ⟨_, stands⟩ := given
      exact stands.symm
    · rintro rfl
      exact ⟨⟨inSpan, selected⟩, rfl⟩
  split
  · rename_i taken
    rw [← List.count_eq_one_of_mem (SortedSet.nodup _) relevant]
    refine List.countP_congr fun first member => ?_
    rw [inside first member, Bool.and_eq_true, beq_iff_eq]
    exact ⟨And.right, fun same => ⟨same ▸ taken, same⟩⟩
  · rename_i free
    refine List.countP_eq_zero.mpr fun first member => ?_
    rw [inside first member, Bool.and_eq_true, beq_iff_eq]
    intro given
    obtain ⟨taken, rfl⟩ := given
    exact free taken

theorem selected_of_mem_windows {chosen : SortedSet (Bounded low high)}
    {window : Range (Bounded low high)}
    (member : window ∈ windows chosen (pieces points upper
        (points.relevantIn (.interval lower upper ordered))))
    {value : Bounded low high} (inside : value ∈ window) :
    value ∈ points.span ∧ value ∈ Range.interval lower upper ordered := by
  have positive := List.countP_pos_iff (p := (·.contains value)).mpr
    ⟨window, member, (Range.contains_iff window value).mpr inside⟩
  rw [countP_windows_eq grounded] at positive
  obtain ⟨first, relevant, holds⟩ := List.countP_pos_iff.mp positive
  rw [Bool.and_eq_true] at holds
  exact ((contains_piece_iff grounded relevant).mp holds.2).1

end Pieces

end Segment

/-! ## Merge rules -/

namespace MergeRule

/-- Merging relevant values of an axis gives ranges that hold each selected value once
if the value that stands for it is among them, and no value that is not selected. -/
structure Collects (rule : MergeRule) (axis : Axis) : Prop where
  covers : ∀ values : List PropertyValue, (∀ value ∈ values, value ∈ axis.values) →
    ∀ value, axis.Selects value →
      (rule.merge (values.map .single)).countP (·.contains value) =
        if axis.standIn value ∈ values then 1 else 0
  inside : ∀ values : List PropertyValue, (∀ value ∈ values, value ∈ axis.values) →
    ∀ range ∈ rule.merge (values.map .single), ∀ value ∈ range, axis.Selects value

/-- The values that are read from single values. -/
theorem mem_readAll_iff {low high : Int} {embed : Bounded low high → PropertyValue}
    {read : PropertyRange → Option (Bounded low high)}
    (reads : ∀ given inner, read (.single given) = some inner ↔ given = embed inner)
    (values : List PropertyValue) (inner : Bounded low high) :
    inner ∈ SortedSet.ofList ((values.map .single).filterMap read) ↔ embed inner ∈ values := by
  rw [SortedSet.mem_ofList_iff, List.filterMap_map, List.mem_filterMap]
  constructor
  · intro given
    obtain ⟨given, member, found⟩ := given
    exact (reads given inner).mp found ▸ member
  · intro member
    exact ⟨embed inner, member, (reads _ inner).mpr rfl⟩

private theorem collects_windows {low high : Int} {points : Breakpoints low high}
    (grounded : points.Grounded) {lower upper : Bounded low high} {ordered : lower ≤ upper}
    {axis : Axis} {rule : MergeRule} {occurring : List PropertyValue}
    (embed : Bounded low high → PropertyValue) (lift : Range (Bounded low high) → PropertyRange)
    {read : PropertyRange → Option (Bounded low high)}
    (merges : ∀ ranges, rule.merge ranges =
      (Segment.windows (.ofList (ranges.filterMap read)) (Segment.pieces points upper
        (.ofList ((occurring.map .single).filterMap read)))).map lift)
    (reads : ∀ given inner, read (.single given) = some inner ↔ given = embed inner)
    (mem_lift : ∀ range value, value ∈ lift range ↔ ∃ inner ∈ range, embed inner = value)
    (selects : ∀ value, axis.Selects value ↔
      ∃ inner, (inner ∈ points.span ∧ inner ∈ Range.interval lower upper ordered) ∧
        embed inner = value)
    (stands : ∀ inner, axis.standIn (embed inner) =
      embed (points.standIn (.interval lower upper ordered) inner))
    (complete : ∀ inner, embed inner ∈ occurring ↔
      inner ∈ points.relevantIn (.interval lower upper ordered)) :
    rule.Collects axis := by
  have injective : ∀ left right, embed left = embed right → left = right := by
    intro left right same
    have readLeft := (reads (embed left) left).mpr rfl
    rw [(reads (embed left) right).mpr same] at readLeft
    exact (Option.some.inj readLeft).symm
  have collected := mem_readAll_iff reads
  have all : SortedSet.ofList ((occurring.map .single).filterMap read) =
      points.relevantIn (.interval lower upper ordered) :=
    SortedSet.ext fun inner => (collected occurring inner).trans (complete inner)
  constructor
  · intro values _ value selected
    obtain ⟨inner, ⟨inSpan, inSelection⟩, rfl⟩ := (selects value).mp selected
    have shape : ∀ range, (lift range).contains (embed inner) = range.contains inner := by
      intro range
      rw [Bool.eq_iff_iff, Range.contains_iff, ← PropertyRange.mem_def, mem_lift]
      constructor
      · intro given
        obtain ⟨other, member, same⟩ := given
        exact injective other inner same ▸ member
      · intro member
        exact ⟨inner, member, rfl⟩
    rw [merges, all, List.countP_map]
    refine (List.countP_congr fun range _ => by rw [Function.comp_apply, shape]).trans ?_
    rw [Segment.countP_windows grounded inSpan inSelection, stands]
    exact if_congr ((SortedSet.contains_iff _ _).trans (collected values _)) rfl rfl
  · intro values _ range member value inRange
    rw [merges, all] at member
    obtain ⟨window, inWindows, rfl⟩ := List.mem_map.mp member
    obtain ⟨inner, inWindow, rfl⟩ := (mem_lift window value).mp inRange
    exact (selects _).mpr
      ⟨inner, Segment.selected_of_mem_windows grounded inWindows inWindow, rfl⟩

theorem merge_list_cons (first : PropertyValue) (rest : List PropertyValue) :
    list.merge ((first :: rest).map .single) = [.ofValues first.type (first :: rest)] := by
  have listed : ((first :: rest).map PropertyRange.single).flatMap (·.listed) = first :: rest := by
    rw [List.flatMap_map]
    simp
  show [PropertyRange.ofValues (PropertyRange.single first).type _] = _
  rw [listed, PropertyRange.type_single]

private theorem collects_list {axis : Axis} (grounded : axis.Grounded)
    (stands : ∀ value, axis.standIn value = value) : list.Collects axis where
  covers values relevant value selected := by
    cases values with
    | nil => rfl
    | cons first rest =>
        have firstSelected := ((Axis.mem_values_iff grounded).mp (relevant first (.head rest))).1
        have type : value.type = first.type :=
          (PropertyRange.type_of_mem selected.2).trans
            (PropertyRange.type_of_mem firstSelected.2).symm
        rw [merge_list_cons, List.countP_singleton, stands]
        exact if_congr ((PropertyRange.mem_ofValues_iff _ _ _).trans (and_iff_right type)) rfl rfl
  inside values relevant range member value inRange := by
    cases values with
    | nil => cases member
    | cons first rest =>
        rw [merge_list_cons, List.mem_singleton] at member
        rw [member, PropertyRange.mem_ofValues_iff] at inRange
        exact ((Axis.mem_values_iff grounded).mp (relevant value inRange.2)).1

/-- The rule of an axis collects its relevant values, if all of them occur. -/
theorem of_collects {axis : Axis} (grounded : axis.Grounded) {occurring : List PropertyValue}
    (complete : ∀ value, value ∈ occurring ↔ value ∈ axis.values) :
    (MergeRule.of axis.dimension.domain axis.range (occurring.map .single)).Collects axis := by
  obtain ⟨⟨name, domain⟩, range, discipline⟩ := axis
  cases domain with
  | boolean declared | enumeration declared =>
      exact collects_list grounded fun value => rfl
  | integer points =>
      cases range with
      | boolean selected | enumeration selected | date selected =>
          exact collects_list grounded fun value => rfl
      | integer selected =>
          cases selected with
          | empty | list values occupied =>
              exact collects_list grounded fun value => by cases value <;> rfl
          | interval lower upper ordered =>
              refine collects_windows grounded .integer .integer (fun _ => rfl)
                (fun given _ => ?_) (fun _ value => ?_) (fun _ => Axis.selects_integer_iff)
                (fun _ => rfl) fun inner => ?_
              · cases given <;> simp
              · cases value <;> simp [PropertyRange.mem_def, PropertyRange.contains]
              · refine (complete (.integer inner)).trans (List.mem_map.trans ?_)
                simp [SortedSet.mem_def]
  | date points =>
      cases range with
      | boolean selected | enumeration selected | integer selected =>
          exact collects_list grounded fun value => rfl
      | date selected =>
          cases selected with
          | empty | list values occupied =>
              exact collects_list grounded fun value => by cases value <;> rfl
          | interval lower upper ordered =>
              refine collects_windows grounded .date .date (fun _ => rfl)
                (fun given _ => ?_) (fun _ value => ?_) (fun _ => Axis.selects_date_iff)
                (fun _ => rfl) fun inner => ?_
              · cases given <;> simp
              · cases value <;> simp [PropertyRange.mem_def, PropertyRange.contains]
              · refine (complete (.date inner)).trans (List.mem_map.trans ?_)
                simp [SortedSet.mem_def]

end MergeRule

end RuleSlicing
