import RuleSlicing.Slice.Selector
import RuleSlicing.Space.Basic
import RuleSlicing.Grouping

/-!
# Merging reported slices

The slices that share a result are merged, one dimension after another, where
they agree on all other dimensions. Listed values become one list. Values that
stand for segments of a selected interval become windows: each runs from the
first value of neighbouring segments to the end of the last one, as far as the
selection reaches.
-/

set_option autoImplicit false

namespace RuleSlicing

namespace Segment

variable {low high : Int}

/-- The pieces that the occurring values of a dimension stand for: each reaches to
the end of its segment or to the end of the selection. -/
def pieces (points : Breakpoints low high) (upper : Bounded low high)
    (occurring : SortedSet (Bounded low high)) : List (Segment low high) :=
  let segments := points.segments
  occurring.toList.map fun value =>
    ⟨value, LinearOrdered.smaller ((endAmong? segments value).getD value) upper⟩

/-- Join neighbouring pieces whose first values are chosen, continuing a run that
may be open. -/
def joinFrom (chosen : SortedSet (Bounded low high)) :
    Option (Segment low high) → List (Segment low high) → List (Segment low high)
  | run, [] => run.toList
  | run, piece :: rest =>
      if chosen.contains piece.first then
        let first := (run.map (·.first)).getD piece.first
        joinFrom chosen (some ⟨first, piece.last⟩) rest
      else run.toList ++ joinFrom chosen none rest

/-- The windows of the chosen values among some pieces. -/
def windows (chosen : SortedSet (Bounded low high)) (pieces : List (Segment low high)) :
    List (Range (Bounded low high)) :=
  (joinFrom chosen none pieces).map fun run => .window run.first run.last

end Segment

/-- How the values of a dimension are merged. -/
inductive MergeRule where
  | list
  /-- Whole numbers stand for the pieces of an interval. -/
  | integerPieces (pieces : List (Segment (-9223372036854775808) 9223372036854775807))
  /-- Dates stand for the pieces of an interval. -/
  | datePieces (pieces : List (Segment (-95745824) 95745704))

namespace MergeRule

/-- The values of some ranges of whole numbers with one value. -/
def integers (ranges : List PropertyRange) : List Whole :=
  ranges.filterMap fun range =>
    match range.only? with
    | some (.integer value) => some value
    | _ => none

/-- The values of some ranges of dates with one value. -/
def dates (ranges : List PropertyRange) : List Date :=
  ranges.filterMap fun range =>
    match range.only? with
    | some (.date value) => some value
    | _ => none

/-- The rule for a dimension of which a range is selected, given the ranges that
occur in the reported slices. -/
def of (domain : Domain) (selected : PropertyRange) (occurring : List PropertyRange) :
    MergeRule :=
  match domain, selected with
  | .integer points, .integer (.interval _ upper _) =>
      .integerPieces (Segment.pieces points upper (.ofList (integers occurring)))
  | .date points, .date (.interval _ upper _) =>
      .datePieces (Segment.pieces points upper (.ofList (dates occurring)))
  | _, _ => .list

/-- Merge the ranges of slices that agree on all other dimensions. -/
def merge (rule : MergeRule) (ranges : List PropertyRange) : List PropertyRange :=
  match rule with
  | .list =>
      match ranges with
      | [] => []
      | first :: _ => [.ofValues first.type (ranges.flatMap (·.listed))]
  | .integerPieces pieces =>
      (Segment.windows (.ofList (integers ranges)) pieces).map .integer
  | .datePieces pieces => (Segment.windows (.ofList (dates ranges)) pieces).map .date

end MergeRule

/-- A dimension that is reported value by value, and how its values are merged. -/
structure ReportedDimension where
  name : String
  rule : MergeRule

namespace ReportedDimension

/-- The dimensions that some selectors report value by value, in order. Dimensions
without declared values are left out. -/
def ofSelectors (selectors : List Selector) (space : Space) (keys : List Slice) :
    List ReportedDimension :=
  (selectors.filter (·.discipline = .split)).filterMap fun selector =>
    let name := selector.property.name
    match space.find? name with
    | some dimension =>
        if dimension.isUnused then none
        else
          let occurring := keys.filterMap (·.range? name)
          some ⟨name, .of dimension.domain selector.property.range occurring⟩
    | none => none

def merge (dimension : ReportedDimension) (slices : List Slice) : List Slice :=
  (groupByHash (·.without dimension.name) slices).flatMap fun (rest, members) =>
    let merged := dimension.rule.merge (members.filterMap (·.range? dimension.name))
    if merged.isEmpty then [rest]
    else merged.map fun range => rest.fix ⟨dimension.name, range⟩ .split

def mergeAll (dimensions : List ReportedDimension) (slices : List Slice) : List Slice :=
  dimensions.foldl (fun current dimension => dimension.merge current) slices

end ReportedDimension

end RuleSlicing
