import RuleSlicing.Bounded
import RuleSlicing.Range.Basic

/-!
# Breakpoints of declared ranges

The ranges that features and rules declare for a number or a date cut the span
from the least to the greatest declared value into segments. No declared range
begins or ends inside a segment, so each declared range holds all values of a
segment or none, and one value of each segment stands for all of them.
-/

set_option autoImplicit false

namespace RuleSlicing

/-- Consecutive values from a first to a last one. -/
structure Segment (low high : Int) where
  first : Bounded low high
  last : Bounded low high
deriving DecidableEq

namespace Segment

variable {low high : Int}

def contains (segment : Segment low high) (value : Bounded low high) : Bool :=
  segment.first ≤ value && value ≤ segment.last

def range (segment : Segment low high) : Range (Bounded low high) :=
  .between segment.first segment.last

/-- The segments that begin at the given ascending values. Each reaches to the
value before the next beginning, and the last one is a single value. -/
def ofBeginnings : List (Bounded low high) → List (Segment low high)
  | [] => []
  | [last] => [⟨last, last⟩]
  | first :: next :: rest =>
      ⟨first, next.pred?.getD first⟩ :: ofBeginnings (next :: rest)

/-- The last value of the segment that holds a value, among some segments. -/
def endAmong? (segments : List (Segment low high)) (value : Bounded low high) :
    Option (Bounded low high) :=
  (segments.find? (·.contains value)).map (·.last)

end Segment

/-- The declared ranges of one dimension, as far as they matter: the values at
which intervals begin and end, and the values that are listed. -/
structure Breakpoints (low high : Int) where
  starts : SortedSet (Bounded low high)
  ends : SortedSet (Bounded low high)
  singles : SortedSet (Bounded low high)
deriving DecidableEq

namespace Breakpoints

variable {low high : Int}

def empty : Breakpoints low high := ⟨∅, ∅, ∅⟩

/-- Take a declared range into account. -/
def add (points : Breakpoints low high) : Range (Bounded low high) → Breakpoints low high
  | .empty => points
  | .list values _ => { points with singles := values.union points.singles }
  | .interval min max _ =>
      { points with starts := points.starts.insert min, ends := points.ends.insert max }

def declared (points : Breakpoints low high) : SortedSet (Bounded low high) :=
  points.starts.union (points.ends.union points.singles)

def min? (points : Breakpoints low high) : Option (Bounded low high) := points.declared.first?

def max? (points : Breakpoints low high) : Option (Bounded low high) := points.declared.last?

/-- The values at which segments begin: where a declared range begins, behind
where one ends, and the greatest declared value. -/
def relevant (points : Breakpoints low high) : SortedSet (Bounded low high) :=
  match points.max? with
  | none => ∅
  | some max =>
      let behind := (points.singles.union points.ends).toList.filterMap (·.succ?)
      let inside := behind.filter (· < max)
      ((points.starts.union points.singles).union (.ofList inside)).insert max

def segments (points : Breakpoints low high) : List (Segment low high) :=
  Segment.ofBeginnings points.relevant.toList

/-- The values that stand for a selection. A list stands for its values between
the least and the greatest declared one; an interval stands for the first value
of each segment that it overlaps. -/
def relevantIn (points : Breakpoints low high) :
    Range (Bounded low high) → SortedSet (Bounded low high)
  | .empty => ∅
  | .list values _ =>
      match points.min?, points.max? with
      | some min, some max => values.filter fun value => min ≤ value && value ≤ max
      | _, _ => ∅
  | .interval min max ordered =>
      .ofList <| points.segments.filterMap fun segment =>
        ((Range.interval min max ordered).intersection segment.range).first?

/-- The last value of the segment that holds a value. -/
def segmentEnd? (points : Breakpoints low high) (value : Bounded low high) :
    Option (Bounded low high) :=
  Segment.endAmong? points.segments value

def span (points : Breakpoints low high) : Range (Bounded low high) :=
  match points.min?, points.max? with
  | some min, some max => .between min max
  | _, _ => .empty

end Breakpoints

end RuleSlicing
