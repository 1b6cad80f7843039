import RuleSlicing.Analysis.Merging
import RuleSlicing.Proofs.Grouping

/-!
# What combined results say

Combining a list of results says of it what the combination of two says of both:
a property of all of them, or of one of them. The result of a combination of
values that is reported by itself says this of the slices with these values, first
over the slices that agree where one value is enough, then over these.
-/

set_option autoImplicit false

namespace RuleSlicing

/-! ## Combining a list -/

section Reduce

variable {Result : Type} {merge : Result → Result → Result} {Holds : Result → Prop}

theorem exists_reduce? (merge : Result → Result → Result) {list : List Result}
    (occupied : list ≠ []) :
    ∃ result, reduce? merge list = some result := by
  cases list with
  | nil => exact absurd rfl occupied
  | cons first rest => exact ⟨_, rfl⟩

theorem reduce?_forall (both : ∀ left right, Holds (merge left right) ↔ Holds left ∧ Holds right)
    {list : List Result} {result : Result} (reduced : reduce? merge list = some result) :
    Holds result ↔ ∀ member ∈ list, Holds member := by
  cases list with
  | nil => cases reduced
  | cons first rest =>
      obtain rfl := Option.some.inj reduced
      induction rest generalizing first with
      | nil => simp
      | cons second rest ih =>
          rw [List.foldl_cons, ih (merge first second) rfl, List.forall_mem_cons,
            List.forall_mem_cons, List.forall_mem_cons, both, and_assoc]

theorem reduce?_exists (either : ∀ left right, Holds (merge left right) ↔ Holds left ∨ Holds right)
    {list : List Result} {result : Result} (reduced : reduce? merge list = some result) :
    Holds result ↔ ∃ member ∈ list, Holds member := by
  cases list with
  | nil => cases reduced
  | cons first rest =>
      obtain rfl := Option.some.inj reduced
      induction rest generalizing first with
      | nil => simp
      | cons second rest ih =>
          rw [List.foldl_cons, ih (merge first second) rfl, List.exists_mem_cons_iff,
            List.exists_mem_cons_iff, List.exists_mem_cons_iff, either, or_assoc]

theorem holds_of_reduce? (kept : ∀ left right, Holds left → Holds right → Holds (merge left right))
    {list : List Result} (each : ∀ member ∈ list, Holds member) {result : Result}
    (reduced : reduce? merge list = some result) : Holds result := by
  cases list with
  | nil => cases reduced
  | cons first rest =>
      obtain rfl := Option.some.inj reduced
      induction rest generalizing first with
      | nil => exact each first (.head _)
      | cons second rest ih =>
          obtain ⟨firstHolds, others⟩ := List.forall_mem_cons.mp each
          obtain ⟨secondHolds, restHolds⟩ := List.forall_mem_cons.mp others
          exact ih _ (List.forall_mem_cons.mpr ⟨kept _ _ firstHolds secondHolds, restHolds⟩) rfl

theorem reduce?_map {transform : Result → Result}
    (commutes : ∀ left right, transform (merge left right) = merge (transform left) (transform right))
    (list : List Result) : reduce? merge (list.map transform) = (reduce? merge list).map transform := by
  cases list with
  | nil => rfl
  | cons first rest =>
      refine congrArg some ?_
      induction rest generalizing first with
      | nil => rfl
      | cons second rest ih =>
          rw [List.map_cons, List.foldl_cons, List.foldl_cons, ← commutes]
          exact ih (merge first second)

end Reduce

/-! ## Combining slices that belong together -/

namespace Computation

variable {Result : Type} {computation : Computation Result} {Holds : Result → Prop}

/-- The results of the slices that agree with a slice where one value is enough. -/
def alike (members : List (Slice × Result)) (slice : Slice) : List Result :=
  (members.filter fun entry => entry.1.project .any == slice.project .any).map (·.2)

theorem mem_alike_iff {members : List (Slice × Result)} {slice : Slice} {result : Result} :
    result ∈ alike members slice ↔
      ∃ other, (other, result) ∈ members ∧ other.project .any = slice.project .any := by
  simp [alike, List.mem_map, List.mem_filter]

theorem exists_parts {members : List (Slice × Result)} {result : Result}
    (merged : computation.mergeKey? members = some result) :
    ∃ parts, reduce? (computation.merge .any) parts = some result ∧
      ∀ part, part ∈ parts ↔ ∃ entry ∈ members,
        reduce? (computation.merge .all) (alike members entry.1) = some part := by
  refine ⟨_, merged, fun part => ?_⟩
  rw [List.mem_filterMap]
  constructor
  · intro given
    obtain ⟨⟨key, group⟩, inGroups, reduced⟩ := given
    obtain ⟨⟨entry, member, rfl⟩, rfl⟩ := (mem_groupByHash_iff _ _ _ _).mp inGroups
    exact ⟨entry, member, reduced⟩
  · intro given
    obtain ⟨entry, member, reduced⟩ := given
    exact ⟨(entry.1.project .any, _),
      (mem_groupByHash_iff _ _ _ _).mpr ⟨⟨entry, member, rfl⟩, rfl⟩, reduced⟩

private theorem alike_ne_nil {members : List (Slice × Result)} {entry : Slice × Result}
    (member : entry ∈ members) : alike members entry.1 ≠ [] :=
  List.ne_nil_of_mem (mem_alike_iff.mpr ⟨entry.1, member, rfl⟩)

theorem exists_mergeKey? {members : List (Slice × Result)} (occupied : members ≠ []) :
    ∃ result, computation.mergeKey? members = some result := by
  obtain ⟨entry, member⟩ := List.exists_mem_of_ne_nil members occupied
  obtain ⟨part, reduced⟩ := exists_reduce? (computation.merge .all) (alike_ne_nil member)
  have group : (entry.1.project .any, members.filter fun other =>
      other.1.project .any == entry.1.project .any) ∈
        groupByHash (fun other => other.1.project .any) members :=
    (mem_groupByHash_iff _ _ _ _).mpr ⟨⟨entry, member, rfl⟩, rfl⟩
  exact exists_reduce? _ (List.ne_nil_of_mem (List.mem_filterMap.mpr ⟨_, group, reduced⟩))

theorem holds_of_mergeKey? (kept : ∀ discipline left right, Holds left → Holds right →
      Holds (computation.merge discipline left right))
    {members : List (Slice × Result)} (each : ∀ entry ∈ members, Holds entry.2) {result : Result}
    (merged : computation.mergeKey? members = some result) : Holds result := by
  obtain ⟨parts, reduced, inParts⟩ := exists_parts merged
  refine holds_of_reduce? (kept .any) (fun part member => ?_) reduced
  obtain ⟨entry, _, made⟩ := (inParts part).mp member
  refine holds_of_reduce? (kept .all) (fun value inAlike => ?_) made
  obtain ⟨other, otherMember, _⟩ := mem_alike_iff.mp inAlike
  exact each (other, value) otherMember

/-- If combining two results keeps one of them, so does combining many. -/
theorem exists_of_mergeKey? (selects : ∀ discipline left right,
      computation.merge discipline left right = left ∨
        computation.merge discipline left right = right)
    {members : List (Slice × Result)} {result : Result}
    (merged : computation.mergeKey? members = some result) :
    ∃ slice, (slice, result) ∈ members := by
  have kept : ∀ discipline left right, (∃ slice, (slice, left) ∈ members) →
      (∃ slice, (slice, right) ∈ members) →
        ∃ slice, (slice, computation.merge discipline left right) ∈ members := by
    intro discipline left right leftGiven rightGiven
    rcases selects discipline left right with same | same
    · rwa [same]
    · rwa [same]
  exact holds_of_mergeKey? kept (fun entry member => ⟨entry.1, member⟩) merged

section Map

variable {transform : Result → Result} (commutes : ∀ discipline left right,
  transform (computation.merge discipline left right) =
    computation.merge discipline (transform left) (transform right))

include commutes

theorem mergeKey?_map (members : List (Slice × Result)) :
    computation.mergeKey? (members.map fun entry => (entry.1, transform entry.2)) =
      (computation.mergeKey? members).map transform := by
  unfold mergeKey?
  simp only
  rw [groupByHash_map, List.filterMap_map, ← reduce?_map (commutes .any), List.map_filterMap]
  refine congrArg (reduce? _) (List.filterMap_congr fun group _ => ?_)
  rw [← reduce?_map (commutes .all), List.map_map]
  show reduce? _ ((group.2.map _).map _) = _
  rw [List.map_map]
  rfl

theorem mergeBySplit_map (results : List (Slice × Result)) :
    computation.mergeBySplit (results.map fun entry => (entry.1, transform entry.2)) =
      (computation.mergeBySplit results).map fun entry => (entry.1, transform entry.2) := by
  unfold mergeBySplit
  rw [groupByHash_map, List.filterMap_map, List.map_filterMap]
  refine List.filterMap_congr fun group _ => ?_
  show (computation.mergeKey? (group.2.map _)).map _ = _
  rw [mergeKey?_map commutes, Option.map_map, Option.map_map]
  rfl

end Map

section Laws

variable {members : List (Slice × Result)} {result : Result}
  (merged : computation.mergeKey? members = some result)

include merged

/-- What has to hold for every value and is enough for one. -/
theorem mergeKey?_exists_forall
    (all : ∀ left right, Holds (computation.merge .all left right) ↔ Holds left ∧ Holds right)
    (any : ∀ left right, Holds (computation.merge .any left right) ↔ Holds left ∨ Holds right) :
    Holds result ↔ ∃ entry ∈ members, ∀ other ∈ members,
      other.1.project .any = entry.1.project .any → Holds other.2 := by
  obtain ⟨parts, reduced, inParts⟩ := exists_parts merged
  rw [reduce?_exists any reduced]
  constructor
  · intro given
    obtain ⟨part, member, holds⟩ := given
    obtain ⟨entry, inMembers, made⟩ := (inParts part).mp member
    refine ⟨entry, inMembers, fun other otherMember same => ?_⟩
    exact (reduce?_forall all made).mp holds _ (mem_alike_iff.mpr ⟨_, otherMember, same⟩)
  · intro given
    obtain ⟨entry, inMembers, holds⟩ := given
    obtain ⟨part, made⟩ := exists_reduce? (computation.merge .all) (alike_ne_nil inMembers)
    refine ⟨part, (inParts part).mpr ⟨entry, inMembers, made⟩, (reduce?_forall all made).mpr ?_⟩
    intro value member
    obtain ⟨other, otherMember, same⟩ := mem_alike_iff.mp member
    exact holds (other, value) otherMember same

theorem mergeKey?_forall (both : ∀ discipline left right,
      Holds (computation.merge discipline left right) ↔ Holds left ∧ Holds right) :
    Holds result ↔ ∀ entry ∈ members, Holds entry.2 := by
  obtain ⟨parts, reduced, inParts⟩ := exists_parts merged
  rw [reduce?_forall (both .any) reduced]
  constructor
  · intro holds entry member
    obtain ⟨part, made⟩ := exists_reduce? (computation.merge .all) (alike_ne_nil member)
    have partHolds := holds part ((inParts part).mpr ⟨entry, member, made⟩)
    exact (reduce?_forall (both .all) made).mp partHolds _ (mem_alike_iff.mpr ⟨_, member, rfl⟩)
  · intro holds part member
    obtain ⟨entry, _, made⟩ := (inParts part).mp member
    refine (reduce?_forall (both .all) made).mpr fun value inAlike => ?_
    obtain ⟨other, otherMember, _⟩ := mem_alike_iff.mp inAlike
    exact holds (other, value) otherMember

theorem mergeKey?_exists (either : ∀ discipline left right,
      Holds (computation.merge discipline left right) ↔ Holds left ∨ Holds right) :
    Holds result ↔ ∃ entry ∈ members, Holds entry.2 := by
  have none : ∀ discipline left right, ¬Holds (computation.merge discipline left right) ↔
      ¬Holds left ∧ ¬Holds right := fun discipline left right =>
    (not_congr (either discipline left right)).trans not_or
  have opposite := @mergeKey?_forall _ _ (fun value => ¬Holds value) _ _ merged none
  rw [← not_iff_not, opposite]
  simp

end Laws

end Computation

end RuleSlicing
