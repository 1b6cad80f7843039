import RuleSlicing.Proofs.Consistency
import RuleSlicing.Proofs.Details

/-!
# Combining results in another order

Of two results of a consistency analysis that decide alike, the earlier is kept. So the
order in which results are combined does not change whether a combination of values is
consistent, but it does change the example or the explanation that is reported: any
result that decides the combination is the one that is kept in some order.
-/

set_option autoImplicit false

namespace RuleSlicing

/-! ## The first and the last choice -/

/-- A combination that keeps what decides keeps the first such result, or the last one. -/
theorem reduce?_eq_find? {Result : Type} {merge : Result → Result → Result}
    {decides : Result → Bool}
    (keeps : ∀ left right, merge left right = if decides left then left else right)
    (list : List Result) : reduce? merge list = (list.find? decides).or list.getLast? := by
  cases list with
  | nil => rfl
  | cons first rest =>
      induction rest generalizing first with
      | nil => cases decided : decides first <;> simp [reduce?, decided]
      | cons second rest ih =>
          have step : reduce? merge (first :: second :: rest) =
              reduce? merge (merge first second :: rest) := rfl
          rw [step, ih, keeps]
          cases decided : decides first with
          | true => simp [decided]
          | false => simp [decided]

namespace Computation

variable {Result : Type} {computation : Computation Result}
  {mates others : List (Slice × Result)} {choice : Slice} {part : Result}
  (alike : ∀ entry ∈ mates, entry.1.project .any = choice)
  (different : ∀ entry ∈ others, entry.1.project .any ≠ choice)
  (reduced : reduce? (computation.merge .all) (mates.map (·.2)) = some part)

include alike different

private theorem filter_mates :
    mates.filter (fun entry => entry.1.project .any == choice) = mates ∧
      others.filter (fun entry => entry.1.project .any == choice) = [] := by
  constructor
  · exact List.filter_eq_self.mpr fun entry member => beq_iff_eq.mpr (alike entry member)
  · exact List.filter_eq_nil_iff.mpr fun entry member same =>
      different entry member (eq_of_beq same)

include reduced

theorem mergeKey?_append_others :
    ∃ parts, computation.mergeKey? (mates ++ others) =
      reduce? (computation.merge .any) (part :: parts) := by
  obtain ⟨whole, none⟩ := filter_mates alike different
  have members : (mates ++ others).filter (fun entry => entry.1.project .any == choice) =
      mates := by rw [List.filter_append, whole, none, List.append_nil]
  obtain ⟨keys, first⟩ : ∃ keys, keysFrom (fun entry : Slice × Result => entry.1.project .any) ∅
      (mates ++ others) = choice :: keys := by
    cases mates with
    | nil => cases reduced
    | cons entry rest =>
        obtain rfl := alike entry (.head _)
        exact ⟨_, if_neg (Bool.eq_false_iff.mp Std.HashSet.contains_empty)⟩
  unfold mergeKey?
  simp only
  rw [groupByHash_eq_map, List.filterMap_map, first]
  refine ⟨_, congrArg _ (List.filterMap_cons_some ?_)⟩
  simp only [Function.comp_apply]
  rw [members, reduced]

theorem mergeKey?_others_append :
    ∃ parts, computation.mergeKey? (others ++ mates) =
      reduce? (computation.merge .any) (parts ++ [part]) := by
  obtain ⟨whole, none⟩ := filter_mates alike different
  have members : (others ++ mates).filter (fun entry => entry.1.project .any == choice) =
      mates := by rw [List.filter_append, whole, none, List.nil_append]
  have occupied : mates ≠ [] := by
    rintro rfl
    cases reduced
  unfold mergeKey?
  simp only
  rw [groupByHash_eq_map, List.filterMap_map,
    keysFrom_append_of_forall Std.HashSet.not_mem_empty occupied different alike,
    List.filterMap_append]
  refine ⟨_, congrArg _ (congrArg _ ?_)⟩
  simp only [List.filterMap_cons, List.filterMap_nil, Function.comp_apply]
  rw [members, reduced]

end Computation

/-! ## Two years -/

/-- Two slices of one combination of values, in which either of them is enough. -/
private theorem mem_mergeBySplit_pair {first second : Slice × ConsistencyResult}
    (same : second.1.project .split = first.1.project .split)
    (different : first.1.project .any ≠ second.1.project .any) :
    (first.1.project .split, ConsistencyResult.merge .any first.2 second.2) ∈
      consistency.mergeBySplit [first, second] := by
  have members : [first, second].filter (fun entry =>
      entry.1.project .split == first.1.project .split) = [first, second] := by simp [same]
  have groups : groupByHash (fun entry : Slice × ConsistencyResult => entry.1.project .any)
      [first, second] = [(first.1.project .any, [first]), (second.1.project .any, [second])] := by
    simp [groupByHash_eq_map, keysFrom, different, different.symm]
  rw [Computation.mem_mergeBySplit_iff, members]
  unfold Computation.mergeKey?
  simp only
  rw [groups]
  rfl

namespace Sample

/-- Each of two years needs another feature. -/
def yearsDocument : ModelDocument where
  dimensions := [⟨"year", .integer⟩]
  features := [⟨"A", []⟩, ⟨"B", []⟩]
  rules := [
    ⟨none, none, .var "A", [⟨"year", .integer, ⟨some [.integer 7], none, none⟩⟩]⟩,
    ⟨none, none, .var "B", [⟨"year", .integer, ⟨some [.integer 8], none, none⟩⟩]⟩]

def yearsRequest : Request := ⟨"rules", [], [], false⟩

def firstYear : Slice :=
  .ofList [(⟨"year", .single (.integer ⟨7, by decide, by decide⟩)⟩, .any)]

def secondYear : Slice :=
  .ofList [(⟨"year", .single (.integer ⟨8, by decide, by decide⟩)⟩, .any)]

/-- What the analysis finds for the years. -/
def yearsResults : List (Slice × ConsistencyResult) :=
  [(firstYear, ⟨true, some ["A"], none⟩), (secondYear, ⟨true, some ["B"], none⟩)]

theorem consistent_years : ∀ entry ∈ yearsResults, entry.2.consistent = true := by decide

theorem mem_merged_years :
    (Slice.empty, ⟨true, some ["A"], none⟩) ∈ consistency.mergeBySplit yearsResults :=
  mem_mergeBySplit_pair rfl (by decide)

theorem mem_merged_years_reverse :
    (Slice.empty, ⟨true, some ["B"], none⟩) ∈ consistency.mergeBySplit yearsResults.reverse :=
  mem_mergeBySplit_pair rfl (by decide)

end Sample

/-! ## Results that decide -/

namespace ConsistencyResult

/-- All slices that agree with a slice where one value is enough are consistent. -/
def HoldsAt (members : List (Slice × ConsistencyResult)) (slice : Slice) : Prop :=
  ∀ other ∈ members, other.1.project .any = slice.project .any → other.2.consistent = true

/-- A slice decides for its combination of values as consistent if all that agree with it are,
and as inconsistent if there are no such slices at all. -/
structure Decides (members : List (Slice × ConsistencyResult))
    (entry : Slice × ConsistencyResult) : Prop where
  member : entry ∈ members
  holds : entry.2.consistent = true → HoldsAt members entry.1
  fails : entry.2.consistent = false → ∀ other ∈ members, ¬HoldsAt members other.1

variable {members others : List (Slice × ConsistencyResult)} {result : ConsistencyResult}

theorem HoldsAt.of_perm (perm : members.Perm others) {slice : Slice}
    (holds : HoldsAt members slice) : HoldsAt others slice :=
  fun other member => holds other (perm.mem_iff.mpr member)

theorem Decides.of_perm (perm : members.Perm others) {entry : Slice × ConsistencyResult}
    (decides : Decides members entry) : Decides others entry where
  member := perm.mem_iff.mp decides.member
  holds consistent := (decides.holds consistent).of_perm perm
  fails inconsistent other member holds :=
    decides.fails inconsistent other (perm.mem_iff.mpr member) (holds.of_perm perm.symm)

theorem Decides.consistent_eq {left right : Slice × ConsistencyResult}
    (leftDecides : Decides members left) (rightDecides : Decides members right) :
    left.2.consistent = right.2.consistent := by
  cases leftVerdict : left.2.consistent <;> cases rightVerdict : right.2.consistent
  · rfl
  · exact absurd (rightDecides.holds rightVerdict)
      (leftDecides.fails leftVerdict right rightDecides.member)
  · exact absurd (leftDecides.holds leftVerdict)
      (rightDecides.fails rightVerdict left leftDecides.member)
  · rfl

/-- A combination of values is consistent if all slices that agree with one of its slices are. -/
theorem mergeKey?_consistent_iff (merged : consistency.mergeKey? members = some result) :
    result.consistent = true ↔ ∃ entry ∈ members, HoldsAt members entry.1 :=
  @Computation.mergeKey?_exists_forall ConsistencyResult consistency.toComputation
    (·.consistent = true) _ _ merged (fun _ _ => merge_all_iff) (fun _ _ => merge_any_iff)

theorem exists_decides (merged : consistency.mergeKey? members = some result) :
    ∃ slice, Decides members (slice, result) := by
  have selected : ∀ {discipline list value},
      reduce? (consistency.merge discipline) list = some value → value ∈ list := by
    intro discipline list value reduced
    refine holds_of_reduce? (fun left right leftMember rightMember => ?_) (fun _ => id) reduced
    show merge discipline left right ∈ list
    rcases merge_eq_or discipline left right with same | same
    · rwa [same]
    · rwa [same]
  obtain ⟨parts, reduced, inParts⟩ := Computation.exists_parts merged
  obtain ⟨entry, _, made⟩ := (inParts result).mp (selected reduced)
  have verdict := @reduce?_forall _ (consistency.merge .all) (·.consistent = true)
    (fun _ _ => merge_all_iff) _ _ made
  obtain ⟨slice, member, same⟩ := Computation.mem_alike_iff.mp (selected made)
  refine ⟨slice, member, fun consistent other otherMember otherSame => ?_, ?_⟩
  · exact verdict.mp consistent _
      (Computation.mem_alike_iff.mpr ⟨_, otherMember, otherSame.trans same⟩)
  · intro inconsistent other otherMember holds
    have consistent := (mergeKey?_consistent_iff merged).mpr ⟨other, otherMember, holds⟩
    exact Bool.false_ne_true (inconsistent.symm.trans consistent)

private theorem merge_any_eq (list : List ConsistencyResult) :
    reduce? (consistency.merge .any) list = (list.find? (·.consistent)).or list.getLast? :=
  reduce?_eq_find? (fun _ _ => rfl) list

private theorem merge_all_eq (list : List ConsistencyResult) :
    reduce? (consistency.merge .all) list = (list.find? (!·.consistent)).or list.getLast? := by
  refine reduce?_eq_find? (fun left right => ?_) list
  show (if left.consistent = true then right else left) = _
  cases left.consistent <;> rfl

section Orders

variable {mates rest : List (Slice × ConsistencyResult)} {entry : Slice × ConsistencyResult}
  {choice : Slice} (different : ∀ other ∈ others, other.1.project .any ≠ choice)

include different

/-- The last of slices that agree is kept if they are all consistent and come first. -/
private theorem mergeKey?_of_last
    (alike : ∀ other ∈ mates ++ [entry], other.1.project .any = choice)
    (consistent : ∀ other ∈ mates ++ [entry], other.2.consistent = true) :
    consistency.mergeKey? (mates ++ [entry] ++ others) = some entry.2 := by
  have reduced : reduce? (consistency.merge .all) ((mates ++ [entry]).map (·.2)) =
      some entry.2 := by
    rw [merge_all_eq, List.find?_eq_none.mpr]
    · simp
    · exact List.forall_mem_map.mpr fun other member => by simp [consistent other member]
  obtain ⟨parts, merged⟩ := Computation.mergeKey?_append_others alike different reduced
  rw [merged, merge_any_eq, List.find?_cons_of_pos (consistent entry (by simp))]
  rfl

/-- The first of slices that agree is kept if it is not consistent, they come last, and no
others decide. -/
private theorem mergeKey?_of_first
    (alike : ∀ other ∈ entry :: rest, other.1.project .any = choice)
    (inconsistent : entry.2.consistent = false)
    (fails : ∀ other ∈ others ++ entry :: rest, ¬HoldsAt (others ++ entry :: rest) other.1) :
    consistency.mergeKey? (others ++ entry :: rest) = some entry.2 := by
  have reduced : reduce? (consistency.merge .all) ((entry :: rest).map (·.2)) = some entry.2 := by
    rw [merge_all_eq, List.map_cons, List.find?_cons_of_pos (by simp [inconsistent])]
    rfl
  obtain ⟨parts, merged⟩ := Computation.mergeKey?_others_append alike different reduced
  rw [merge_any_eq] at merged
  cases found : (parts ++ [entry.2]).find? (·.consistent) with
  | none => simpa [found] using merged
  | some other =>
      rw [found, Option.some_or] at merged
      obtain ⟨slice, member, holds⟩ :=
        (mergeKey?_consistent_iff merged).mp (List.find?_some found)
      exact absurd holds (fails slice member)

end Orders

/-- The slices that agree with one of them where one value is enough, and the others. -/
private theorem exists_mates {entry : Slice × ConsistencyResult} (member : entry ∈ members) :
    ∃ before after others : List (Slice × ConsistencyResult),
      (before ++ entry :: after ++ others).Perm members ∧
      (∀ other ∈ before ++ entry :: after, other.1.project .any = entry.1.project .any) ∧
      ∀ other ∈ others, other.1.project .any ≠ entry.1.project .any := by
  have parted := List.filter_append_perm
    (fun other => other.1.project .any == entry.1.project .any) members
  have inMates : entry ∈ members.filter fun other =>
      other.1.project .any == entry.1.project .any :=
    List.mem_filter.mpr ⟨member, beq_self_eq_true _⟩
  obtain ⟨before, after, mates⟩ := List.append_of_mem inMates
  refine ⟨before, after, _, mates ▸ parted, fun other inSame => ?_, fun other inOthers same => ?_⟩
  · rw [← mates] at inSame
    exact eq_of_beq (List.mem_filter.mp inSame).2
  · simpa [same] using (List.mem_filter.mp inOthers).2

/-- What decides a combination is kept in some order. -/
theorem exists_order {entry : Slice × ConsistencyResult} (decides : Decides members entry) :
    ∃ order : List (Slice × ConsistencyResult), order.Perm members ∧
      consistency.mergeKey? order = some entry.2 := by
  obtain ⟨before, after, others, parted, alike, different⟩ := exists_mates decides.member
  -- Where all of the group are consistent its last result is kept, and else its first failure.
  -- Groups then keep the first success, or the last result of all.
  cases verdict : entry.2.consistent with
  | true =>
      have turned : (before ++ after ++ [entry]).Perm (before ++ entry :: after) :=
        (List.perm_append_singleton _ _).trans List.perm_middle.symm
      have perm := (turned.append_right others).trans parted
      have agree : ∀ other ∈ before ++ after ++ [entry],
          other.1.project .any = entry.1.project .any :=
        fun other member => alike other (turned.mem_iff.mp member)
      refine ⟨_, perm, mergeKey?_of_last different agree fun other member => ?_⟩
      have inMembers := perm.mem_iff.mp (List.mem_append_left others member)
      exact decides.holds verdict other inMembers (agree other member)
  | false =>
      have turned : (entry :: (before ++ after)).Perm (before ++ entry :: after) :=
        List.perm_middle.symm
      have perm := (List.perm_append_comm.trans (turned.append_right others)).trans parted
      refine ⟨_, perm, mergeKey?_of_first different ?_ verdict ?_⟩
      · exact fun other member => alike other (turned.mem_iff.mp member)
      · exact (decides.of_perm perm.symm).fails verdict

/-! ## All orders -/

def ofKey (results : List (Slice × ConsistencyResult)) (key : Slice) :
    List (Slice × ConsistencyResult) :=
  results.filter fun entry => entry.1.project .split == key

variable {results order : List (Slice × ConsistencyResult)} {key : Slice}

theorem exists_decides_of_perm (perm : order.Perm results)
    (member : (key, result) ∈ consistency.mergeBySplit order) :
    ∃ slice, Decides (ofKey results key) (slice, result) := by
  obtain ⟨slice, decides⟩ := exists_decides ((Computation.mem_mergeBySplit_iff _ _).mp member)
  exact ⟨slice, decides.of_perm (perm.filter _)⟩

theorem exists_order_of_key {slice : Slice} (decides : Decides (ofKey results key) (slice, result)) :
    ∃ order : List (Slice × ConsistencyResult), order.Perm results ∧
      (key, result) ∈ consistency.mergeBySplit order := by
  obtain ⟨members, perm, merged⟩ := exists_order decides
  refine ⟨members ++ results.filter (fun entry => !(entry.1.project .split == key)),
    (perm.append_right _).trans (List.filter_append_perm _ _),
    (Computation.mem_mergeBySplit_iff _ _).mpr ?_⟩
  have whole : members.filter (fun entry => entry.1.project .split == key) = members :=
    List.filter_eq_self.mpr fun entry member =>
      (List.mem_filter.mp (perm.mem_iff.mp member)).2
  rw [List.filter_append, whole, List.filter_filter]
  simpa using merged

/-- In whatever order results are combined, there is one result for each combination of values,
and it decides alike. It need not be the same one: what is kept in some order is exactly what
decides the combination. -/
theorem merged_in_any_order (results : List (Slice × ConsistencyResult)) :
    (∀ order, order.Perm results →
      ((consistency.mergeBySplit order).map (·.1)).Perm
        ((consistency.mergeBySplit results).map (·.1)) ∧
      ∀ key first second, (key, first) ∈ consistency.mergeBySplit order →
        (key, second) ∈ consistency.mergeBySplit results →
          first.consistent = second.consistent) ∧
    ∀ key result,
      (∃ order : List (Slice × ConsistencyResult), order.Perm results ∧
        (key, result) ∈ consistency.mergeBySplit order) ↔
      ∃ slice, Decides (ofKey results key) (slice, result) := by
  refine ⟨fun order perm => ⟨?_, fun key first second inOrder inResults => ?_⟩,
    fun key result => ⟨?_, ?_⟩⟩
  · refine (List.perm_ext_iff_of_nodup (Computation.nodup_mergeBySplit _ _)
      (Computation.nodup_mergeBySplit _ _)).mpr fun key => ?_
    simp only [Computation.mem_map_mergeBySplit_iff, perm.mem_iff]
  · obtain ⟨_, firstDecides⟩ := exists_decides_of_perm perm inOrder
    obtain ⟨_, secondDecides⟩ := exists_decides_of_perm (.refl results) inResults
    exact firstDecides.consistent_eq secondDecides
  · intro given
    obtain ⟨order, perm, member⟩ := given
    exact exists_decides_of_perm perm member
  · intro given
    obtain ⟨slice, decides⟩ := given
    exact exists_order_of_key decides

theorem merged_in_any_order_sample :
    Sample.yearsResults.reverse.Perm Sample.yearsResults ∧
    ((consistency.mergeBySplit Sample.yearsResults.reverse).map (·.1)).Perm
      ((consistency.mergeBySplit Sample.yearsResults).map (·.1)) ∧
    (∃ first second, (Slice.empty, first) ∈ consistency.mergeBySplit Sample.yearsResults.reverse ∧
      (Slice.empty, second) ∈ consistency.mergeBySplit Sample.yearsResults ∧
      first.consistent = second.consistent) ∧
    (∃ order : List (Slice × ConsistencyResult), order.Perm Sample.yearsResults ∧
      (Slice.empty, ⟨true, some ["A"], none⟩) ∈ consistency.mergeBySplit order) ∧
    ∃ order : List (Slice × ConsistencyResult), order.Perm Sample.yearsResults ∧
      (Slice.empty, ⟨true, some ["B"], none⟩) ∈ consistency.mergeBySplit order := by
  obtain ⟨alike, kept⟩ := merged_in_any_order Sample.yearsResults
  have perm := List.reverse_perm Sample.yearsResults
  obtain ⟨keys, verdicts⟩ := alike _ perm
  have same := verdicts _ _ _ Sample.mem_merged_years_reverse Sample.mem_merged_years
  have holds : ∀ slice, HoldsAt (ofKey Sample.yearsResults Slice.empty) slice :=
    fun _ other member _ => Sample.consistent_years other (List.mem_filter.mp member).1
  refine ⟨perm, keys,
    ⟨_, _, Sample.mem_merged_years_reverse, Sample.mem_merged_years, same⟩, ?_, ?_⟩
  · exact (kept _ _).mpr ⟨Sample.firstYear, by decide, fun _ => holds _, nofun⟩
  · exact (kept _ _).mpr ⟨Sample.secondYear, by decide, fun _ => holds _, nofun⟩

end ConsistencyResult

/-- The example that is kept of two years depends on the year that comes first. -/
theorem Consistency.merge_depends_on_order : ∃ model selectors,
    Model.compile Sample.yearsDocument = .ok model ∧
    Sample.yearsRequest.resolve model.space consistency.allows consistency.defaultDiscipline =
      .ok selectors ∧
    Slice.all selectors model.space.dimensions Limits.standard.maxSlices =
      .ok (Sample.yearsResults.map (·.1)) ∧
    (∀ entry ∈ Sample.yearsResults,
      (compute ⟨Sample.yearsRequest, ⟨entry.1, [], model.activation entry.1⟩, .standard⟩).outcome =
        .ok entry.2) ∧
    (Slice.empty, ⟨true, some ["A"], none⟩) ∈ consistency.mergeBySplit Sample.yearsResults ∧
    (Slice.empty, ⟨true, some ["B"], none⟩) ∈
      consistency.mergeBySplit Sample.yearsResults.reverse := by
  refine ⟨_, _, rfl, rfl, rfl, ?_, Sample.mem_merged_years, Sample.mem_merged_years_reverse⟩
  exact List.forall_mem_cons.mpr ⟨rfl, List.forall_mem_singleton.mpr rfl⟩

end RuleSlicing
