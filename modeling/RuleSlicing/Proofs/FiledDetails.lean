import RuleSlicing.Proofs.Partition

/-!
# Where details are filed

Details are filed in a second pass over the combinations of values, which looks the entry of each
result up. Under the number of an entry is then what those combinations have to report whose result
finds it. If equality of results is an equivalence, these are the combinations of its group.
-/

set_option autoImplicit false

namespace RuleSlicing

namespace SingleComputation

variable {Result Main Detail : Type}

/-- What some combinations of values have to report, in their order. -/
def detailsOf (computation : SingleComputation Result Main Detail)
    (keys : List (Slice × Result)) : List (SliceDetail Detail) :=
  keys.filterMap fun (slice, result) =>
    (computation.detail? result).map fun detail => ⟨slice, detail⟩

variable [BEq Main] {computation : SingleComputation Result Main Detail}

/-! ## The second pass -/

/-- Whether a result finds the entry with a number. -/
def finds (computation : SingleComputation Result Main Detail) (entries : List (Entry Main))
    (id : Nat) (result : Result) : Bool :=
  (computation.entryOf? entries result).any (·.id = id)

theorem finds_iff {entries : List (Entry Main)} {id : Nat} {result : Result} :
    computation.finds entries id result = true ↔
      ∃ entry, computation.entryOf? entries result = some entry ∧ entry.id = id := by
  unfold finds
  rw [Option.any_eq_true]
  exact exists_congr fun entry => and_congr_right fun _ => decide_eq_true_iff

/-- What those of some combinations have to report that find the entry with a number. -/
def detailsUnder (computation : SingleComputation Result Main Detail) (entries : List (Entry Main))
    (keys : List (Slice × Result)) (id : Nat) : List (SliceDetail Detail) :=
  computation.detailsOf (keys.filter fun (_, result) => computation.finds entries id result)

section Pass

variable (computation) (entries : List (Entry Main))

theorem detailsUnder_append (before after : List (Slice × Result)) (id : Nat) :
    computation.detailsUnder entries (before ++ after) id =
      computation.detailsUnder entries before id ++ computation.detailsUnder entries after id := by
  unfold detailsUnder detailsOf
  rw [List.filter_append, List.filterMap_append]

theorem exists_of_mem_detailsUnder {keys : List (Slice × Result)} {id : Nat}
    {record : SliceDetail Detail} (member : record ∈ computation.detailsUnder entries keys id) :
    ∃ result, (record.slice, result) ∈ keys ∧ computation.detail? result = some record.detail ∧
      computation.finds entries id result = true := by
  obtain ⟨⟨slice, result⟩, inKeys, made⟩ := List.mem_filterMap.mp member
  obtain ⟨detail, reported, rfl⟩ := Option.map_eq_some_iff.mp made
  exact ⟨result, (List.mem_filter.mp inKeys).1, reported, (List.mem_filter.mp inKeys).2⟩

/-- One step of the second pass files one record under one number, or nothing. -/
theorem fileDetail_cases (filed : SortedMap Nat (List (SliceDetail Detail)))
    (entry : Slice × Result) :
    (computation.fileDetail entries filed entry = filed ∧
        ∀ id, computation.detailsUnder entries [entry] id = []) ∨
      ∃ number record, computation.fileDetail entries filed entry =
          filed.insert number ((filed.get? number).getD [] ++ [record]) ∧
        ∀ id, computation.detailsUnder entries [entry] id =
          if id = number then [record] else [] := by
  obtain ⟨slice, result⟩ := entry
  unfold fileDetail detailsUnder detailsOf finds
  cases reported : computation.detail? result with
  | none =>
      refine .inl ⟨by simp only [reported], fun id => ?_⟩
      rw [List.filterMap_eq_nil_iff]
      intro entry member
      obtain rfl := List.mem_singleton.mp (List.mem_of_mem_filter member)
      simp only [reported, Option.map_none]
  | some detail =>
      cases found : computation.entryOf? entries result with
      | none => exact .inl ⟨by simp only [reported, found], fun id => by simp [found]⟩
      | some entry =>
          refine .inr ⟨entry.id, ⟨slice, detail⟩, by simp only [reported, found], fun id => ?_⟩
          by_cases same : id = entry.id
          · simp [found, reported, same]
          · simp [found, same, Ne.symm same]

/-- Under a number is what those combinations have to report that find its entry. -/
theorem get?_fileDetails (keys : List (Slice × Result)) (id : Nat) :
    ((computation.fileDetails entries keys).get? id).getD [] =
        computation.detailsUnder entries keys id ∧
      (computation.fileDetails entries keys).get? id ≠ some [] := by
  unfold fileDetails
  induction keys using List.reverseRecOn with
  | nil => exact ⟨rfl, nofun⟩
  | append_singleton before entry ih =>
      obtain ⟨soFar, occupied⟩ := ih
      rw [List.foldl_append, List.foldl_cons, List.foldl_nil, detailsUnder_append, ← soFar]
      obtain ⟨same, nothing⟩ | ⟨number, record, inserted, added⟩ :=
        computation.fileDetail_cases entries (before.foldl (computation.fileDetail entries) ∅) entry
      · rw [same, nothing, List.append_nil]
        exact ⟨rfl, occupied⟩
      · rw [inserted, added, SortedMap.get?_insert]
        by_cases here : id = number
        · simp [here]
        · simpa [here] using occupied

/-- Something is filed under a number if the combinations that find its entry have something to
report. -/
theorem get?_fileDetails_eq_some_iff (keys : List (Slice × Result)) (id : Nat)
    (details : List (SliceDetail Detail)) :
    (computation.fileDetails entries keys).get? id = some details ↔
      details = computation.detailsUnder entries keys id ∧ details ≠ [] := by
  obtain ⟨filed, occupied⟩ := computation.get?_fileDetails entries keys id
  rw [← filed]
  cases found : (computation.fileDetails entries keys).get? id with
  | none => simp
  | some others =>
      rw [found] at occupied
      simp only [Option.some.injEq, Option.getD_some]
      constructor
      · intro same
        exact ⟨same.symm, fun none => occupied (congrArg some (same.trans none))⟩
      · exact fun given => given.1.symm

/-- What is filed comes from a combination of values. -/
theorem exists_of_mem_fileDetails {keys : List (Slice × Result)}
    {filed : Nat × List (SliceDetail Detail)}
    (isFiled : filed ∈ (computation.fileDetails entries keys).entries)
    {record : SliceDetail Detail} (member : record ∈ filed.2) :
    ∃ result, (record.slice, result) ∈ keys ∧ computation.detail? result = some record.detail ∧
      computation.finds entries filed.1 result = true := by
  have stored := (SortedMap.get?_eq_some_iff _ filed.1 filed.2).mpr isFiled
  rw [((computation.get?_fileDetails_eq_some_iff entries keys filed.1 filed.2).mp stored).1]
    at member
  exact computation.exists_of_mem_detailsUnder entries member

end Pass

/-! ## Groups of combinations -/

variable {run : Run Result}

theorem perm_groups (run : Run Result) :
    ((computation.groups run).flatMap (·.2.2)).Perm run.keys := by
  have grouped := perm_groupBy (fun entry => computation.main entry.2) run.keys
  rw [← map_snd_numbered (groupBy _ run.keys), List.flatMap_map] at grouped
  exact grouped

theorem mem_keys_of_mem_groups {run : Run Result} {group : Nat × Main × List (Slice × Result)}
    (member : group ∈ computation.groups run) {entry : Slice × Result} (inGroup : entry ∈ group.2.2) :
    entry ∈ run.keys :=
  (perm_groups run).mem_iff.mp (List.mem_flatMap.mpr ⟨group, member, inGroup⟩)

theorem mem_groupBy_of_mem_groups {group : Nat × Main × List (Slice × Result)}
    (member : group ∈ computation.groups run) :
    group.2 ∈ groupBy (fun (_, result) => computation.main result) run.keys := by
  rw [← map_snd_numbered (groupBy _ run.keys)]
  exact List.mem_map_of_mem member

theorem ascending_groups (run : Run Result) :
    (computation.groups run).Pairwise fun left right => left.1 < right.1 := by
  have numbers : ((computation.groups run).map (·.1)).Pairwise (· < ·) := by
    unfold groups
    rw [map_fst_numbered]
    exact List.pairwise_lt_range'
  exact List.pairwise_map.mp numbers

variable [EquivBEq Main]

theorem distinct_groups (run : Run Result) :
    (computation.groups run).Pairwise fun left right => (left.2.1 == right.2.1) = false := by
  have distinct := pairwise_groupBy (fun entry : Slice × Result => computation.main entry.2) run.keys
  rw [← map_snd_numbered (groupBy _ run.keys)] at distinct
  exact List.pairwise_map.mp distinct

theorem eq_filter_of_mem_groups {group : Nat × Main × List (Slice × Result)}
    (member : group ∈ computation.groups run) :
    group.2.2 = run.keys.filter fun (_, result) => computation.main result == group.2.1 :=
  eq_filter_of_mem_groupBy _ _ _ (mem_groupBy_of_mem_groups member)

section Members

variable {left right : Nat × Main × List (Slice × Result)}
  (leftMember : left ∈ computation.groups run) (rightMember : right ∈ computation.groups run)

include leftMember rightMember

theorem eq_of_beq_groups (same : (left.2.1 == right.2.1) = true) : left = right :=
  eq_of_beq_key (distinct_groups run) leftMember rightMember same

omit [EquivBEq Main] in
theorem eq_of_number_groups (same : left.1 = right.1) : left = right := by
  have numbers : ((computation.groups run).map (·.1)).Nodup :=
    List.pairwise_map.mpr ((ascending_groups run).imp Nat.ne_of_lt)
  exact List.inj_on_of_nodup_map numbers leftMember rightMember same

end Members

/-! ## The groups and the second pass -/

section Entries

variable {dimensions : List ReportedDimension}

omit [EquivBEq Main] in
theorem exists_group_of_entryOf? {result : Result} {entry : Entry Main}
    (found : computation.entryOf? (computation.entriesOf run dimensions) result = some entry) :
    ∃ group ∈ computation.groups run, entry.id = group.1 ∧
      (group.2.1 == computation.main result) = true := by
  have equal : (entry.result == computation.main result) = true :=
    List.find?_some (p := fun entry : Entry Main => entry.result == computation.main result) found
  obtain ⟨group, inGroups, rfl⟩ := List.mem_map.mp (List.mem_of_find?_eq_some found)
  exact ⟨group, inGroups, rfl, equal⟩

/-- A result finds the entry of the group with its result. -/
theorem finds_of_mem_groups {group : Nat × Main × List (Slice × Result)}
    (member : group ∈ computation.groups run) (result : Result) :
    computation.finds (computation.entriesOf run dimensions) group.1 result =
      (computation.main result == group.2.1) := by
  rw [Bool.eq_iff_iff, finds_iff]
  constructor
  · intro ⟨entry, found, number⟩
    obtain ⟨other, inGroups, sameNumber, equal⟩ := exists_group_of_entryOf? found
    have same := eq_of_number_groups inGroups member (sameNumber.symm.trans number)
    exact BEq.symm (same ▸ equal)
  · intro equal
    have listed : (computation.entryOf? (computation.entriesOf run dimensions) result).isSome :=
      List.find?_isSome.mpr ⟨_, List.mem_map_of_mem member, BEq.symm equal⟩
    obtain ⟨entry, found⟩ := Option.isSome_iff_exists.mp listed
    obtain ⟨other, inGroups, sameNumber, otherEqual⟩ := exists_group_of_entryOf? found
    have same := eq_of_beq_groups inGroups member (BEq.trans otherEqual equal)
    exact ⟨entry, found, same ▸ sameNumber⟩

/-- What is filed under the number of a group is what the group has to report. -/
theorem detailsUnder_of_mem_groups {group : Nat × Main × List (Slice × Result)}
    (member : group ∈ computation.groups run) :
    computation.detailsUnder (computation.entriesOf run dimensions) run.keys group.1 =
      computation.detailsOf group.2.2 := by
  unfold detailsUnder
  simp only [finds_of_mem_groups member]
  rw [← eq_filter_of_mem_groups member]

/-- The second pass files what the groups have to report, under their numbers. -/
theorem entries_fileDetails :
    (computation.fileDetails (computation.entriesOf run dimensions) run.keys).entries =
      ((computation.groups run).map fun (id, _, keys) => (id, computation.detailsOf keys)).filter
        fun (_, details) => !details.isEmpty := by
  have ascending : ((computation.groups run).map fun (id, _, keys) =>
      (id, computation.detailsOf keys)).Pairwise (·.1 < ·.1) :=
    List.pairwise_map.mpr (ascending_groups run)
  refine SortedMap.eq_of_ascending_entries (SortedMap.ascending _)
    (ascending.sublist List.filter_sublist) fun (id, details) => ?_
  rw [← SortedMap.get?_eq_some_iff, get?_fileDetails_eq_some_iff, List.mem_filter]
  constructor
  · intro ⟨made, occupied⟩
    -- A combination with a detail finds the entry with the number, so a group has the number.
    obtain ⟨record, isRecord⟩ := List.exists_mem_of_ne_nil details occupied
    obtain ⟨result, _, _, found⟩ := computation.exists_of_mem_detailsUnder _ (made ▸ isRecord)
    obtain ⟨entry, isEntry, rfl⟩ := finds_iff.mp found
    obtain ⟨group, inGroups, number, _⟩ := exists_group_of_entryOf? isEntry
    rw [number] at made ⊢
    rw [detailsUnder_of_mem_groups inGroups] at made
    exact ⟨List.mem_map.mpr ⟨group, inGroups, by rw [made]⟩, by simpa using occupied⟩
  · intro ⟨inGroups, occupied⟩
    obtain ⟨group, member, rfl, rfl⟩ := List.mem_map.mp inGroups
    exact ⟨(detailsUnder_of_mem_groups member).symm, by simpa using occupied⟩

end Entries

end SingleComputation

end RuleSlicing
