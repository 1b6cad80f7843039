import RuleSlicing.Proofs.Details

/-!
# Details are filed under their entries

A group of combinations has all combinations with its result, in their order, and its
number is that of its entry. So the details that are filed under the number of an entry are
those of the combinations with its result, and each of these combinations lies in one of the
slices that the entry has been merged to.
-/

set_option autoImplicit false

namespace RuleSlicing

/-! ## Values in slices -/

namespace Slice

/-- Whether a slice has, for each property of a key, a range with the value of the key. -/
def holds (slice key : Slice) : Bool :=
  key.coordinates.entries.all fun (name, coordinate) =>
    match coordinate.range.only?, slice.range? name with
    | some value, some range => range.contains value
    | _, _ => false

theorem holds_iff {slice key : Slice} :
    slice.holds key = true ↔ ∀ name coordinate, key.get? name = some coordinate →
      ∃ value range, coordinate.range.only? = some value ∧ slice.range? name = some range ∧
        value ∈ range := by
  have entry : ∀ name (coordinate : Coordinate), (match coordinate.range.only?,
      slice.range? name with
      | some value, some range => range.contains value
      | _, _ => false) = true ↔ ∃ value range, coordinate.range.only? = some value ∧
        slice.range? name = some range ∧ value ∈ range := by
    intro name coordinate
    cases coordinate.range.only? <;> cases slice.range? name <;> simp [PropertyRange.mem_def]
  unfold holds get?
  rw [List.all_eq_true]
  constructor
  · intro all name coordinate fixed
    exact (entry name coordinate).mp
      (all (name, coordinate) ((SortedMap.get?_eq_some_iff _ _ _).mp fixed))
  · rintro all ⟨name, coordinate⟩ member
    exact (entry name coordinate).mpr
      (all name coordinate ((SortedMap.get?_eq_some_iff _ _ _).mpr member))

/-- A slice of the axes holds the values of a point if it covers the point. -/
theorem holds_slice {axes : List Axis} (distinct : (axes.map Axis.name).Nodup) {slice : Slice}
    (shaped : slice.Shaped axes []) (point : Point) :
    slice.holds (point.slice axes) = slice.covers point := by
  rw [Bool.eq_iff_iff, holds_iff, covers_iff]
  constructor
  · intro held name coordinate fixed
    obtain ⟨axis, inAxes, rfl⟩ := shaped.named name coordinate fixed
    obtain ⟨value, range, only, here, inside⟩ :=
      held axis.name _ (Point.get?_slice_of_mem distinct point inAxes)
    rw [PropertyRange.only?_single] at only
    cases only
    rw [range?_of_get? fixed] at here
    cases here
    exact inside
  · intro covered name coordinate fixed
    obtain ⟨axis, inAxes, rfl, rfl⟩ := Point.exists_of_get?_slice distinct fixed
    obtain ⟨range, here, _⟩ := shaped.selected axis inAxes
    exact ⟨point axis.name, range, PropertyRange.only?_single _, range?_of_get? here,
      covered axis.name _ here⟩

end Slice

/-! ## Filed details -/

section Filed

variable {Result Main Detail : Type}

/-- The details of a response, each with the number under which it is filed. -/
def SingleResponse.records (response : SingleResponse Main Detail) :
    List (Nat × SliceDetail Detail) :=
  response.details.flatMap fun (id, details) => details.map fun detail => (id, detail)

/-- How the details of some combinations of values are filed in a response. -/
structure SingleResponse.Files [BEq Main] (computation : SingleComputation Result Main Detail)
    (keys : List (Slice × Result)) (response : SingleResponse Main Detail) : Prop where
  /-- Details are filed under numbers of entries, once under each, and there are some. -/
  numbers : (response.details.map (·.1)).Sublist (response.entries.map (·.id))
  occupied : ∀ filed ∈ response.details, filed.2 ≠ []
  /-- Under one number are details of combinations only, in their order. -/
  ordered : ∀ filed ∈ response.details, (filed.2.map (·.slice)).Sublist (keys.map (·.1))
  /-- One entry has the result of a combination. It has the only record of the combination,
  if there is any, and one of its slices holds the values of the combination. -/
  filed : ∀ key result, (key, result) ∈ keys → ∃ entry ∈ response.entries,
    (∀ other ∈ response.entries, (other.result == computation.main result) = true ↔
      other = entry) ∧
    response.records.filter (·.2.slice = key) =
      ((computation.detail? result).map fun detail => (entry.id, ⟨key, detail⟩)).toList ∧
    entry.slices.countP (·.holds key) = 1

end Filed

namespace SingleComputation

variable {Result Main Detail : Type} [BEq Main]

/-- The combinations of a run with the numbers of their groups. -/
def placed (computation : SingleComputation Result Main Detail) (run : Run Result) :
    List (Slice × Nat × Result) :=
  (computation.groups run).flatMap fun (id, _, keys) =>
    keys.map fun (key, result) => (key, id, result)

/-- What is filed for a combination under the number of its group. -/
def record? (computation : SingleComputation Result Main Detail) :
    Slice × Nat × Result → Option (Nat × SliceDetail Detail) :=
  fun (key, id, result) => (computation.detail? result).map fun detail => (id, ⟨key, detail⟩)

variable {computation : SingleComputation Result Main Detail} {run : Run Result}

theorem mem_placed_iff {key : Slice} {id : Nat} {result : Result} :
    (key, id, result) ∈ computation.placed run ↔
      ∃ main keys, (id, main, keys) ∈ computation.groups run ∧ (key, result) ∈ keys := by
  unfold placed
  simp only [List.mem_flatMap, List.mem_map, Prod.exists, Prod.mk.injEq]
  constructor
  · rintro ⟨_, main, keys, inGroups, _, _, inGroup, rfl, rfl, rfl⟩
    exact ⟨main, keys, inGroups, inGroup⟩
  · rintro ⟨main, keys, inGroups, inGroup⟩
    exact ⟨id, main, keys, inGroups, key, result, inGroup, rfl, rfl, rfl⟩

theorem perm_placed : ((computation.placed run).map (·.1)).Perm (run.keys.map (·.1)) := by
  have grouped := (@perm_groups _ _ _ _ computation run).map (·.1)
  rw [List.map_flatMap] at grouped
  unfold placed
  rw [List.map_flatMap, List.flatMap_congr fun group _ => List.map_map]
  exact grouped

section Report

variable [EquivBEq Main] (computation) (jobId : String) (request : Request) (model : Model)

/-- The records are what is filed for the combinations. -/
theorem records_report : (computation.report jobId request model run).records =
    (computation.placed run).filterMap computation.record? := by
  unfold SingleResponse.records placed
  rw [details_report, flatMap_occupied fun _ => rfl, List.flatMap_map, List.filterMap_flatMap]
  refine List.flatMap_congr fun group _ => ?_
  show (computation.detailsOf group.2.2).map _ = _
  unfold detailsOf
  rw [List.map_filterMap, List.filterMap_map]
  refine List.filterMap_congr fun entry _ => ?_
  exact Option.map_map _ _ _

/-- A combination has a record if its result has a detail, under the number of its group. -/
theorem records_of_placed (unique : (run.keys.map (·.1)).Nodup) {key : Slice} {id : Nat}
    {result : Result} (member : (key, id, result) ∈ computation.placed run) :
    (computation.report jobId request model run).records.filter (·.2.slice = key) =
      ((computation.detail? result).map fun detail => (id, ⟨key, detail⟩)).toList := by
  rw [records_report]
  refine filter_filterMap_key (perm_placed.nodup_iff.mpr unique) (fun entry record made => ?_)
    member
  obtain ⟨_, _, rfl⟩ := Option.map_eq_some_iff.mp made
  rfl

end Report

/-! ## Entries of combinations -/

omit [BEq Main] in
theorem sublist_detailsOf (keys : List (Slice × Result)) :
    ((computation.detailsOf keys).map (·.slice)).Sublist (keys.map (·.1)) := by
  induction keys with
  | nil => exact .slnil
  | cons entry rest ih =>
      obtain ⟨key, result⟩ := entry
      cases reported : computation.detail? result with
      | none => simpa [detailsOf, reported] using ih.cons key
      | some detail => simpa [detailsOf, reported] using ih.cons_cons key

end SingleComputation

section Ran

variable {Result Main Detail : Type} [BEq Main] [EquivBEq Main]
  {computation : SingleComputation Result Main Detail} {request : Request} {limits : Limits}
  {model : Model} {run : Run Result} {results : List (Slice × Result)}
  (ran : computation.Ran request model limits run results) (sound : model.Sound)

include ran sound

omit [BEq Main] [EquivBEq Main] in
/-- Merged slices hold a combination once if it is one of those that were merged. -/
theorem Computation.Ran.countP_holds {keys : List Slice} (unique : keys.Nodup)
    (subset : ∀ key ∈ keys, key ∈ run.keys.map (·.1)) {key : Slice} (member : key ∈ keys) :
    (ReportedDimension.mergeAll (run.reported model) keys).countP (·.holds key) = 1 := by
  have known := run.known_splitAxes sound
  obtain ⟨shaped, covered⟩ := mergeAll_reported ran sound unique subset
  obtain ⟨point, relevant, rfl⟩ := (ran.mem_map_keys_iff sound).mp (subset key member)
  have selected := fun axis inAxes =>
    (Axis.mem_values_iff (known.grounded axis inAxes)).mp (relevant axis inAxes)
  have itself : (point.standIn (run.splitAxes model)).slice (run.splitAxes model) =
      point.slice (run.splitAxes model) := by
    refine (Point.slice_eq_iff known.distinct).mpr fun axis inAxes => ?_
    rw [Point.standIn_of_mem known.distinct inAxes]
    exact (selected axis inAxes).2
  have within : point.Within (run.splitAxes model) := fun axis inAxes => (selected axis inAxes).1
  rw [List.countP_congr fun slice inSlices => by
    rw [Slice.holds_slice known.distinct (shaped slice inSlices)], covered point within, itself]
  exact List.count_eq_one_of_mem unique member

theorem SingleComputation.files_report (jobId : String) :
    (computation.report jobId request model run).Files computation run.keys := by
  have perm := perm_groupBy (fun ((_, result) : Slice × Result) => computation.main result) run.keys
  have partition := ran.partition_groupBy sound computation.main
  have details := computation.details_report jobId request model run
  constructor
  · have numbers : ((computation.groups run).map fun (id, _, keys) =>
        (id, computation.detailsOf keys)).map (·.1) =
          (computation.report jobId request model run).entries.map (·.id) := by
      show List.map _ (List.map _ _) = List.map _ (List.map _ _)
      rw [List.map_map, List.map_map]
      rfl
    rw [← numbers, details]
    exact List.filter_sublist.map _
  · intro filed member
    rw [details] at member
    simpa using (List.mem_filter.mp member).2
  · intro filed member
    rw [details] at member
    obtain ⟨group, inGroups, rfl⟩ := List.mem_map.mp (List.mem_filter.mp member).1
    refine (sublist_detailsOf group.2.2).trans ?_
    rw [eq_filter_of_mem_groups inGroups]
    exact List.filter_sublist.map _
  · intro key result member
    obtain ⟨⟨id, main, keys⟩, inGroups, inGroup⟩ := List.mem_flatMap.mp
      ((@perm_groups _ _ _ _ computation run).mem_iff.mpr member)
    obtain ⟨unique, subset⟩ := ran.keys_of_group perm (mem_groupBy_of_mem_groups inGroups)
    have same : (computation.main result == main) = true := by
      rw [eq_filter_of_mem_groups inGroups] at inGroup
      exact (List.mem_filter.mp inGroup).2
    have inEntries : Entry.ofKeys (run.reported model) id main (keys.map (·.1)) ∈
        (computation.report jobId request model run).entries := List.mem_map_of_mem inGroups
    refine ⟨_, inEntries, fun other inOthers => ⟨fun equal => ?_, ?_⟩, ?_, ?_⟩
    · exact eq_of_beq_key partition.distinct inOthers inEntries (BEq.trans equal same)
    · rintro rfl
      exact BEq.symm same
    · exact records_of_placed computation jobId request model ran.nodup_keys
        (mem_placed_iff.mpr ⟨main, keys, inGroups, inGroup⟩)
    · exact ran.countP_holds sound unique subset (List.mem_map_of_mem inGroup)

end Ran

/-- Whatever results are equal and have details, the details of a response are those of the
combinations that its run has merged. Each is filed once, under the number of the one entry
with its result, in the order of the combinations, and one slice of this entry holds the
values of the combination. -/
theorem SingleComputation.details_filed {Result Main Detail : Type} [BEq Main] [EquivBEq Main]
    {document : ModelDocument} {model : Model} (compiled : Model.compile document = .ok model)
    {computation : SingleComputation Result Main Detail} {jobId : String} {request : Request}
    {limits : Limits} {response : SingleResponse Main Detail}
    (responded : computation.respond jobId request model limits = .ok response) :
    ∃ run, computation.run request model limits = .ok run ∧ (run.keys.map (·.1)).Nodup ∧
      response.Files computation run.keys := by
  have sound := Model.sound_of_compile compiled
  rw [respond_eq_map_report] at responded
  obtain ⟨run, success, rfl⟩ := ok_of_map responded
  obtain ⟨results, ran⟩ := Computation.exists_ran sound success
  exact ⟨run, success, ran.nodup_keys, files_report ran sound jobId⟩

theorem SingleComputation.details_filed_sample : ∃ model response run,
    Model.compile Sample.document = .ok model ∧
    consistency.respond "job" Sample.request model .standard = .ok response ∧
    consistency.run Sample.request model .standard = .ok run ∧
    (run.keys.map (·.1)).Nodup ∧ response.Files consistency run.keys := by
  obtain ⟨model, response, compiled, responded⟩ := Sample.exists_response
  obtain ⟨run, success, unique, files⟩ := SingleComputation.details_filed compiled responded
  exact ⟨model, response, run, compiled, responded, success, unique, files⟩

end RuleSlicing
