import RuleSlicing.Proofs.Covering
import RuleSlicing.Proofs.Failures
import RuleSlicing.Proofs.Runs
import RuleSlicing.Response.Basic

/-!
# Entries partition the selection

The entries of a response share out the selected values of the axes that are
reported value by value: each point of them is covered by one slice of one entry,
no slice holds anything else, and the entry of a point has the result of the
combination of values that stands for it.
-/

set_option autoImplicit false

namespace RuleSlicing

/-! ## Numbers -/

theorem map_fst_numbered {Item : Type} (items : List Item) :
    (numbered items).map (·.1) = List.range' 1 items.length := by
  unfold numbered
  rw [List.map_map]
  exact List.zipIdx_map_snd 1 items

theorem map_snd_numbered {Item : Type} (items : List Item) :
    (numbered items).map (·.2) = items := by
  unfold numbered
  rw [List.map_map]
  exact List.zipIdx_map_fst 1 items

theorem numbered_map {Item Other : Type} (transform : Item → Other) (items : List Item) :
    numbered (items.map transform) =
      (numbered items).map fun (id, item) => (id, transform item) := by
  unfold numbered
  rw [List.zipIdx_map, List.map_map, List.map_map]
  rfl

/-! ## Entries by result -/

def Entry.ofGroups {Result Main : Type} (dimensions : List ReportedDimension)
    (groups : List (Main × List (Slice × Result))) : List (Entry Main) :=
  (numbered groups).map fun (id, result, members) =>
    .ofKeys dimensions id result (members.map (·.1))

section Entries

variable {Result Main : Type} (dimensions : List ReportedDimension)
  (groups : List (Main × List (Slice × Result)))

theorem mem_ofGroups {entry : Entry Main}
    (member : entry ∈ Entry.ofGroups dimensions groups) :
    ∃ group ∈ groups, entry.result = group.1 ∧
      entry.slices = ReportedDimension.mergeAll dimensions (group.2.map (·.1)) := by
  obtain ⟨⟨id, group⟩, inNumbered, rfl⟩ := List.mem_map.mp member
  refine ⟨group, ?_, rfl, rfl⟩
  rw [← map_snd_numbered groups]
  exact List.mem_map_of_mem inNumbered

private theorem slices_ofGroups :
    (Entry.ofGroups dimensions groups).flatMap (·.slices) =
      groups.flatMap fun group => ReportedDimension.mergeAll dimensions (group.2.map (·.1)) := by
  unfold Entry.ofGroups
  conv_rhs => rw [← map_snd_numbered groups]
  rw [List.flatMap_map, List.flatMap_map]
  rfl

theorem ids_ofGroups :
    (Entry.ofGroups dimensions groups).map (·.id) =
      List.range' 1 (Entry.ofGroups dimensions groups).length := by
  have count : (Entry.ofGroups dimensions groups).length = groups.length := by
    simp [Entry.ofGroups, numbered]
  rw [count, ← map_fst_numbered]
  unfold Entry.ofGroups
  rw [List.map_map]
  rfl

private theorem pairwise_ofGroups [BEq Main]
    (distinct : groups.Pairwise fun left right => (left.1 == right.1) = false) :
    (Entry.ofGroups dimensions groups).Pairwise fun left right =>
      (left.result == right.result) = false := by
  rw [← map_snd_numbered groups, List.pairwise_map] at distinct
  exact List.pairwise_map.mpr distinct

end Entries

/-- How entries share out the selected values of some axes, given the results of the
combinations of relevant values. -/
structure Entry.Partition {Result Main : Type} [BEq Main] (axes : List Axis)
    (mainOf : Result → Main) (keys : List (Slice × Result)) (entries : List (Entry Main)) :
    Prop where
  /-- Each point lies in one slice of one entry. -/
  once : ∀ point : Point, point.Within axes →
    (entries.flatMap (·.slices)).countP (·.covers point) = 1
  /-- Slices fix selected values for the axes and nothing else. -/
  inside : ∀ entry ∈ entries, ∀ slice ∈ entry.slices, slice.Shaped axes []
  /-- Different entries have different results. -/
  distinct : entries.Pairwise fun left right => (left.result == right.result) = false
  ids : entries.map (·.id) = List.range' 1 entries.length
  /-- The entry of a point has the result of the combination that represents it. -/
  faithful : ∀ point : Point, point.Within axes → ∃ key result, (key, result) ∈ keys ∧
    key.Represents axes point ∧
    (∀ other ∈ keys, other.1.Represents axes point → other = (key, result)) ∧
    ∀ entry ∈ entries, ∀ slice ∈ entry.slices, slice.covers point = true →
      (mainOf result == entry.result) = true

/-- Some slice of an entry with a result covers a point. -/
def Entry.Reports {Main : Type} (entries : List (Entry Main)) (point : Point) (result : Main) :
    Prop :=
  ∃ entry ∈ entries, entry.result = result ∧ ∃ slice ∈ entry.slices, slice.covers point = true

/-- The result of a combination is what is reported for the points that it represents. -/
theorem Entry.Partition.reports_iff {Result Main : Type} [BEq Main] [LawfulBEq Main]
    {axes : List Axis} {mainOf : Result → Main} {keys : List (Slice × Result)}
    {entries : List (Entry Main)} (partition : Entry.Partition axes mainOf keys entries)
    {point : Point} (within : point.Within axes) {key : Slice} {value : Result}
    (member : (key, value) ∈ keys) (represents : key.Represents axes point) {result : Main} :
    Entry.Reports entries point result ↔ mainOf value = result := by
  obtain ⟨_, _, _, _, unique, faithful⟩ := partition.faithful point within
  cases unique (key, value) member represents
  constructor
  · rintro ⟨entry, inEntries, rfl, slice, inEntry, covers⟩
    exact eq_of_beq (faithful entry inEntries slice inEntry covers)
  · rintro rfl
    obtain ⟨slice, inSlices, covers⟩ := List.countP_pos_iff.mp <|
      (partition.once point within).symm ▸ Nat.one_pos
    obtain ⟨entry, inEntries, inEntry⟩ := List.mem_flatMap.mp inSlices
    have same := eq_of_beq (faithful entry inEntries slice inEntry covers)
    exact ⟨entry, inEntries, same.symm, slice, inEntry, covers⟩

namespace Computation.Ran

variable {Result : Type} {computation : Computation Result} {request : Request} {limits : Limits}
  {model : Model} {run : Run Result} {results : List (Slice × Result)}
  (ran : computation.Ran request model limits run results) (sound : model.Sound)

include ran sound

/-- All relevant values of an axis that is reported value by value occur. -/
theorem exists_occurring {axis : Axis} (inSplit : axis ∈ run.splitAxes model) :
    ∃ occurring : List PropertyValue,
      (run.keys.map (·.1)).filterMap (·.range? axis.name) = occurring.map .single ∧
      ∀ value, value ∈ occurring ↔ value ∈ axis.values := by
  have known := run.known_splitAxes sound
  have fixed := fun (point : Point) => Point.get?_slice_of_mem known.distinct point inSplit
  have made : ∀ range ∈ (run.keys.map (·.1)).filterMap (·.range? axis.name),
      ∃ value, value ∈ axis.values ∧ PropertyRange.single value = range := by
    intro range member
    obtain ⟨key, inKeys, found⟩ := List.mem_filterMap.mp member
    obtain ⟨point, relevant, rfl⟩ := (ran.mem_map_keys_iff sound).mp inKeys
    refine ⟨point axis.name, relevant axis inSplit, ?_⟩
    exact Option.some.inj ((Slice.range?_of_get? (fixed point)).symm.trans found)
  obtain ⟨occurring, relevant, ranges⟩ := exists_eq_map made
  refine ⟨occurring, ranges, fun value => ⟨relevant value, fun member => ?_⟩⟩
  -- Some combination has the value, as the other axes have relevant values, too.
  obtain ⟨base, baseRelevant⟩ := ran.exists_relevant sound
  obtain ⟨point, chosen⟩ : ∃ point : Point, ∀ other ∈ run.splitAxes model,
      point other.name ∈ other.values ∧ (other = axis → point other.name = value) := by
    refine Point.exists_forall (fun other given => given ∈ other.values ∧
      (other = axis → given = value)) known.distinct fun other inAxes => ?_
    by_cases same : other = axis
    · exact ⟨value, same ▸ member, fun _ => rfl⟩
    · exact ⟨base other.name, baseRelevant other (Axis.mem_having_iff.mp inAxes).1,
        fun equal => absurd equal same⟩
  have inKeys := (ran.mem_map_keys_iff sound).mpr
    ⟨point, fun other inAxes => (chosen other inAxes).1, rfl⟩
  have found : PropertyRange.single value ∈ (run.keys.map (·.1)).filterMap (·.range? axis.name) :=
    List.mem_filterMap.mpr ⟨_, inKeys, by
      rw [Slice.range?, fixed point, (chosen axis inSplit).2 rfl]
      rfl⟩
  rw [ranges] at found
  obtain ⟨other, inOccurring, same⟩ := List.mem_map.mp found
  exact PropertyRange.single_inj same ▸ inOccurring

/-- The reported dimensions collect the relevant values of their axes. -/
theorem reported_collects {axis : Axis} (inSplit : axis ∈ run.splitAxes model) :
    (MergeRule.of axis.dimension.domain axis.range
      ((run.keys.map (·.1)).filterMap (·.range? axis.name))).Collects axis := by
  obtain ⟨occurring, ranges, complete⟩ := exists_occurring ran sound inSplit
  rw [ranges]
  exact MergeRule.of_collects ((run.known_splitAxes sound).grounded axis inSplit) complete

theorem reported_eq : run.reported model = (run.splitAxes model).map fun axis =>
    ⟨axis.name, .of axis.dimension.domain axis.range
      ((run.keys.map (·.1)).filterMap (·.range? axis.name))⟩ :=
  reported_of_resolve ran.resolved sound _

/-- Merged combinations fix selected values for the reported axes, and cover a selected
point as often as the combination that stands for it occurs. -/
theorem mergeAll_reported {keys : List Slice} (unique : keys.Nodup)
    (subset : ∀ key ∈ keys, key ∈ run.keys.map (·.1)) :
    (∀ slice ∈ ReportedDimension.mergeAll (run.reported model) keys,
        slice.Shaped (run.splitAxes model) []) ∧
      ∀ point : Point, point.Within (run.splitAxes model) →
        (ReportedDimension.mergeAll (run.reported model) keys).countP (·.covers point) =
          keys.count ((point.standIn (run.splitAxes model)).slice (run.splitAxes model)) := by
  have known := run.known_splitAxes sound
  have split : ∀ axis ∈ run.splitAxes model, axis.discipline = .split :=
    fun axis member => (Axis.mem_having_iff.mp member).2
  have collects := fun axis (member : axis ∈ run.splitAxes model) =>
    reported_collects ran sound member
  have made := fun key (member : key ∈ keys) => (ran.mem_map_keys_iff sound).mp (subset key member)
  rw [reported_eq ran sound]
  constructor
  · exact ReportedDimension.shaped_mergeAll known.distinct known.grounded collects split made
  · intro point within
    exact ReportedDimension.countP_mergeAll known.distinct known.grounded collects split made
      unique within

private theorem standIn_mem_keys {point : Point} (within : point.Within (run.splitAxes model)) :
    (point.standIn (run.splitAxes model)).slice (run.splitAxes model) ∈ run.keys.map (·.1) :=
  (ran.mem_map_keys_iff sound).mpr
    ⟨_, Point.standIn_mem_values (run.known_splitAxes sound) within, rfl⟩

section Groups

variable {Main : Type} {groups : List (Main × List (Slice × Result))}
  (perm : (groups.flatMap (·.2)).Perm run.keys)

include perm

omit sound in
theorem keys_of_group {group : Main × List (Slice × Result)} (member : group ∈ groups) :
    (group.2.map (·.1)).Nodup ∧ ∀ key ∈ group.2.map (·.1), key ∈ run.keys.map (·.1) := by
  constructor
  · have unique := (perm.map (·.1)).nodup_iff.mpr ran.nodup_keys
    rw [List.map_flatMap] at unique
    exact (List.nodup_flatMap.mp unique).1 group member
  · intro key inGroup
    obtain ⟨entry, inMembers, rfl⟩ := List.mem_map.mp inGroup
    exact List.mem_map_of_mem
      (perm.mem_iff.mp (List.mem_flatMap.mpr ⟨group, member, inMembers⟩))

private theorem countP_of_group {group : Main × List (Slice × Result)} (member : group ∈ groups)
    {point : Point} (within : point.Within (run.splitAxes model)) :
    (ReportedDimension.mergeAll (run.reported model) (group.2.map (·.1))).countP
        (·.covers point) =
      (group.2.map (·.1)).count
        ((point.standIn (run.splitAxes model)).slice (run.splitAxes model)) := by
  obtain ⟨unique, subset⟩ := keys_of_group ran perm member
  exact (mergeAll_reported ran sound unique subset).2 point within

theorem count_ofGroups {point : Point} (within : point.Within (run.splitAxes model)) :
    ((Entry.ofGroups (run.reported model) groups).flatMap (·.slices)).countP (·.covers point) =
      1 := by
  rw [slices_ofGroups, List.countP_flatMap]
  refine Eq.trans (congrArg List.sum (List.map_congr_left fun group member =>
    countP_of_group ran sound perm member within)) ?_
  have whole := (perm.map (·.1)).count_eq
    ((point.standIn (run.splitAxes model)).slice (run.splitAxes model))
  rw [List.map_flatMap, List.count_flatMap] at whole
  exact whole.trans (List.count_eq_one_of_mem ran.nodup_keys (standIn_mem_keys ran sound within))

end Groups

/-- The slices of an entry are merged combinations of values. -/
theorem exists_merged_of_entry {Main : Type} [BEq Main] {mainOf : Result → Main}
    {entry : Entry Main} (member : entry ∈ Entry.ofGroups (run.reported model)
      (groupBy (fun (_, result) => mainOf result) run.keys)) :
    ∃ keys : List Slice, (∀ key ∈ keys, key ∈ run.keys.map (·.1)) ∧
      entry.slices = ReportedDimension.mergeAll (run.reported model) keys ∧
      ∀ slice ∈ entry.slices, slice.Shaped (run.splitAxes model) [] := by
  have perm := perm_groupBy (fun ((_, result) : Slice × Result) => mainOf result) run.keys
  obtain ⟨group, inGroups, _, slices⟩ := mem_ofGroups _ _ member
  obtain ⟨unique, subset⟩ := keys_of_group ran perm inGroups
  refine ⟨group.2.map (·.1), subset, slices, ?_⟩
  rw [slices]
  exact (mergeAll_reported ran sound unique subset).1

theorem partition_groupBy {Main : Type} [BEq Main] [EquivBEq Main] (mainOf : Result → Main) :
    Entry.Partition (run.splitAxes model) mainOf run.keys
      (Entry.ofGroups (run.reported model)
        (groupBy (fun (_, result) => mainOf result) run.keys)) := by
  have known := run.known_splitAxes sound
  have perm := perm_groupBy (fun ((_, result) : Slice × Result) => mainOf result) run.keys
  constructor
  · intro point within
    exact count_ofGroups ran sound perm within
  · intro entry member
    obtain ⟨_, _, _, shaped⟩ := exists_merged_of_entry ran sound member
    exact shaped
  · exact pairwise_ofGroups _ _ (pairwise_groupBy _ _)
  · exact ids_ofGroups _ _
  · intro point within
    obtain ⟨⟨key, result⟩, inKeys, isKey⟩ := List.mem_map.mp (standIn_mem_keys ran sound within)
    have isKey : key = (point.standIn (run.splitAxes model)).slice (run.splitAxes model) := isKey
    have same : ∀ other ∈ run.keys, other.1 = key → other = (key, result) :=
      fun other member equal => List.inj_on_of_nodup_map ran.nodup_keys member inKeys equal
    have relevant := Point.standIn_mem_values known within
    refine ⟨key, result, inKeys, ?_, ?_, ?_⟩
    · rw [isKey]
      exact (represents_slice_iff known within relevant).mpr rfl
    · intro other member represents
      obtain ⟨representative, otherRelevant, isSlice⟩ :=
        (ran.mem_map_keys_iff sound).mp (List.mem_map_of_mem member)
      rw [← isSlice] at represents
      exact same other member (isSlice.symm.trans
        (((represents_slice_iff known within otherRelevant).mp represents).trans isKey.symm))
    · intro entry member slice inEntry covers
      obtain ⟨group, inGroups, isResult, slices⟩ := mem_ofGroups _ _ member
      have positive : 0 < (group.2.map (·.1)).count key := by
        rw [isKey, ← countP_of_group ran sound perm inGroups within]
        exact List.countP_pos_iff.mpr ⟨slice, slices ▸ inEntry, covers⟩
      obtain ⟨other, inGroup, equal⟩ := List.mem_map.mp (List.count_pos_iff.mp positive)
      have otherMember : other ∈ run.keys :=
        perm.mem_iff.mp (List.mem_flatMap.mpr ⟨group, inGroups, inGroup⟩)
      rw [same other otherMember equal] at inGroup
      rw [isResult]
      exact beq_of_mem_groupBy _ _ group inGroups _ inGroup

end Computation.Ran

/-! ## Responses -/

section Respond

variable {model : Model} (sound : model.Sound) {jobId : String} {request : Request}
  {limits : Limits}

include sound

theorem SingleComputation.exists_partition {Result Main Detail : Type} [BEq Main] [EquivBEq Main]
    {computation : SingleComputation Result Main Detail} {response : SingleResponse Main Detail}
    (responded : computation.respond jobId request model limits = .ok response) :
    ∃ run results, computation.run request model limits = .ok run ∧
      computation.Ran request model limits run results ∧
      Entry.Partition (run.splitAxes model) computation.main run.keys response.entries := by
  obtain ⟨run, success, responded⟩ := ok_of_bind responded
  cases responded
  obtain ⟨results, ran⟩ := Computation.exists_ran sound success
  exact ⟨run, results, success, ran, ran.partition_groupBy sound computation.main⟩

theorem ListComputation.exists_partition {Result Element Main : Type} [LinearOrdered Element]
    [BEq Main] [EquivBEq Main] {computation : ListComputation Result Element Main}
    {response : ListResponse Element Main}
    (responded : computation.respond jobId request model limits = .ok response) :
    ∃ run results, computation.run request model limits = .ok run ∧
      computation.Ran request model limits run results ∧
      response.status.notices = run.notices ∧
      response.elements.map (·.element) = (computation.occurring run).toList ∧
      response.elements.map (·.id) = List.range' 1 response.elements.length ∧
      ∀ element ∈ response.elements, Entry.Partition (run.splitAxes model)
        (computation.mainOf element.element) run.keys element.entries := by
  obtain ⟨run, success, responded⟩ := ok_of_bind responded
  cases responded
  obtain ⟨results, ran⟩ := Computation.exists_ran sound success
  refine ⟨run, results, success, ran, rfl, ?_, ?_, fun element member => ?_⟩
  · rw [List.map_map]
    exact map_snd_numbered _
  · rw [List.map_map, List.length_map, numbered, List.length_map, List.length_zipIdx]
    exact map_fst_numbered _
  · obtain ⟨⟨id, code⟩, _, rfl⟩ := List.mem_map.mp member
    exact ran.partition_groupBy sound (computation.mainOf code)

end Respond

/-- The reported slices of a response partition the selected values of the axes that
are reported value by value; for a list of elements, those of each element do. -/
theorem reported_slices_partition {document : ModelDocument} {model : Model}
    (compiled : Model.compile document = .ok model) (jobId : String) (request : Request)
    (limits : Limits) :
    (∀ {Result Main Detail : Type} [BEq Main] [EquivBEq Main]
      (computation : SingleComputation Result Main Detail) (response : SingleResponse Main Detail),
      computation.respond jobId request model limits = .ok response →
        ∃ run results, computation.run request model limits = .ok run ∧
          computation.Ran request model limits run results ∧
          Entry.Partition (run.splitAxes model) computation.main run.keys response.entries) ∧
    ∀ {Result Element Main : Type} [LinearOrdered Element] [BEq Main] [EquivBEq Main]
      (computation : ListComputation Result Element Main) (response : ListResponse Element Main),
      computation.respond jobId request model limits = .ok response →
        ∃ run results, computation.run request model limits = .ok run ∧
          computation.Ran request model limits run results ∧
          ∀ element ∈ response.elements, Entry.Partition (run.splitAxes model)
            (computation.mainOf element.element) run.keys element.entries := by
  have sound := Model.sound_of_compile compiled
  constructor
  · intro _ _ _ _ _ computation response responded
    exact SingleComputation.exists_partition sound responded
  · intro _ _ _ _ _ _ computation response responded
    obtain ⟨run, results, success, ran, _, _, _, partition⟩ :=
      ListComputation.exists_partition sound responded
    exact ⟨run, results, success, ran, partition⟩

section Success

variable {request : Request} {model : Model} {limits : Limits} {selectors : List Selector}
  {slices : List Slice}
  (made : Slice.all selectors model.space.dimensions limits.maxSlices = .ok slices)

include made

/-- Without fatal errors there is a response on the slices of a request. -/
theorem SingleComputation.exists_response {Result Main Detail : Type} [BEq Main]
    (computation : SingleComputation Result Main Detail) (mild : ∀ task error,
      (computation.compute task).outcome = .error error → error.isFatal = false)
    (resolved : request.resolve model.space computation.allows computation.defaultDiscipline =
      .ok selectors) (jobId : String) :
    ∃ response, computation.respond jobId request model limits = .ok response := by
  obtain ⟨run, success⟩ := Computation.exists_run mild resolved made
  unfold respond
  rw [success]
  exact ⟨_, rfl⟩

theorem ListComputation.exists_response {Result Element Main : Type} [LinearOrdered Element]
    [BEq Main] (computation : ListComputation Result Element Main) (mild : ∀ task error,
      (computation.compute task).outcome = .error error → error.isFatal = false)
    (resolved : request.resolve model.space computation.allows computation.defaultDiscipline =
      .ok selectors) (jobId : String) :
    ∃ response, computation.respond jobId request model limits = .ok response := by
  obtain ⟨run, success⟩ := Computation.exists_run mild resolved made
  unfold respond
  rw [success]
  exact ⟨_, rfl⟩

end Success

namespace Sample

section Compiled

variable {model : Model} {selectors : List Selector}
  (compiled : Model.compile document = .ok model)
  (resolved : request.resolve model.space (fun _ => true) .any = .ok selectors)

include compiled resolved

theorem exists_slices : ∃ slices,
    Slice.all selectors model.space.dimensions Limits.standard.maxSlices = .ok slices := by
  cases compiled
  cases resolved
  exact ⟨_, rfl⟩

theorem exists_response_under (constraints : List String) :
    ∃ response, consistency.respond "job" { request with constraints } model .standard =
      .ok response := by
  obtain ⟨slices, made⟩ := exists_slices compiled resolved
  have resolved : ({ request with constraints } : Request).resolve model.space
      consistency.allows consistency.defaultDiscipline = .ok selectors := resolved
  exact SingleComputation.exists_response made consistency
    (fun _ _ => Consistency.mild_of_compute) resolved "job"

end Compiled

theorem exists_response : ∃ model response, Model.compile document = .ok model ∧
    consistency.respond "job" request model .standard = .ok response := by
  obtain ⟨model, selectors, compiled, resolved, _⟩ := exists_within
  obtain ⟨response, responded⟩ := exists_response_under compiled resolved []
  exact ⟨model, response, compiled, responded⟩

end Sample

theorem reported_slices_partition_sample : ∃ model response run results,
    Model.compile Sample.document = .ok model ∧
    consistency.respond "job" Sample.request model .standard = .ok response ∧
    consistency.run Sample.request model .standard = .ok run ∧
    consistency.Ran Sample.request model .standard run results ∧
    Entry.Partition (run.splitAxes model) consistency.main run.keys response.entries := by
  obtain ⟨model, response, compiled, responded⟩ := Sample.exists_response
  obtain ⟨run, results, success, ran, partition⟩ :=
    (reported_slices_partition compiled "job" Sample.request .standard).1 consistency response
      responded
  exact ⟨model, response, run, results, compiled, responded, success, ran, partition⟩

end RuleSlicing
