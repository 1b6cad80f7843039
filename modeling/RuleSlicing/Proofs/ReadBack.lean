import RuleSlicing.Proofs.Descriptions
import RuleSlicing.Proofs.Examples

/-!
# What is reported can be read back

All ranges of a compiled model come from descriptions. Between the values that they declare
lie readable values only, so every slice that is made or reported fixes ranges that are read
back from their descriptions.
-/

set_option autoImplicit false

namespace RuleSlicing

/-! ## Declared values -/

namespace Domain

/-- All declared dates can be read. -/
def Readable : Domain → Prop
  | .date points => ∀ day ∈ points.declared, Date.Readable day
  | _ => True

theorem readable_empty (type : PropertyType) : (empty type).Readable := by
  cases type with
  | date => exact fun _ member => absurd member List.not_mem_nil
  | boolean | integer | enumeration => trivial

theorem Readable.add? {domain extended : Domain} {range : PropertyRange}
    (readable : domain.Readable) (added : domain.add? range = some extended)
    (values : ∀ value ∈ range, value.Readable) : extended.Readable := by
  unfold Domain.add? at added
  split at added
  · cases added
    trivial
  · cases added
    trivial
  · cases added
    trivial
  · cases added
    intro day member
    rcases Breakpoints.mem_declared_add member with earlier | inRange
    · exact readable day earlier
    · exact values (.date day) ((PropertyRange.date_mem_iff _ _).mpr inRange)
  · cases added

theorem Readable.foldlM {ranges : List PropertyRange} {domain final : Domain}
    (readable : domain.Readable) (declared : ranges.foldlM Domain.add? domain = some final)
    (values : ∀ range ∈ ranges, ∀ value ∈ range, value.Readable) : final.Readable := by
  induction ranges generalizing domain with
  | nil =>
      cases declared
      exact readable
  | cons range rest ih =>
      rw [List.foldlM_cons] at declared
      obtain ⟨extended, added, declared⟩ := Option.bind_eq_some_iff.mp declared
      obtain ⟨here, others⟩ := List.forall_mem_cons.mp values
      exact ih (readable.add? added here) declared others

theorem readable_of_ofRanges? {type : PropertyType} {ranges : List PropertyRange}
    {domain : Domain} (declared : ofRanges? type ranges = some domain)
    (values : ∀ range ∈ ranges, ∀ value ∈ range, value.Readable) : domain.Readable :=
  (readable_empty type).foldlM declared values

/-- The least and the greatest declared value of numbers or dates can be read. -/
theorem Readable.extreme {domain : Domain} (readable : domain.Readable)
    (supported : domain.type.supportsIntervals = true) {value : PropertyValue}
    (found : domain.min? = some value ∨ domain.max? = some value) :
    value.type = domain.type ∧ value.Readable := by
  cases domain with
  | boolean | enumeration => cases supported
  | integer points =>
      rcases found with found | found
      · obtain ⟨number, _, rfl⟩ := Option.map_eq_some_iff.mp found
        exact ⟨rfl, number.low_le, number.le_high⟩
      · obtain ⟨number, _, rfl⟩ := Option.map_eq_some_iff.mp found
        exact ⟨rfl, number.low_le, number.le_high⟩
  | date points =>
      rcases found with found | found
      · obtain ⟨day, least, rfl⟩ := Option.map_eq_some_iff.mp found
        exact ⟨rfl, readable day ((Breakpoints.min?_eq_some_iff _ _).mp least).1⟩
      · obtain ⟨day, greatest, rfl⟩ := Option.map_eq_some_iff.mp found
        exact ⟨rfl, readable day ((Breakpoints.max?_eq_some_iff _ _).mp greatest).1⟩

/-- All values of the domain lie between declared ones. -/
theorem Readable.of_mem {domain : Domain} (readable : domain.Readable) {value : PropertyValue}
    (member : value ∈ domain) : value.Readable := by
  cases value with
  | boolean | enumeration => trivial
  | integer number => exact ⟨number.low_le, number.le_high⟩
  | date day =>
      cases domain with
      | boolean | integer | enumeration => cases member
      | date points =>
          obtain ⟨min, max, least, greatest, above, below⟩ := member
          exact Date.readable_of_between
            (readable min ((Breakpoints.min?_eq_some_iff _ _).mp least).1)
            (readable max ((Breakpoints.max?_eq_some_iff _ _).mp greatest).1) above below

end Domain

/-! ## Compiled models -/

namespace Model

theorem describable_of_compile {document : ModelDocument} {model : Model}
    (compiled : compile document = .ok model) :
    ∀ property ∈ model.properties, property.range.Describable := by
  obtain ⟨_, _, _, renders⟩ := compile_eq_ok_iff.mp compiled
  intro property member
  obtain ⟨spec, _, accepted⟩ := exists_left_of_forall₂ renders.denote member
  exact PropertySpec.describable_of_toProperty accepted

theorem readable_of_selects {document : ModelDocument} {model : Model}
    (compiled : compile document = .ok model) {selectors : List Selector} {axis : Axis}
    (member : axis ∈ model.axes selectors) {value : PropertyValue} (selected : axis.Selects value) :
    value.Readable := by
  have inSpace := (Axis.mem_ofSelectors_iff.mp member).1
  have declared := (sound_of_compile compiled).domains axis.dimension inSpace
  refine (Domain.readable_of_ofRanges? declared fun range inRanges => ?_).of_mem selected.1
  obtain ⟨property, kept, rfl⟩ := List.mem_map.mp inRanges
  exact (describable_of_compile compiled property (List.mem_filter.mp kept).1).readable

end Model

/-! ## Slices -/

namespace Slice

/-- All ranges that a slice fixes have a property. -/
def FixesOnly (Holds : PropertyRange → Prop) (slice : Slice) : Prop :=
  ∀ name coordinate, slice.get? name = some coordinate → Holds coordinate.range

variable {Holds : PropertyRange → Prop} {slice : Slice}

theorem FixesOnly.project (fixes : slice.FixesOnly Holds) (discipline : Discipline) :
    (slice.project discipline).FixesOnly Holds := by
  intro name coordinate fixed
  rw [get?_project] at fixed
  exact fixes name coordinate (Option.eq_some_of_filter_eq_some fixed)

theorem FixesOnly.without (fixes : slice.FixesOnly Holds) (name : String) :
    (slice.without name).FixesOnly Holds := by
  intro other coordinate fixed
  rw [get?_without] at fixed
  split at fixed
  · cases fixed
  · exact fixes other coordinate fixed

theorem FixesOnly.fix (fixes : slice.FixesOnly Holds) {property : Property}
    (holds : Holds property.range) (discipline : Discipline) :
    (slice.fix property discipline).FixesOnly Holds := by
  intro name coordinate fixed
  rw [get?_fix] at fixed
  split at fixed
  · cases fixed
    exact holds
  · exact fixes name coordinate fixed

theorem describable_slice {axes : List Axis} (distinct : (axes.map Axis.name).Nodup) {point : Point}
    (readable : ∀ axis ∈ axes, (point axis.name).Readable) :
    (point.slice axes).FixesOnly PropertyRange.Describable := by
  intro name coordinate fixed
  obtain ⟨axis, member, _, rfl⟩ := Point.exists_of_get?_slice distinct fixed
  exact PropertyRange.describable_single (readable axis member)

theorem Shaped.describable {axes : List Axis} (shaped : slice.Shaped axes [])
    (wellShaped : slice.FixesOnly PropertyRange.WellShaped)
    (readable : ∀ axis ∈ axes, ∀ value, axis.Selects value → value.Readable) :
    slice.FixesOnly PropertyRange.Describable := by
  intro name coordinate fixed
  refine ⟨fun value inside => ?_, wellShaped name coordinate fixed⟩
  obtain ⟨axis, member, rfl⟩ := shaped.named name coordinate fixed
  obtain ⟨range, same, selected⟩ := shaped.selected axis member
  obtain rfl := Option.some.inj (fixed.symm.trans same)
  exact readable axis member value (selected value inside)

theorem readsBack_of_describable (describable : slice.FixesOnly PropertyRange.Describable) :
    ∀ property ∈ slice.properties, property.ReadsBack := by
  intro property member
  obtain ⟨⟨_, discipline⟩, listed, rfl⟩ := List.mem_map.mp member
  obtain ⟨⟨name, coordinate⟩, stored, same⟩ := List.mem_map.mp listed
  cases same
  exact Property.readsBack_of_describable
    (describable name coordinate ((SortedMap.get?_eq_some_iff _ _ _).mpr stored))

end Slice

/-! ## Merged slices -/

theorem MergeRule.wellShaped_merge (rule : MergeRule) (ranges : List PropertyRange) :
    ∀ range ∈ rule.merge ranges, range.WellShaped := by
  intro range member
  cases rule with
  | list =>
      cases ranges with
      | nil => cases member
      | cons first rest =>
          rw [List.mem_singleton.mp member]
          exact .inl (PropertyRange.isDiscrete_ofValues _ _)
  | integerPieces pieces =>
      obtain ⟨window, _, rfl⟩ := List.mem_map.mp member
      exact .inr rfl
  | datePieces pieces =>
      obtain ⟨window, _, rfl⟩ := List.mem_map.mp member
      exact .inr rfl

namespace ReportedDimension

theorem wellShaped_merge (dimension : ReportedDimension) {slices : List Slice}
    (each : ∀ slice ∈ slices, slice.FixesOnly PropertyRange.WellShaped) :
    ∀ slice ∈ dimension.merge slices, slice.FixesOnly PropertyRange.WellShaped := by
  intro slice member
  obtain ⟨⟨rest, members⟩, group, member⟩ := List.mem_flatMap.mp member
  obtain ⟨⟨origin, inSlices, rfl⟩, _⟩ := (mem_groupByHash_iff _ _ _ _).mp group
  have others := (each origin inSlices).without dimension.name
  simp only at member
  split at member
  · rwa [List.mem_singleton.mp member]
  · obtain ⟨range, merged, rfl⟩ := List.mem_map.mp member
    exact others.fix (dimension.rule.wellShaped_merge _ range merged) .split

theorem wellShaped_mergeAll (dimensions : List ReportedDimension) {slices : List Slice}
    (each : ∀ slice ∈ slices, slice.FixesOnly PropertyRange.WellShaped) :
    ∀ slice ∈ mergeAll dimensions slices, slice.FixesOnly PropertyRange.WellShaped := by
  induction dimensions generalizing slices with
  | nil => exact each
  | cons dimension rest ih => exact ih (dimension.wellShaped_merge each)

end ReportedDimension

/-! ## Responses -/

section Compiled

variable {document : ModelDocument} {model : Model}
  (compiled : Model.compile document = .ok model) {request : Request}

include compiled

theorem describable_of_all {allowed : Discipline → Bool} {default : Discipline}
    {selectors : List Selector}
    (resolved : request.resolve model.space allowed default = .ok selectors)
    {maxSlices : Nat} {slices : List Slice}
    (made : Slice.all selectors model.space.dimensions maxSlices = .ok slices) :
    ∀ slice ∈ slices, slice.FixesOnly PropertyRange.Describable := by
  have sound := Model.sound_of_compile compiled
  have known := sound.known selectors
  intro slice member
  obtain ⟨point, relevant, rfl⟩ := (mem_slices_iff sound resolved made).mp member
  refine Slice.describable_slice known.distinct fun axis inAxes => ?_
  have selected := (Axis.mem_values_iff (known.grounded axis inAxes)).mp (relevant axis inAxes)
  exact Model.readable_of_selects compiled inAxes selected.1

section Run

variable {limits : Limits} {Result : Type} {computation : Computation Result} {run : Run Result}
  (success : computation.run request model limits = .ok run)

include success

theorem describable_of_key {key : Slice} (member : key ∈ run.keys.map (·.1)) :
    key.FixesOnly PropertyRange.Describable := by
  obtain ⟨results, ran⟩ := Computation.exists_ran (Model.sound_of_compile compiled) success
  obtain ⟨slices, made, perm⟩ := ran.made
  rw [ran.keys, Computation.mem_map_mergeBySplit_iff] at member
  obtain ⟨entry, inResults, rfl⟩ := member
  have inSlices := perm.mem_iff.mp (List.mem_map_of_mem inResults)
  exact (describable_of_all compiled ran.resolved made _ inSlices).project .split

theorem describable_of_sets (jobId : String) (variant : Variant) :
    ∀ slice ∈ (Status.ofRun jobId request variant run).sliceSets.flatten,
      slice.FixesOnly PropertyRange.Describable := by
  obtain ⟨selectors, slices, resolved, made, _, rfl⟩ :=
    Computation.eq_completeRun_of_run success
  intro slice member
  obtain ⟨_, inSets, inSet⟩ := List.mem_flatten.mp member
  obtain ⟨set, grouped, rfl⟩ := List.mem_map.mp inSets
  obtain ⟨whole, inSlices, rfl⟩ := List.mem_map.mp inSet
  have inMade := (SliceSet.perm_group slices).mem_iff.mp
    (List.mem_flatMap.mpr ⟨set, grouped, inSlices⟩)
  exact (describable_of_all compiled resolved made whole inMade).project .split

theorem describable_of_entry {Main : Type} [BEq Main] {mainOf : Result → Main} {entry : Entry Main}
    (member : entry ∈ Entry.ofGroups (run.reported model)
      (groupBy (fun (_, result) => mainOf result) run.keys)) :
    ∀ slice ∈ entry.slices, slice.FixesOnly PropertyRange.Describable := by
  have sound := Model.sound_of_compile compiled
  obtain ⟨results, ran⟩ := Computation.exists_ran sound success
  obtain ⟨keys, subset, slices, shaped⟩ := ran.exists_merged_of_entry sound member
  intro slice inEntry
  -- What the merged ranges look like comes from the merge, what is in them from the axes.
  refine (shaped slice inEntry).describable ?_ fun axis inAxes value selected => ?_
  · rw [slices] at inEntry
    refine ReportedDimension.wellShaped_mergeAll _ (fun key inKeys => ?_) slice inEntry
    intro name coordinate fixed
    exact (describable_of_key compiled success (subset key inKeys) name coordinate fixed).wellShaped
  · exact Model.readable_of_selects compiled (Axis.mem_having_iff.mp inAxes).1 selected

end Run

end Compiled

/-- All slices in a response: of its entries, of its details, and those of the sets. -/
def SingleResponse.slices {Main Detail : Type} (response : SingleResponse Main Detail) :
    List Slice :=
  response.entries.flatMap (·.slices) ++ (response.details.flatMap (·.2)).map (·.slice) ++
    response.status.sliceSets.flatten

def ListResponse.slices {Element Main : Type} (response : ListResponse Element Main) :
    List Slice :=
  (response.elements.flatMap (·.entries)).flatMap (·.slices) ++ response.status.sliceSets.flatten

def Slice.ReadsBack (slice : Slice) : Prop := ∀ property ∈ slice.properties, property.ReadsBack

section Respond

variable {document : ModelDocument} {model : Model}
  (compiled : Model.compile document = .ok model) {request : Request} {limits : Limits}
  {jobId : String}

include compiled

theorem SingleComputation.readsBack_of_respond {Result Main Detail : Type} [BEq Main]
    {computation : SingleComputation Result Main Detail} {response : SingleResponse Main Detail}
    (responded : computation.respond jobId request model limits = .ok response) :
    ∀ slice ∈ response.slices, slice.ReadsBack := by
  obtain ⟨run, success, responded⟩ := ok_of_bind responded
  cases responded
  intro slice member
  refine Slice.readsBack_of_describable ?_
  rcases List.mem_append.mp member with shown | inSets
  · rcases List.mem_append.mp shown with inEntries | inDetails
    · obtain ⟨entry, inResponse, inEntry⟩ := List.mem_flatMap.mp inEntries
      exact describable_of_entry compiled success inResponse slice inEntry
    · obtain ⟨detail, filed, rfl⟩ := List.mem_map.mp inDetails
      obtain ⟨_, isFiled, inDetail⟩ := List.mem_flatMap.mp filed
      obtain ⟨_, inKeys, _⟩ := computation.exists_of_mem_fileDetails _ isFiled inDetail
      exact describable_of_key compiled success (List.mem_map_of_mem inKeys)
  · exact describable_of_sets compiled success jobId _ slice inSets

theorem ListComputation.readsBack_of_respond {Result Element Main : Type} [LinearOrdered Element]
    [BEq Main] {computation : ListComputation Result Element Main}
    {response : ListResponse Element Main}
    (responded : computation.respond jobId request model limits = .ok response) :
    ∀ slice ∈ response.slices, slice.ReadsBack := by
  obtain ⟨run, success, responded⟩ := ok_of_bind responded
  cases responded
  intro slice member
  refine Slice.readsBack_of_describable ?_
  rcases List.mem_append.mp member with shown | inSets
  · obtain ⟨entry, inElements, inEntry⟩ := List.mem_flatMap.mp shown
    obtain ⟨element, inResponse, inElement⟩ := List.mem_flatMap.mp inElements
    obtain ⟨⟨id, code⟩, _, rfl⟩ := List.mem_map.mp inResponse
    exact describable_of_entry compiled success inElement slice inEntry
  · exact describable_of_sets compiled success jobId _ slice inSets

end Respond

/-- What a description denotes is read back from its own description, and so is every range of
a slice that is made or reported for a request on a compiled model. -/
theorem reported_ranges_read_back :
    (∀ (spec : RangeSpec) (type : PropertyType) (range : PropertyRange),
      spec.toRange type = .ok range → spec.NormalizesTo type range) ∧
    (∀ (spec : PropertySpec) (property : Property),
      spec.toProperty = .ok property → property.ReadsBack) ∧
    ∀ (document : ModelDocument) (model : Model), Model.compile document = .ok model →
      ∀ (request : Request) (limits : Limits) (jobId : String),
        (∀ allowed default selectors slices,
          request.resolve model.space allowed default = .ok selectors →
          Slice.all selectors model.space.dimensions limits.maxSlices = .ok slices →
            ∀ slice ∈ slices, slice.ReadsBack) ∧
        (∀ {Result Main Detail : Type} [BEq Main]
          (computation : SingleComputation Result Main Detail)
          (response : SingleResponse Main Detail),
          computation.respond jobId request model limits = .ok response →
            ∀ slice ∈ response.slices, slice.ReadsBack) ∧
        ∀ {Result Element Main : Type} [LinearOrdered Element] [BEq Main]
          (computation : ListComputation Result Element Main)
          (response : ListResponse Element Main),
          computation.respond jobId request model limits = .ok response →
            ∀ slice ∈ response.slices, slice.ReadsBack := by
  refine ⟨fun spec type range accepted => .of_toRange accepted, fun spec property accepted => ?_,
    fun document model compiled request limits jobId => ⟨?_, ?_, ?_⟩⟩
  · exact Property.readsBack_of_describable (PropertySpec.describable_of_toProperty accepted)
  · intro allowed default selectors slices resolved made slice member
    exact Slice.readsBack_of_describable (describable_of_all compiled resolved made slice member)
  · intro _ _ _ _ computation response responded
    exact SingleComputation.readsBack_of_respond compiled responded
  · intro _ _ _ _ _ computation response responded
    exact ListComputation.readsBack_of_respond compiled responded

theorem reported_ranges_read_back_sample :
    (∃ range, RangeSpec.toRange ⟨none, some (.string "2023-12-31"), some (.string "2024-02-29")⟩
        .date = .ok range ∧
      RangeSpec.NormalizesTo ⟨none, some (.string "2023-12-31"), some (.string "2024-02-29")⟩
        .date range) ∧
    (∃ property, PropertySpec.toProperty ⟨"year", .integer, ⟨some [.integer 2], none, none⟩⟩ =
        .ok property ∧ property.ReadsBack) ∧
    ∃ model selectors slices single list, Model.compile Sample.document = .ok model ∧
      Sample.request.resolve model.space consistency.allows consistency.defaultDiscipline =
        .ok selectors ∧
      Slice.all selectors model.space.dimensions Limits.standard.maxSlices = .ok slices ∧
      (∀ slice ∈ slices, slice.ReadsBack) ∧
      consistency.respond "job" Sample.request model .standard = .ok single ∧
      (∀ slice ∈ single.slices, slice.ReadsBack) ∧
      buildability.respond "job" Sample.request model .standard = .ok list ∧
      ∀ slice ∈ list.slices, slice.ReadsBack := by
  obtain ⟨ranges, properties, responses⟩ := reported_ranges_read_back
  refine ⟨⟨_, rfl, ranges _ _ _ rfl⟩,
    ⟨_, rfl, properties ⟨"year", .integer, ⟨some [.integer 2], none, none⟩⟩ _ rfl⟩, ?_⟩
  obtain ⟨model, list, compiled, listed, _⟩ := Sample.exists_buildability
  obtain ⟨other, single, compiledAgain, responded⟩ := Sample.exists_response
  obtain rfl := Except.ok.inj (compiled.symm.trans compiledAgain)
  obtain ⟨run, success, _⟩ := ok_of_bind responded
  obtain ⟨selectors, slices, resolved, made, _⟩ := Computation.eq_completeRun_of_run success
  obtain ⟨ofSlices, ofSingle, ofList⟩ := responses _ model compiled Sample.request .standard "job"
  exact ⟨model, selectors, slices, single, list, compiled, resolved, made,
    ofSlices _ _ _ _ resolved made, responded, ofSingle _ _ responded, listed, ofList _ _ listed⟩

end RuleSlicing
