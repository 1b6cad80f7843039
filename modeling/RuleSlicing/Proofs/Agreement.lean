import RuleSlicing.Proofs.Limits

/-!
# The analyses agree

A request that splits every used dimension selects the same axes for both analyses, and
each of its combinations is one slice. What is allowed in this slice decides both: the
choice that shows consistency has every mandatory feature and no forbidden one, and all
features are forbidden if no choice is allowed.
-/

set_option autoImplicit false

namespace RuleSlicing

/-! ## Requests that split every dimension -/

/-- Every dimension with declared values is selected to be reported value by value. -/
def Request.SplitsAll (request : Request) (space : Space) : Prop :=
  ∀ dimension ∈ space.dimensions, dimension.isUnused = false →
    ∃ selection ∈ request.selections, selection.name = dimension.name ∧
      selection.discipline = some .split

section Selectors

variable {model : Model} (sound : model.Sound) {request : Request}
  (splits : request.SplitsAll model.space) {allowed : Discipline → Bool} {default : Discipline}
  {selectors : List Selector}
  (resolved : request.resolve model.space allowed default = .ok selectors)

include sound splits resolved

theorem split_of_splitsAll {axis : Axis} (member : axis ∈ model.axes selectors) :
    axis.discipline = .split := by
  obtain ⟨inSpace, used, partner, found, _, discipline⟩ := Axis.mem_ofSelectors_iff.mp member
  obtain ⟨selection, selected, same, isSplit⟩ := splits _ inSpace used
  obtain ⟨made, foundAgain, success⟩ := selector_of_resolve resolved sound inSpace selected same
  obtain rfl := Option.some.inj (found.symm.trans foundAgain)
  obtain ⟨_, _, _, _, rfl⟩ := selector_eq_ok_iff.mp success
  rw [discipline, isSplit]
  rfl

theorem having_of_splitsAll : Axis.having .split (model.axes selectors) = model.axes selectors :=
  List.filter_eq_self.mpr fun _ member =>
    decide_eq_true (split_of_splitsAll sound splits resolved member)

/-- What is selected does not depend on the analysis. -/
theorem axes_eq_of_splitsAll {otherAllowed : Discipline → Bool} {otherDefault : Discipline}
    {others : List Selector}
    (resolvedOthers : request.resolve model.space otherAllowed otherDefault = .ok others) :
    model.axes selectors = model.axes others := by
  refine List.filterMap_congr fun dimension member => ?_
  unfold Axis.of?
  split
  · rfl
  · rename_i used
    obtain ⟨selection, selected, same, isSplit⟩ :=
      splits dimension member (Bool.of_not_eq_true used)
    obtain ⟨made, found, success⟩ := selector_of_resolve resolved sound member selected same
    obtain ⟨other, foundOther, successOther⟩ :=
      selector_of_resolve resolvedOthers sound member selected same
    obtain ⟨_, _, range, ranged, rfl⟩ := selector_eq_ok_iff.mp success
    obtain ⟨_, _, otherRange, rangedOther, rfl⟩ := selector_eq_ok_iff.mp successOther
    obtain rfl := Except.ok.inj (ranged.symm.trans rangedOther)
    rw [found, foundOther, isSplit]
    rfl

end Selectors

/-! ## One slice -/

/-- Every feature is forbidden if nothing is consistent; if something is, the example has
every mandatory feature and no forbidden one. -/
structure ConsistencyResult.Agrees (result : ConsistencyResult) (statuses : BuildabilityResult) :
    Prop where
  inconsistent : result.consistent = false →
    ∀ code, Buildability.statusOf statuses code = .forbidden
  consistent : result.consistent = true → ∃ codes, result = ⟨true, some codes, none⟩ ∧
    (∀ code, Buildability.statusOf statuses code = .mandatory → code ∈ codes) ∧
    ∀ code, Buildability.statusOf statuses code = .forbidden → code ∉ codes

section Slices

variable {request : Request} {model : Model} {limits : Limits} {run : Run ConsistencyResult}
  {results : List (Slice × ConsistencyResult)}
  (ran : consistency.Ran request model limits run results)

include ran

/-- Without errors a set is found inconsistent only if nothing is allowed. -/
theorem Consistency.unsatisfiable_of_ran (quiet : run.notices.errors = []) {slice : Slice}
    {result : ConsistencyResult} (member : (slice, result) ∈ results)
    (negative : result.consistent = false) :
    ¬∃ valuation, (model.activation slice).Satisfies request.constraints valuation := by
  obtain ⟨set, _, active, attempted, quietly⟩ := ran.attempted _ member
  rw [← active, ← Activation.compatible_rules_iff]
  rcases Computation.attempt_eq_ok attempted with computed | ⟨_, _, loud⟩
  · rcases inconsistent_of_compute computed negative with ⟨conflicting, _⟩ | ⟨_, conflicting, _⟩
    · exact mt Activation.Compatible.without_constraints conflicting
    · exact conflicting
  · exact absurd (quietly quiet) loud

theorem Consistency.agrees_of_describes (quiet : run.notices.errors = []) {slice : Slice}
    {result : ConsistencyResult} (member : (slice, result) ∈ results)
    {statuses : BuildabilityResult} (describes :
      Buildability.Describes statuses (model.activation slice) request.constraints) :
    result.Agrees statuses := by
  constructor
  · intro negative code
    refine (describes.forbidden code).mpr (.inr fun valuation satisfies => ?_)
    exact absurd ⟨valuation, satisfies⟩ (unsatisfiable_of_ran ran quiet member negative)
  · intro positive
    obtain ⟨codes, isShown, shown⟩ := shownBy_of_ran ran member positive
    refine ⟨codes, isShown, fun code mandatory => ?_, fun code forbidden chosen => ?_⟩
    · exact List.contains_iff_mem.mp
        (((describes.mandatory code).mp mandatory).always _ shown.satisfies)
    · rcases (describes.forbidden code).mp forbidden with inactive | never
      · exact inactive (shown.active code chosen)
      · have isTrue : Valuation.ofTrue codes code = true := List.contains_iff_mem.mpr chosen
        exact Bool.false_ne_true ((never _ shown.satisfies).symm.trans isTrue)

end Slices

/-! ## Combinations that are slices -/

section Whole

variable {Result : Type} {computation : Computation Result} {request : Request} {limits : Limits}
  {model : Model} {run : Run Result} {results : List (Slice × Result)}
  (ran : computation.Ran request model limits run results) (sound : model.Sound)

include ran sound

theorem Computation.Ran.project_of_splitsAll (splits : request.SplitsAll model.space)
    {slice : Slice} {result : Result} (member : (slice, result) ∈ results) :
    slice.project .split = slice := by
  obtain ⟨point, _, rfl⟩ := (ran.exists_result_iff sound).mp ⟨result, member⟩
  have whole : Axis.having .split (run.axes model) = run.axes model :=
    having_of_splitsAll sound splits ran.resolved
  rw [Point.project_slice (run.known_axes sound).distinct, whole]

end Whole

section Keys

variable {request : Request} {model : Model} {limits : Limits} (sound : model.Sound)
  (splits : request.SplitsAll model.space)

include sound splits

theorem Buildability.describes_of_key {run : Run BuildabilityResult}
    {results : List (Slice × BuildabilityResult)}
    (ran : buildability.Ran request model limits run results) (quiet : run.notices.errors = [])
    {key : Slice} {statuses : BuildabilityResult} (member : (key, statuses) ∈ run.keys) :
    Describes statuses (model.activation key) request.constraints := by
  have kept : ∀ (discipline : Discipline) (left right : BuildabilityResult),
      Describes left (model.activation key) request.constraints →
      Describes right (model.activation key) request.constraints →
        Describes (buildability.merge discipline left right) (model.activation key)
          request.constraints := fun _ _ _ => Describes.merge
  have merged := (Computation.mem_mergeBySplit_iff _ _).mp (ran.keys ▸ member)
  refine Computation.holds_of_mergeKey? kept (fun entry inKey => ?_) merged
  obtain ⟨inResults, isKey⟩ := List.mem_filter.mp inKey
  rw [← eq_of_beq isKey, ran.project_of_splitsAll sound splits inResults]
  exact describes_of_ran ran quiet entry inResults

variable {run : Run ConsistencyResult} {results : List (Slice × ConsistencyResult)}
  (ran : consistency.Ran request model limits run results) (quiet : run.notices.errors = [])
  {other : Run BuildabilityResult} {otherResults : List (Slice × BuildabilityResult)}
  (ranOther : buildability.Ran request model limits other otherResults)
  (quietOther : other.notices.errors = [])

include ran quiet ranOther quietOther

theorem exists_agreeing_key {key : Slice} {result : ConsistencyResult}
    (member : (key, result) ∈ run.keys) :
    ∃ statuses, (key, statuses) ∈ other.keys ∧ result.Agrees statuses := by
  have axes : run.axes model = other.axes model :=
    axes_eq_of_splitsAll sound splits ran.resolved ranOther.resolved
  obtain ⟨slice, inResults, isKey⟩ := Consistency.exists_slice_of_key ran member
  rw [ran.project_of_splitsAll sound splits inResults] at isKey
  subst isKey
  have inKeys : slice ∈ other.keys.map (·.1) := by
    rw [ranOther.mem_map_keys_iff sound, show other.splitAxes model = run.splitAxes model from
      congrArg (Axis.having .split) axes.symm, ← ran.mem_map_keys_iff sound]
    exact List.mem_map_of_mem member
  obtain ⟨⟨_, statuses⟩, inOther, rfl⟩ := List.mem_map.mp inKeys
  exact ⟨statuses, inOther, Consistency.agrees_of_describes ran quiet inResults
    (Buildability.describes_of_key sound splits ranOther quietOther inOther)⟩

end Keys

/-! ## Responses -/

theorem ConsistencyResult.Agrees.of_reports {result : ConsistencyResult}
    {statuses : BuildabilityResult} (agrees : result.Agrees statuses) {chosen : Point}
    {elements : List (ElementEntries String FeatureStatus)}
    (reports : ∀ element ∈ elements, ∀ status, Entry.Reports element.entries chosen status ↔
      Buildability.statusOf statuses element.element = status) :
    (result.consistent = false → ∀ element ∈ elements, ∀ status,
      Entry.Reports element.entries chosen status ↔ status = .forbidden) ∧
    (result.consistent = true → ∃ codes, result = ⟨true, some codes, none⟩ ∧
      ∀ element ∈ elements,
        (Entry.Reports element.entries chosen .mandatory → element.element ∈ codes) ∧
        (Entry.Reports element.entries chosen .forbidden → element.element ∉ codes)) := by
  constructor
  · intro negative element member status
    rw [reports element member, agrees.inconsistent negative]
    exact eq_comm
  · intro positive
    obtain ⟨codes, isShown, mandatory, forbidden⟩ := agrees.consistent positive
    refine ⟨codes, isShown, fun element member => ⟨?_, ?_⟩⟩
    · rw [reports element member]
      exact mandatory element.element
    · rw [reports element member]
      exact forbidden element.element

/-- If every used dimension is split and neither analysis leaves an error, every feature is
forbidden at a combination that is found inconsistent, and the example of one that is found
consistent has the features that are mandatory there and none that is forbidden. -/
theorem analyses_agree {document : ModelDocument} {model : Model}
    (compiled : Model.compile document = .ok model) {request : Request}
    (splits : request.SplitsAll model.space) {jobId otherId : String} {limits : Limits}
    {single : SingleResponse Bool ConsistencyDetail} {list : ListResponse String FeatureStatus}
    (responded : consistency.respond jobId request model limits = .ok single)
    (listed : buildability.respond otherId request model limits = .ok list)
    (quiet : single.status.notices.errors = []) (quietList : list.status.notices.errors = []) :
    ∃ selectors run other,
      request.resolve model.space consistency.allows consistency.defaultDiscipline =
        .ok selectors ∧
      consistency.run request model limits = .ok run ∧
      buildability.run request model limits = .ok other ∧
      (∀ key result, (key, result) ∈ run.keys →
        ∃ statuses, (key, statuses) ∈ other.keys ∧ result.Agrees statuses) ∧
      ∀ chosen : Point, chosen.Within (model.axes selectors) →
        (Entry.Reports single.entries chosen false → ∀ element ∈ list.elements, ∀ status,
          Entry.Reports element.entries chosen status ↔ status = .forbidden) ∧
        (Entry.Reports single.entries chosen true → ∃ key codes,
          key.Represents (model.axes selectors) chosen ∧
          (single.details.flatMap (·.2)).filter (·.slice = key) = [⟨key, some codes, none⟩] ∧
          ∀ element ∈ list.elements,
            (Entry.Reports element.entries chosen .mandatory → element.element ∈ codes) ∧
            (Entry.Reports element.entries chosen .forbidden → element.element ∉ codes)) := by
  have sound := Model.sound_of_compile compiled
  obtain ⟨run, results, success, ran, partition⟩ :=
    SingleComputation.exists_partition sound responded
  obtain ⟨other, otherResults, otherSuccess, ranOther, notices, _, _, partitions⟩ :=
    ListComputation.exists_partition sound listed
  rw [SingleComputation.respond_eq_map_report, success] at responded
  cases responded
  have keys : ∀ key result, (key, result) ∈ run.keys →
      ∃ statuses, (key, statuses) ∈ other.keys ∧ result.Agrees statuses := fun _ _ =>
    exists_agreeing_key sound splits ran quiet ranOther (notices ▸ quietList)
  refine ⟨run.selectors, run, other, ran.resolved, success, otherSuccess, keys, ?_⟩
  intro chosen within
  have axes : run.splitAxes model = model.axes run.selectors :=
    having_of_splitsAll sound splits ran.resolved
  have otherAxes : other.splitAxes model = model.axes run.selectors :=
    (having_of_splitsAll sound splits ranOther.resolved).trans
      (axes_eq_of_splitsAll sound splits ranOther.resolved ran.resolved)
  rw [axes] at partition
  rw [otherAxes] at partitions
  obtain ⟨key, result, inKeys, represents, _, _⟩ := partition.faithful chosen within
  obtain ⟨statuses, inOther, agrees⟩ := keys key result inKeys
  have verdictIff : ∀ verdict,
      Entry.Reports (consistency.report jobId request model run).entries chosen verdict ↔
        result.consistent = verdict := fun _ => partition.reports_iff within inKeys represents
  obtain ⟨negative, positive⟩ := agrees.of_reports fun element member _ =>
    (partitions element member).reports_iff within inOther represents
  refine ⟨fun reported => negative ((verdictIff false).mp reported), fun reported => ?_⟩
  obtain ⟨codes, rfl, agree⟩ := positive ((verdictIff true).mp reported)
  exact ⟨key, codes, represents,
    SingleComputation.details_of_key consistency jobId request model ran.nodup_keys inKeys, agree⟩

namespace Sample

/-- All combinations of a year and a market are reported by themselves. -/
def splitRequest : Request :=
  { request with selections := [⟨"year", .integer, ⟨none, none, none⟩, some .split⟩,
      ⟨"market", .enumeration, ⟨none, none, none⟩, some .split⟩] }

variable {model : Model} (compiled : Model.compile document = .ok model)

include compiled

theorem splitsAll_splitRequest : splitRequest.SplitsAll model.space := by
  cases compiled
  intro dimension member _
  rcases List.mem_cons.mp member with rfl | inRest
  · exact ⟨_, .head _, rfl, rfl⟩
  · rw [List.mem_singleton.mp inRest]
    exact ⟨_, .tail _ (.head _), rfl, rfl⟩

theorem exists_splitResponses : ∃ selectors single list,
    splitRequest.resolve model.space consistency.allows consistency.defaultDiscipline =
      .ok selectors ∧
    point.Within (model.axes selectors) ∧
    consistency.respond "job" splitRequest model .standard = .ok single ∧
    buildability.respond "job" splitRequest model .standard = .ok list := by
  obtain ⟨selectors, others, slices, resolved, resolvedOthers, made, madeOthers, within⟩ :
      ∃ selectors others slices,
        splitRequest.resolve model.space consistency.allows consistency.defaultDiscipline =
          .ok selectors ∧
        splitRequest.resolve model.space buildability.allows buildability.defaultDiscipline =
          .ok others ∧
        Slice.all selectors model.space.dimensions Limits.standard.maxSlices = .ok slices ∧
        Slice.all others model.space.dimensions Limits.standard.maxSlices = .ok slices ∧
        point.Within (model.axes selectors) := by
    cases compiled
    refine ⟨_, _, _, rfl, rfl, rfl, rfl, fun axis member => ?_⟩
    rcases List.mem_cons.mp member with rfl | inRest
    · exact ⟨⟨_, _, rfl, rfl, by decide⟩, by decide⟩
    · rw [List.mem_singleton.mp inRest]
      exact ⟨List.Mem.head _, by decide⟩
  obtain ⟨single, responded⟩ := SingleComputation.exists_response made consistency
    (fun _ _ => Consistency.mild_of_compute) resolved "job"
  obtain ⟨list, listed⟩ := ListComputation.exists_response madeOthers buildability
    (fun _ _ => Buildability.mild_of_compute) resolvedOthers "job"
  exact ⟨selectors, single, list, resolved, within, responded, listed⟩

/-- Without constraints every combination is found consistent. -/
theorem reports_splitRequest {selectors : List Selector}
    (resolved : splitRequest.resolve model.space consistency.allows
      consistency.defaultDiscipline = .ok selectors)
    (within : point.Within (model.axes selectors))
    {single : SingleResponse Bool ConsistencyDetail}
    (responded : consistency.respond "job" splitRequest model .standard = .ok single) :
    Entry.Reports single.entries point true := by
  have sound := Model.sound_of_compile compiled
  obtain ⟨run, results, _, ran, partition⟩ := SingleComputation.exists_partition sound responded
  obtain rfl : selectors = run.selectors := Except.ok.inj (resolved.symm.trans ran.resolved)
  obtain ⟨key, result, inKeys, represents, _, _⟩ := partition.faithful point (within.having .split)
  obtain ⟨slice, inResults, _⟩ := Consistency.exists_slice_of_key ran inKeys
  refine (partition.reports_iff (within.having .split) inKeys represents).mpr ?_
  exact (consistent_iff_of_ran ran _ inResults).mpr (consistent_activation compiled slice)

end Sample

theorem analyses_agree_sample : ∃ model selectors single list run other key codes,
    Model.compile Sample.document = .ok model ∧
    Sample.splitRequest.SplitsAll model.space ∧
    consistency.respond "job" Sample.splitRequest model .standard = .ok single ∧
    buildability.respond "job" Sample.splitRequest model .standard = .ok list ∧
    single.status.notices.errors = [] ∧ list.status.notices.errors = [] ∧
    Sample.splitRequest.resolve model.space consistency.allows consistency.defaultDiscipline =
      .ok selectors ∧
    consistency.run Sample.splitRequest model .standard = .ok run ∧
    buildability.run Sample.splitRequest model .standard = .ok other ∧
    (∀ key result, (key, result) ∈ run.keys →
      ∃ statuses, (key, statuses) ∈ other.keys ∧ result.Agrees statuses) ∧
    Sample.point.Within (model.axes selectors) ∧
    Entry.Reports single.entries Sample.point true ∧
    key.Represents (model.axes selectors) Sample.point ∧
    (single.details.flatMap (·.2)).filter (·.slice = key) = [⟨key, some codes, none⟩] ∧
    ∀ element ∈ list.elements,
      (Entry.Reports element.entries Sample.point .mandatory → element.element ∈ codes) ∧
      (Entry.Reports element.entries Sample.point .forbidden → element.element ∉ codes) := by
  obtain ⟨model, _, compiled, _⟩ := Sample.exists_within
  have sound := Model.sound_of_compile compiled
  have splits := Sample.splitsAll_splitRequest compiled
  obtain ⟨selectors, single, list, resolved, within, responded, listed⟩ :=
    Sample.exists_splitResponses compiled
  have quiet :=
    Consistency.errors_of_respond sound responded rfl (Sample.unknowns_small compiled)
  have quietList :=
    Buildability.errors_of_respond sound listed rfl (Sample.unknowns_small compiled)
  obtain ⟨found, run, other, resolvedAgain, success, otherSuccess, keys, points⟩ :=
    analyses_agree compiled splits responded listed quiet quietList
  obtain rfl : selectors = found := Except.ok.inj (resolved.symm.trans resolvedAgain)
  have reported := Sample.reports_splitRequest compiled resolved within responded
  obtain ⟨key, codes, represents, details, agree⟩ := (points Sample.point within).2 reported
  exact ⟨model, selectors, single, list, run, other, key, codes, compiled, splits, responded,
    listed, quiet, quietList, resolved, success, otherSuccess, keys, within, reported, represents,
    details, agree⟩

end RuleSlicing
