import RuleSlicing.Proofs.Examples

/-!
# More constraints leave less consistent

What is consistent under some constraints is consistent under some of them: they still
mean something, the variables are no more, and what satisfies all of them satisfies these.
Combining results keeps this order, so a combination of values that is found consistent
under more constraints is found consistent under fewer, whatever fails elsewhere.
-/

set_option autoImplicit false

namespace RuleSlicing

/-! ## Two runs on the same slices -/

section Runs

variable {Result : Type} {computation : Computation Result} {request stricter : Request}
  {limits : Limits} {model : Model} {run other : Run Result}
  {results otherResults : List (Slice × Result)}
  (ran : computation.Ran request model limits run results)
  (ranStricter : computation.Ran stricter model limits other otherResults)
  (sound : model.Sound) (selectors : run.selectors = other.selectors)

include ran ranStricter sound selectors

theorem Computation.Ran.exists_result_iff_of_selectors (slice : Slice) :
    (∃ result, (slice, result) ∈ results) ↔ ∃ result, (slice, result) ∈ otherResults := by
  have axes : run.axes model = other.axes model := congrArg model.axes selectors
  rw [ran.exists_result_iff sound, ranStricter.exists_result_iff sound, axes]

variable {Holds : Result → Prop} (weaker : ∀ slice result otherResult, (slice, result) ∈ results →
  (slice, otherResult) ∈ otherResults → Holds otherResult → Holds result)

include weaker

/-- What passes from the slices of one run to those of another passes to combinations, if
it has to hold for every value of some axes and is enough for one value of others. -/
theorem Computation.Ran.exists_key_of_stricter
    (all : ∀ left right, Holds (computation.merge .all left right) ↔ Holds left ∧ Holds right)
    (any : ∀ left right, Holds (computation.merge .any left right) ↔ Holds left ∨ Holds right)
    {key : Slice} {otherResult : Result} (member : (key, otherResult) ∈ other.keys)
    (holds : Holds otherResult) : ∃ result, (key, result) ∈ run.keys ∧ Holds result := by
  have sameSlices := ran.exists_result_iff_of_selectors ranStricter sound selectors
  have merged := (mem_mergeBySplit_iff _ _).mp (ranStricter.keys ▸ member)
  obtain ⟨⟨slice, sliceResult⟩, isOver, every⟩ :=
    (mergeKey?_exists_forall merged all any).mp holds
  obtain ⟨inOther, isKey⟩ := List.mem_filter.mp isOver
  obtain ⟨found, inResults⟩ := (sameSlices slice).mpr ⟨sliceResult, inOther⟩
  obtain ⟨⟨_, result⟩, inKeys, rfl⟩ := List.mem_map.mp <|
    (mem_map_mergeBySplit_iff computation results).mpr ⟨_, inResults, eq_of_beq isKey⟩
  have mergedAgain := (mem_mergeBySplit_iff computation results).mp inKeys
  refine ⟨result, ran.keys ▸ inKeys, (mergeKey?_exists_forall mergedAgain all any).mpr ?_⟩
  refine ⟨(slice, found), List.mem_filter.mpr ⟨inResults, isKey⟩, ?_⟩
  rintro ⟨alike, value⟩ alikeOver same
  obtain ⟨alikeResults, alikeKey⟩ := List.mem_filter.mp alikeOver
  obtain ⟨otherValue, alikeOther⟩ := (sameSlices alike).mp ⟨value, alikeResults⟩
  exact weaker alike value otherValue alikeResults alikeOther
    (every (alike, otherValue) (List.mem_filter.mpr ⟨alikeOther, alikeKey⟩) same)

end Runs

/-! ## Responses -/

/-- What a request finds consistent, a request with some of its constraints finds
consistent: each combination of values, and each point that the entries cover. -/
theorem consistent_of_fewer_constraints {document : ModelDocument} {model : Model}
    (compiled : Model.compile document = .ok model) {jobId otherId : String} {request : Request}
    {few many : List String} (part : ∀ text ∈ few, text ∈ many) {limits : Limits}
    {response stricter : SingleResponse Bool ConsistencyDetail}
    (responded : consistency.respond jobId { request with constraints := few } model limits =
      .ok response)
    (respondedStricter : consistency.respond otherId { request with constraints := many } model
      limits = .ok stricter) :
    ∃ selectors run other,
      request.resolve model.space consistency.allows consistency.defaultDiscipline =
        .ok selectors ∧
      consistency.run { request with constraints := few } model limits = .ok run ∧
      consistency.run { request with constraints := many } model limits = .ok other ∧
      (∀ key result, (key, result) ∈ other.keys → result.consistent = true →
        ∃ value, (key, value) ∈ run.keys ∧ value.consistent = true) ∧
      ∀ chosen : Point, chosen.Within (Axis.having .split (model.axes selectors)) →
        Entry.Reports stricter.entries chosen true →
          Entry.Reports response.entries chosen true := by
  have sound := Model.sound_of_compile compiled
  obtain ⟨run, results, success, ran, partition⟩ :=
    SingleComputation.exists_partition sound responded
  obtain ⟨other, otherResults, otherSuccess, ranStricter, otherPartition⟩ :=
    SingleComputation.exists_partition sound respondedStricter
  have selectors : run.selectors = other.selectors :=
    Except.ok.inj (ran.resolved.symm.trans ranStricter.resolved)
  have weaker : ∀ slice (result otherResult : ConsistencyResult), (slice, result) ∈ results →
      (slice, otherResult) ∈ otherResults → otherResult.consistent = true →
        result.consistent = true := by
    intro slice result otherResult inResults inOther positive
    refine (consistent_iff_of_ran ran _ inResults).mpr (Activation.Consistent.of_subset ?_ part)
    exact (consistent_iff_of_ran ranStricter _ inOther).mp positive
  have keys : ∀ key result, (key, result) ∈ other.keys → result.consistent = true →
      ∃ value, (key, value) ∈ run.keys ∧ value.consistent = true := fun _ _ =>
    ran.exists_key_of_stricter ranStricter sound selectors weaker
      (fun _ _ => ConsistencyResult.merge_all_iff) fun _ _ => ConsistencyResult.merge_any_iff
  refine ⟨other.selectors, run, other, ranStricter.resolved, success, otherSuccess, keys, ?_⟩
  intro chosen within reported
  obtain ⟨key, result, inOther, represents, _, _⟩ := otherPartition.faithful chosen within
  have positive := (otherPartition.reports_iff within inOther represents).mp reported
  obtain ⟨value, inKeys, isConsistent⟩ := keys key result inOther positive
  unfold Run.splitAxes Run.axes at partition represents
  rw [selectors] at partition
  exact (partition.reports_iff within inKeys represents).mpr isConsistent

namespace Sample

variable {model : Model} {selectors : List Selector}
  (compiled : Model.compile document = .ok model)
  (resolved : request.resolve model.space (fun _ => true) .any = .ok selectors)

include compiled resolved

/-- In the second year both features are active, and no rule is. -/
theorem consistent_point : (model.activation (point.slice (model.axes selectors))).Consistent
    ["B", "A", "B"] .standard := by
  have asks : ∀ text ∈ ["B", "A", "B"], Constraint.parse text = .ok [⟨text, true⟩] := by
    decide
  obtain ⟨active, noRules, small⟩ : (∀ text ∈ ["B", "A", "B"],
      (model.activation (point.slice (model.axes selectors))).codes.contains text = true) ∧
      (model.activation (point.slice (model.axes selectors))).rules = [] ∧
      ((model.activation (point.slice (model.axes selectors))).unknowns
        ["B", "A", "B"]).size ≤
          Nat.min Limits.standard.maxVariables TruthTable.wordVariables := by
    cases compiled
    cases resolved
    exact ⟨by decide, rfl, by decide⟩
  refine ⟨fun text member => ⟨_, asks text member, ?_⟩, small, fun _ => true, ?_, ?_, ?_⟩
  · exact List.forall_mem_singleton.mpr ((SortedSet.contains_iff _ _).mp (active text member))
  · intro rule inRules
    rw [noRules] at inRules
    cases inRules
  · intro name inRules
    unfold Activation.ruleVariables at inRules
    rw [noRules] at inRules
    exact absurd inRules (SortedSet.not_mem_empty name)
  · intro text member
    rw [Constraint.literals_of_parse (asks text member)]
    exact List.forall_mem_singleton.mpr rfl

/-- The point is alone over its year in its market. -/
theorem slice_eq_of_agrees {other : Point}
    (split : other.Agrees point (Axis.having .split (model.axes selectors)))
    (any : other.Agrees point (Axis.having .any (model.axes selectors))) :
    other.slice (model.axes selectors) = point.slice (model.axes selectors) := by
  have known := (Model.sound_of_compile compiled).known selectors
  have disciplines : ∀ axis ∈ model.axes selectors,
      axis.discipline = .split ∨ axis.discipline = .any := by
    cases compiled
    cases resolved
    exact List.forall_mem_cons.mpr ⟨.inl rfl, List.forall_mem_singleton.mpr (.inr rfl)⟩
  refine (Point.slice_eq_iff known.distinct).mpr fun axis member => ?_
  rcases disciplines axis member with isSplit | isAny
  · exact split axis (Axis.mem_having_iff.mpr ⟨member, isSplit⟩)
  · exact any axis (Axis.mem_having_iff.mpr ⟨member, isAny⟩)

theorem reports_point (within : point.Within (model.axes selectors))
    {response : SingleResponse Bool ConsistencyDetail}
    (responded : consistency.respond "job" { request with constraints := ["B", "A", "B"] } model
      .standard = .ok response) : Entry.Reports response.entries point true := by
  have sound := Model.sound_of_compile compiled
  obtain ⟨run, results, _, ran, partition⟩ := SingleComputation.exists_partition sound responded
  obtain rfl : selectors = run.selectors := Except.ok.inj (resolved.symm.trans ran.resolved)
  obtain ⟨key, result, inKeys, represents, _, _⟩ := partition.faithful point (within.having .split)
  refine (partition.reports_iff (within.having .split) inKeys represents).mpr ?_
  refine (ran.holds_iff_exists_forall sound (·.consistent = true)
    (·.Consistent ["B", "A", "B"] .standard) (consistent_iff_of_ran ran) inKeys
    (within.having .split) represents (fun _ _ => ConsistencyResult.merge_all_iff)
    fun _ _ => ConsistencyResult.merge_any_iff).mpr ⟨point, within.having .any, ?_⟩
  intro other _ split any
  show (model.activation (other.slice (model.axes run.selectors))).Consistent _ _
  rw [slice_eq_of_agrees compiled resolved split any]
  exact consistent_point compiled resolved

end Sample

theorem consistent_of_fewer_constraints_sample : ∃ model selectors response stricter run other,
    Model.compile Sample.document = .ok model ∧
    (∀ text ∈ ["A"], text ∈ ["B", "A", "B"]) ∧
    consistency.respond "job" { Sample.request with constraints := ["A"] } model .standard =
      .ok response ∧
    consistency.respond "job" { Sample.request with constraints := ["B", "A", "B"] } model
      .standard = .ok stricter ∧
    Sample.request.resolve model.space consistency.allows consistency.defaultDiscipline =
      .ok selectors ∧
    consistency.run { Sample.request with constraints := ["A"] } model .standard = .ok run ∧
    consistency.run { Sample.request with constraints := ["B", "A", "B"] } model .standard =
      .ok other ∧
    (∀ key result, (key, result) ∈ other.keys → result.consistent = true →
      ∃ value, (key, value) ∈ run.keys ∧ value.consistent = true) ∧
    Sample.point.Within (Axis.having .split (model.axes selectors)) ∧
    Entry.Reports stricter.entries Sample.point true ∧
    Entry.Reports response.entries Sample.point true := by
  obtain ⟨model, selectors, compiled, resolved, within⟩ := Sample.exists_within
  obtain ⟨response, responded⟩ := Sample.exists_response_under compiled resolved ["A"]
  obtain ⟨stricter, respondedStricter⟩ :=
    Sample.exists_response_under compiled resolved ["B", "A", "B"]
  have part : ∀ text ∈ ["A"], text ∈ ["B", "A", "B"] := by decide
  obtain ⟨found, run, other, resolvedAgain, success, otherSuccess, keys, points⟩ :=
    consistent_of_fewer_constraints compiled part responded respondedStricter
  obtain rfl := Except.ok.inj (resolved.symm.trans resolvedAgain)
  have reported := Sample.reports_point compiled resolved within respondedStricter
  exact ⟨model, selectors, response, stricter, run, other, compiled, part, responded,
    respondedStricter, resolved, success, otherSuccess, keys, within.having .split, reported,
    points Sample.point (within.having .split) reported⟩

end RuleSlicing
