import RuleSlicing.Proofs.Selections
import RuleSlicing.Proofs.Spans

/-!
# Selecting all of a dimension

All of a dimension is selected by leaving it out of a request, by selecting it without a range,
or by giving the least or the greatest declared value or both as ends. These requests, and
selectors that have none for the dimension, make the same slices in the same order, up to the
discipline that the slices have for the dimension.
-/

set_option autoImplicit false

namespace RuleSlicing

open Resolution Factorization

/-! ## Widest descriptions -/

namespace RangeSpec

/-- A description without values whose ends, if there are any, are the extreme declared values. -/
structure Widest (dimension : Dimension) (spec : RangeSpec) : Prop where
  unlisted : spec.hasValues = false
  supported : spec.hasBounds = true → dimension.type.supportsIntervals = true
  min : spec.min = none ∨ spec.min = dimension.domain.min?.map (·.toJson)
  max : spec.max = none ∨ spec.max = dimension.domain.max?.map (·.toJson)

section Ends

variable {given : Option Json} {extreme : Option PropertyValue}
  (widest : given = none ∨ given = extreme.map (·.toJson))

include widest

private theorem isSome_extreme (isGiven : given.isSome = true) : extreme.isSome = true := by
  rcases widest with rfl | rfl
  · cases isGiven
  · rwa [Option.isSome_map] at isGiven

private theorem endOf?_extreme {type : PropertyType} {value : PropertyValue}
    (found : extreme = some value) (valid : value.type = type ∧ value.Readable) :
    PropertyValue.endOf? type given extreme = some value := by
  obtain ⟨rfl, readable⟩ := valid
  rcases widest with rfl | rfl
  · exact found
  · rw [found]
    exact PropertyValue.ofJson?_toJson readable

end Ends

theorem Widest.takes {dimension : Dimension} {spec : RangeSpec} (widest : spec.Widest dimension)
    (readable : dimension.domain.Readable) : spec.Takes dimension dimension.domain.fullRange := by
  cases bounded : spec.hasBounds with
  | false => exact .whole widest.unlisted bounded
  | true =>
      have supported := widest.supported bounded
      have declared := (Bool.or_eq_true_iff.mp bounded).imp (isSome_extreme widest.min)
        (isSome_extreme widest.max)
      obtain ⟨low, high, least, greatest, between⟩ := Domain.exists_extremes supported declared
      have ends : spec.Ends dimension low high := ⟨widest.unlisted, bounded, supported,
        endOf?_extreme widest.min least (readable.extreme supported (.inl least)),
        endOf?_extreme widest.max greatest (readable.extreme supported (.inr greatest))⟩
      exact (takes_iff_of_bounded readable bounded).mpr ⟨low, high, ends, between⟩

end RangeSpec

/-- A selection of all values of a dimension. -/
structure DimensionSelection.AsksForAll (allowed : Discipline → Bool) (default : Discipline)
    (dimension : Dimension) (selection : DimensionSelection) : Prop where
  type : selection.type = dimension.type
  discipline : allowed (selection.discipline.getD default) = true
  range : selection.range.Widest dimension

/-! ## Changing the discipline of a dimension -/

def Selector.withDiscipline (name : String) (discipline : Discipline) (selector : Selector) :
    Selector :=
  if selector.property.name = name then { selector with discipline } else selector

def Slice.withDiscipline (name : String) (discipline : Discipline) (slice : Slice) : Slice :=
  match slice.range? name with
  | some range => slice.fix ⟨name, range⟩ discipline
  | none => slice

namespace Selector

variable {name : String} {discipline : Discipline} {selector : Selector}

@[simp] theorem property_withDiscipline :
    (selector.withDiscipline name discipline).property = selector.property := by
  unfold withDiscipline
  split <;> rfl

theorem withDiscipline_of_ne (different : selector.property.name ≠ name) :
    selector.withDiscipline name discipline = selector := if_neg different

end Selector

namespace Slice

variable {name : String}

theorem get?_withDiscipline (slice : Slice) (discipline : Discipline) (other : String) :
    (slice.withDiscipline name discipline).get? other =
      (slice.get? other).map fun coordinate =>
        if other = name then { coordinate with discipline } else coordinate := by
  unfold withDiscipline range?
  cases fixed : slice.get? name with
  | none =>
      by_cases same : other = name
      · simp [same, fixed]
      · simp [same]
  | some coordinate =>
      by_cases same : other = name
      · simp [same, fixed, get?_fix]
      · simp [same, get?_fix]

theorem withDiscipline_fix_self (slice : Slice) (range : PropertyRange)
    (first second : Discipline) :
    (slice.fix ⟨name, range⟩ first).withDiscipline name second =
      (slice.withDiscipline name second).fix ⟨name, range⟩ second := by
  ext1 other
  rw [get?_withDiscipline, get?_fix, get?_fix, get?_withDiscipline]
  split
  · rfl
  · rfl

theorem withDiscipline_fix_of_ne (slice : Slice) {property : Property}
    (different : property.name ≠ name) (first second : Discipline) :
    (slice.fix property first).withDiscipline name second =
      (slice.withDiscipline name second).fix property first := by
  ext1 other
  rw [get?_withDiscipline, get?_fix, get?_fix, get?_withDiscipline]
  by_cases fixed : other = property.name
  · subst fixed
    simp [different]
  · simp [fixed]

end Slice

/-! ## The slices of alternative selectors -/

namespace Factorization

/-- Other selectors choose the same values of every dimension, and of a discipline that differs
for one dimension at most. -/
def Redisciplines (name : String) (discipline : Discipline) (selectors others : List Selector)
    (dimensions : List Dimension) : Prop :=
  ∀ dimension ∈ dimensions, choices others dimension =
    ((choices selectors dimension).1,
      if dimension.name = name then discipline else (choices selectors dimension).2)

theorem extend_withDiscipline {name other : String} {discipline chosen : Discipline}
    (slices : List Slice) (values : List PropertyValue) :
    extend (slices.map (Slice.withDiscipline name discipline)) other values
        (if other = name then discipline else chosen) =
      (extend slices other values chosen).map (Slice.withDiscipline name discipline) := by
  unfold extend
  rw [List.flatMap_map, List.map_flatMap]
  refine List.flatMap_congr fun slice _ => ?_
  rw [List.map_map]
  refine List.map_congr_left fun value _ => ?_
  split
  · rename_i same
    subst same
    exact (slice.withDiscipline_fix_self _ chosen discipline).symm
  · rename_i different
    exact (slice.withDiscipline_fix_of_ne different chosen discipline).symm

theorem extendAll_withDiscipline {name : String} {discipline : Discipline}
    {selectors others : List Selector} {maxSlices : Nat} {dimensions : List Dimension}
    (same : Redisciplines name discipline selectors others dimensions) (slices : List Slice) :
    extendAll others maxSlices dimensions (slices.map (Slice.withDiscipline name discipline)) =
      (extendAll selectors maxSlices dimensions slices).map
        (List.map (Slice.withDiscipline name discipline)) := by
  induction dimensions generalizing slices with
  | nil => rfl
  | cons dimension rest ih =>
      obtain ⟨here, same⟩ := List.forall_mem_cons.mp same
      unfold extendAll
      rw [here, List.length_map]
      cases choices selectors dimension with
      | mk values chosen =>
          simp only
          rw [extend_withDiscipline, ih same, ih same]
          -- Both fail alike: the values and the number of slices are the same.
          split
          · rfl
          · split
            · rfl
            · split <;> rfl

end Factorization

theorem Slice.all_withDiscipline {name : String} {discipline : Discipline}
    {selectors others : List Selector} {dimensions : List Dimension}
    (same : Redisciplines name discipline selectors others dimensions) (maxSlices : Nat) :
    Slice.all others dimensions maxSlices =
      (Slice.all selectors dimensions maxSlices).map
        (List.map (Slice.withDiscipline name discipline)) :=
  extendAll_withDiscipline same [.empty]

/-! ## Selectors without the dimension -/

section Choices

variable {name : String} {discipline : Discipline} {selectors : List Selector}
  {dimension : Dimension}

theorem find?_withDiscipline :
    (selectors.map (Selector.withDiscipline name discipline)).find?
        (·.property.name = dimension.name) =
      (selectors.find? (·.property.name = dimension.name)).map
        (Selector.withDiscipline name discipline) := by
  rw [List.find?_map]
  simp only [Function.comp_def, Selector.property_withDiscipline]

theorem choices_withDiscipline_of_ne (different : dimension.name ≠ name) :
    choices (selectors.map (Selector.withDiscipline name discipline)) dimension =
      choices selectors dimension := by
  unfold choices
  rw [find?_withDiscipline]
  cases found : selectors.find? (·.property.name = dimension.name) with
  | none => rfl
  | some selector =>
      have named : selector.property.name = dimension.name := by simpa using List.find?_some found
      rw [Option.map_some, Selector.withDiscipline_of_ne (named ▸ different)]

theorem choices_without_of_ne (different : dimension.name ≠ name) :
    choices (selectors.filter (·.property.name ≠ name)) dimension =
      choices selectors dimension := by
  unfold choices
  rw [find?_name_filter_ne different]

theorem choices_without_self :
    choices (selectors.filter (·.property.name ≠ dimension.name)) dimension =
      (dimension.relevantValues, .any) := by
  unfold choices
  rw [find?_name_eq_none_iff.mpr (by simp)]

end Choices

/-! ## Requests without the dimension -/

/-- The request without its selections of a dimension. -/
def Request.leavingOut (request : Request) (name : String) : Request :=
  { request with selections := request.selections.filter (·.name ≠ name) }

section Names

variable {space : Space} {seen : List String} {selections : List DimensionSelection}

/-- Only the selected names are looked up among those that were seen. -/
theorem checkNames_congr {other : List String}
    (same : ∀ selection ∈ selections, selection.name ∈ seen ↔ selection.name ∈ other) :
    checkNames space seen selections = checkNames space other selections := by
  induction selections generalizing seen other with
  | nil => rfl
  | cons first rest ih =>
      obtain ⟨here, others⟩ := List.forall_mem_cons.mp same
      have agree : seen.contains first.name = other.contains first.name := by simp [here]
      have restSame : ∀ selection ∈ rest,
          selection.name ∈ first.name :: seen ↔ selection.name ∈ first.name :: other :=
        fun selection member => by rw [List.mem_cons, List.mem_cons, others selection member]
      unfold checkNames
      rw [agree, ih restSame]

theorem checkNames_leavingOut {name : String} {selection : DimensionSelection}
    (declared : name ∈ space.names) (unseen : name ∉ seen)
    (only : selections.filter (·.name = name) = [selection]) :
    checkNames space seen selections =
      checkNames space seen (selections.filter (·.name ≠ name)) := by
  induction selections generalizing seen with
  | nil => rfl
  | cons first rest ih =>
      by_cases named : first.name = name
      · subst named
        rw [List.filter_cons_of_pos (by simp), List.cons.injEq] at only
        have others : ∀ other ∈ rest, other.name ≠ first.name := by
          simpa [List.filter_eq_nil_iff] using only.2
        have kept : rest.filter (·.name ≠ first.name) = rest := by
          simpa [List.filter_eq_self] using others
        have known : (space.find? first.name).isNone = false :=
          Bool.eq_false_iff.mpr fun missing =>
            Space.find?_eq_none_iff.mp (Option.isNone_iff_eq_none.mp missing) declared
        rw [List.filter_cons_of_neg (by simp), kept]
        calc checkNames space seen (first :: rest)
          _ = checkNames space (first.name :: seen) rest := by simp [checkNames, known, unseen]
          _ = checkNames space seen rest :=
            checkNames_congr fun other member => by simp [others other member]
      · rw [List.filter_cons_of_neg (by simpa using named)] at only
        rw [List.filter_cons_of_pos (by simpa using named)]
        unfold checkNames
        rw [ih (List.not_mem_cons_of_ne_of_not_mem (Ne.symm named) unseen) only]

end Names

section Resolve

variable {space : Space} {allowed : Discipline → Bool} {default : Discipline}
  {request : Request} {dimension : Dimension}

private theorem selector_of_asksForAll {selection : DimensionSelection}
    (asks : selection.AsksForAll allowed default dimension)
    (readable : dimension.domain.Readable) :
    selector allowed default dimension selection =
      .ok ((unselected default dimension).withDiscipline dimension.name
        (selection.discipline.getD default)) := by
  have whole := (RangeSpec.selectedRange_eq_ok_iff readable).mpr (asks.range.takes readable)
  rw [selector_eq_ok_iff.mpr ⟨asks.type, asks.discipline, _, whole, rfl⟩]
  simp [Selector.withDiscipline, unselected]

/-- Selecting all of a dimension is leaving it out, up to the discipline. -/
theorem resolve_eq_leavingOut (filled : space.Filled) (member : dimension ∈ space.dimensions)
    {selection : DimensionSelection}
    (only : request.selections.filter (·.name = dimension.name) = [selection])
    (asks : selection.AsksForAll allowed default dimension) :
    request.resolve space allowed default =
      ((request.leavingOut dimension.name).resolve space allowed default).map
        (List.map (Selector.withDiscipline dimension.name
          (selection.discipline.getD default))) := by
  have declared : dimension.name ∈ space.names := List.mem_map_of_mem member
  have names := checkNames_leavingOut declared List.not_mem_nil only
  unfold Request.resolve Request.leavingOut
  simp only
  rw [← names]
  split
  · rfl
  · cases checkNames space [] request.selections with
    | error fault => rfl
    | ok _ =>
        refine mapM_eq_map fun other inSpace => ?_
        by_cases same : other.name = dimension.name
        · obtain rfl := List.inj_on_of_nodup_map filled.distinct inSpace member same
          have chosen : request.selections.find? (·.name = other.name) = some selection := by
            rw [← List.head?_filter, only, List.head?_cons]
          rw [chosen, find?_name_eq_none_iff.mpr (by simp)]
          simp only
          rw [selector_of_asksForAll asks (filled.readable other member)]
          rfl
        · -- The selectors of other dimensions are left as they are.
          rw [find?_name_filter_ne same]
          cases request.selections.find? (·.name = other.name) with
          | none => exact congrArg Except.ok (Selector.withDiscipline_of_ne same).symm
          | some chosen =>
              simp only
              cases success : selector allowed default other chosen with
              | error fault => rfl
              | ok made =>
                  obtain ⟨_, _, _, _, rfl⟩ := selector_eq_ok_iff.mp success
                  exact congrArg Except.ok (Selector.withDiscipline_of_ne same).symm

theorem choices_of_leavingOut (filled : space.Filled) (member : dimension ∈ space.dimensions)
    {selectors : List Selector}
    (resolved : (request.leavingOut dimension.name).resolve space allowed default = .ok selectors) :
    choices selectors dimension = (dimension.relevantValues, default) ∧
      ∀ discipline, choices (selectors.map (Selector.withDiscipline dimension.name discipline))
        dimension = (dimension.relevantValues, discipline) := by
  obtain ⟨made, found, makes⟩ := exists_selector_of_resolve resolved filled.distinct member
  obtain rfl := makes.unselected (by simp [Request.leavingOut])
  have spanned := Dimension.spanned_of_grounded (filled.grounded dimension member)
  constructor
  · unfold choices
    rw [found]
    exact congrArg (·, default) spanned.whole
  · intro discipline
    unfold choices
    rw [find?_withDiscipline, found]
    simpa [Selector.withDiscipline, unselected] using spanned.whole

end Resolve

/-! ## All routes -/

/-- Selectors that choose all relevant values of a dimension, and make of a space the slices that
other selectors make of it, up to the discipline of the dimension. -/
structure Space.FactorsWhole (space : Space) (dimension : Dimension) (selectors : List Selector)
    (others : List Selector) (discipline : Discipline) : Prop where
  values : choices others dimension = (dimension.relevantValues, discipline)
  slices : ∀ maxSlices, Slice.all others space.dimensions maxSlices =
    (Slice.all selectors space.dimensions maxSlices).map
      (List.map (Slice.withDiscipline dimension.name discipline))

theorem Space.Filled.factorsWhole {space : Space} (filled : space.Filled)
    {dimension : Dimension} (member : dimension ∈ space.dimensions)
    {selectors others : List Selector} {default discipline : Discipline}
    (whole : choices selectors dimension = (dimension.relevantValues, default))
    (values : choices others dimension = (dimension.relevantValues, discipline))
    (elsewhere : ∀ other : Dimension, other.name ≠ dimension.name →
      choices others other = choices selectors other) :
    space.FactorsWhole dimension selectors others discipline := by
  refine ⟨values, Slice.all_withDiscipline fun other inSpace => ?_⟩
  by_cases same : other.name = dimension.name
  · obtain rfl := List.inj_on_of_nodup_map filled.distinct inSpace member same
    rw [values, whole, if_pos rfl]
  · rw [elsewhere other same, if_neg same]

/-- All routes to the whole of a dimension make slices of the same values in the same order. -/
theorem whole_selections_agree :
    (∀ name type ranges, ((Dimension.new name type).offer ranges).Spanned) ∧
    ∀ space : Space, space.Filled → ∀ dimension ∈ space.dimensions,
    ∀ (request : Request) (allowed : Discipline → Bool) (default : Discipline),
      (∀ selection, request.selections.filter (·.name = dimension.name) = [selection] →
        selection.AsksForAll allowed default dimension →
        request.resolve space allowed default =
          ((request.leavingOut dimension.name).resolve space allowed default).map
            (List.map (Selector.withDiscipline dimension.name
              (selection.discipline.getD default)))) ∧
      ∀ selectors,
        (request.leavingOut dimension.name).resolve space allowed default = .ok selectors →
        space.FactorsWhole dimension selectors selectors default ∧
        (∀ discipline, space.FactorsWhole dimension selectors
          (selectors.map (Selector.withDiscipline dimension.name discipline)) discipline) ∧
        space.FactorsWhole dimension selectors
          (selectors.filter (·.property.name ≠ dimension.name)) .any := by
  refine ⟨Dimension.spanned_offer, fun space filled dimension member request allowed default =>
    ⟨fun selection only asks => resolve_eq_leavingOut filled member only asks,
      fun selectors resolved => ?_⟩⟩
  obtain ⟨unselected, selected⟩ := choices_of_leavingOut filled member resolved
  refine ⟨?_, fun discipline => ?_, ?_⟩
  · exact filled.factorsWhole member unselected unselected fun _ _ => rfl
  · exact filled.factorsWhole member unselected (selected discipline)
      fun _ => choices_withDiscipline_of_ne
  · exact filled.factorsWhole member unselected choices_without_self
      fun _ => choices_without_of_ne

namespace Sample

/-- All years are selected, by the first of them. -/
def fromFirstYear : DimensionSelection :=
  ⟨"year", .integer, ⟨none, some (.integer 1), none⟩, some .split⟩

def fromFirstYearRequest : Request :=
  { request with selections := [fromFirstYear] }

end Sample

theorem whole_selections_agree_sample : ∃ model dimension selectors,
    Model.compile Sample.document = .ok model ∧ dimension ∈ model.space.dimensions ∧
    Sample.fromFirstYear.AsksForAll (fun _ => true) .any dimension ∧
    (Sample.fromFirstYearRequest.leavingOut dimension.name).resolve model.space (fun _ => true)
      .any = .ok selectors ∧
    Sample.fromFirstYearRequest.resolve model.space (fun _ => true) .any =
      .ok (selectors.map (Selector.withDiscipline dimension.name .split)) ∧
    dimension.relevantValues.length = 3 ∧
    model.space.FactorsWhole dimension selectors
      (selectors.map (Selector.withDiscipline dimension.name .split)) .split ∧
    model.space.FactorsWhole dimension selectors
      (selectors.filter (·.property.name ≠ dimension.name)) .any := by
  obtain ⟨model, dimension, selectors, compiled, member, asks, resolved, only, three⟩ :
      ∃ model dimension selectors, Model.compile Sample.document = .ok model ∧
        dimension ∈ model.space.dimensions ∧
        Sample.fromFirstYear.AsksForAll (fun _ => true) .any dimension ∧
        (Sample.fromFirstYearRequest.leavingOut dimension.name).resolve model.space
          (fun _ => true) .any = .ok selectors ∧
        Sample.fromFirstYearRequest.selections.filter (·.name = dimension.name) =
          [Sample.fromFirstYear] ∧
        dimension.relevantValues.length = 3 := by
    refine ⟨_, _, _, rfl, .head _, ⟨rfl, rfl, rfl, fun _ => rfl, .inr rfl, .inl rfl⟩, rfl, rfl, rfl⟩
  obtain ⟨selects, factors⟩ := whole_selections_agree.2 model.space
    (Model.filled_of_compile compiled) dimension member Sample.fromFirstYearRequest
    (fun _ => true) .any
  obtain ⟨_, selected, absent⟩ := factors selectors resolved
  exact ⟨model, dimension, selectors, compiled, member, asks, resolved,
    (selects Sample.fromFirstYear only asks).trans (resolved ▸ rfl), three, selected .split, absent⟩

end RuleSlicing
