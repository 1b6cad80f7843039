import RuleSlicing.Proofs.ReadBack

/-!
# Requests that are accepted

A request is accepted exactly if it is well formed for the space: its selections name different
dimensions, and each fits its dimension. The selectors follow from what is selected of each
dimension, so the order of the selections does not matter.
-/

set_option autoImplicit false

namespace RuleSlicing

open Resolution

/-! ## Filled spaces -/

/-- A space that is made by declaring dimensions and adding ranges that descriptions denote. -/
inductive Space.Filled : Space → Prop
  | empty : Filled .empty
  | declare {space extended : Space} {name : String} {type : PropertyType} :
      Filled space → space.declare name type = .ok extended → Filled extended
  | add {space extended : Space} {spec : PropertySpec} {property : Property} :
      Filled space → spec.toProperty = .ok property → space.add property = .ok extended →
        Filled extended

namespace Space

theorem Filled.distinct {space : Space} (filled : space.Filled) : space.names.Nodup := by
  induction filled with
  | empty => exact .nil
  | declare _ declared ih =>
      obtain ⟨fresh, rfl⟩ := declare_eq_ok_iff.mp declared
      exact nodup_names_declare ih fresh _
  | add _ _ added ih => exact ((add_eq_ok_iff ih).mp added).names.symm ▸ ih

/-- The domain of each dimension is made of ranges that descriptions denote. -/
theorem Filled.built {space : Space} (filled : space.Filled) :
    ∀ dimension ∈ space.dimensions, ∃ ranges,
      Domain.ofRanges? dimension.type ranges = some dimension.domain ∧
        ∀ range ∈ ranges, ∀ value ∈ range, value.Readable := by
  induction filled with
  | empty => exact fun _ none => absurd none List.not_mem_nil
  | declare _ declared ih =>
      obtain ⟨_, rfl⟩ := declare_eq_ok_iff.mp declared
      intro dimension member
      rcases List.mem_append.mp member with earlier | last
      · exact ih dimension earlier
      · rw [List.mem_singleton.mp last, Dimension.type, Dimension.new, Domain.type_empty]
        exact ⟨[], rfl, fun _ none => absurd none List.not_mem_nil⟩
  | @add _ _ _ property filled accepted added ih =>
      have grown := (add_eq_ok_iff filled.distinct).mp added
      intro dimension member
      obtain ⟨before, inSpace, grows⟩ := exists_left_of_forall₂ grown member
      obtain ⟨ranges, declared, readable⟩ := ih before inSpace
      refine ⟨ranges ++ rangesOf before.name [property], ?_, fun range inRanges => ?_⟩
      · have sameType : dimension.type = before.type := Domain.foldlM_add?_type grows.domain
        unfold Domain.ofRanges? at declared ⊢
        rw [List.foldlM_append, sameType, declared]
        exact grows.domain
      · rcases List.mem_append.mp inRanges with earlier | last
        · exact readable range earlier
        · obtain ⟨other, kept, rfl⟩ := List.mem_map.mp last
          obtain rfl := List.mem_singleton.mp (List.mem_filter.mp kept).1
          exact (PropertySpec.describable_of_toProperty accepted).readable

theorem Filled.readable {space : Space} (filled : space.Filled) :
    ∀ dimension ∈ space.dimensions, dimension.domain.Readable := by
  intro dimension member
  obtain ⟨_, declared, readable⟩ := filled.built dimension member
  exact Domain.readable_of_ofRanges? declared readable

theorem Filled.grounded {space : Space} (filled : space.Filled) :
    ∀ dimension ∈ space.dimensions, dimension.domain.Grounded := by
  intro dimension member
  obtain ⟨_, declared, _⟩ := filled.built dimension member
  exact Domain.grounded_of_ofRanges? declared

theorem Filled.of_grows {specs : List PropertySpec} {properties : List Property}
    {space final : Space} (filled : space.Filled)
    (denoted : PropertySpec.Denote specs properties) (grown : Grows properties space final) :
    final.Filled := by
  induction denoted generalizing space with
  | nil => exact grows_nil_iff.mp grown ▸ filled
  | @cons _ property _ others accepted _ ih =>
      have grown : Grows ([property] ++ others) space final := grown
      obtain ⟨extended, first, rest⟩ := grows_append_iff.mp grown
      exact ih (filled.add accepted ((add_eq_ok_iff filled.distinct).mpr first)) rest

end Space

namespace Model

theorem filled_of_declareAll {documents : List DimensionDocument} {space final : Space}
    (filled : space.Filled) (declared : declareAll documents space = .ok final) :
    final.Filled := by
  induction documents generalizing space with
  | nil =>
      cases declared
      exact filled
  | cons document rest ih =>
      obtain ⟨extended, made, declared⟩ := ok_of_bind declared
      exact ih (filled.declare made) declared

theorem filled_of_compile {document : ModelDocument} {model : Model}
    (compiled : compile document = .ok model) : model.space.Filled := by
  obtain ⟨distinct, _, _, renders⟩ := compile_eq_ok_iff.mp compiled
  have declared := filled_of_declareAll .empty
    ((declareAll_eq_ok_iff Space.Filled.empty.distinct).mpr ⟨distinct, rfl⟩)
  exact declared.of_grows renders.denote (grows_new_iff.mpr renders.dimensions)

end Model

/-! ## Selected ranges -/

/-- An end of a selected interval: the given value, else an extreme declared one. -/
def PropertyValue.endOf? (type : PropertyType) (given : Option Json)
    (extreme : Option PropertyValue) : Option PropertyValue :=
  match given with
  | some given => ofJson? type given
  | none => extreme

namespace RangeSpec

/-- A description gives an end of an interval at least, and the ends are these. -/
structure Ends (dimension : Dimension) (spec : RangeSpec) (low high : PropertyValue) : Prop where
  unlisted : spec.hasValues = false
  bounded : spec.hasBounds = true
  supported : dimension.type.supportsIntervals = true
  low : PropertyValue.endOf? dimension.type spec.min dimension.domain.min? = some low
  high : PropertyValue.endOf? dimension.type spec.max dimension.domain.max? = some high

/-- The range that a description takes of a dimension. -/
inductive Takes (dimension : Dimension) (spec : RangeSpec) : PropertyRange → Prop
  | whole (unlisted : spec.hasValues = false) (unbounded : spec.hasBounds = false) :
      Takes dimension spec dimension.domain.fullRange
  | listed {values : List PropertyValue} (listed : spec.hasValues = true)
      (unbounded : spec.hasBounds = false)
      (read : List.Forall₂ (fun given value =>
        PropertyValue.ofJson? dimension.type given = some value) (spec.values.getD []) values) :
      Takes dimension spec (.ofValues dimension.type values)
  | interval {low high : PropertyValue} {range : PropertyRange}
      (ends : spec.Ends dimension low high) (ordered : low.AtMost high)
      (between : PropertyRange.between? low high = some range) : Takes dimension spec range
  | inverted {low high : PropertyValue} (ends : spec.Ends dimension low high)
      (inverted : ¬low.AtMost high) : Takes dimension spec (.empty dimension.type)

/-- A description that takes a range of a dimension. -/
structure Fits (dimension : Dimension) (spec : RangeSpec) : Prop where
  exclusive : spec.hasValues = false ∨ spec.hasBounds = false
  readable : ∀ given ∈ spec.values.getD [] ++ spec.min.toList ++ spec.max.toList,
    (PropertyValue.ofJson? dimension.type given).isSome = true
  supported : spec.hasBounds = true → dimension.type.supportsIntervals = true
  /-- A missing end is filled with a declared value. -/
  hasMin : spec.hasBounds = true → spec.min = none → dimension.domain.min?.isSome = true
  hasMax : spec.hasBounds = true → spec.max = none → dimension.domain.max?.isSome = true

section Dimension

variable {dimension : Dimension} {spec : RangeSpec}

private theorem ends_eq_none (unbounded : spec.hasBounds = false) :
    spec.min = none ∧ spec.max = none := by
  simpa [hasBounds] using unbounded

/-- Filling in an extreme value and reading it again is taking it. -/
private theorem read_filled_iff {type : PropertyType} (given : Option Json)
    {extreme : Option PropertyValue}
    (valid : ∀ value, extreme = some value → value.type = type ∧ value.Readable)
    (value : PropertyValue) :
    (∃ json, (given <|> extreme.map (·.toJson)) = some json ∧
      PropertyValue.ofJson type json = .ok value) ↔
        PropertyValue.endOf? type given extreme = some value := by
  cases given with
  | some given => simp [PropertyValue.endOf?, PropertyValue.ofJson_eq_ok_iff]
  | none =>
      cases extreme with
      | none => simp [PropertyValue.endOf?]
      | some found =>
          obtain ⟨rfl, readable⟩ := valid found rfl
          simp [PropertyValue.endOf?, PropertyValue.ofJson_eq_ok_iff,
            PropertyValue.ofJson?_toJson readable]

private theorem type_of_endOf? {type : PropertyType} {given : Option Json}
    {extreme : Option PropertyValue}
    (valid : ∀ value, extreme = some value → value.type = type ∧ value.Readable)
    {value : PropertyValue} (found : PropertyValue.endOf? type given extreme = some value) :
    value.type = type := by
  cases given with
  | some given => exact (PropertyValue.readable_of_ofJson? found).1
  | none => exact (valid value found).1

theorem Ends.fits {low high : PropertyValue} (ends : spec.Ends dimension low high) :
    spec.Fits dimension := by
  obtain ⟨unlisted, _, supported, lowFound, highFound⟩ := ends
  refine ⟨.inl unlisted, fun given member => ?_, fun _ => supported, fun _ noMin => ?_,
    fun _ noMax => ?_⟩
  · rw [values_eq_nil unlisted, List.nil_append, List.mem_append] at member
    rcases member with isMin | isMax
    · rw [Option.mem_toList.mp isMin] at lowFound
      exact Option.isSome_of_eq_some lowFound
    · rw [Option.mem_toList.mp isMax] at highFound
      exact Option.isSome_of_eq_some highFound
  · rw [noMin] at lowFound
    exact Option.isSome_of_eq_some lowFound
  · rw [noMax] at highFound
    exact Option.isSome_of_eq_some highFound

theorem Fits.exists_ends (fits : spec.Fits dimension) (unlisted : spec.hasValues = false)
    (bounded : spec.hasBounds = true) : ∃ low high, spec.Ends dimension low high := by
  have least : (PropertyValue.endOf? dimension.type spec.min dimension.domain.min?).isSome := by
    cases given : spec.min with
    | some min => exact fits.readable min (by simp [given])
    | none => exact fits.hasMin bounded given
  have greatest : (PropertyValue.endOf? dimension.type spec.max dimension.domain.max?).isSome := by
    cases given : spec.max with
    | some max => exact fits.readable max (by simp [given])
    | none => exact fits.hasMax bounded given
  obtain ⟨low, lowFound⟩ := Option.isSome_iff_exists.mp least
  obtain ⟨high, highFound⟩ := Option.isSome_iff_exists.mp greatest
  exact ⟨low, high, unlisted, bounded, fits.supported bounded, lowFound, highFound⟩

theorem Takes.fits {range : PropertyRange} (takes : spec.Takes dimension range) :
    spec.Fits dimension := by
  cases takes with
  | whole unlisted unbounded =>
      obtain ⟨noMin, noMax⟩ := ends_eq_none unbounded
      refine ⟨.inl unlisted, fun given member => ?_, ?_, ?_, ?_⟩
      · rw [values_eq_nil unlisted, noMin, noMax] at member
        cases member
      all_goals exact fun bounded => absurd bounded (Bool.eq_false_iff.mp unbounded)
  | listed listed unbounded read =>
      obtain ⟨noMin, noMax⟩ := ends_eq_none unbounded
      refine ⟨.inr unbounded, fun given member => ?_, ?_, ?_, ?_⟩
      · rw [noMin, noMax, Option.toList_none, List.append_nil, List.append_nil] at member
        obtain ⟨value, _, found⟩ := exists_right_of_forall₂ read member
        exact Option.isSome_of_eq_some found
      all_goals exact fun bounded => absurd bounded (Bool.eq_false_iff.mp unbounded)
  | interval ends _ _ => exact ends.fits
  | inverted ends _ => exact ends.fits

theorem takes_iff_of_whole (unlisted : spec.hasValues = false) (unbounded : spec.hasBounds = false)
    {range : PropertyRange} :
    spec.Takes dimension range ↔ dimension.domain.fullRange = range := by
  constructor
  · intro takes
    cases takes with
    | whole => rfl
    | listed listed => cases unlisted.symm.trans listed
    | interval ends | inverted ends => cases unbounded.symm.trans ends.bounded
  · rintro rfl
    exact .whole unlisted unbounded

private theorem toRange_iff_of_listed (listed : spec.hasValues = true)
    (unbounded : spec.hasBounds = false) {range : PropertyRange} :
    spec.toRange dimension.type = .ok range ↔ spec.Takes dimension range := by
  obtain ⟨noMin, noMax⟩ := ends_eq_none unbounded
  rw [toRange_eq_ok_iff]
  constructor
  · rintro (⟨_, _, values, read, rfl⟩ | ⟨unlisted, _⟩)
    · refine .listed listed unbounded (((mapM_eq_ok_iff _ _ _).mp read).imp fun _ _ found => ?_)
      exact PropertyValue.ofJson_eq_ok_iff.mp found
    · cases listed.symm.trans unlisted
  · intro takes
    cases takes with
    | whole unlisted _ => cases listed.symm.trans unlisted
    | listed _ _ read =>
        refine .inl ⟨noMin, noMax, _,
          (mapM_eq_ok_iff _ _ _).mpr (read.imp fun _ _ found => ?_), rfl⟩
        exact PropertyValue.ofJson_eq_ok_iff.mpr found
    | interval ends _ _ | inverted ends _ => cases unbounded.symm.trans ends.bounded

variable (readable : dimension.domain.Readable)

include readable

/-- The ends are of the type of the dimension, so there is a range between them. -/
theorem Ends.exists_between {low high : PropertyValue} (ends : spec.Ends dimension low high) :
    ∃ range, PropertyRange.between? low high = some range ∧
      (¬low.AtMost high → range = .empty dimension.type) :=
  PropertyRange.exists_between? ends.supported
    (type_of_endOf? (fun _ found => readable.extreme ends.supported (.inl found)) ends.low)
    (type_of_endOf? (fun _ found => readable.extreme ends.supported (.inr found)) ends.high)

theorem takes_iff_of_bounded (bounded : spec.hasBounds = true) {range : PropertyRange} :
    spec.Takes dimension range ↔ ∃ low high, spec.Ends dimension low high ∧
      PropertyRange.between? low high = some range := by
  constructor
  · intro takes
    cases takes with
    | whole _ unbounded | listed _ unbounded _ => cases bounded.symm.trans unbounded
    | interval ends _ between => exact ⟨_, _, ends, between⟩
    | inverted ends inverted =>
        obtain ⟨range, between, empty⟩ := ends.exists_between readable
        exact ⟨_, _, ends, empty inverted ▸ between⟩
  · rintro ⟨low, high, ends, between⟩
    by_cases ordered : low.AtMost high
    · exact .interval ends ordered between
    · obtain ⟨other, found, empty⟩ := ends.exists_between readable
      obtain rfl := Option.some.inj (between.symm.trans found)
      exact empty ordered ▸ .inverted ends ordered

theorem Fits.exists_takes (fits : spec.Fits dimension) : ∃ range, spec.Takes dimension range := by
  cases listed : spec.hasValues with
  | true =>
      have unbounded := fits.exclusive.resolve_left (by simp [listed])
      obtain ⟨values, read⟩ := exists_forall₂ fun given member =>
        Option.isSome_iff_exists.mp (fits.readable given
          (List.mem_append_left _ (List.mem_append_left _ member)))
      exact ⟨_, .listed listed unbounded read⟩
  | false =>
      cases bounded : spec.hasBounds with
      | true =>
          obtain ⟨low, high, ends⟩ := fits.exists_ends listed bounded
          obtain ⟨range, between, _⟩ := ends.exists_between readable
          exact ⟨range, (takes_iff_of_bounded readable bounded).mpr ⟨low, high, ends, between⟩⟩
      | false => exact ⟨_, .whole listed bounded⟩

/-- A description with its missing ends filled in denotes the range that it takes. -/
private theorem toRange_fillBounds_iff (unlisted : spec.hasValues = false)
    (bounded : spec.hasBounds = true) (supported : dimension.type.supportsIntervals = true)
    {range : PropertyRange} :
    (fillBounds dimension spec).toRange dimension.type = .ok range ↔
      spec.Takes dimension range := by
  have least := read_filled_iff spec.min fun _ found => readable.extreme supported (.inl found)
  have greatest := read_filled_iff spec.max fun _ found => readable.extreme supported (.inr found)
  rw [takes_iff_of_bounded readable bounded, toRange_eq_ok_iff]
  constructor
  · rintro (⟨noMin, noMax, _⟩ | ⟨_, _, min, max, low, high, hasMin, hasMax, lowRead, highRead, rfl⟩)
    · have unbounded : spec.hasBounds = false := by simp_all [fillBounds, hasBounds]
      cases bounded.symm.trans unbounded
    · have ends : spec.Ends dimension low high := ⟨unlisted, bounded, supported,
        (least low).mp ⟨min, hasMin, lowRead⟩, (greatest high).mp ⟨max, hasMax, highRead⟩⟩
      obtain ⟨range, between, _⟩ := ends.exists_between readable
      exact ⟨low, high, ends, by rw [between]; rfl⟩
  · rintro ⟨low, high, ends, between⟩
    obtain ⟨min, hasMin, lowRead⟩ := (least low).mpr ends.low
    obtain ⟨max, hasMax, highRead⟩ := (greatest high).mpr ends.high
    exact .inr ⟨rfl, supported, min, max, low, high, hasMin, hasMax, lowRead, highRead,
      by rw [between]; rfl⟩

/-- Resolving takes the range that a description takes, and refuses what takes none. -/
theorem selectedRange_eq_ok_iff {range : PropertyRange} :
    selectedRange dimension spec = .ok range ↔ spec.Takes dimension range := by
  unfold selectedRange
  cases listed : spec.hasValues with
  | false =>
      cases bounded : spec.hasBounds with
      | false =>
          rw [takes_iff_of_whole listed bounded]
          exact ⟨Except.ok.inj, congrArg Except.ok⟩
      | true =>
          cases supported : dimension.type.supportsIntervals with
          | true =>
              show ((fillBounds dimension spec).toRange dimension.type).mapError _ = .ok range ↔ _
              rw [mapError_eq_ok_iff]
              exact toRange_fillBounds_iff readable listed bounded supported
          | false =>
              show (spec.toRange dimension.type).mapError _ = .ok range ↔ _
              rw [mapError_eq_ok_iff, toRange_eq_ok_iff]
              refine iff_of_false ?_ fun takes => ?_
              · rintro (⟨noMin, noMax, _⟩ | ⟨_, supports, _⟩)
                · simp [hasBounds, noMin, noMax] at bounded
                · cases supported.symm.trans supports
              · cases supported.symm.trans (takes.fits.supported bounded)
  | true =>
      cases bounded : spec.hasBounds with
      | false =>
          show (spec.toRange dimension.type).mapError _ = .ok range ↔ _
          rw [mapError_eq_ok_iff]
          exact toRange_iff_of_listed listed bounded
      | true =>
          refine iff_of_false (fun success => ?_) fun takes => ?_
          · cases success
          · rcases takes.fits.exclusive with unlisted | unbounded
            · cases listed.symm.trans unlisted
            · cases bounded.symm.trans unbounded

end Dimension

end RangeSpec

/-! ## Well-formed requests -/

/-- A selection that can be made of a dimension. -/
structure DimensionSelection.Fits (allowed : Discipline → Bool) (default : Discipline)
    (dimension : Dimension) (selection : DimensionSelection) : Prop where
  type : selection.type = dimension.type
  discipline : allowed (selection.discipline.getD default) = true
  range : selection.range.Fits dimension

/-- A request that a space can answer. -/
structure Request.WellFormed (space : Space) (allowed : Discipline → Bool) (default : Discipline)
    (request : Request) : Prop where
  named : Text.isBlankText request.ruleFileId = false
  declared : ∀ selection ∈ request.selections, selection.name ∈ space.names
  /-- No dimension is selected twice. -/
  distinct : (request.selections.map (·.name)).Nodup
  fits : ∀ dimension ∈ space.dimensions, ∀ selection ∈ request.selections,
    selection.name = dimension.name → selection.Fits allowed default dimension

/-- The selector that a request asks for: what is selected, and all of the dimension if nothing
is. -/
structure Selector.Answers (default : Discipline) (request : Request) (dimension : Dimension)
    (selector : Selector) : Prop where
  name : selector.property.name = dimension.name
  unselected : dimension.name ∉ request.selections.map (·.name) →
    selector.discipline = default ∧ selector.property.range = dimension.domain.fullRange
  selected : ∀ selection ∈ request.selections, selection.name = dimension.name →
    selector.discipline = selection.discipline.getD default ∧
      selection.range.Takes dimension selector.property.range

section Resolve

variable {allowed : Discipline → Bool} {default : Discipline} {request : Request}
  {dimension : Dimension} (readable : dimension.domain.Readable)

include readable

theorem exists_selector_iff {selection : DimensionSelection} :
    (∃ made, selector allowed default dimension selection = .ok made) ↔
      selection.Fits allowed default dimension := by
  constructor
  · rintro ⟨made, success⟩
    obtain ⟨sameType, permitted, range, found, _⟩ := selector_eq_ok_iff.mp success
    exact ⟨sameType, permitted, ((RangeSpec.selectedRange_eq_ok_iff readable).mp found).fits⟩
  · rintro ⟨sameType, permitted, fits⟩
    obtain ⟨range, takes⟩ := fits.exists_takes readable
    have found := (RangeSpec.selectedRange_eq_ok_iff readable).mpr takes
    exact ⟨_, selector_eq_ok_iff.mpr ⟨sameType, permitted, range, found, rfl⟩⟩

theorem exists_makes_iff (distinct : (request.selections.map (·.name)).Nodup) :
    (∃ made, request.Makes allowed default dimension made) ↔
      ∀ selection ∈ request.selections, selection.name = dimension.name →
        selection.Fits allowed default dimension := by
  constructor
  · rintro ⟨made, makes⟩ selection member same
    exact (exists_selector_iff readable).mp ⟨made, makes.selected selection member same⟩
  · intro fits
    by_cases selected : dimension.name ∈ request.selections.map (·.name)
    · obtain ⟨selection, member, same⟩ := List.mem_map.mp selected
      obtain ⟨made, success⟩ := (exists_selector_iff readable).mpr (fits selection member same)
      refine ⟨made, fun other inRequest otherSame => ?_, fun absent => absurd selected absent⟩
      rw [List.inj_on_of_nodup_map distinct inRequest member (otherSame.trans same.symm)]
      exact success
    · exact ⟨unselected default dimension, fun selection member same =>
        absurd (List.mem_map.mpr ⟨selection, member, same⟩) selected, fun _ => rfl⟩

/-- What is made is what the request asks for, and nothing else is. -/
theorem makes_iff_answers {made : Selector}
    (fits : ∀ selection ∈ request.selections, selection.name = dimension.name →
      selection.Fits allowed default dimension) :
    request.Makes allowed default dimension made ↔ made.Answers default request dimension := by
  constructor
  · intro makes
    refine ⟨makes.selects.name, fun absent => ?_, fun selection member same => ?_⟩
    · rw [makes.unselected absent]
      exact ⟨rfl, rfl⟩
    · obtain ⟨_, _, range, found, rfl⟩ :=
        selector_eq_ok_iff.mp (makes.selected selection member same)
      exact ⟨rfl, (RangeSpec.selectedRange_eq_ok_iff readable).mp found⟩
  · obtain ⟨⟨name, range⟩, discipline⟩ := made
    rintro ⟨rfl, unselected, selected⟩
    refine ⟨fun selection member same => ?_, fun absent => ?_⟩
    · obtain ⟨rfl, takes⟩ := selected selection member same
      obtain ⟨sameType, permitted, _⟩ := fits selection member same
      exact selector_eq_ok_iff.mpr ⟨sameType, permitted, range,
        (RangeSpec.selectedRange_eq_ok_iff readable).mpr takes, rfl⟩
    · obtain ⟨rfl, rfl⟩ := unselected absent
      rfl

end Resolve

/-- What a request makes of a dimension depends on which selections it has. -/
theorem Request.Makes.of_perm {allowed : Discipline → Bool} {default : Discipline}
    {request other : Request} {dimension : Dimension} {made : Selector}
    (makes : request.Makes allowed default dimension made)
    (perm : other.selections.Perm request.selections) :
    other.Makes allowed default dimension made :=
  ⟨fun selection member => makes.selected selection (perm.mem_iff.mp member),
    fun absent => makes.unselected fun selected => absent ((perm.map _).mem_iff.mpr selected)⟩

private theorem resolve_of_perm {space : Space} {allowed : Discipline → Bool}
    {default : Discipline} {request other : Request} {selectors : List Selector}
    (sameFile : other.ruleFileId = request.ruleFileId)
    (perm : other.selections.Perm request.selections)
    (resolved : request.resolve space allowed default = .ok selectors) :
    other.resolve space allowed default = .ok selectors := by
  obtain ⟨named, declared, distinct, makes⟩ := resolve_eq_ok_iff.mp resolved
  exact resolve_eq_ok_iff.mpr ⟨sameFile ▸ named,
    fun selection member => declared selection (perm.mem_iff.mp member),
    (perm.map _).nodup_iff.mpr distinct, makes.imp fun _ _ makes => makes.of_perm perm⟩

theorem resolve_eq_ok_iff_wellFormed {space : Space} (filled : space.Filled) {request : Request}
    {allowed : Discipline → Bool} {default : Discipline} {selectors : List Selector} :
    request.resolve space allowed default = .ok selectors ↔
      request.WellFormed space allowed default ∧
        List.Forall₂ (Selector.Answers default request) space.dimensions selectors := by
  have same : request.WellFormed space allowed default →
      (List.Forall₂ (request.Makes allowed default) space.dimensions selectors ↔
        List.Forall₂ (Selector.Answers default request) space.dimensions selectors) :=
    fun wellFormed => forall₂_congr_of_mem fun dimension member _ =>
      makes_iff_answers (filled.readable dimension member) (wellFormed.fits dimension member)
  rw [resolve_eq_ok_iff]
  constructor
  · rintro ⟨named, declared, distinct, makes⟩
    have wellFormed : request.WellFormed space allowed default := by
      refine ⟨named, declared, distinct, fun dimension member => ?_⟩
      obtain ⟨made, _, makes⟩ := exists_right_of_forall₂ makes member
      exact (exists_makes_iff (filled.readable dimension member) distinct).mp ⟨made, makes⟩
    exact ⟨wellFormed, (same wellFormed).mp makes⟩
  · rintro ⟨wellFormed, answers⟩
    exact ⟨wellFormed.named, wellFormed.declared, wellFormed.distinct,
      (same wellFormed).mpr answers⟩

/-- On a filled space the well-formed requests are accepted, the selectors are what they ask for,
and the order of their selections does not matter. -/
theorem resolves_iff_wellFormed {space : Space} (filled : space.Filled) (request : Request)
    (allowed : Discipline → Bool) (default : Discipline) :
    ((∃ selectors, request.resolve space allowed default = .ok selectors) ↔
      request.WellFormed space allowed default) ∧
    (∀ selectors, request.resolve space allowed default = .ok selectors ↔
      request.WellFormed space allowed default ∧
        List.Forall₂ (Selector.Answers default request) space.dimensions selectors) ∧
    ∀ other : Request, other.ruleFileId = request.ruleFileId →
      other.selections.Perm request.selections →
      ∀ selectors, other.resolve space allowed default = .ok selectors ↔
        request.resolve space allowed default = .ok selectors := by
  refine ⟨⟨?_, fun wellFormed => ?_⟩, fun selectors => resolve_eq_ok_iff_wellFormed filled,
    fun other sameFile perm selectors => ?_⟩
  · rintro ⟨selectors, resolved⟩
    exact ((resolve_eq_ok_iff_wellFormed filled).mp resolved).1
  · obtain ⟨selectors, makes⟩ := exists_forall₂ fun dimension member =>
      (exists_makes_iff (filled.readable dimension member) wellFormed.distinct).mpr
        (wellFormed.fits dimension member)
    exact ⟨selectors, resolve_eq_ok_iff.mpr
      ⟨wellFormed.named, wellFormed.declared, wellFormed.distinct, makes⟩⟩
  · exact ⟨resolve_of_perm sameFile.symm perm.symm, resolve_of_perm sameFile perm⟩

namespace Sample

/-- The years are selected from the second on, and one market. -/
def openRequest : Request where
  ruleFileId := "rules"
  selections := [⟨"year", .integer, ⟨none, some (.integer 2), none⟩, some .split⟩,
    ⟨"market", .enumeration, ⟨some [.string "home"], none, none⟩, none⟩]
  constraints := []
  allDetails := false

/-- The same selections in the other order. -/
def reorderedRequest : Request :=
  { openRequest with selections := openRequest.selections.reverse }

end Sample

theorem resolves_iff_wellFormed_sample : ∃ model selectors,
    Model.compile Sample.document = .ok model ∧ model.space.Filled ∧
    Sample.openRequest.WellFormed model.space (fun _ => true) .any ∧
    Sample.openRequest.resolve model.space (fun _ => true) .any = .ok selectors ∧
    List.Forall₂ (Selector.Answers .any Sample.openRequest) model.space.dimensions selectors ∧
    Sample.reorderedRequest.resolve model.space (fun _ => true) .any = .ok selectors := by
  obtain ⟨model, selectors, compiled, resolved⟩ : ∃ model selectors,
      Model.compile Sample.document = .ok model ∧
      Sample.openRequest.resolve model.space (fun _ => true) .any = .ok selectors :=
    ⟨_, _, rfl, rfl⟩
  have filled := Model.filled_of_compile compiled
  obtain ⟨_, accepted, reordered⟩ :=
    resolves_iff_wellFormed filled Sample.openRequest (fun _ => true) .any
  obtain ⟨wellFormed, answers⟩ := (accepted selectors).mp resolved
  have same := reordered Sample.reorderedRequest rfl (List.reverse_perm _) selectors
  exact ⟨model, selectors, compiled, filled, wellFormed, resolved, answers, same.mpr resolved⟩

end RuleSlicing
