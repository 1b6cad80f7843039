import RuleSlicing.Proofs.Compilation
import RuleSlicing.Proofs.Descriptions

/-!
# Documents that compile

A document is compiled exactly if its dimensions have different names, its features have
codes, its properties denote ranges, those that name a dimension are of its type, and its rules
name features only. The model is what the document declares, and a dimension is unused if all
ranges that are declared for it are empty.
-/

set_option autoImplicit false

namespace RuleSlicing

/-! ## Declared ranges -/

namespace Domain

/-- Some value has been declared. -/
def Occupied : Domain → Prop
  | .boolean values => ∃ value, value ∈ values
  | .integer points => ∃ value, value ∈ points.declared
  | .enumeration values => ∃ value, value ∈ values
  | .date points => ∃ value, value ∈ points.declared

theorem occupied_iff (domain : Domain) :
    domain.Occupied ↔ domain.relevantValues.isEmpty = false := by
  cases domain with
  | boolean values =>
      have same : (boolean values).relevantValues.isEmpty = values.isEmpty := by
        simp only [relevantValues]
        cases values.isEmpty <;> rfl
      rw [same]
      exact (SortedSet.isEmpty_eq_false_iff values).symm
  | enumeration values =>
      unfold relevantValues
      rw [List.isEmpty_map]
      exact (SortedSet.isEmpty_eq_false_iff values).symm
  | integer points | date points =>
      refine Breakpoints.exists_relevant_iff.symm.trans ?_
      unfold relevantValues
      rw [List.isEmpty_map, ← SortedSet.isEmpty_eq_false_iff]
      rfl

/-- Lists of truth values or names add their values. -/
private theorem exists_mem_union_iff {Value : Type} [LinearOrdered Value]
    {values : SortedSet Value} {range : Range Value} (discrete : range.isDiscrete = true) :
    (∃ value, value ∈ (SortedSet.ofList range.listed).union values) ↔
      (∃ value, value ∈ values) ∨ range.isEmpty = false := by
  rw [Range.isEmpty_eq_false_iff]
  simp only [SortedSet.mem_union_iff, SortedSet.mem_ofList_iff, Range.mem_listed_iff discrete]
  exact exists_or.trans or_comm

theorem occupied_add?_iff {domain extended : Domain} {range : PropertyRange}
    (wellShaped : range.WellShaped) (added : domain.add? range = some extended) :
    extended.Occupied ↔ domain.Occupied ∨ range.isEmpty = false := by
  unfold add? at added
  split at added
  · cases added
    exact exists_mem_union_iff (wellShaped.resolve_right nofun)
  · cases added
    exact Breakpoints.exists_declared_add_iff
  · cases added
    exact exists_mem_union_iff (wellShaped.resolve_right nofun)
  · cases added
    exact Breakpoints.exists_declared_add_iff
  · cases added

theorem exists_add?_iff {domain : Domain} {range : PropertyRange} :
    (∃ extended, domain.add? range = some extended) ↔ range.type = domain.type := by
  cases domain <;> cases range <;> simp [add?, type, PropertyRange.type]

private theorem not_occupied_empty (type : PropertyType) : ¬(empty type).Occupied := by
  rw [occupied_iff]
  cases type <;> exact Bool.false_ne_true ∘ Eq.symm

section Fold

variable {ranges : List PropertyRange}

private theorem exists_foldlM_add?_iff {domain : Domain} :
    (∃ final, ranges.foldlM add? domain = some final) ↔
      ∀ range ∈ ranges, range.type = domain.type := by
  induction ranges generalizing domain with
  | nil => exact iff_of_true ⟨domain, rfl⟩ fun _ none => absurd none List.not_mem_nil
  | cons range rest ih =>
      rw [List.forall_mem_cons, List.foldlM_cons]
      constructor
      · rintro ⟨final, made⟩
        obtain ⟨extended, added, made⟩ := Option.bind_eq_some_iff.mp made
        exact ⟨exists_add?_iff.mp ⟨extended, added⟩, add?_type added ▸ ih.mp ⟨final, made⟩⟩
      · rintro ⟨here, others⟩
        obtain ⟨extended, added⟩ := exists_add?_iff.mpr here
        obtain ⟨final, made⟩ := ih.mpr ((add?_type added).symm ▸ others)
        exact ⟨final, Option.bind_eq_some_iff.mpr ⟨extended, added, made⟩⟩

private theorem occupied_foldlM_iff {domain final : Domain}
    (made : ranges.foldlM add? domain = some final)
    (wellShaped : ∀ range ∈ ranges, range.WellShaped) :
    final.Occupied ↔ domain.Occupied ∨ ∃ range ∈ ranges, range.isEmpty = false := by
  induction ranges generalizing domain with
  | nil =>
      cases made
      simp
  | cons range rest ih =>
      obtain ⟨here, others⟩ := List.forall_mem_cons.mp wellShaped
      rw [List.foldlM_cons] at made
      obtain ⟨extended, added, made⟩ := Option.bind_eq_some_iff.mp made
      rw [ih made others, occupied_add?_iff here added, or_assoc, List.exists_mem_cons_iff]

variable {type : PropertyType}

theorem exists_ofRanges?_iff :
    (∃ domain, ofRanges? type ranges = some domain) ↔ ∀ range ∈ ranges, range.type = type := by
  unfold ofRanges?
  rw [exists_foldlM_add?_iff, type_empty]

theorem occupied_ofRanges?_iff {domain : Domain} (made : ofRanges? type ranges = some domain)
    (wellShaped : ∀ range ∈ ranges, range.WellShaped) :
    domain.Occupied ↔ ∃ range ∈ ranges, range.isEmpty = false :=
  (occupied_foldlM_iff made wellShaped).trans (or_iff_right (not_occupied_empty type))

end Fold

end Domain

/-! ## Described properties -/

namespace PropertySpec

theorem sound_of_toProperty {spec : PropertySpec} {property : Property}
    (accepted : spec.toProperty = .ok property) :
    property.name = spec.name ∧ property.range.type = spec.type := by
  unfold toProperty at accepted
  split at accepted
  · rename_i range denoted
    cases accepted
    exact ⟨rfl, RangeSpec.type_of_toRange denoted⟩
  · cases accepted

variable {specs : List PropertySpec} {properties : List Property}

theorem exists_denote (converts : ∀ spec ∈ specs, ∃ property, spec.toProperty = .ok property) :
    ∃ properties, Denote specs properties := exists_forall₂ converts

/-- The ranges of a name are of a type if the descriptions with this name are. -/
theorem Denote.typed_iff (denoted : Denote specs properties) (name : String)
    (type : PropertyType) :
    (∀ range ∈ rangesOf name properties, range.type = type) ↔
      ∀ spec ∈ specs, spec.name = name → spec.type = type := by
  constructor
  · intro typed spec inSpecs same
    obtain ⟨property, inProperties, accepted⟩ := exists_right_of_forall₂ denoted inSpecs
    obtain ⟨sameName, sameType⟩ := sound_of_toProperty accepted
    rw [← sameType]
    exact typed property.range (mem_rangesOf inProperties (sameName.trans same))
  · intro typed range member
    obtain ⟨property, kept, rfl⟩ := List.mem_map.mp member
    obtain ⟨inProperties, same⟩ := List.mem_filter.mp kept
    obtain ⟨spec, inSpecs, accepted⟩ := exists_left_of_forall₂ denoted inProperties
    obtain ⟨sameName, sameType⟩ := sound_of_toProperty accepted
    rw [sameType]
    exact typed spec inSpecs (sameName.symm.trans (of_decide_eq_true same))

theorem Denote.wellShaped (denoted : Denote specs properties) (name : String) :
    ∀ range ∈ rangesOf name properties, range.WellShaped := by
  intro range member
  obtain ⟨property, kept, rfl⟩ := List.mem_map.mp member
  obtain ⟨spec, _, accepted⟩ := exists_left_of_forall₂ denoted (List.mem_filter.mp kept).1
  exact (describable_of_toProperty accepted).wellShaped

end PropertySpec

/-! ## Valid documents -/

/-- A document that can be compiled. -/
structure ModelDocument.Valid (document : ModelDocument) : Prop where
  /-- No dimension is declared twice. -/
  distinct : (document.dimensions.map (·.name)).Nodup
  named : ∀ feature ∈ document.features, Text.isBlankText feature.code = false
  converts : ∀ spec ∈ document.specs, ∃ property, spec.toProperty = .ok property
  /-- A property that names a dimension is of its type. -/
  typed : ∀ declared ∈ document.dimensions, ∀ spec ∈ document.specs,
    spec.name = declared.name → spec.type = declared.type
  /-- Rules name features of the document only. -/
  closed : ∀ rule ∈ document.rules, ∀ name ∈ rule.formula.vars,
    name ∈ document.features.map (·.code)

namespace Model

variable {document : ModelDocument}

theorem exists_dimension_iff {declared : DimensionDocument} {properties : List Property} :
    (∃ dimension, declared.CompilesTo properties dimension) ↔
      ∀ range ∈ rangesOf declared.name properties, range.type = declared.type := by
  rw [← Domain.exists_ofRanges?_iff]
  constructor
  · rintro ⟨dimension, compiled⟩
    exact ⟨dimension.domain, compiled.domain⟩
  · rintro ⟨domain, made⟩
    exact ⟨⟨declared.name, domain⟩, rfl, made⟩

theorem valid_of_renders {model : Model} (distinct : (document.dimensions.map (·.name)).Nodup)
    (named : ∀ feature ∈ document.features, Text.isBlankText feature.code = false)
    (closed : ∀ rule ∈ document.rules, ∀ name ∈ rule.formula.vars,
      name ∈ document.features.map (·.code))
    (renders : model.Renders document) : document.Valid := by
  refine ⟨distinct, named, fun spec member => ?_, fun declared member => ?_, closed⟩
  · obtain ⟨property, _, accepted⟩ := exists_right_of_forall₂ renders.denote member
    exact ⟨property, accepted⟩
  · obtain ⟨dimension, _, compiled⟩ := exists_right_of_forall₂ renders.dimensions member
    exact (renders.denote.typed_iff declared.name declared.type).mp
      (exists_dimension_iff.mp ⟨dimension, compiled⟩)

theorem exists_renders (valid : document.Valid) : ∃ model : Model, model.Renders document := by
  obtain ⟨features, compiledFeatures⟩ : ∃ features, List.Forall₂ FeatureDocument.CompilesTo
      (document.features.zipIdx 1) features := by
    refine exists_forall₂ ?_
    rintro ⟨feature, id⟩ member
    have inDocument : feature ∈ document.features := List.fst_mem_of_mem_zipIdx member
    obtain ⟨properties, denoted⟩ := PropertySpec.exists_denote fun spec inSpecs =>
      valid.converts spec
        (List.mem_append_left _ (List.mem_flatMap.mpr ⟨feature, inDocument, inSpecs⟩))
    exact ⟨⟨id, feature.code, properties⟩, rfl, rfl, denoted⟩
  obtain ⟨rules, compiledRules⟩ : ∃ rules, List.Forall₂
      (RuleDocument.CompilesTo document.features.length) (document.rules.zipIdx 1) rules := by
    refine exists_forall₂ ?_
    rintro ⟨rule, position⟩ member
    have inDocument : rule ∈ document.rules := List.fst_mem_of_mem_zipIdx member
    obtain ⟨properties, denoted⟩ := PropertySpec.exists_denote fun spec inSpecs =>
      valid.converts spec
        (List.mem_append_right _ (List.mem_flatMap.mpr ⟨rule, inDocument, inSpecs⟩))
    exact ⟨⟨_, _, rule.formula, properties⟩, rfl, rfl, rfl, denoted⟩
  have denoted := denote_specs compiledFeatures compiledRules
  obtain ⟨dimensions, compiledDimensions⟩ := exists_forall₂ fun declared member =>
    exists_dimension_iff.mpr ((denoted.typed_iff declared.name declared.type).mpr
      (valid.typed declared member))
  exact ⟨⟨⟨dimensions⟩, features, rules⟩, compiledDimensions, compiledFeatures, compiledRules⟩

/-! ## What is compiled -/

theorem Renders.isUnused_iff {model : Model} (renders : model.Renders document) :
    ∀ dimension ∈ model.space.dimensions, dimension.isUnused = true ↔
      ∀ range ∈ rangesOf dimension.name model.properties, range.isEmpty = true := by
  intro dimension member
  obtain ⟨declared, _, compiled⟩ := exists_left_of_forall₂ renders.dimensions member
  have occupied := Domain.occupied_ofRanges?_iff compiled.domain
    (renders.denote.wellShaped declared.name)
  have some : dimension.isUnused = false ↔
      ∃ range ∈ rangesOf declared.name model.properties, range.isEmpty = false :=
    (Domain.occupied_iff dimension.domain).symm.trans occupied
  rw [compiled.name, ← not_iff_not, Bool.not_eq_true, some]
  push Not
  simp only [Bool.not_eq_true]

theorem Renders.closed {model : Model} (renders : model.Renders document)
    (closed : ∀ rule ∈ document.rules, ∀ name ∈ rule.formula.vars,
      name ∈ document.features.map (·.code)) :
    ∀ rule ∈ model.rules, ∀ name ∈ rule.formula.vars, name ∈ model.features.map (·.code) := by
  intro rule member
  obtain ⟨⟨declared, position⟩, numbered, compiled⟩ := exists_left_of_forall₂ renders.rules member
  rw [codes_of_compiled renders.features, compiled.formula]
  exact closed declared (List.fst_mem_of_mem_zipIdx numbered)

/-- Compiling accepts the valid documents and makes of each what it declares. -/
theorem compiles_iff_valid (document : ModelDocument) :
    ((∃ model, compile document = .ok model) ↔ document.Valid) ∧
    (∀ model, compile document = .ok model →
      model.Renders document ∧
      model.features.map (·.id) ++ model.rules.map (·.id) =
        List.range' 1 (document.features.length + document.rules.length) ∧
      (∀ rule ∈ model.rules, ∀ name ∈ rule.formula.vars, name ∈ model.features.map (·.code)) ∧
      ∀ dimension ∈ model.space.dimensions, dimension.isUnused = true ↔
        ∀ range ∈ rangesOf dimension.name model.properties, range.isEmpty = true) ∧
    ∀ fault, compile document = .error fault → ∃ reason, fault.toError = .model reason := by
  refine ⟨⟨?_, ?_⟩, ?_, fun fault _ => ⟨fault.message, rfl⟩⟩
  · rintro ⟨model, compiled⟩
    obtain ⟨distinct, named, closed, renders⟩ := compile_eq_ok_iff.mp compiled
    exact valid_of_renders distinct named closed renders
  · intro valid
    obtain ⟨model, renders⟩ := exists_renders valid
    exact ⟨model, compile_eq_ok_iff.mpr ⟨valid.distinct, valid.named, valid.closed, renders⟩⟩
  · intro model compiled
    obtain ⟨_, _, closed, renders⟩ := compile_eq_ok_iff.mp compiled
    refine ⟨renders, ?_, renders.closed closed, renders.isUnused_iff⟩
    rw [renders.featureIds, renders.ruleIds, Nat.add_comm _ 1, List.range'_append_1]

end Model

namespace Sample

/-- Nothing is declared for the market, and two features have one code. -/
def sparseDocument : ModelDocument where
  dimensions := [⟨"market", .enumeration⟩]
  features := [
    ⟨"A", [⟨"market", .enumeration, ⟨some [], none, none⟩⟩]⟩,
    ⟨"A", [⟨"year", .integer, ⟨some [.integer 5], none, none⟩⟩]⟩]
  rules := [⟨none, none, .not (.var "A"), []⟩]

end Sample

theorem Model.compiles_iff_valid_sample :
    (∃ model, compile Sample.sparseDocument = .ok model ∧ Sample.sparseDocument.Valid ∧
      model.Renders Sample.sparseDocument ∧
      model.features.map (·.id) ++ model.rules.map (·.id) = List.range' 1 3 ∧
      ∀ dimension ∈ model.space.dimensions, dimension.isUnused = true ↔
        ∀ range ∈ rangesOf dimension.name model.properties, range.isEmpty = true) ∧
    ∃ fault, compile { Sample.sparseDocument with features := [] } = .error fault ∧
      ∃ reason, fault.toError = .model reason := by
  obtain ⟨accepts, establishes, _⟩ := compiles_iff_valid Sample.sparseDocument
  obtain ⟨_, _, fails⟩ := compiles_iff_valid { Sample.sparseDocument with features := [] }
  obtain ⟨model, compiled⟩ : ∃ model, compile Sample.sparseDocument = .ok model := ⟨_, rfl⟩
  obtain ⟨renders, numbered, _, unused⟩ := establishes model compiled
  exact ⟨⟨model, compiled, accepts.mp ⟨model, compiled⟩, renders, numbered, unused⟩,
    _, rfl, fails _ rfl⟩

end RuleSlicing
