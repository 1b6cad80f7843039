import RuleSlicing.Model.Basic
import RuleSlicing.Proofs.Factorization
import RuleSlicing.Proofs.Outcomes

/-!
# What compiling a model establishes

The dimensions of a compiled model have different names, and the domain of each
is what all properties of features and rules with its name declare, in order.
Features and rules have different numbers.
-/

set_option autoImplicit false

namespace RuleSlicing

/-! ## Growing dimensions -/

def rangesOf (name : String) (properties : List Property) : List PropertyRange :=
  (properties.filter (·.name = name)).map (·.range)

theorem mem_rangesOf {name : String} {properties : List Property} {property : Property}
    (member : property ∈ properties) (same : property.name = name) :
    property.range ∈ rangesOf name properties :=
  List.mem_map_of_mem (List.mem_filter.mpr ⟨member, decide_eq_true same⟩)

theorem rangesOf_append (name : String) (properties later : List Property) :
    rangesOf name (properties ++ later) = rangesOf name properties ++ rangesOf name later := by
  unfold rangesOf
  rw [List.filter_append, List.map_append]

namespace Dimension

/-- A dimension before and after some properties have been taken into account. -/
structure Grows (properties : List Property) (before after : Dimension) : Prop where
  name : after.name = before.name
  domain : (rangesOf before.name properties).foldlM Domain.add? before.domain = some after.domain

variable {properties later : List Property} {before after : Dimension}

theorem grows_nil_iff : Grows [] before after ↔ before = after := by
  constructor
  · rintro ⟨sameName, sameDomain⟩
    obtain ⟨name, domain⟩ := before
    obtain ⟨otherName, otherDomain⟩ := after
    cases sameName
    cases sameDomain
    rfl
  · rintro rfl
    exact ⟨rfl, rfl⟩

theorem grows_append_iff :
    Grows (properties ++ later) before after ↔
      ∃ between, Grows properties before between ∧ Grows later between after := by
  constructor
  · intro grown
    have domain := grown.domain
    rw [rangesOf_append, List.foldlM_append] at domain
    obtain ⟨domain, first, second⟩ := Option.bind_eq_some_iff.mp domain
    exact ⟨⟨before.name, domain⟩, ⟨rfl, first⟩, ⟨grown.name, second⟩⟩
  · rintro ⟨between, first, second⟩
    refine ⟨second.name.trans first.name, ?_⟩
    rw [rangesOf_append, List.foldlM_append]
    exact Option.bind_eq_some_iff.mpr ⟨between.domain, first.domain, first.name ▸ second.domain⟩

theorem add_eq_ok_iff {property : Property} (same : before.name = property.name) :
    before.add property.range = .ok after ↔ Grows [property] before after := by
  have kept : rangesOf before.name [property] = [property.range] := by
    simp [rangesOf, same]
  have grows : Grows [property] before after ↔
      after.name = before.name ∧ before.domain.add? property.range = some after.domain := by
    constructor
    · intro grown
      exact ⟨grown.name, by simpa [kept] using grown.domain⟩
    · rintro ⟨name, domain⟩
      exact ⟨name, by simpa [kept] using domain⟩
  rw [grows]
  obtain ⟨name, domain⟩ := after
  unfold add
  cases before.domain.add? property.range with
  | none => simp
  | some extended => simp [eq_comm]

/-- A property with another name is not taken into account. -/
theorem grows_of_ne_iff {property : Property} (different : before.name ≠ property.name) :
    Grows [property] before after ↔ before = after := by
  have none : rangesOf before.name [property] = rangesOf before.name [] := by
    simp [rangesOf, Ne.symm different]
  rw [← grows_nil_iff]
  exact ⟨fun grown => ⟨grown.name, none ▸ grown.domain⟩,
    fun grown => ⟨grown.name, none.symm ▸ grown.domain⟩⟩

end Dimension

/-! ## Growing spaces -/

namespace Space

/-- The dimensions of a space before and after some properties have been taken into
account. -/
def Grows (properties : List Property) (before after : Space) : Prop :=
  List.Forall₂ (Dimension.Grows properties) before.dimensions after.dimensions

def names (space : Space) : List String := space.dimensions.map (·.name)

variable {properties later : List Property} {before after : Space}

theorem find?_eq_none_iff {space : Space} {name : String} :
    space.find? name = none ↔ name ∉ space.names := find?_name_eq_none_iff

theorem declare_eq_ok_iff {space extended : Space} {name : String} {type : PropertyType} :
    space.declare name type = .ok extended ↔
      name ∉ space.names ∧ ⟨space.dimensions ++ [.new name type]⟩ = extended := by
  rw [← find?_eq_none_iff]
  unfold declare
  cases space.find? name <;> simp

theorem nodup_names_declare {space : Space} {name : String} (distinct : space.names.Nodup)
    (fresh : name ∉ space.names) (type : PropertyType) :
    (names ⟨space.dimensions ++ [.new name type]⟩).Nodup := by
  unfold names
  rw [List.map_append]
  refine List.nodup_append.mpr ⟨distinct, List.nodup_singleton _, ?_⟩
  rintro other earlier _ last rfl
  have same : other = name := List.mem_singleton.mp last
  exact fresh (same ▸ earlier)

theorem grows_nil_iff : Grows [] before after ↔ before = after := by
  unfold Grows
  rw [forall₂_congr_of_mem fun _ _ _ => Dimension.grows_nil_iff, List.forall₂_eq_eq_eq]
  exact ⟨congrArg Space.mk, congrArg Space.dimensions⟩

theorem grows_append_iff :
    Grows (properties ++ later) before after ↔
      ∃ between, Grows properties before between ∧ Grows later between after := by
  unfold Grows
  rw [forall₂_congr_of_mem fun _ _ _ => Dimension.grows_append_iff, forall₂_comp_iff]
  constructor
  · rintro ⟨dimensions, first, second⟩
    exact ⟨⟨dimensions⟩, first, second⟩
  · rintro ⟨between, first, second⟩
    exact ⟨between.dimensions, first, second⟩

theorem Grows.names (grown : Grows properties before after) : after.names = before.names := by
  unfold Space.names
  rw [← List.forall₂_eq_eq_eq, List.forall₂_map_left_iff, List.forall₂_map_right_iff]
  exact grown.flip.imp fun _ _ grown => grown.name

private theorem addTo_eq_ok_iff {property : Property} {dimensions extended : List Dimension}
    (distinct : (dimensions.map (·.name)).Nodup) :
    addTo property dimensions = .ok extended ↔
      List.Forall₂ (Dimension.Grows [property]) dimensions extended := by
  induction dimensions generalizing extended with
  | nil =>
      rw [List.forall₂_nil_left_iff]
      exact ⟨fun added => (Except.ok.inj added).symm, fun none => congrArg Except.ok none.symm⟩
  | cons dimension rest ih =>
      obtain ⟨fresh, restDistinct⟩ := List.nodup_cons.mp distinct
      rw [List.forall₂_cons_left_iff]
      unfold addTo
      split
      · rename_i same
        -- The names are different, so no later dimension is named by the property.
        have unchanged : ∀ others,
            List.Forall₂ (Dimension.Grows [property]) rest others ↔ rest = others := by
          intro others
          rw [← List.forall₂_eq_eq_eq]
          refine forall₂_congr_of_mem fun other member right => Dimension.grows_of_ne_iff ?_
          intro equal
          exact fresh (List.mem_map.mpr ⟨other, member, equal.trans same.symm⟩)
        rw [bind_eq_ok_iff]
        simp [Dimension.add_eq_ok_iff same, unchanged, pure, Except.pure, @eq_comm _ extended]
      · rename_i different
        rw [bind_eq_ok_iff]
        simp [Dimension.grows_of_ne_iff different, ih restDistinct, pure, Except.pure,
          @eq_comm _ extended]

theorem add_eq_ok_iff {property : Property} (distinct : before.names.Nodup) :
    before.add property = .ok after ↔ Grows [property] before after := by
  unfold Grows
  rw [← addTo_eq_ok_iff distinct]
  constructor
  · intro added
    obtain ⟨extended, done, rfl⟩ := ok_of_map added
    exact done
  · intro done
    unfold add
    rw [done]
    rfl

end Space

/-! ## Compiling -/

/-- Descriptions denote properties, in order. -/
def PropertySpec.Denote (specs : List PropertySpec) (properties : List Property) : Prop :=
  List.Forall₂ (fun spec property => spec.toProperty = .ok property) specs properties

/-- The descriptions of all properties of features and rules. -/
def ModelDocument.specs (document : ModelDocument) : List PropertySpec :=
  document.features.flatMap (·.properties) ++ document.rules.flatMap (·.properties)

/-- A declaration is compiled to a dimension for which the ranges of some properties have
been declared. -/
structure DimensionDocument.CompilesTo (properties : List Property) (declared : DimensionDocument)
    (dimension : Dimension) : Prop where
  name : dimension.name = declared.name
  domain : Domain.ofRanges? declared.type (rangesOf declared.name properties) =
    some dimension.domain

/-- A declaration with the number of its feature is compiled to the feature. -/
structure FeatureDocument.CompilesTo (declared : FeatureDocument × Nat) (feature : Feature) :
    Prop where
  id : feature.id = declared.2
  code : feature.code = declared.1.code
  properties : PropertySpec.Denote declared.1.properties feature.properties

/-- A declaration with its position is compiled to a rule, behind some features. -/
structure RuleDocument.CompilesTo (features : Nat) (declared : RuleDocument × Nat) (rule : Rule) :
    Prop where
  id : rule.id = features + declared.2
  label : rule.label = Model.labelOf declared.2 declared.1
  formula : rule.formula = declared.1.formula
  properties : PropertySpec.Denote declared.1.properties rule.properties

namespace Model

def properties (model : Model) : List Property :=
  model.features.flatMap (·.properties) ++ model.rules.flatMap (·.properties)

theorem declareAll_eq_ok_iff {documents : List DimensionDocument} {space final : Space}
    (distinct : space.names.Nodup) :
    declareAll documents space = .ok final ↔
      (space.names ++ documents.map (·.name)).Nodup ∧
        final = ⟨space.dimensions ++ documents.map fun document =>
          .new document.name document.type⟩ := by
  induction documents generalizing space with
  | nil =>
      simp only [List.map_nil, List.append_nil]
      exact ⟨fun declared => ⟨distinct, (Except.ok.inj declared).symm⟩,
        fun given => congrArg Except.ok given.2.symm⟩
  | cons document rest ih =>
      have moved : space.names ++ (document :: rest).map (·.name) =
          Space.names ⟨space.dimensions ++ [.new document.name document.type]⟩ ++
            rest.map (·.name) := by
        simp [Space.names, Dimension.new]
      have behind : space.dimensions ++ (document :: rest).map (fun document =>
          Dimension.new document.name document.type) =
            space.dimensions ++ [.new document.name document.type] ++ rest.map fun document =>
              .new document.name document.type := by
        simp
      constructor
      · intro declared
        obtain ⟨extended, made, declared⟩ := ok_of_bind declared
        obtain ⟨fresh, rfl⟩ := Space.declare_eq_ok_iff.mp made
        rw [moved, behind]
        exact (ih (Space.nodup_names_declare distinct fresh document.type)).mp declared
      · intro given
        have fresh : document.name ∉ space.names := fun known =>
          (List.nodup_append.mp given.1).2.2 _ known _ (.head _) rfl
        rw [moved, behind] at given
        unfold declareAll
        rw [Space.declare_eq_ok_iff.mpr ⟨fresh, rfl⟩]
        exact (ih (Space.nodup_names_declare distinct fresh document.type)).mpr given

private theorem addProperties_cons_eq_ok_iff {spec : PropertySpec} {rest : List PropertySpec}
    {space final : Space} {properties : List Property} :
    addProperties (spec :: rest) space = .ok (properties, final) ↔
      ∃ property extended others, spec.toProperty = .ok property ∧
        space.add property = .ok extended ∧
        addProperties rest extended = .ok (others, final) ∧ property :: others = properties := by
  simp only [addProperties, bind_eq_ok_iff, mapError_eq_ok_iff, Prod.exists]
  constructor
  · rintro ⟨property, accepted, extended, added, others, last, restAdded, same⟩
    cases same
    exact ⟨property, extended, others, accepted, added, restAdded, rfl⟩
  · rintro ⟨property, extended, others, accepted, added, restAdded, rfl⟩
    exact ⟨property, accepted, extended, added, others, final, restAdded, rfl⟩

private theorem addProperties_eq_ok_iff {specs : List PropertySpec} {space final : Space}
    {properties : List Property} (distinct : space.names.Nodup) :
    addProperties specs space = .ok (properties, final) ↔
      PropertySpec.Denote specs properties ∧ Space.Grows properties space final := by
  induction specs generalizing space properties with
  | nil =>
      unfold PropertySpec.Denote
      rw [List.forall₂_nil_left_iff]
      constructor
      · intro added
        cases added
        exact ⟨rfl, Space.grows_nil_iff.mpr rfl⟩
      · rintro ⟨rfl, grown⟩
        obtain rfl := Space.grows_nil_iff.mp grown
        rfl
  | cons spec rest ih =>
      rw [addProperties_cons_eq_ok_iff]
      constructor
      · rintro ⟨property, extended, others, accepted, added, restAdded, rfl⟩
        have grown := (Space.add_eq_ok_iff distinct).mp added
        obtain ⟨restDenoted, restGrown⟩ := (ih (grown.names ▸ distinct)).mp restAdded
        exact ⟨.cons accepted restDenoted, Space.grows_append_iff.mpr ⟨extended, grown, restGrown⟩⟩
      · rintro ⟨denoted, grown⟩
        cases denoted with
        | @cons _ property _ others accepted restDenoted =>
            have grown : Space.Grows ([property] ++ others) space final := grown
            obtain ⟨extended, first, restGrown⟩ := Space.grows_append_iff.mp grown
            exact ⟨property, extended, others, accepted, (Space.add_eq_ok_iff distinct).mpr first,
              (ih (first.names ▸ distinct)).mpr ⟨restDenoted, restGrown⟩, rfl⟩

private theorem addFeatures_cons_eq_ok_iff {document : FeatureDocument}
    {rest : List FeatureDocument} {id : Nat} {space final : Space} {features : List Feature} :
    addFeatures id (document :: rest) space = .ok (features, final) ↔
      Text.isBlankText document.code = false ∧ ∃ properties extended others,
        addProperties document.properties space = .ok (properties, extended) ∧
        addFeatures (id + 1) rest extended = .ok (others, final) ∧
        ⟨id, document.code, properties⟩ :: others = features := by
  rw [addFeatures]
  split
  · rename_i blank
    exact iff_of_false nofun fun given => Bool.eq_false_iff.mp given.1 blank
  · rename_i named
    simp only [bind_eq_ok_iff, mapError_eq_ok_iff, Prod.exists]
    constructor
    · rintro ⟨properties, extended, done, others, last, restAdded, same⟩
      cases same
      exact ⟨Bool.of_not_eq_true named, properties, extended, others, done, restAdded, rfl⟩
    · rintro ⟨_, properties, extended, others, done, restAdded, rfl⟩
      exact ⟨properties, extended, done, others, final, restAdded, rfl⟩

private theorem addFeatures_eq_ok_iff {documents : List FeatureDocument} {id : Nat}
    {space final : Space} {features : List Feature} (distinct : space.names.Nodup) :
    addFeatures id documents space = .ok (features, final) ↔
      (∀ document ∈ documents, Text.isBlankText document.code = false) ∧
        List.Forall₂ FeatureDocument.CompilesTo (documents.zipIdx id) features ∧
        Space.Grows (features.flatMap (·.properties)) space final := by
  induction documents generalizing id space features with
  | nil =>
      rw [List.zipIdx_nil, List.forall₂_nil_left_iff]
      constructor
      · intro added
        cases added
        exact ⟨fun _ none => absurd none List.not_mem_nil, rfl, Space.grows_nil_iff.mpr rfl⟩
      · rintro ⟨_, rfl, grown⟩
        obtain rfl := Space.grows_nil_iff.mp grown
        rfl
  | cons document rest ih =>
      rw [List.forall_mem_cons, List.zipIdx_cons, addFeatures_cons_eq_ok_iff]
      constructor
      · rintro ⟨named, properties, extended, others, done, restAdded, rfl⟩
        obtain ⟨denoted, grown⟩ := (addProperties_eq_ok_iff distinct).mp done
        obtain ⟨restNamed, compiled, restGrown⟩ := (ih (grown.names ▸ distinct)).mp restAdded
        exact ⟨⟨named, restNamed⟩, .cons ⟨rfl, rfl, denoted⟩ compiled,
          Space.grows_append_iff.mpr ⟨extended, grown, restGrown⟩⟩
      · rintro ⟨⟨named, restNamed⟩, compiled, grown⟩
        cases compiled with
        | @cons _ feature _ others head compiled =>
            obtain ⟨featureId, code, properties⟩ := feature
            obtain ⟨sameId, sameCode, denoted⟩ := head
            cases sameId
            cases sameCode
            rw [List.flatMap_cons] at grown
            obtain ⟨extended, first, restGrown⟩ := Space.grows_append_iff.mp grown
            exact ⟨named, properties, extended, others,
              (addProperties_eq_ok_iff distinct).mpr ⟨denoted, first⟩,
              (ih (first.names ▸ distinct)).mpr ⟨restNamed, compiled, restGrown⟩, rfl⟩

private theorem addRules_cons_eq_ok_iff {codes : List String} {document : RuleDocument}
    {rest : List RuleDocument} {id position : Nat} {space final : Space} {rules : List Rule} :
    addRules codes id position (document :: rest) space = .ok (rules, final) ↔
      (∀ name ∈ document.formula.vars, name ∈ codes) ∧ ∃ properties extended others,
        addProperties document.properties space = .ok (properties, extended) ∧
        addRules codes (id + 1) (position + 1) rest extended = .ok (others, final) ∧
        ⟨id, labelOf position document, document.formula, properties⟩ :: others = rules := by
  have closed : (document.formula.vars.toList.find? fun name => !codes.contains name) = none ↔
      ∀ name ∈ document.formula.vars, name ∈ codes := by
    rw [List.find?_eq_none]
    exact forall₂_congr fun name _ => by simp
  rw [← closed, addRules]
  split
  · rename_i unknown found
    exact iff_of_false nofun fun given => nomatch found.symm.trans given.1
  · rename_i known
    simp only [bind_eq_ok_iff, mapError_eq_ok_iff, Prod.exists]
    constructor
    · rintro ⟨properties, extended, done, others, last, restAdded, same⟩
      cases same
      exact ⟨known, properties, extended, others, done, restAdded, rfl⟩
    · rintro ⟨_, properties, extended, others, done, restAdded, rfl⟩
      exact ⟨properties, extended, done, others, final, restAdded, rfl⟩

private theorem addRules_eq_ok_iff {codes : List String} {documents : List RuleDocument}
    {count position : Nat} {space final : Space} {rules : List Rule}
    (distinct : space.names.Nodup) :
    addRules codes (count + position) position documents space = .ok (rules, final) ↔
      (∀ document ∈ documents, ∀ name ∈ document.formula.vars, name ∈ codes) ∧
        List.Forall₂ (RuleDocument.CompilesTo count) (documents.zipIdx position) rules ∧
        Space.Grows (rules.flatMap (·.properties)) space final := by
  induction documents generalizing position space rules with
  | nil =>
      rw [List.zipIdx_nil, List.forall₂_nil_left_iff]
      constructor
      · intro added
        cases added
        exact ⟨fun _ none => absurd none List.not_mem_nil, rfl, Space.grows_nil_iff.mpr rfl⟩
      · rintro ⟨_, rfl, grown⟩
        obtain rfl := Space.grows_nil_iff.mp grown
        rfl
  | cons document rest ih =>
      rw [List.forall_mem_cons, List.zipIdx_cons, addRules_cons_eq_ok_iff, Nat.add_assoc]
      constructor
      · rintro ⟨closed, properties, extended, others, done, restAdded, rfl⟩
        obtain ⟨denoted, grown⟩ := (addProperties_eq_ok_iff distinct).mp done
        obtain ⟨restClosed, compiled, restGrown⟩ := (ih (grown.names ▸ distinct)).mp restAdded
        exact ⟨⟨closed, restClosed⟩, .cons ⟨rfl, rfl, rfl, denoted⟩ compiled,
          Space.grows_append_iff.mpr ⟨extended, grown, restGrown⟩⟩
      · rintro ⟨⟨closed, restClosed⟩, compiled, grown⟩
        cases compiled with
        | @cons _ rule _ others head compiled =>
            obtain ⟨ruleId, label, formula, properties⟩ := rule
            obtain ⟨sameId, sameLabel, sameFormula, denoted⟩ := head
            cases sameId
            cases sameLabel
            cases sameFormula
            rw [List.flatMap_cons] at grown
            obtain ⟨extended, first, restGrown⟩ := Space.grows_append_iff.mp grown
            exact ⟨closed, properties, extended, others,
              (addProperties_eq_ok_iff distinct).mpr ⟨denoted, first⟩,
              (ih (first.names ▸ distinct)).mpr ⟨restClosed, compiled, restGrown⟩, rfl⟩

/-- A model has what a document declares, in order, with numbers from one, features first. -/
structure Renders (model : Model) (document : ModelDocument) : Prop where
  dimensions : List.Forall₂ (DimensionDocument.CompilesTo model.properties) document.dimensions
    model.space.dimensions
  features : List.Forall₂ FeatureDocument.CompilesTo (document.features.zipIdx 1) model.features
  rules : List.Forall₂ (RuleDocument.CompilesTo document.features.length) (document.rules.zipIdx 1)
    model.rules

theorem denote_specs {document : ModelDocument} {features : List Feature} {rules : List Rule}
    {id count position : Nat}
    (compiled : List.Forall₂ FeatureDocument.CompilesTo (document.features.zipIdx id) features)
    (compiledRules : List.Forall₂ (RuleDocument.CompilesTo count) (document.rules.zipIdx position)
      rules) :
    PropertySpec.Denote document.specs
      (features.flatMap (·.properties) ++ rules.flatMap (·.properties)) := by
  unfold ModelDocument.specs
  rw [← List.zipIdx_map_fst id document.features, ← List.zipIdx_map_fst position document.rules,
    List.flatMap_map, List.flatMap_map]
  exact List.rel_append (List.rel_flatMap compiled fun _ _ compiled => compiled.properties)
    (List.rel_flatMap compiledRules fun _ _ compiled => compiled.properties)

theorem grows_new_iff {documents : List DimensionDocument} {properties : List Property}
    {space : Space} :
    Space.Grows properties ⟨documents.map fun document => .new document.name document.type⟩ space ↔
      List.Forall₂ (DimensionDocument.CompilesTo properties) documents space.dimensions := by
  unfold Space.Grows
  rw [List.forall₂_map_left_iff]
  exact forall₂_congr_of_mem fun _ _ _ => ⟨fun grown => ⟨grown.name, grown.domain⟩,
    fun compiled => ⟨compiled.name, compiled.domain⟩⟩

theorem codes_of_compiled {documents : List FeatureDocument} {id : Nat}
    {features : List Feature}
    (compiled : List.Forall₂ FeatureDocument.CompilesTo (documents.zipIdx id) features) :
    features.map (·.code) = documents.map (·.code) := by
  rw [← List.zipIdx_map_fst id documents, List.map_map, ← List.forall₂_eq_eq_eq,
    List.forall₂_map_left_iff, List.forall₂_map_right_iff]
  exact compiled.flip.imp fun _ _ compiled => compiled.code

private theorem compile_eq_ok_iff_passes {document : ModelDocument} {model : Model} :
    compile document = .ok model ↔ ∃ declared extended,
      declareAll document.dimensions .empty = .ok declared ∧
      addFeatures 1 document.features declared = .ok (model.features, extended) ∧
      addRules (model.features.map (·.code)) (model.features.length + 1) 1 document.rules extended =
        .ok (model.rules, model.space) := by
  simp only [compile, bind_eq_ok_iff, mapError_eq_ok_iff, Prod.exists]
  constructor
  · rintro ⟨declared, made, features, extended, adding, rules, space, closing, same⟩
    cases same
    exact ⟨declared, extended, made, adding, closing⟩
  · rintro ⟨declared, extended, made, adding, closing⟩
    exact ⟨declared, made, _, extended, adding, _, _, closing, rfl⟩

/-- What compiling accepts and what it makes of it. -/
theorem compile_eq_ok_iff {document : ModelDocument} {model : Model} :
    compile document = .ok model ↔
      (document.dimensions.map (·.name)).Nodup ∧
      (∀ feature ∈ document.features, Text.isBlankText feature.code = false) ∧
      (∀ rule ∈ document.rules, ∀ name ∈ rule.formula.vars,
        name ∈ document.features.map (·.code)) ∧
      model.Renders document := by
  have declaring : ∀ final, declareAll document.dimensions .empty = .ok final ↔
      (document.dimensions.map (·.name)).Nodup ∧
        final = ⟨document.dimensions.map fun document => .new document.name document.type⟩ :=
    fun final => declareAll_eq_ok_iff .nil
  have fresh : (document.dimensions.map (·.name)).Nodup →
      (Space.names ⟨document.dimensions.map fun document =>
        .new document.name document.type⟩).Nodup := by
    unfold Space.names
    rw [List.map_map]
    exact id
  have counted : ∀ {features : List Feature},
      List.Forall₂ FeatureDocument.CompilesTo (document.features.zipIdx 1) features →
        features.length = document.features.length := fun compiled => by
    rw [← compiled.length_eq, List.length_zipIdx]
  rw [compile_eq_ok_iff_passes]
  constructor
  · rintro ⟨declared, extended, made, adding, closing⟩
    obtain ⟨distinct, rfl⟩ := (declaring declared).mp made
    obtain ⟨named, compiled, grown⟩ := (addFeatures_eq_ok_iff (fresh distinct)).mp adding
    obtain ⟨closed, compiledRules, rulesGrown⟩ :=
      (addRules_eq_ok_iff (grown.names ▸ fresh distinct)).mp closing
    exact ⟨distinct, named, codes_of_compiled compiled ▸ closed,
      grows_new_iff.mp (Space.grows_append_iff.mpr ⟨extended, grown, rulesGrown⟩), compiled,
      counted compiled ▸ compiledRules⟩
  · rintro ⟨distinct, named, closed, renders⟩
    obtain ⟨extended, grown, rulesGrown⟩ :=
      Space.grows_append_iff.mp (grows_new_iff.mpr renders.dimensions)
    exact ⟨_, extended, (declaring _).mpr ⟨distinct, rfl⟩,
      (addFeatures_eq_ok_iff (fresh distinct)).mpr ⟨named, renders.features, grown⟩,
      (addRules_eq_ok_iff (grown.names ▸ fresh distinct)).mpr
        ⟨codes_of_compiled renders.features ▸ closed,
          (counted renders.features).symm ▸ renders.rules, rulesGrown⟩⟩

section Renders

variable {model : Model} {document : ModelDocument} (renders : model.Renders document)

include renders

theorem Renders.names : model.space.names = document.dimensions.map (·.name) := by
  unfold Space.names
  rw [← List.forall₂_eq_eq_eq, List.forall₂_map_left_iff, List.forall₂_map_right_iff]
  exact renders.dimensions.flip.imp fun _ _ compiled => compiled.name

theorem Renders.featureIds :
    model.features.map (·.id) = List.range' 1 document.features.length := by
  rw [← List.zipIdx_map_snd 1 document.features, ← List.forall₂_eq_eq_eq,
    List.forall₂_map_left_iff, List.forall₂_map_right_iff]
  exact renders.features.flip.imp fun _ _ compiled => compiled.id

theorem Renders.ruleIds : model.rules.map (·.id) =
    List.range' (document.features.length + 1) document.rules.length := by
  rw [← List.map_add_range', ← List.zipIdx_map_snd 1 document.rules, List.map_map,
    ← List.forall₂_eq_eq_eq, List.forall₂_map_left_iff, List.forall₂_map_right_iff]
  exact renders.rules.flip.imp fun _ _ compiled => compiled.id

theorem Renders.denote : PropertySpec.Denote document.specs model.properties :=
  denote_specs renders.features renders.rules

end Renders

/-- What compiling establishes. -/
structure Sound (model : Model) : Prop where
  distinct : model.space.names.Nodup
  domains : ∀ dimension ∈ model.space.dimensions,
    Domain.ofRanges? dimension.type (rangesOf dimension.name model.properties) =
      some dimension.domain
  featureIds : model.features.map (·.id) = List.range' 1 model.features.length
  ruleIds : model.rules.map (·.id) = List.range' (model.features.length + 1) model.rules.length

theorem sound_of_compile {document : ModelDocument} {model : Model}
    (compiled : compile document = .ok model) : model.Sound := by
  obtain ⟨distinct, _, _, renders⟩ := compile_eq_ok_iff.mp compiled
  have features : model.features.length = document.features.length := by
    rw [← renders.features.length_eq, List.length_zipIdx]
  have rules : model.rules.length = document.rules.length := by
    rw [← renders.rules.length_eq, List.length_zipIdx]
  refine ⟨renders.names ▸ distinct, fun dimension member => ?_, features ▸ renders.featureIds,
    features ▸ rules ▸ renders.ruleIds⟩
  obtain ⟨declared, _, compiled⟩ := exists_left_of_forall₂ renders.dimensions member
  have type : dimension.type = declared.type :=
    (Domain.foldlM_add?_type compiled.domain).trans (Domain.type_empty declared.type)
  rw [type, compiled.name]
  exact compiled.domain

/-! ## Axes of a compiled model -/

def axes (model : Model) (selectors : List Selector) : List Axis :=
  Axis.ofSelectors selectors model.space.dimensions

variable {model : Model}

/-- The axes of a sound model know all ranges that it declares. -/
theorem Sound.known (sound : model.Sound) (selectors : List Selector) :
    model.KnownTo (model.axes selectors) := by
  have domains := fun axis (member : axis ∈ model.axes selectors) =>
    sound.domains axis.dimension (Axis.mem_ofSelectors_iff.mp member).1
  refine ⟨Axis.distinct_ofSelectors sound.distinct, ?_, ?_, ?_⟩
  · intro axis member
    exact Domain.grounded_of_ofRanges? (domains axis member)
  · intro feature inModel property declared axis member same
    refine Domain.knows_of_ofRanges? (domains axis member) (mem_rangesOf ?_ same.symm)
    exact List.mem_append_left _ (List.mem_flatMap.mpr ⟨feature, inModel, declared⟩)
  · intro rule inModel property declared axis member same
    refine Domain.knows_of_ofRanges? (domains axis member) (mem_rangesOf ?_ same.symm)
    exact List.mem_append_right _ (List.mem_flatMap.mpr ⟨rule, inModel, declared⟩)

end Model

end RuleSlicing
