import RuleSlicing.Proofs.StandIns
import RuleSlicing.Slice.Discipline
import RuleSlicing.Space.Dimension

/-!
# Axes of a selection

An axis is a dimension with what is selected of it. It selects the values of the
domain that lie in the selected range; its relevant values are those of them that
stand for themselves. The laws hold for every domain that a list of declared
ranges builds.
-/

set_option autoImplicit false

namespace RuleSlicing

/-! ## Domains -/

namespace Domain

/-- Both truth values once one has been declared, the declared names, and the
numbers or dates from the least to the greatest declared one. -/
def Mem : Domain → PropertyValue → Prop
  | .boolean values, .boolean _ => values.isEmpty = false
  | .integer points, .integer value => ∃ min max, points.min? = some min ∧
      points.max? = some max ∧ min ≤ value ∧ value ≤ max
  | .enumeration values, .enumeration value => value ∈ values
  | .date points, .date value => ∃ min max, points.min? = some min ∧
      points.max? = some max ∧ min ≤ value ∧ value ≤ max
  | _, _ => False

instance : Membership PropertyValue Domain := ⟨Mem⟩

/-- The domain of a type for which the given ranges have been declared in turn. -/
def ofRanges? (type : PropertyType) (ranges : List PropertyRange) : Option Domain :=
  ranges.foldlM add? (.empty type)

def Grounded : Domain → Prop
  | .integer points => points.Grounded
  | .date points => points.Grounded
  | _ => True

def Knows : Domain → PropertyRange → Prop
  | .integer points, .integer range => points.Knows range
  | .date points, .date range => points.Knows range
  | _, _ => True

private theorem empty_grounded (type : PropertyType) : (empty type).Grounded := by
  cases type with
  | boolean => trivial
  | integer => exact fun _ member => absurd member (SortedSet.not_mem_empty _)
  | enumeration => trivial
  | date => exact fun _ member => absurd member (SortedSet.not_mem_empty _)

private theorem add?_grounded {domain extended : Domain} {range : PropertyRange}
    (added : domain.add? range = some extended) (grounded : domain.Grounded) :
    extended.Grounded := by
  unfold add? at added
  split at added
  · cases added
    trivial
  · cases added
    exact Breakpoints.add_grounded grounded _
  · cases added
    trivial
  · cases added
    exact Breakpoints.add_grounded grounded _
  · cases added

private theorem add?_knows_self {domain extended : Domain} {range : PropertyRange}
    (added : domain.add? range = some extended) : extended.Knows range := by
  unfold add? at added
  split at added
  · cases added
    trivial
  · cases added
    exact Breakpoints.add_knows_self _ _
  · cases added
    trivial
  · cases added
    exact Breakpoints.add_knows_self _ _
  · cases added

private theorem add?_knows {domain extended : Domain} {range known : PropertyRange}
    (added : domain.add? range = some extended) (knows : domain.Knows known) :
    extended.Knows known := by
  unfold add? at added
  split at added
  · cases added
    trivial
  · cases added
    cases known with
    | integer known => exact Breakpoints.add_knows knows _
    | boolean | enumeration | date => trivial
  · cases added
    trivial
  · cases added
    cases known with
    | date known => exact Breakpoints.add_knows knows _
    | boolean | enumeration | integer => trivial
  · cases added

theorem add?_type {domain extended : Domain} {range : PropertyRange}
    (added : domain.add? range = some extended) : extended.type = domain.type := by
  unfold add? at added
  split at added
  all_goals cases added
  all_goals rfl

theorem foldlM_add?_type {ranges : List PropertyRange} {domain final : Domain}
    (declared : ranges.foldlM add? domain = some final) : final.type = domain.type := by
  induction ranges generalizing domain with
  | nil =>
      cases declared
      rfl
  | cons range rest ih =>
      rw [List.foldlM_cons] at declared
      obtain ⟨extended, added, others⟩ := Option.bind_eq_some_iff.mp declared
      exact (ih others).trans (add?_type added)

theorem type_empty (type : PropertyType) : (empty type).type = type := by
  cases type <;> rfl

private theorem foldlM_add? (ranges : List PropertyRange) {domain final : Domain}
    (declared : ranges.foldlM add? domain = some final) (grounded : domain.Grounded) :
    final.Grounded ∧ ∀ known, domain.Knows known ∨ known ∈ ranges → final.Knows known := by
  induction ranges generalizing domain with
  | nil =>
      cases declared
      exact ⟨grounded, fun known knows => knows.resolve_right List.not_mem_nil⟩
  | cons range rest ih =>
      rw [List.foldlM_cons] at declared
      obtain ⟨extended, added, others⟩ := Option.bind_eq_some_iff.mp declared
      obtain ⟨finalGrounded, finalKnows⟩ := ih others (add?_grounded added grounded)
      refine ⟨finalGrounded, fun known knows => finalKnows known ?_⟩
      rcases knows with earlier | member
      · exact .inl (add?_knows added earlier)
      · rcases List.mem_cons.mp member with rfl | inRest
        · exact .inl (add?_knows_self added)
        · exact .inr inRest

variable {type : PropertyType} {ranges : List PropertyRange} {domain : Domain}

theorem grounded_of_ofRanges? (declared : ofRanges? type ranges = some domain) :
    domain.Grounded :=
  (foldlM_add? ranges declared (empty_grounded type)).1

theorem knows_of_ofRanges? (declared : ofRanges? type ranges = some domain)
    {range : PropertyRange} (member : range ∈ ranges) : domain.Knows range :=
  (foldlM_add? ranges declared (empty_grounded type)).2 range (.inr member)

end Domain

/-! ## Axes -/

/-- A dimension with the range and the discipline that are selected of it. -/
structure Axis where
  dimension : Dimension
  range : PropertyRange
  discipline : Discipline

namespace Axis

def name (axis : Axis) : String := axis.dimension.name

/-- A value is selected if it lies in the domain and in the selected range. -/
def Selects (axis : Axis) (value : PropertyValue) : Prop :=
  value ∈ axis.dimension.domain ∧ value ∈ axis.range

/-- The values that slices are made of. -/
def values (axis : Axis) : List PropertyValue := axis.dimension.relevantValuesIn axis.range

/-- The relevant value that stands for a selected value. -/
def standIn (axis : Axis) (value : PropertyValue) : PropertyValue :=
  match axis.dimension.domain, axis.range, value with
  | .integer points, .integer selected, .integer value =>
      .integer (points.standIn selected value)
  | .date points, .date selected, .date value => .date (points.standIn selected value)
  | _, _, value => value

/-- Numbers and dates of a selected interval stand for the values of their segment,
all other values for themselves. -/
def StandsFor (axis : Axis) (representative value : PropertyValue) : Prop :=
  match axis.dimension.domain, axis.range, representative, value with
  | .integer points, .integer selected, .integer representative, .integer value =>
      points.StandsFor selected representative value
  | .date points, .date selected, .date representative, .date value =>
      points.StandsFor selected representative value
  | _, _, representative, value => representative = value

def Grounded (axis : Axis) : Prop := axis.dimension.domain.Grounded

/-! ## Relevant values -/

inductive Fits : Domain → PropertyRange → PropertyValue → Prop where
  | boolean {declared selected choice} :
      Fits (.boolean declared) (.boolean selected) (.boolean choice)
  | integer {points selected number} :
      Fits (.integer points) (.integer selected) (.integer number)
  | enumeration {declared selected name} :
      Fits (.enumeration declared) (.enumeration selected) (.enumeration name)
  | date {points selected day} : Fits (.date points) (.date selected) (.date day)

variable {axis : Axis} {value : PropertyValue}

private theorem fits_of_type {domain : Domain} {range : PropertyRange}
    (inDomain : value.type = domain.type) (inRange : value.type = range.type) :
    Fits domain range value := by
  cases value with
  | boolean choice =>
      cases domain with
      | boolean declared =>
          cases range with
          | boolean selected => exact .boolean
          | integer | enumeration | date => cases inRange
      | integer | enumeration | date => cases inDomain
  | integer number =>
      cases domain with
      | integer points =>
          cases range with
          | integer selected => exact .integer
          | boolean | enumeration | date => cases inRange
      | boolean | enumeration | date => cases inDomain
  | enumeration name =>
      cases domain with
      | enumeration declared =>
          cases range with
          | enumeration selected => exact .enumeration
          | boolean | integer | date => cases inRange
      | boolean | integer | date => cases inDomain
  | date day =>
      cases domain with
      | date points =>
          cases range with
          | date selected => exact .date
          | boolean | integer | enumeration => cases inRange
      | boolean | integer | enumeration => cases inDomain

private theorem type_of_mem_domain {domain : Domain} (member : value ∈ domain) :
    value.type = domain.type := by
  have inside : domain.Mem value := member
  unfold Domain.Mem at inside
  split at inside
  all_goals first
    | rfl
    | exact inside.elim

theorem type_of_mem_relevantValues {domain : Domain}
    (member : value ∈ domain.relevantValues) : value.type = domain.type := by
  cases domain with
  | boolean declared =>
      simp only [Domain.relevantValues] at member
      split at member
      · cases member
      · rcases List.mem_cons.mp member with rfl | inRest
        · rfl
        · rw [List.mem_singleton.mp inRest]
          rfl
  | integer points | enumeration declared | date points =>
      obtain ⟨_, _, rfl⟩ := List.mem_map.mp member
      rfl

theorem Selects.fits (selects : axis.Selects value) :
    Fits axis.dimension.domain axis.range value :=
  fits_of_type (type_of_mem_domain selects.1) (PropertyRange.type_of_mem selects.2)

theorem fits_of_mem_values (member : value ∈ axis.values) :
    Fits axis.dimension.domain axis.range value := by
  unfold values Dimension.relevantValuesIn Domain.relevantValuesIn at member
  split at member
  · rename_i domainEq rangeEq
    obtain ⟨_, _, rfl⟩ := List.mem_map.mp member
    rw [domainEq, rangeEq]
    exact .integer
  · rename_i domainEq rangeEq
    obtain ⟨_, _, rfl⟩ := List.mem_map.mp member
    rw [domainEq, rangeEq]
    exact .date
  · obtain ⟨relevant, inRange⟩ := List.mem_filter.mp member
    exact fits_of_type (type_of_mem_relevantValues relevant) (PropertyRange.type_of_mem inRange)

theorem selects_integer_iff {name : String} {discipline : Discipline} {selected : Range Whole}
    {points : Breakpoints (-9223372036854775808) 9223372036854775807} :
    Selects ⟨⟨name, .integer points⟩, .integer selected, discipline⟩ value ↔
      ∃ number, (number ∈ points.span ∧ number ∈ selected) ∧ .integer number = value := by
  constructor
  · intro given
    obtain ⟨inDomain, inRange⟩ := given
    cases fits_of_type (type_of_mem_domain inDomain) (PropertyRange.type_of_mem inRange) with
    | integer =>
        exact ⟨_, ⟨(Breakpoints.mem_span_iff _ _).mpr inDomain,
          (PropertyRange.integer_mem_iff _ _).mp inRange⟩, rfl⟩
  · intro given
    obtain ⟨number, ⟨inSpan, inSelected⟩, rfl⟩ := given
    exact ⟨(Breakpoints.mem_span_iff _ _).mp inSpan,
      (PropertyRange.integer_mem_iff _ _).mpr inSelected⟩

theorem selects_date_iff {name : String} {discipline : Discipline} {selected : Range Date}
    {points : Breakpoints (-95745824) 95745704} :
    Selects ⟨⟨name, .date points⟩, .date selected, discipline⟩ value ↔
      ∃ day, (day ∈ points.span ∧ day ∈ selected) ∧ .date day = value := by
  constructor
  · intro given
    obtain ⟨inDomain, inRange⟩ := given
    cases fits_of_type (type_of_mem_domain inDomain) (PropertyRange.type_of_mem inRange) with
    | date =>
        exact ⟨_, ⟨(Breakpoints.mem_span_iff _ _).mpr inDomain,
          (PropertyRange.date_mem_iff _ _).mp inRange⟩, rfl⟩
  · intro given
    obtain ⟨day, ⟨inSpan, inSelected⟩, rfl⟩ := given
    exact ⟨(Breakpoints.mem_span_iff _ _).mp inSpan,
      (PropertyRange.date_mem_iff _ _).mpr inSelected⟩

private theorem mem_map_iff {Source : Type} {embed : Source → PropertyValue} {source : Source}
    {list : List Source} (injective : ∀ other, embed other = embed source → other = source) :
    embed source ∈ list.map embed ↔ source ∈ list := by
  rw [List.mem_map]
  constructor
  · intro given
    obtain ⟨other, member, same⟩ := given
    exact injective other same ▸ member
  · intro member
    exact ⟨source, member, rfl⟩

private theorem mem_relevantValues_boolean {declared : SortedSet Bool} {choice : Bool} :
    .boolean choice ∈ (Domain.boolean declared).relevantValues ↔ declared.isEmpty = false := by
  simp only [Domain.relevantValues]
  cases declared.isEmpty with
  | true => simp
  | false => cases choice <;> simp

private theorem mem_relevantValues_enumeration {declared : SortedSet String} {name : String} :
    .enumeration name ∈ (Domain.enumeration declared).relevantValues ↔ name ∈ declared :=
  mem_map_iff fun _ => PropertyValue.enumeration.inj

private theorem mem_values_iff_of_fits (grounded : axis.Grounded)
    (fits : Fits axis.dimension.domain axis.range value) :
    value ∈ axis.values ↔ axis.Selects value ∧ axis.standIn value = value := by
  obtain ⟨⟨name, domain⟩, range, discipline⟩ := axis
  cases fits with
  | boolean =>
      refine List.mem_filter.trans (.trans ?_ (and_iff_left rfl).symm)
      exact and_congr_left' mem_relevantValues_boolean
  | integer =>
      refine (mem_map_iff fun _ => PropertyValue.integer.inj).trans ?_
      refine (Breakpoints.mem_relevantIn_iff grounded).trans ?_
      rw [Breakpoints.mem_span_iff, ← PropertyRange.integer_mem_iff, ← and_assoc]
      exact and_congr_right' (PropertyValue.integer.injEq _ _).symm.to_iff
  | enumeration =>
      refine List.mem_filter.trans (.trans ?_ (and_iff_left rfl).symm)
      exact and_congr_left' mem_relevantValues_enumeration
  | date =>
      refine (mem_map_iff fun _ => PropertyValue.date.inj).trans ?_
      refine (Breakpoints.mem_relevantIn_iff grounded).trans ?_
      rw [Breakpoints.mem_span_iff, ← PropertyRange.date_mem_iff, ← and_assoc]
      exact and_congr_right' (PropertyValue.date.injEq _ _).symm.to_iff

/-- The relevant values are the selected values that stand for themselves. -/
theorem mem_values_iff (grounded : axis.Grounded) :
    value ∈ axis.values ↔ axis.Selects value ∧ axis.standIn value = value :=
  ⟨fun member => (mem_values_iff_of_fits grounded (fits_of_mem_values member)).mp member,
    fun relevant => (mem_values_iff_of_fits grounded relevant.1.fits).mpr relevant⟩

private theorem nodup_map {Source : Type} {embed : Source → PropertyValue} {list : List Source}
    (unique : list.Nodup) (injective : ∀ left right, embed left = embed right → left = right) :
    (list.map embed).Nodup :=
  List.pairwise_map.mpr <| unique.imp fun different same => different (injective _ _ same)

theorem nodup_relevantValues (domain : Domain) : domain.relevantValues.Nodup := by
  cases domain with
  | boolean declared =>
      simp only [Domain.relevantValues]
      split
      · exact .nil
      · decide
  | integer points => exact nodup_map points.relevant.nodup fun _ _ => PropertyValue.integer.inj
  | enumeration declared => exact nodup_map declared.nodup fun _ _ => PropertyValue.enumeration.inj
  | date points => exact nodup_map points.relevant.nodup fun _ _ => PropertyValue.date.inj

theorem nodup_values (axis : Axis) : axis.values.Nodup := by
  unfold values Dimension.relevantValuesIn Domain.relevantValuesIn
  split
  · exact nodup_map (SortedSet.nodup _) fun _ _ => PropertyValue.integer.inj
  · exact nodup_map (SortedSet.nodup _) fun _ _ => PropertyValue.date.inj
  · exact (nodup_relevantValues _).filter _

/-! ## What stands for a selected value -/

theorem standIn_mem_values (grounded : axis.Grounded) (selects : axis.Selects value) :
    axis.standIn value ∈ axis.values := by
  have fits := selects.fits
  obtain ⟨⟨name, domain⟩, range, discipline⟩ := axis
  obtain ⟨inDomain, inRange⟩ := selects
  cases fits with
  | boolean => exact List.mem_filter.mpr ⟨mem_relevantValues_boolean.mpr inDomain, inRange⟩
  | integer =>
      have inSpan := (Breakpoints.mem_span_iff _ _).mpr inDomain
      rw [PropertyRange.integer_mem_iff] at inRange
      exact List.mem_map_of_mem (Breakpoints.standIn_mem_relevantIn grounded inSpan inRange)
  | enumeration => exact List.mem_filter.mpr ⟨mem_relevantValues_enumeration.mpr inDomain, inRange⟩
  | date =>
      have inSpan := (Breakpoints.mem_span_iff _ _).mpr inDomain
      rw [PropertyRange.date_mem_iff] at inRange
      exact List.mem_map_of_mem (Breakpoints.standIn_mem_relevantIn grounded inSpan inRange)

/-- A declared range holds a selected value exactly if it holds the one that stands
for it. -/
theorem standIn_mem_iff (grounded : axis.Grounded) (selects : axis.Selects value)
    {declared : PropertyRange} (knows : axis.dimension.domain.Knows declared) :
    axis.standIn value ∈ declared ↔ value ∈ declared := by
  have fits := selects.fits
  obtain ⟨⟨name, domain⟩, range, discipline⟩ := axis
  obtain ⟨inDomain, inRange⟩ := selects
  cases fits with
  | boolean | enumeration => exact .rfl
  | integer =>
      have inSpan := (Breakpoints.mem_span_iff _ _).mpr inDomain
      rw [PropertyRange.integer_mem_iff] at inRange
      cases declared with
      | integer declared =>
          refine (PropertyRange.integer_mem_iff _ _).trans <|
            .trans ?_ (PropertyRange.integer_mem_iff _ _).symm
          exact Breakpoints.standIn_mem_iff grounded inSpan inRange knows
      | boolean | enumeration | date =>
          exact iff_of_false (fun member => nomatch PropertyRange.type_of_mem member)
            fun member => nomatch PropertyRange.type_of_mem member
  | date =>
      have inSpan := (Breakpoints.mem_span_iff _ _).mpr inDomain
      rw [PropertyRange.date_mem_iff] at inRange
      cases declared with
      | date declared =>
          refine (PropertyRange.date_mem_iff _ _).trans <|
            .trans ?_ (PropertyRange.date_mem_iff _ _).symm
          exact Breakpoints.standIn_mem_iff grounded inSpan inRange knows
      | boolean | integer | enumeration =>
          exact iff_of_false (fun member => nomatch PropertyRange.type_of_mem member)
            fun member => nomatch PropertyRange.type_of_mem member

private theorem standsFor_iff_of_fits (grounded : axis.Grounded) {representative : PropertyValue}
    (relevant : representative ∈ axis.values) (selects : axis.Selects value)
    (fits : Fits axis.dimension.domain axis.range value)
    (relevantFits : Fits axis.dimension.domain axis.range representative) :
    axis.StandsFor representative value ↔ representative = axis.standIn value := by
  obtain ⟨⟨name, domain⟩, range, discipline⟩ := axis
  obtain ⟨inDomain, inRange⟩ := selects
  cases fits with
  | boolean | enumeration =>
      cases relevantFits
      exact .rfl
  | integer =>
      have inSpan := (Breakpoints.mem_span_iff _ _).mpr inDomain
      rw [PropertyRange.integer_mem_iff] at inRange
      cases relevantFits with
      | integer =>
          have member := (mem_map_iff fun _ => PropertyValue.integer.inj).mp relevant
          refine (Breakpoints.standsFor_iff grounded inSpan inRange member).trans ?_
          exact (PropertyValue.integer.injEq _ _).symm.to_iff
  | date =>
      have inSpan := (Breakpoints.mem_span_iff _ _).mpr inDomain
      rw [PropertyRange.date_mem_iff] at inRange
      cases relevantFits with
      | date =>
          have member := (mem_map_iff fun _ => PropertyValue.date.inj).mp relevant
          refine (Breakpoints.standsFor_iff grounded inSpan inRange member).trans ?_
          exact (PropertyValue.date.injEq _ _).symm.to_iff

/-- Exactly one relevant value stands for a selected value. -/
theorem standsFor_iff (grounded : axis.Grounded) {representative : PropertyValue}
    (relevant : representative ∈ axis.values) (selects : axis.Selects value) :
    axis.StandsFor representative value ↔ representative = axis.standIn value :=
  standsFor_iff_of_fits grounded relevant selects selects.fits (fits_of_mem_values relevant)

end Axis

end RuleSlicing
