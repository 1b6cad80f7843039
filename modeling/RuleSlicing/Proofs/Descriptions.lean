import RuleSlicing.Proofs.Dates
import RuleSlicing.Proofs.Outcomes
import RuleSlicing.Property.Basic

/-!
# Descriptions that can be read

A range that a description denotes is described again, and the new description denotes the
same range. This holds of all ranges that list or span values with a readable JSON form and
are no interval of truth values or names.
-/

set_option autoImplicit false

namespace RuleSlicing

/-! ## Values -/

namespace PropertyValue

/-- The JSON form of the value can be read: a whole number is a signed word, and the year of
a date has four digits. -/
def Readable : PropertyValue → Prop
  | .integer value => -9223372036854775808 ≤ value.val ∧ value.val ≤ 9223372036854775807
  | .date value => value.Readable
  | _ => True

/-- Values of one type are ordered as the type is. -/
def AtMost : PropertyValue → PropertyValue → Prop
  | .boolean left, .boolean right => left ≤ right
  | .integer left, .integer right => left ≤ right
  | .enumeration left, .enumeration right => left ≤ right
  | .date left, .date right => left ≤ right
  | _, _ => False

def Below (left right : PropertyValue) : Prop := left.AtMost right ∧ left ≠ right

theorem ofJson?_toJson {value : PropertyValue} (readable : value.Readable) :
    ofJson? value.type value.toJson = some value := by
  cases value with
  | boolean choice => rfl
  | integer number =>
      show (Bounded.ofInt? _ _ number.val).map PropertyValue.integer = _
      rw [(Bounded.ofInt?_eq_some_iff _ number).mpr rfl]
      rfl
  | enumeration name => rfl
  | date day =>
      show (Date.parse? day.render).map PropertyValue.date = _
      rw [Date.parse?_render readable]
      rfl

theorem readable_of_ofJson? {type : PropertyType} {given : Json} {value : PropertyValue}
    (read : ofJson? type given = some value) : value.type = type ∧ value.Readable := by
  unfold ofJson? at read
  split at read
  · cases read
    exact ⟨rfl, trivial⟩
  · obtain ⟨number, _, rfl⟩ := Option.map_eq_some_iff.mp read
    exact ⟨rfl, number.low_le, number.le_high⟩
  · cases read
    exact ⟨rfl, trivial⟩
  · obtain ⟨day, parsed, rfl⟩ := Option.map_eq_some_iff.mp read
    exact ⟨rfl, Date.readable_of_parse? parsed⟩
  · cases read

theorem ofJson_eq_ok_iff {type : PropertyType} {given : Json} {value : PropertyValue} :
    ofJson type given = .ok value ↔ ofJson? type given = some value := by
  unfold ofJson
  cases ofJson? type given <;> simp

theorem readable_of_between {first last value : PropertyValue} (firstReadable : first.Readable)
    (lastReadable : last.Readable) (after : first.AtMost value) (before : value.AtMost last) :
    value.Readable := by
  cases value with
  | boolean | enumeration => trivial
  | integer number => exact ⟨number.low_le, number.le_high⟩
  | date day =>
      cases first with
      | date first =>
          cases last with
          | date last => exact Date.readable_of_between firstReadable lastReadable after before
          | boolean | integer | enumeration => cases before
      | boolean | integer | enumeration => cases after

theorem mapM_ofJson {type : PropertyType} {values : List PropertyValue}
    (readable : ∀ value ∈ values, value.type = type ∧ value.Readable) :
    (values.map toJson).mapM (ofJson type) = .ok values := by
  rw [mapM_eq_ok_iff, List.forall₂_map_left_iff]
  refine List.forall₂_same.mpr fun value member => ?_
  obtain ⟨rfl, isReadable⟩ := readable value member
  exact ofJson_eq_ok_iff.mpr (ofJson?_toJson isReadable)

end PropertyValue

/-! ## Accepted descriptions -/

namespace RangeSpec

/-- A description denotes a range by its values, or by its ends. -/
theorem toRange_eq_ok_iff {spec : RangeSpec} {type : PropertyType} {range : PropertyRange} :
    spec.toRange type = .ok range ↔
      (spec.min = none ∧ spec.max = none ∧ ∃ values,
        (spec.values.getD []).mapM (PropertyValue.ofJson type) = .ok values ∧
        PropertyRange.ofValues type values = range) ∨
      (spec.hasValues = false ∧ type.supportsIntervals = true ∧ ∃ min max low high,
        spec.min = some min ∧ spec.max = some max ∧
        PropertyValue.ofJson type min = .ok low ∧ PropertyValue.ofJson type max = .ok high ∧
        (PropertyRange.between? low high).getD (.empty type) = range) := by
  obtain ⟨values, min, max⟩ := spec
  constructor
  · intro accepted
    unfold toRange at accepted
    -- Values and ends together are refused, so what follows is one of the two forms.
    split at accepted
    · cases accepted
    · rename_i exclusive
      split at accepted
      · rename_i bounded
        split at accepted
        · rename_i supported
          split at accepted
          · obtain ⟨low, lowRead, accepted⟩ := ok_of_bind accepted
            obtain ⟨high, highRead, accepted⟩ := ok_of_bind accepted
            refine .inr ⟨?_, supported, _, _, low, high, ‹_›, ‹_›, lowRead, highRead,
              Except.ok.inj accepted⟩
            simpa [bounded] using exclusive
          · cases accepted
        · cases accepted
      · rename_i unbounded
        obtain ⟨read, done, accepted⟩ := ok_of_bind accepted
        simp [hasBounds] at unbounded
        exact .inl ⟨unbounded.1, unbounded.2, read, done, Except.ok.inj accepted⟩
  · rintro (⟨rfl, rfl, read, done, rfl⟩ | ⟨unlisted, supported, min, max, low, high, rfl, rfl,
      lowRead, highRead, rfl⟩)
    · have done : (values.getD []).mapM (PropertyValue.ofJson type) = .ok read := done
      simp only [toRange, hasBounds, Option.isSome_none, Bool.or_self, Bool.and_false,
        Bool.false_eq_true, if_false, done]
      rfl
    · simp only [toRange, unlisted, hasBounds, Option.isSome_some, Bool.or_self, Bool.and_true,
        Bool.false_eq_true, if_false, if_true, supported, lowRead, highRead]
      rfl

end RangeSpec

/-! ## Lists and intervals -/

theorem Range.ofList_toList {Value : Type} [LinearOrdered Value] (values : SortedSet Value)
    (occupied : values.isEmpty = false) : ofList values.toList = .list values occupied := by
  have same : SortedSet.ofList values.toList = values := by
    ext value
    exact SortedSet.mem_ofList_iff _ _
  unfold ofList ofSet
  rw [same]
  split
  · rename_i empty
    rw [occupied] at empty
    cases empty
  · rfl

theorem Range.isDiscrete_ofList {Value : Type} [LinearOrdered Value] (values : List Value) :
    (ofList values).isDiscrete = true :=
  isDiscrete_ofSet _

namespace PropertyRange

variable {range : PropertyRange}

theorem toSpec_of_isDiscrete (discrete : range.isDiscrete = true) :
    range.toSpec = ⟨some (range.listed.map PropertyValue.toJson), none, none⟩ := by
  cases range with
  | boolean range | integer range | enumeration range | date range =>
      cases range with
      | empty => rfl
      | list values occupied =>
          simp only [toSpec, RangeSpec.ofRange, listed, Range.listed, List.map_map]
          rfl
      | interval min max ordered => cases discrete

theorem ofValues_listed (discrete : range.isDiscrete = true) :
    ofValues range.type range.listed = range := by
  cases range with
  | boolean range | integer range | enumeration range | date range =>
      cases range with
      | empty => rfl
      | list values occupied =>
          simp only [ofValues, type, listed, Range.listed, List.filterMap_map]
          rw [← Range.ofList_toList values occupied]
          congr 2
          exact List.filterMap_some
      | interval min max ordered => cases discrete

theorem mem_of_mem_listed {value : PropertyValue} (member : value ∈ range.listed) :
    value ∈ range := by
  cases range with
  | boolean range | integer range | enumeration range | date range =>
      cases range with
      | list values occupied =>
          obtain ⟨inner, inValues, rfl⟩ := List.mem_map.mp member
          have inside : inner ∈ Range.list values occupied := inValues
          exact (Range.contains_iff _ _).mpr inside
      | empty | interval => cases member

theorem pairwise_listed (range : PropertyRange) : range.listed.Pairwise PropertyValue.Below := by
  cases range with
  | boolean range | integer range | enumeration range | date range =>
      cases range with
      | list values occupied =>
          refine List.pairwise_map.mpr (values.ascending.imp fun below => ⟨?_, ?_⟩)
          · exact Std.le_of_lt below
          · intro same
            cases same
            exact Std.lt_irrefl below
      | empty | interval => exact .nil

theorem exists_ends (interval : range.isDiscrete = false)
    (supported : range.type.supportsIntervals = true) :
    ∃ min max, min ∈ range ∧ max ∈ range ∧ between? min max = some range ∧
      range.toSpec = ⟨none, some min.toJson, some max.toJson⟩ := by
  cases range with
  | boolean | enumeration => cases supported
  | integer range =>
      cases range with
      | empty | list => cases interval
      | interval min max ordered =>
          refine ⟨.integer min, .integer max, ?_, ?_, ?_, rfl⟩
          · exact (integer_mem_iff _ _).mpr ⟨Std.le_refl min, ordered⟩
          · exact (integer_mem_iff _ _).mpr ⟨ordered, Std.le_refl max⟩
          · exact congrArg (fun found => some (integer found)) (dif_pos ordered)
  | date range =>
      cases range with
      | empty | list => cases interval
      | interval min max ordered =>
          refine ⟨.date min, .date max, ?_, ?_, ?_, rfl⟩
          · exact (date_mem_iff _ _).mpr ⟨Std.le_refl min, ordered⟩
          · exact (date_mem_iff _ _).mpr ⟨ordered, Std.le_refl max⟩
          · exact congrArg (fun found => some (date found)) (dif_pos ordered)

/-- An interval is one of numbers or dates. -/
def WellShaped (range : PropertyRange) : Prop :=
  range.isDiscrete = true ∨ range.type.supportsIntervals = true

structure Describable (range : PropertyRange) : Prop where
  readable : ∀ value ∈ range, value.Readable
  wellShaped : range.WellShaped

theorem describable_single {value : PropertyValue} (readable : value.Readable) :
    (single value).Describable := by
  constructor
  · intro other member
    rwa [(mem_single_iff value other).mp member]
  · cases value <;> exact .inl rfl

theorem Describable.toRange_toSpec (describable : range.Describable) :
    range.toSpec.toRange range.type = .ok range := by
  have valid : ∀ value ∈ range, value.type = range.type ∧ value.Readable :=
    fun value member => ⟨type_of_mem member, describable.readable value member⟩
  rw [RangeSpec.toRange_eq_ok_iff]
  -- A list is described by its values, an interval by its ends, which are values of it as well.
  cases discrete : range.isDiscrete with
  | true =>
      have read := PropertyValue.mapM_ofJson fun value listed =>
        valid value (mem_of_mem_listed listed)
      rw [toSpec_of_isDiscrete discrete]
      exact .inl ⟨rfl, rfl, range.listed, read, ofValues_listed discrete⟩
  | false =>
      have supported := describable.wellShaped.resolve_left (discrete ▸ Bool.false_ne_true)
      obtain ⟨min, max, minMember, maxMember, between, spec⟩ := exists_ends discrete supported
      have readable : ∀ value ∈ range,
          PropertyValue.ofJson range.type value.toJson = .ok value := by
        intro value member
        obtain ⟨type, isReadable⟩ := valid value member
        exact PropertyValue.ofJson_eq_ok_iff.mpr (type ▸ PropertyValue.ofJson?_toJson isReadable)
      rw [spec]
      exact .inr ⟨rfl, supported, _, _, min, max, rfl, rfl, readable min minMember,
        readable max maxMember, by rw [between]; rfl⟩

/-! ## What descriptions denote -/

theorem type_ofValues (type : PropertyType) (values : List PropertyValue) :
    (ofValues type values).type = type := by
  cases type <;> rfl

theorem isDiscrete_ofValues (type : PropertyType) (values : List PropertyValue) :
    (ofValues type values).isDiscrete = true := by
  cases type <;> exact Range.isDiscrete_ofList _

/-- Two numbers or two dates span a range, which is empty if they are inverted. -/
theorem exists_between? {low high : PropertyValue} {type : PropertyType}
    (supported : type.supportsIntervals = true) (lowType : low.type = type)
    (highType : high.type = type) :
    ∃ range, between? low high = some range ∧ (¬low.AtMost high → range = .empty type) := by
  subst lowType
  cases low with
  | boolean | enumeration => cases supported
  | integer low =>
      cases high with
      | integer high => exact ⟨_, rfl, fun inverted => congrArg integer (dif_neg inverted)⟩
      | boolean | enumeration | date => cases highType
  | date low =>
      cases high with
      | date high => exact ⟨_, rfl, fun inverted => congrArg date (dif_neg inverted)⟩
      | boolean | enumeration | integer => cases highType

theorem mem_between?_iff {low high : PropertyValue} {type : PropertyType}
    (supported : type.supportsIntervals = true) (lowType : low.type = type)
    (highType : high.type = type) (value : PropertyValue) :
    value ∈ (between? low high).getD (.empty type) ↔ low.AtMost value ∧ value.AtMost high := by
  subst lowType
  cases low with
  | boolean | enumeration => cases supported
  | integer low =>
      cases high with
      | integer high =>
          cases value with
          | integer value => exact (integer_mem_iff _ _).trans (Range.mem_between_iff _ _ _)
          | boolean | enumeration | date => exact iff_of_false nofun nofun
      | boolean | enumeration | date => cases highType
  | date low =>
      cases high with
      | date high =>
          cases value with
          | date value => exact (date_mem_iff _ _).trans (Range.mem_between_iff _ _ _)
          | boolean | enumeration | integer => exact iff_of_false nofun nofun
      | boolean | enumeration | integer => cases highType

end PropertyRange

namespace RangeSpec

/-- A value is listed by a description, or lies between its ends. -/
def Denotes (spec : RangeSpec) (type : PropertyType) (value : PropertyValue) : Prop :=
  (∃ given ∈ spec.values.getD [], PropertyValue.ofJson? type given = some value) ∨
    ∃ min max low high, spec.min = some min ∧ spec.max = some max ∧
      PropertyValue.ofJson? type min = some low ∧ PropertyValue.ofJson? type max = some high ∧
      low.AtMost value ∧ value.AtMost high

/-- What the range that a description denotes has to do with it. -/
structure NormalizesTo (spec : RangeSpec) (type : PropertyType) (range : PropertyRange) :
    Prop where
  sameType : range.type = type
  /-- The range is read back from its own description. -/
  again : range.toSpec.toRange type = .ok range
  denotes : ∀ value, range.toSpec.Denotes type value ↔ spec.Denotes type value
  members : ∀ value, value ∈ range ↔ spec.Denotes type value
  /-- The listed values are strictly ascending. -/
  ascending : ∃ values : List PropertyValue, values.Pairwise PropertyValue.Below ∧
    range.toSpec.values.getD [] = values.map PropertyValue.toJson
  readable : ∀ value ∈ range, value.Readable

variable {spec : RangeSpec} {type : PropertyType} {range : PropertyRange}

theorem denotes_iff_of_values (noMin : spec.min = none) {value : PropertyValue} :
    spec.Denotes type value ↔
      ∃ given ∈ spec.values.getD [], PropertyValue.ofJson? type given = some value := by
  refine or_iff_left ?_
  rintro ⟨min, _, _, _, hasMin, _⟩
  rw [noMin] at hasMin
  cases hasMin

theorem values_eq_nil (unlisted : spec.hasValues = false) : spec.values.getD [] = [] := by
  unfold hasValues at unlisted
  cases values : spec.values with
  | none => rfl
  | some given => simpa [values] using unlisted

theorem denotes_iff_of_ends (unlisted : spec.hasValues = false) {min max : Json}
    {low high : PropertyValue} (hasMin : spec.min = some min) (hasMax : spec.max = some max)
    (lowRead : PropertyValue.ofJson? type min = some low)
    (highRead : PropertyValue.ofJson? type max = some high) {value : PropertyValue} :
    spec.Denotes type value ↔ low.AtMost value ∧ value.AtMost high := by
  constructor
  · rintro (⟨given, inValues, _⟩ | ⟨otherMin, otherMax, _, _, sameMin, sameMax, otherLow, otherHigh,
      between⟩)
    · rw [values_eq_nil unlisted] at inValues
      cases inValues
    · obtain rfl := Option.some.inj (hasMin.symm.trans sameMin)
      obtain rfl := Option.some.inj (hasMax.symm.trans sameMax)
      obtain rfl := Option.some.inj (lowRead.symm.trans otherLow)
      obtain rfl := Option.some.inj (highRead.symm.trans otherHigh)
      exact between
  · intro between
    exact .inr ⟨min, max, low, high, hasMin, hasMax, lowRead, highRead, between⟩

section Accepted

variable (accepted : spec.toRange type = .ok range)

include accepted

theorem mem_iff_denotes (value : PropertyValue) : value ∈ range ↔ spec.Denotes type value := by
  rcases toRange_eq_ok_iff.mp accepted with ⟨noMin, _, values, read, rfl⟩ |
    ⟨unlisted, supported, min, max, low, high, hasMin, hasMax, lowRead, highRead, rfl⟩
  · have each := (mapM_eq_ok_iff _ _ _).mp read
    rw [denotes_iff_of_values noMin, PropertyRange.mem_ofValues_iff]
    constructor
    · rintro ⟨_, member⟩
      obtain ⟨given, inValues, readGiven⟩ := exists_left_of_forall₂ each member
      exact ⟨given, inValues, PropertyValue.ofJson_eq_ok_iff.mp readGiven⟩
    · rintro ⟨given, inValues, readGiven⟩
      obtain ⟨other, member, otherRead⟩ := exists_right_of_forall₂ each inValues
      have same := PropertyValue.ofJson_eq_ok_iff.mp otherRead
      obtain rfl := Option.some.inj (readGiven.symm.trans same)
      exact ⟨(PropertyValue.readable_of_ofJson? readGiven).1, member⟩
  · have lowGiven := PropertyValue.ofJson_eq_ok_iff.mp lowRead
    have highGiven := PropertyValue.ofJson_eq_ok_iff.mp highRead
    rw [denotes_iff_of_ends unlisted hasMin hasMax lowGiven highGiven]
    exact PropertyRange.mem_between?_iff supported (PropertyValue.readable_of_ofJson? lowGiven).1
      (PropertyValue.readable_of_ofJson? highGiven).1 value

theorem type_of_toRange : range.type = type := by
  rcases toRange_eq_ok_iff.mp accepted with ⟨_, _, values, _, rfl⟩ |
    ⟨_, _, min, max, low, high, _, _, lowRead, highRead, rfl⟩
  · exact PropertyRange.type_ofValues type values
  · obtain ⟨rfl, _⟩ := PropertyValue.readable_of_ofJson? (PropertyValue.ofJson_eq_ok_iff.mp lowRead)
    cases low <;> cases high <;> rfl

theorem describable_of_toRange : range.Describable := by
  constructor
  · intro value member
    rcases (mem_iff_denotes accepted value).mp member with ⟨_, _, read⟩ |
      ⟨_, _, low, high, _, _, lowRead, highRead, above, below⟩
    · exact (PropertyValue.readable_of_ofJson? read).2
    · exact PropertyValue.readable_of_between (PropertyValue.readable_of_ofJson? lowRead).2
        (PropertyValue.readable_of_ofJson? highRead).2 above below
  · rcases toRange_eq_ok_iff.mp accepted with ⟨_, _, values, _, rfl⟩ | ⟨_, supported, _⟩
    · exact .inl (PropertyRange.isDiscrete_ofValues type values)
    · exact .inr (type_of_toRange accepted ▸ supported)

theorem NormalizesTo.of_toRange : spec.NormalizesTo type range := by
  have describable := describable_of_toRange accepted
  have again : range.toSpec.toRange type = .ok range :=
    type_of_toRange accepted ▸ describable.toRange_toSpec
  refine ⟨type_of_toRange accepted, again, fun value => ?_, mem_iff_denotes accepted, ?_,
    describable.readable⟩
  · rw [← mem_iff_denotes again, mem_iff_denotes accepted]
  · cases discrete : range.isDiscrete with
    | true =>
        refine ⟨range.listed, range.pairwise_listed, ?_⟩
        rw [PropertyRange.toSpec_of_isDiscrete discrete]
        rfl
    | false =>
        have supported := describable.wellShaped.resolve_left (discrete ▸ Bool.false_ne_true)
        obtain ⟨_, _, _, _, _, spec⟩ := PropertyRange.exists_ends discrete supported
        rw [spec]
        exact ⟨[], .nil, rfl⟩

end Accepted

end RangeSpec

/-! ## Properties -/

/-- A property is what its description denotes, and all its values can be read. -/
structure Property.ReadsBack (property : Property) : Prop where
  range : property.range.toSpec.toRange property.type = .ok property.range
  described : property.toSpec.toProperty = .ok property
  readable : ∀ value ∈ property.range, value.Readable

theorem Property.readsBack_of_describable {property : Property}
    (describable : property.range.Describable) : property.ReadsBack := by
  have range := describable.toRange_toSpec
  refine ⟨range, ?_, describable.readable⟩
  unfold PropertySpec.toProperty toSpec type
  simp only [range]

theorem PropertySpec.describable_of_toProperty {spec : PropertySpec} {property : Property}
    (accepted : spec.toProperty = .ok property) : property.range.Describable := by
  unfold toProperty at accepted
  split at accepted
  · rename_i range denoted
    cases accepted
    exact RangeSpec.describable_of_toRange denoted
  · cases accepted

end RuleSlicing
