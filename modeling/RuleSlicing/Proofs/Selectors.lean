import RuleSlicing.Proofs.CommonParts
import RuleSlicing.Proofs.FiniteMaps
import RuleSlicing.Slice.Selector

/-!
# What the selectors of a slice ask for

The selectors of a slice ask for a property under each of its names that shares a value with the
slice. The last properties of those names are what the slice is made of, so they share a value with
it unless they have none.
-/

set_option autoImplicit false

namespace RuleSlicing

/-! ## Overlap -/

/-- The empty range overlaps with nothing, and any other one with itself. -/
theorem Range.intersects_self {Value : Type} [LinearOrdered Value] [DecidableEq Value]
    (range : Range Value) : range.intersects range = !range.isEmpty := by
  have overlaps : range.intersects range = true ↔ range.isEmpty = false := by
    rw [intersects_iff, isEmpty_eq_false_iff]
    simp only [and_self]
  rw [Bool.eq_iff_iff, overlaps, Bool.not_eq_true']

namespace PropertyRange

theorem intersects_iff (left right : PropertyRange) :
    left.intersects right = true ↔ ∃ value, value ∈ left ∧ value ∈ right := by
  by_cases same : left.type = right.type
  · obtain ⟨_, _, _, isCommonPart⟩ := exists_isCommonPart same
    exact isCommonPart.shares
  · rw [(disjoint_of_type_ne same).2]
    refine iff_of_false Bool.false_ne_true fun shared => ?_
    obtain ⟨value, inLeft, inRight⟩ := shared
    exact same ((type_of_mem inLeft).symm.trans (type_of_mem inRight))

theorem intersects_self (range : PropertyRange) : range.intersects range = !range.isEmpty := by
  cases range with
  | boolean range => exact range.intersects_self
  | integer range => exact range.intersects_self
  | enumeration range => exact range.intersects_self
  | date range => exact range.intersects_self

end PropertyRange

/-! ## Properties by their names -/

namespace Property

/-- The properties of a list by their names; of several with one name the last counts. -/
def byName (properties : List Property) : SortedMap String Property :=
  .ofList (properties.map fun property => (property.name, property))

/-- Each property is stored under its own name. -/
def StoredByName (stored : SortedMap String Property) : Prop :=
  ∀ name property, stored.get? name = some property → property.name = name

theorem get?_byName (properties : List Property) (name : String) :
    (byName properties).get? name = properties.reverse.find? (·.name = name) := by
  unfold byName
  rw [SortedMap.get?_ofList_eq_find?, ← List.map_reverse, List.find?_map, Option.map_map]
  exact Option.map_id'

theorem storedByName_byName (properties : List Property) : StoredByName (byName properties) := by
  intro name property found
  rw [get?_byName] at found
  simpa using List.find?_some found

end Property

/-! ## Selectors -/

namespace Slice

theorem mem_properties_iff (slice : Slice) (property : Property) :
    property ∈ slice.properties ↔ slice.range? property.name = some property.range := by
  obtain ⟨name, range⟩ := property
  simp only [properties, toList, range?, get?, List.map_map, List.mem_map, Prod.exists,
    Function.comp_apply, Property.mk.injEq, Option.map_eq_some_iff, SortedMap.get?_eq_some_iff]
  constructor
  · intro given
    obtain ⟨_, coordinate, stored, rfl, same⟩ := given
    exact ⟨coordinate, stored, same⟩
  · intro given
    obtain ⟨coordinate, stored, same⟩ := given
    exact ⟨name, coordinate, stored, rfl, same⟩

theorem allHold_selectors (slice : Slice) (stored : SortedMap String Property) :
    Selector.allHold stored slice.selectors =
      slice.properties.all fun property =>
        (stored.get? property.name).any (·.intersects property) := by
  unfold Selector.allHold selectors properties
  rw [List.all_map, List.all_map]
  rfl

/-- A slice that is made of listed coordinates has the properties that count among them. -/
theorem get?_byName_of_range? {coordinates : List (Property × Discipline)} {name : String}
    {range : PropertyRange} (fixed : (ofList coordinates).range? name = some range) :
    (Property.byName (coordinates.map (·.1))).get? name = some ⟨name, range⟩ := by
  rw [Property.get?_byName, ← List.map_reverse, List.find?_map]
  have shown : (ofList coordinates).property? name = some ⟨name, range⟩ := by
    rw [property?, fixed, Option.map_some]
  rwa [property?_eq, fixed?_ofList] at shown

theorem allHold_selectors_iff (slice : Slice) {stored : SortedMap String Property}
    (storedByName : Property.StoredByName stored) :
    Selector.allHold stored slice.selectors = true ↔
      ∀ name range, slice.range? name = some range →
        ∃ property, stored.get? name = some property ∧
          ∃ value, value ∈ property.range ∧ value ∈ range := by
  have asks : ∀ property : Property,
      (stored.get? property.name).any (·.intersects property) = true ↔
        ∃ other, stored.get? property.name = some other ∧
          ∃ value, value ∈ other.range ∧ value ∈ property.range := by
    intro property
    rw [Option.any_eq_true]
    refine exists_congr fun other => and_congr_right fun found => ?_
    have named : other.name = property.name := storedByName _ _ found
    rw [Property.intersects, Bool.and_eq_true, PropertyRange.intersects_iff]
    exact and_iff_right (decide_eq_true named)
  simp only [allHold_selectors, List.all_eq_true, mem_properties_iff, asks]
  exact ⟨fun given name range => given ⟨name, range⟩, fun given property => given _ _⟩

end Slice

/-- The selectors of a slice hold on the properties that it is made from unless one that counts is
empty. On any other properties, stored under their own names, they hold if there is one under each
name of the slice that shares a value with it. -/
theorem selectors_hold_iff_overlapping (coordinates : List (Property × Discipline)) :
    (Selector.allHold (Property.byName (coordinates.map (·.1)))
        (Slice.ofList coordinates).selectors = true ↔
      ∀ property ∈ (Slice.ofList coordinates).properties, property.range.isEmpty = false) ∧
    ∀ stored : SortedMap String Property, Property.StoredByName stored →
      (Selector.allHold stored (Slice.ofList coordinates).selectors = true ↔
        ∀ name range, (Slice.ofList coordinates).range? name = some range →
          ∃ property, stored.get? name = some property ∧
            ∃ value, value ∈ property.range ∧ value ∈ range) := by
  refine ⟨?_, fun stored => (Slice.ofList coordinates).allHold_selectors_iff⟩
  rw [Slice.allHold_selectors, List.all_eq_true]
  refine forall₂_congr fun property member => ?_
  -- What is stored under the name is the property itself.
  have fixed := (Slice.mem_properties_iff _ _).mp member
  rw [Slice.get?_byName_of_range? fixed, Option.any_some, Property.intersects,
    PropertyRange.intersects_self]
  simp

namespace Sample

/-- A year is fixed twice, first to nothing, beside a market. -/
def coordinates : List (Property × Discipline) :=
  [(⟨"year", .empty .boolean⟩, .split), (⟨"market", .single (.enumeration "home")⟩, .any),
    (⟨"year", .single (.boolean true)⟩, .all)]

def otherProperties : SortedMap String Property :=
  Property.byName [
    ⟨"market", .enumeration (.ofList ["abroad", "home"])⟩, ⟨"year", .single (.boolean false)⟩]

end Sample

theorem selectors_hold_iff_overlapping_sample :
    Property.StoredByName Sample.otherProperties ∧
    Selector.allHold (Property.byName (Sample.coordinates.map (·.1)))
      (Slice.ofList Sample.coordinates).selectors = true ∧
    ∃ name range, (Slice.ofList Sample.coordinates).range? name = some range ∧
      ∀ property, Sample.otherProperties.get? name = some property →
        ∀ value, value ∈ property.range → value ∉ range := by
  obtain ⟨own, others⟩ := selectors_hold_iff_overlapping Sample.coordinates
  have storedByName : Property.StoredByName Sample.otherProperties := Property.storedByName_byName _
  refine ⟨storedByName, own.mpr (by decide), ?_⟩
  have fails := mt (others Sample.otherProperties storedByName).mpr (by decide)
  push Not at fails
  exact fails

end RuleSlicing
