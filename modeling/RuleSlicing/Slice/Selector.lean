import RuleSlicing.Slice.Basic

/-!
# Selectors

A slice can be turned back into a filter on properties: it asks of each of its
dimensions for a property of that name that shares a value with the slice.
-/

set_option autoImplicit false

namespace RuleSlicing

/-- What a caller asks of one dimension. -/
structure Selector where
  property : Property
  discipline : Discipline
deriving DecidableEq

namespace Selector

/-- Whether the properties stored under their names hold one that shares a value
with the selected property. -/
def holds (properties : SortedMap String Property) (selector : Selector) : Bool :=
  (properties.get? selector.property.name).any (·.intersects selector.property)

/-- Whether every selector of a list holds. -/
def allHold (properties : SortedMap String Property) (selectors : List Selector) : Bool :=
  selectors.all (·.holds properties)

end Selector

/-- A slice as one selector for each of its dimensions. -/
def Slice.selectors (slice : Slice) : List Selector :=
  slice.toList.map fun (property, discipline) => ⟨property, discipline⟩

end RuleSlicing
