import RuleSlicing.Property.Basic
import RuleSlicing.Space.Breakpoints

/-!
# Dimensions

A slicing property spans one dimension of the space in which features and rules
hold. Its domain is not declared; it grows with the ranges that features and
rules declare. The relevant values of a dimension are the ones that slices are
made of: both truth values, all declared names, or one value of each segment.
-/

set_option autoImplicit false

namespace RuleSlicing

/-- What has been declared for a dimension, by type. -/
inductive Domain where
  | boolean (values : SortedSet Bool)
  | integer (points : Breakpoints (-9223372036854775808) 9223372036854775807)
  | enumeration (values : SortedSet String)
  | date (points : Breakpoints (-95745824) 95745704)
deriving DecidableEq

namespace Domain

def type : Domain → PropertyType
  | .boolean _ => .boolean
  | .integer _ => .integer
  | .enumeration _ => .enumeration
  | .date _ => .date

def empty : PropertyType → Domain
  | .boolean => .boolean ∅
  | .integer => .integer .empty
  | .enumeration => .enumeration ∅
  | .date => .date .empty

/-- Take a declared range of the type of the domain into account. Truth values
and names count as far as they are listed. -/
def add? : Domain → PropertyRange → Option Domain
  | .boolean values, .boolean range => some (.boolean ((SortedSet.ofList range.listed).union values))
  | .integer points, .integer range => some (.integer (points.add range))
  | .enumeration values, .enumeration range =>
      some (.enumeration ((SortedSet.ofList range.listed).union values))
  | .date points, .date range => some (.date (points.add range))
  | _, _ => none

/-- The values that slices are made of, ascending. -/
def relevantValues : Domain → List PropertyValue
  | .boolean values => if values.isEmpty then [] else [.boolean false, .boolean true]
  | .integer points => points.relevant.toList.map .integer
  | .enumeration values => values.toList.map .enumeration
  | .date points => points.relevant.toList.map .date

/-- The values that slices are made of when the dimension is restricted to a
selected range. -/
def relevantValuesIn (domain : Domain) (selected : PropertyRange) : List PropertyValue :=
  match domain, selected with
  | .integer points, .integer range => (points.relevantIn range).toList.map .integer
  | .date points, .date range => (points.relevantIn range).toList.map .date
  | domain, selected => domain.relevantValues.filter selected.contains

/-- The last value of the segment that holds a number or a date. -/
def segmentEnd? : Domain → PropertyValue → Option PropertyValue
  | .integer points, .integer value => (points.segmentEnd? value).map .integer
  | .date points, .date value => (points.segmentEnd? value).map .date
  | _, _ => none

def min? : Domain → Option PropertyValue
  | .integer points => points.min?.map .integer
  | .date points => points.min?.map .date
  | domain => domain.relevantValues.head?

def max? : Domain → Option PropertyValue
  | .integer points => points.max?.map .integer
  | .date points => points.max?.map .date
  | domain => domain.relevantValues.getLast?

/-- The widest selection: all values, for numbers and dates as an interval. -/
def fullRange : Domain → PropertyRange
  | .integer points => .integer points.span
  | .date points => .date points.span
  | domain => .ofValues domain.type domain.relevantValues

end Domain

/-- A slicing property with what has been declared for it. -/
structure Dimension where
  name : String
  domain : Domain
deriving DecidableEq

namespace Dimension

def new (name : String) (type : PropertyType) : Dimension := ⟨name, .empty type⟩

def type (dimension : Dimension) : PropertyType := dimension.domain.type

/-- The values that slices are made of, ascending. -/
def relevantValues (dimension : Dimension) : List PropertyValue :=
  dimension.domain.relevantValues

/-- The values that slices are made of within a selected range. -/
def relevantValuesIn (dimension : Dimension) (selected : PropertyRange) : List PropertyValue :=
  dimension.domain.relevantValuesIn selected

def isUnused (dimension : Dimension) : Bool := dimension.relevantValues.isEmpty

end Dimension

end RuleSlicing
