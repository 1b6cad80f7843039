import RuleSlicing.Property.Basic
import RuleSlicing.Slice.Discipline

/-!
# Slices

A slice fixes a range, mostly a single value, and a discipline for each of some
dimensions. It is a finite map from the names of the dimensions, so two slices
are equal exactly when they fix the same coordinates.
-/

set_option autoImplicit false

namespace RuleSlicing

/-- What a slice fixes for one dimension. -/
structure Coordinate where
  range : PropertyRange
  discipline : Discipline
deriving DecidableEq, Hashable

/-- A finite map from the names of dimensions to coordinates. -/
structure Slice where
  coordinates : SortedMap String Coordinate
deriving DecidableEq

namespace Slice

instance : Hashable Slice := ⟨fun slice => hash slice.coordinates.entries⟩

/-! ## Building slices -/

def empty : Slice := ⟨∅⟩

instance : Inhabited Slice := ⟨empty⟩

/-- Fix a coordinate, in place of the one that was fixed for its dimension. -/
def fix (slice : Slice) (property : Property) (discipline : Discipline) : Slice :=
  ⟨slice.coordinates.insert property.name ⟨property.range, discipline⟩⟩

/-- The slice that fixes the listed coordinates; of several for one dimension the
last counts. -/
def ofList (coordinates : List (Property × Discipline)) : Slice :=
  coordinates.foldl (fun slice (property, discipline) => slice.fix property discipline) empty

def filter (slice : Slice) (test : Discipline → Bool) : Slice :=
  ⟨slice.coordinates.filter fun _ coordinate => test coordinate.discipline⟩

def project (slice : Slice) (discipline : Discipline) : Slice :=
  slice.filter (· = discipline)

def without (slice : Slice) (name : String) : Slice := ⟨slice.coordinates.erase name⟩

/-! ## Coordinates -/

def get? (slice : Slice) (name : String) : Option Coordinate := slice.coordinates.get? name

@[ext] theorem ext {left right : Slice} (same : ∀ name, left.get? name = right.get? name) :
    left = right := by
  obtain ⟨leftCoordinates⟩ := left
  obtain ⟨rightCoordinates⟩ := right
  exact congrArg mk (SortedMap.ext same)

@[simp] theorem get?_empty (name : String) : empty.get? name = none := rfl

theorem get?_fix (slice : Slice) (property : Property) (discipline : Discipline)
    (name : String) :
    (slice.fix property discipline).get? name =
      if name = property.name then some ⟨property.range, discipline⟩ else slice.get? name :=
  SortedMap.get?_insert slice.coordinates property.name name _

theorem get?_project (slice : Slice) (discipline : Discipline) (name : String) :
    (slice.project discipline).get? name =
      (slice.get? name).filter fun coordinate => coordinate.discipline = discipline :=
  SortedMap.get?_filter slice.coordinates _ name

theorem get?_without (slice : Slice) (name other : String) :
    (slice.without name).get? other = if other = name then none else slice.get? other :=
  SortedMap.get?_erase slice.coordinates name other

theorem get?_congr {left right : Slice} {name : String}
    (agree : left.without name = right.without name) {other : String} (different : other ≠ name) :
    left.get? other = right.get? other := by
  have same := congrArg (·.get? other) agree
  simpa only [get?_without, if_neg different] using same

theorem without_congr {left right : Slice} {name : String}
    (agree : ∀ other, other ≠ name → left.get? other = right.get? other) :
    left.without name = right.without name := by
  ext1 other
  rw [get?_without, get?_without]
  split
  · rfl
  · rename_i different
    exact agree other different

theorem fix_without {slice : Slice} {name : String} {range : PropertyRange}
    {discipline : Discipline} (fixed : slice.get? name = some ⟨range, discipline⟩) :
    (slice.without name).fix ⟨name, range⟩ discipline = slice := by
  ext1 other
  rw [get?_fix, get?_without]
  split
  · rename_i same
    rw [same, fixed]
  · rfl

theorem without_fix {slice : Slice} {name : String} (free : slice.get? name = none)
    (range : PropertyRange) (discipline : Discipline) :
    (slice.fix ⟨name, range⟩ discipline).without name = slice := by
  ext1 other
  rw [get?_without]
  split
  · rename_i same
    rw [same, free]
  · rename_i different
    rw [get?_fix, if_neg different]

def range? (slice : Slice) (name : String) : Option PropertyRange :=
  (slice.get? name).map (·.range)

theorem range?_of_get? {slice : Slice} {name : String} {coordinate : Coordinate}
    (fixed : slice.get? name = some coordinate) : slice.range? name = some coordinate.range :=
  congrArg (Option.map Coordinate.range) fixed

def discipline? (slice : Slice) (name : String) : Option Discipline :=
  (slice.get? name).map (·.discipline)

def toList (slice : Slice) : List (Property × Discipline) :=
  slice.coordinates.entries.map fun (name, coordinate) =>
    (⟨name, coordinate.range⟩, coordinate.discipline)

def properties (slice : Slice) : List Property := slice.toList.map (·.1)

def isEmpty (slice : Slice) : Bool := slice.coordinates.isEmpty

def size (slice : Slice) : Nat := slice.coordinates.size

/-- A slice admits some values of a dimension: those of the range that it fixes,
or all of them. Properties that admit none of these values are excluded. -/
def admits (slice : Slice) (property : Property) : Bool :=
  match slice.range? property.name with
  | none => true
  | some range => range.intersects property.range

/-! ## Order, text and wire form -/

/-- Coordinates are ordered by name, range and discipline. -/
def orderLists : List (Property × Discipline) → List (Property × Discipline) → Ordering
  | [], [] => .eq
  | [], _ :: _ => .lt
  | _ :: _, [] => .gt
  | (left, leftDiscipline) :: lefts, (right, rightDiscipline) :: rights =>
      ((left.order right).then (compare leftDiscipline.rank rightDiscipline.rank)).then
        (orderLists lefts rights)

/-- Slices are ordered coordinate by coordinate. -/
def order (left right : Slice) : Ordering := orderLists left.toList right.toList

def render (slice : Slice) : String :=
  if slice.isEmpty then "(no slicing)"
  else ", ".intercalate <| slice.properties.map fun property =>
    property.name ++ "=" ++ property.range.render

/-- The JSON form of a slice: the descriptions of its properties. -/
def toJson (slice : Slice) : Json :=
  .array (slice.properties.map fun property => property.toSpec.toJson)

end Slice

end RuleSlicing
