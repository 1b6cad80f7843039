import Mathlib.Data.List.Induction
import RuleSlicing.Slice.Basic

/-!
# Slices are finite maps

However a slice is made, it shows what a map would hold that is written in the same order: of the
coordinates that are fixed for one name the last counts. The slice is determined by what it shows,
so it does not depend on the order in which it was made.
-/

set_option autoImplicit false

namespace RuleSlicing

namespace Slice

/-! ## What a slice shows of a name -/

def property? (slice : Slice) (name : String) : Option Property :=
  (slice.range? name).map fun range => ⟨name, range⟩

def fixed? (slice : Slice) (name : String) : Option (Property × Discipline) :=
  (slice.get? name).map fun coordinate => (⟨name, coordinate.range⟩, coordinate.discipline)

theorem property?_eq (slice : Slice) (name : String) :
    slice.property? name = (slice.fixed? name).map (·.1) := by
  unfold property? range? fixed?
  rw [Option.map_map, Option.map_map]
  rfl

theorem discipline?_eq (slice : Slice) (name : String) :
    slice.discipline? name = (slice.fixed? name).map (·.2) := by
  unfold discipline? fixed?
  rw [Option.map_map]
  rfl

theorem eq_of_fixed? {left right : Slice}
    (same : ∀ name, left.fixed? name = right.fixed? name) : left = right := by
  ext1 name
  refine Option.map_injective ?_ (same name)
  intro one other shown
  cases one
  cases other
  cases shown
  rfl

theorem fixed?_fix (slice : Slice) (property : Property) (discipline : Discipline)
    (name : String) :
    (slice.fix property discipline).fixed? name =
      if name = property.name then some (property, discipline) else slice.fixed? name := by
  unfold fixed?
  rw [get?_fix]
  split
  · rename_i same
    rw [same]
    rfl
  · rfl

theorem fixed?_without (slice : Slice) (name other : String) :
    (slice.without name).fixed? other = if other = name then none else slice.fixed? other := by
  unfold fixed?
  rw [get?_without]
  split <;> rfl

theorem fixed?_filter (slice : Slice) (test : Discipline → Bool) (name : String) :
    (slice.filter test).fixed? name = (slice.fixed? name).filter fun entry => test entry.2 := by
  have found : (slice.filter test).get? name =
      (slice.get? name).filter fun coordinate => test coordinate.discipline :=
    SortedMap.get?_filter slice.coordinates _ name
  unfold fixed?
  rw [found]
  cases slice.get? name with
  | none => rfl
  | some coordinate => cases kept : test coordinate.discipline <;> simp [Option.filter, kept]

/-- Of several coordinates for one name the last counts. -/
theorem fixed?_ofList (coordinates : List (Property × Discipline)) (name : String) :
    (ofList coordinates).fixed? name = coordinates.reverse.find? (·.1.name = name) := by
  induction coordinates using List.reverseRecOn with
  | nil => rfl
  | append_singleton earlier last ih =>
      unfold ofList at ih ⊢
      rw [List.foldl_append, List.foldl_cons, List.foldl_nil, fixed?_fix, ih,
        List.reverse_append, List.reverse_singleton, List.singleton_append, List.find?_cons]
      split
      · rename_i same
        simp [same]
      · rename_i different
        simp [Ne.symm different]

/-! ## The entries of a slice -/

theorem pairwise_toList (slice : Slice) :
    slice.toList.Pairwise fun left right => left.1.name < right.1.name :=
  List.pairwise_map.mpr slice.coordinates.ascending

theorem mem_toList_iff (slice : Slice) (entry : Property × Discipline) :
    entry ∈ slice.toList ↔ slice.fixed? entry.1.name = some entry := by
  obtain ⟨⟨name, range⟩, discipline⟩ := entry
  simp only [toList, fixed?, get?, List.mem_map, Option.map_eq_some_iff, Prod.exists,
    SortedMap.get?_eq_some_iff]
  constructor
  · intro given
    obtain ⟨_, coordinate, stored, same⟩ := given
    cases same
    exact ⟨coordinate, stored, rfl⟩
  · intro given
    obtain ⟨coordinate, stored, same⟩ := given
    exact ⟨name, coordinate, stored, same⟩

theorem toList_filter (slice : Slice) (test : Discipline → Bool) :
    (slice.filter test).toList = slice.toList.filter fun entry => test entry.2 := by
  unfold toList
  rw [List.filter_map]
  rfl

theorem filter_filter (slice : Slice) (first second : Discipline → Bool) :
    (slice.filter second).filter first =
      slice.filter fun discipline => first discipline && second discipline := by
  apply eq_of_fixed?
  intro name
  simp only [fixed?_filter, Option.filter_filter, Bool.and_comm]

/-- Every entry is in one of the three projections. -/
theorem perm_projections (slice : Slice) :
    ((slice.project .split).toList ++ (slice.project .all).toList ++
      (slice.project .any).toList).Perm slice.toList := by
  simp only [project, toList_filter]
  induction slice.toList with
  | nil => exact .nil
  | cons entry rest ih =>
      obtain ⟨property, discipline⟩ := entry
      cases discipline with
      | split => exact ih.cons _
      | all => exact (List.perm_middle.append_right _).trans (ih.cons _)
      | any => exact List.perm_middle.trans (ih.cons _)

/-! ## Ways to make a slice -/

/-- A slice is made of listed coordinates, and then by fixing, dropping and filtering some. -/
inductive Construction where
  | ofList (coordinates : List (Property × Discipline))
  | fix (start : Construction) (property : Property) (discipline : Discipline)
  | without (start : Construction) (name : String)
  | filter (start : Construction) (test : Discipline → Bool)

namespace Construction

def slice : Construction → Slice
  | .ofList coordinates => .ofList coordinates
  | .fix start property discipline => start.slice.fix property discipline
  | .without start name => start.slice.without name
  | .filter start test => start.slice.filter test

/-- What was written last for a name, unless it has been dropped or filtered out since. -/
def lastWritten : Construction → String → Option (Property × Discipline)
  | .ofList coordinates, name => coordinates.reverse.find? (·.1.name = name)
  | .fix start property discipline, name =>
      if name = property.name then some (property, discipline) else start.lastWritten name
  | .without start dropped, name => if name = dropped then none else start.lastWritten name
  | .filter start test, name => (start.lastWritten name).filter fun entry => test entry.2

theorem fixed?_slice (construction : Construction) (name : String) :
    construction.slice.fixed? name = construction.lastWritten name := by
  induction construction with
  | ofList coordinates => exact fixed?_ofList coordinates name
  | fix start property discipline ih => rw [slice, fixed?_fix, ih, lastWritten]
  | without start dropped ih => rw [slice, fixed?_without, ih, lastWritten]
  | filter start test ih => rw [slice, fixed?_filter, ih, lastWritten]

theorem slice_eq_iff (left right : Construction) :
    left.slice = right.slice ↔ left.lastWritten = right.lastWritten := by
  constructor
  · intro same
    funext name
    rw [← fixed?_slice, ← fixed?_slice, same]
  · intro same
    apply eq_of_fixed?
    intro name
    rw [fixed?_slice, fixed?_slice, same]

end Construction

end Slice

open Slice (Construction)

/-- A slice shows what was written last, in the order of the names, and is determined by it. -/
theorem slices_are_finite_maps :
    (∀ construction : Construction,
      construction.slice.toList.Pairwise (fun left right => left.1.name < right.1.name) ∧
      (∀ entry, entry ∈ construction.slice.toList ↔
        construction.lastWritten entry.1.name = some entry) ∧
      (∀ name, construction.slice.property? name = (construction.lastWritten name).map (·.1) ∧
        construction.slice.discipline? name = (construction.lastWritten name).map (·.2)) ∧
      (∀ property discipline, construction.lastWritten property.name = none →
        (construction.slice.fix property discipline).without property.name =
          construction.slice) ∧
      (∀ first second, (construction.slice.filter second).filter first =
        construction.slice.filter fun discipline => first discipline && second discipline) ∧
      ((construction.slice.project .split).toList ++ (construction.slice.project .all).toList ++
        (construction.slice.project .any).toList).Perm construction.slice.toList ∧
      ∀ discipline entry, entry ∈ (construction.slice.project discipline).toList ↔
        entry ∈ construction.slice.toList ∧ entry.2 = discipline) ∧
    ∀ left right : Construction,
      left.slice = right.slice ↔ left.lastWritten = right.lastWritten := by
  refine ⟨fun construction => ?_, Construction.slice_eq_iff⟩
  refine ⟨construction.slice.pairwise_toList, fun entry => ?_, fun name => ?_,
    fun property discipline fresh => ?_, construction.slice.filter_filter,
    construction.slice.perm_projections, fun discipline entry => ?_⟩
  · rw [Slice.mem_toList_iff, Construction.fixed?_slice]
  · rw [Slice.property?_eq, Slice.discipline?_eq, Construction.fixed?_slice]
    exact ⟨rfl, rfl⟩
  · rw [← Construction.fixed?_slice] at fresh
    exact Slice.without_fix (Option.map_eq_none_iff.mp fresh) property.range discipline
  · rw [Slice.project, Slice.toList_filter]
    simp

namespace Sample

/-- A year is fixed twice, then a market, and what counts for one value only is dropped. -/
def construction : Construction :=
  .filter
    (.fix
      (.ofList [(⟨"year", .single (.boolean true)⟩, .any),
        (⟨"year", .single (.boolean false)⟩, .all)])
      ⟨"market", .single (.enumeration "home")⟩ .any)
    (· ≠ .any)

end Sample

theorem slices_are_finite_maps_sample :
    Sample.construction.lastWritten "market" = none ∧
    Sample.construction.slice.property? "year" = some ⟨"year", .single (.boolean false)⟩ ∧
    (Sample.construction.slice.fix ⟨"market", .single (.enumeration "home")⟩ .split).without
      "market" = Sample.construction.slice := by
  obtain ⟨shown, _⟩ := slices_are_finite_maps
  obtain ⟨_, _, found, dropped, _⟩ := shown Sample.construction
  have fresh : Sample.construction.lastWritten "market" = none := by decide
  exact ⟨fresh, (found "year").1.trans (by decide), dropped _ .split fresh⟩

end RuleSlicing
