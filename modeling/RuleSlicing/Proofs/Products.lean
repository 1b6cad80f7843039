import RuleSlicing.Proofs.Factorization

/-!
# Slices are a product

The slices of some dimensions combine the relevant values of the used ones: every
combination once, in lexicographic order. The number of combinations is bounded
while it grows, and the first dimension that has no relevant value or makes too
many combinations decides the error.
-/

set_option autoImplicit false

namespace RuleSlicing

namespace Factorization

structure Factor where
  name : String
  values : List PropertyValue
  discipline : Discipline
deriving DecidableEq

def Factor.of (selectors : List Selector) (dimension : Dimension) : Factor :=
  ⟨dimension.name, (choices selectors dimension).1, (choices selectors dimension).2⟩

def factors (selectors : List Selector) (dimensions : List Dimension) : List Factor :=
  (dimensions.filter (!·.isUnused)).map (.of selectors)

def combinations (factors : List Factor) : Nat :=
  factors.foldl (fun count factor => count * factor.values.length) 1

/-- A factor behind some others has values, and not too many. -/
structure Passes (maxSlices : Nat) (before : List Factor) (factor : Factor) : Prop where
  occupied : factor.values ≠ []
  bounded : combinations (before ++ [factor]) ≤ maxSlices

def Fits (maxSlices : Nat) (factors : List Factor) : Prop :=
  ∀ before factor after, factors = before ++ factor :: after → Passes maxSlices before factor

/-- A slice fixes a value for each factor, and nothing else. -/
structure Chooses (factors : List Factor) (slice : Slice) : Prop where
  chosen : ∀ factor ∈ factors, ∃ value ∈ factor.values,
    slice.get? factor.name = some ⟨.single value, factor.discipline⟩
  only : ∀ name, (∀ factor ∈ factors, factor.name ≠ name) → slice.get? name = none

/-- Two slices agree up to a factor of which the first one has an earlier value. -/
def Precedes (factors : List Factor) (left right : Slice) : Prop :=
  ∃ before factor after first second, factors = before ++ factor :: after ∧
    (∀ earlier ∈ before, left.get? earlier.name = right.get? earlier.name) ∧
    [first, second].Sublist factor.values ∧
    left.get? factor.name = some ⟨.single first, factor.discipline⟩ ∧
    right.get? factor.name = some ⟨.single second, factor.discipline⟩

structure IsProduct (factors : List Factor) (slices : List Slice) : Prop where
  length : slices.length = combinations factors
  nodup : slices.Nodup
  ordered : slices.Pairwise (Precedes factors)
  complete : ∀ slice, slice ∈ slices ↔ Chooses factors slice

variable {selectors : List Selector} {dimensions : List Dimension} {maxSlices : Nat}
  {before : List Factor} {factor : Factor} {slices : List Slice}

theorem combinations_append_singleton (before : List Factor) (factor : Factor) :
    combinations (before ++ [factor]) = combinations before * factor.values.length :=
  List.foldl_append

theorem fits_nil (maxSlices : Nat) : Fits maxSlices [] := by
  intro before factor after split
  exact absurd split.symm (by simp)

theorem Fits.append_singleton (fits : Fits maxSlices before)
    (passes : Passes maxSlices before factor) : Fits maxSlices (before ++ [factor]) := by
  intro earlier other after split
  rcases after.eq_nil_or_concat' with rfl | ⟨middle, last, rfl⟩
  · obtain ⟨rfl, same⟩ := List.append_inj' split rfl
    exact List.singleton_inj.mp same ▸ passes
  · have whole : earlier ++ other :: (middle ++ [last]) = (earlier ++ other :: middle) ++ [last] := by
      simp
    rw [whole] at split
    exact fits earlier other middle (List.append_inj_left' split rfl)

theorem nodup_of (selectors : List Selector) (dimension : Dimension) :
    (Factor.of selectors dimension).values.Nodup := by
  simp only [Factor.of, choices]
  cases selectors.find? (·.property.name = dimension.name) with
  | none => exact Axis.nodup_relevantValues dimension.domain
  | some selector => exact Axis.nodup_values ⟨dimension, selector.property.range, .any⟩

/-! ## One more factor -/

section Extend

variable (fresh : ∀ other ∈ before, other.name ≠ factor.name)

theorem length_extend (slices : List Slice) (name : String) (values : List PropertyValue)
    (discipline : Discipline) :
    (extend slices name values discipline).length = slices.length * values.length := by
  simp [extend, List.length_flatMap]

include fresh

private theorem get?_fix_of_mem {other : Factor} (member : other ∈ before) (slice : Slice)
    (value : PropertyValue) :
    (slice.fix ⟨factor.name, .single value⟩ factor.discipline).get? other.name =
      slice.get? other.name := by
  rw [Slice.get?_fix, if_neg (fresh other member)]

private theorem chooses_fix {slice : Slice} (chooses : Chooses before slice)
    {value : PropertyValue} (member : value ∈ factor.values) :
    Chooses (before ++ [factor]) (slice.fix ⟨factor.name, .single value⟩ factor.discipline) := by
  constructor
  · intro other inFactors
    rcases List.mem_append.mp inFactors with inBefore | last
    · rw [get?_fix_of_mem fresh inBefore]
      exact chooses.chosen other inBefore
    · rw [List.mem_singleton.mp last]
      exact ⟨value, member, by rw [Slice.get?_fix, if_pos rfl]⟩
  · intro name absent
    have different : name ≠ factor.name := fun same =>
      absent factor (List.mem_append_right _ (.head _)) same.symm
    rw [Slice.get?_fix, if_neg different]
    exact chooses.only name fun other inBefore => absent other (List.mem_append_left _ inBefore)

private theorem exists_fix_of_chooses {slice : Slice}
    (chooses : Chooses (before ++ [factor]) slice) :
    ∃ start, Chooses before start ∧ ∃ value ∈ factor.values,
      start.fix ⟨factor.name, .single value⟩ factor.discipline = slice := by
  obtain ⟨value, member, fixed⟩ := chooses.chosen factor (List.mem_append_right _ (.head _))
  refine ⟨slice.without factor.name, ⟨?_, ?_⟩, value, member, Slice.fix_without fixed⟩
  · intro other inBefore
    rw [Slice.get?_without, if_neg (fresh other inBefore)]
    exact chooses.chosen other (List.mem_append_left _ inBefore)
  · intro name absent
    rw [Slice.get?_without]
    split
    · rfl
    · rename_i different
      apply chooses.only name
      intro other inFactors
      rcases List.mem_append.mp inFactors with inBefore | last
      · exact absent other inBefore
      · rw [List.mem_singleton.mp last]
        exact Ne.symm different

private theorem precedes_fix_same (slice : Slice) {first second : PropertyValue}
    (earlier : [first, second].Sublist factor.values) :
    Precedes (before ++ [factor])
      (slice.fix ⟨factor.name, .single first⟩ factor.discipline)
      (slice.fix ⟨factor.name, .single second⟩ factor.discipline) := by
  refine ⟨before, factor, [], first, second, rfl, ?_, earlier, ?_, ?_⟩
  · intro other inBefore
    rw [get?_fix_of_mem fresh inBefore, get?_fix_of_mem fresh inBefore]
  · rw [Slice.get?_fix, if_pos rfl]
  · rw [Slice.get?_fix, if_pos rfl]

private theorem precedes_fix {left right : Slice} (precedes : Precedes before left right)
    (first second : PropertyValue) :
    Precedes (before ++ [factor])
      (left.fix ⟨factor.name, .single first⟩ factor.discipline)
      (right.fix ⟨factor.name, .single second⟩ factor.discipline) := by
  obtain ⟨earlier, decisive, later, low, high, rfl, agree, ordered, leftFixed, rightFixed⟩ := precedes
  refine ⟨earlier, decisive, later ++ [factor], low, high, by simp, ?_, ordered, ?_, ?_⟩
  · intro other inEarlier
    have inBefore := List.mem_append_left (decisive :: later) inEarlier
    rw [get?_fix_of_mem fresh inBefore, get?_fix_of_mem fresh inBefore]
    exact agree other inEarlier
  · rwa [get?_fix_of_mem fresh (List.mem_append_right _ (.head _))]
  · rwa [get?_fix_of_mem fresh (List.mem_append_right _ (.head _))]

end Extend

private theorem Precedes.ne {factors : List Factor} (unique : ∀ factor ∈ factors, factor.values.Nodup)
    {left right : Slice} (precedes : Precedes factors left right) : left ≠ right := by
  rintro rfl
  obtain ⟨before, factor, after, first, second, rfl, _, ordered, leftFixed, rightFixed⟩ := precedes
  rw [leftFixed] at rightFixed
  have same := PropertyRange.single_inj (congrArg Coordinate.range (Option.some.inj rightFixed))
  rw [same] at ordered
  have distinct := unique factor (List.mem_append_right _ (.head _))
  exact List.nodup_iff_sublist.mp distinct second ordered

theorem isProduct_nil : IsProduct [] [.empty] where
  length := rfl
  nodup := List.nodup_singleton _
  ordered := List.pairwise_singleton _ _
  complete slice := by
    rw [List.mem_singleton]
    constructor
    · rintro rfl
      exact ⟨fun _ member => absurd member List.not_mem_nil, fun _ _ => rfl⟩
    · intro chooses
      ext1 name
      exact chooses.only name fun _ member => absurd member List.not_mem_nil

/-- Extended by the values of a further factor, a product is the product with it. -/
theorem IsProduct.extend (product : IsProduct before slices)
    (fresh : ∀ other ∈ before, other.name ≠ factor.name)
    (unique : ∀ other ∈ before ++ [factor], other.values.Nodup) :
    IsProduct (before ++ [factor])
      (extend slices factor.name factor.values factor.discipline) := by
  have ordered : (Factorization.extend slices factor.name factor.values factor.discipline).Pairwise
      (Precedes (before ++ [factor])) := by
    apply List.pairwise_flatMap.mpr
    constructor
    · intro slice _
      apply List.pairwise_map.mpr
      exact List.pairwise_iff_forall_sublist.mpr fun earlier => precedes_fix_same fresh slice earlier
    · apply product.ordered.imp
      intro left right precedes leftFixed leftMember rightFixed rightMember
      obtain ⟨first, _, rfl⟩ := List.mem_map.mp leftMember
      obtain ⟨second, _, rfl⟩ := List.mem_map.mp rightMember
      exact precedes_fix fresh precedes first second
  constructor
  · rw [length_extend, product.length, combinations_append_singleton]
  · exact ordered.imp fun precedes => precedes.ne unique
  · exact ordered
  · intro slice
    rw [mem_extend_iff]
    constructor
    · intro given
      obtain ⟨start, inSlices, value, member, rfl⟩ := given
      exact chooses_fix fresh ((product.complete start).mp inSlices) member
    · intro chooses
      obtain ⟨start, startChooses, value, member, made⟩ := exists_fix_of_chooses fresh chooses
      exact ⟨start, (product.complete start).mpr startChooses, value, member, made⟩

/-! ## Factor by factor -/

theorem lt_saturated_iff (bounded : maxSlices < wordCount - 1) (count : Nat) :
    maxSlices < saturated count ↔ maxSlices < count := by
  unfold saturated
  rw [Nat.lt_min]
  exact and_iff_left bounded

section Cons

variable {dimension : Dimension}

private theorem factors_unused (unused : dimension.isUnused = true) :
    factors selectors (dimension :: dimensions) = factors selectors dimensions := by
  unfold factors
  rw [List.filter_cons_of_neg (by simp [unused])]

private theorem factors_used (used : dimension.isUnused = false) :
    factors selectors (dimension :: dimensions) =
      .of selectors dimension :: factors selectors dimensions := by
  unfold factors
  rw [List.filter_cons_of_pos (by simp [used]), List.map_cons]

private theorem extendAll_unused (unused : dimension.isUnused = true) :
    extendAll selectors maxSlices (dimension :: dimensions) slices =
      extendAll selectors maxSlices dimensions slices :=
  if_pos unused

end Cons

private theorem extendAll_of_nil (unused : factors selectors dimensions = [])
    (slices : List Slice) : extendAll selectors maxSlices dimensions slices = .ok slices := by
  induction dimensions with
  | nil => rfl
  | cons dimension rest ih =>
      cases state : dimension.isUnused with
      | true =>
          rw [factors_unused state] at unused
          rw [extendAll_unused state]
          exact ih unused
      | false =>
          rw [factors_used state] at unused
          cases unused

private theorem extendAll_of_cons (maxSlices : Nat) {rest : List Factor}
    (first : factors selectors dimensions = factor :: rest) (slices : List Slice) :
    ∃ others, factors selectors others = rest ∧
      extendAll selectors maxSlices dimensions slices =
        if factor.values.isEmpty then
          .error (.selection (SelectionFault.noRelevantValue factor.name).message)
        else if maxSlices < saturated (slices.length * factor.values.length) then
          .error (.tooManySlices (saturated (slices.length * factor.values.length)) maxSlices)
        else
          extendAll selectors maxSlices others
            (extend slices factor.name factor.values factor.discipline) := by
  induction dimensions with
  | nil => cases first
  | cons dimension others ih =>
      cases state : dimension.isUnused with
      | true =>
          rw [factors_unused state] at first
          rw [extendAll_unused state]
          exact ih first
      | false =>
          rw [factors_used state] at first
          obtain ⟨rfl, rfl⟩ := List.cons.inj first
          have used : ¬dimension.isUnused = true := by simp [state]
          exact ⟨others, rfl, if_neg used⟩

private def FitsBehind (maxSlices : Nat) (before factors : List Factor) : Prop :=
  ∀ earlier factor after, factors = earlier ++ factor :: after →
    Passes maxSlices (before ++ earlier) factor

private theorem fitsBehind_of_cons {rest : List Factor}
    (fits : FitsBehind maxSlices before (factor :: rest)) :
    Passes maxSlices before factor ∧ FitsBehind maxSlices (before ++ [factor]) rest := by
  constructor
  · have passes := fits [] factor rest rfl
    rwa [List.append_nil] at passes
  · intro earlier other after split
    have passes := fits (factor :: earlier) other after (congrArg (factor :: ·) split)
    rwa [List.append_assoc]

/-- As long as the factors pass, the slices are their product. -/
private theorem exists_extendAll (bounded : maxSlices < wordCount - 1)
    {earlier after : List Factor} (split : factors selectors dimensions = earlier ++ after)
    (fits : FitsBehind maxSlices before earlier) (product : IsProduct before slices)
    (distinct : ((before ++ earlier).map (·.name)).Nodup)
    (unique : ∀ factor ∈ before ++ earlier, factor.values.Nodup) :
    ∃ others reached, factors selectors others = after ∧ IsProduct (before ++ earlier) reached ∧
      extendAll selectors maxSlices dimensions slices =
        extendAll selectors maxSlices others reached := by
  induction earlier generalizing before slices dimensions with
  | nil => exact ⟨dimensions, slices, split, by rwa [List.append_nil], rfl⟩
  | cons factor rest ih =>
      obtain ⟨passes, restFits⟩ := fitsBehind_of_cons fits
      obtain ⟨others, restSplit, step⟩ := extendAll_of_cons maxSlices split slices
      have whole : before ++ factor :: rest = (before ++ [factor]) ++ rest := by simp
      rw [whole] at distinct unique ⊢
      have few : ¬maxSlices < saturated (slices.length * factor.values.length) := by
        rw [lt_saturated_iff bounded, product.length, ← combinations_append_singleton]
        exact Nat.not_lt.mpr passes.bounded
      rw [if_neg (by simpa using passes.occupied), if_neg few] at step
      have fresh : ∀ other ∈ before, other.name ≠ factor.name := by
        intro other member same
        rw [List.map_append, List.map_append] at distinct
        have apart := (List.nodup_append.mp (List.nodup_append.mp distinct).1).2.2
        exact apart _ (List.mem_map_of_mem member) _ (List.mem_map_of_mem (.head _)) same
      have extended := product.extend fresh fun other member =>
        unique other (List.mem_append_left _ member)
      obtain ⟨last, reached, lastSplit, lastProduct, run⟩ :=
        ih restSplit restFits extended distinct unique
      exact ⟨last, reached, lastSplit, lastProduct, step.trans run⟩

private theorem nodup_map_name_factors (selectors : List Selector)
    (distinct : (dimensions.map (·.name)).Nodup) :
    ((factors selectors dimensions).map (·.name)).Nodup := by
  unfold factors
  rw [List.map_map]
  exact (List.filter_sublist.map _).nodup distinct

private theorem exists_all (bounded : maxSlices < wordCount - 1)
    (distinct : (dimensions.map (·.name)).Nodup) {earlier after : List Factor}
    (split : factors selectors dimensions = earlier ++ after) (fits : Fits maxSlices earlier) :
    ∃ others reached, factors selectors others = after ∧ IsProduct earlier reached ∧
      Slice.all selectors dimensions maxSlices = extendAll selectors maxSlices others reached := by
  have names := nodup_map_name_factors selectors distinct
  rw [split, List.map_append] at names
  have behind : FitsBehind maxSlices [] earlier := fits
  apply exists_extendAll bounded split behind isProduct_nil
  · exact (List.nodup_append.mp names).1
  · intro factor member
    have inFactors : factor ∈ factors selectors dimensions :=
      split ▸ List.mem_append_left after member
    obtain ⟨dimension, _, rfl⟩ := List.mem_map.mp inFactors
    exact nodup_of selectors dimension

end Factorization

open Factorization

/-- The first factor that does not pass makes the slices of some dimensions fail; if all
pass, the slices are their product. -/
theorem slices_are_product {selectors : List Selector} {dimensions : List Dimension}
    (distinct : (dimensions.map (·.name)).Nodup) {maxSlices : Nat}
    (bounded : maxSlices < wordCount - 1) :
    (∀ before factor after, factors selectors dimensions = before ++ factor :: after →
      Fits maxSlices before →
        (factor.values = [] → Slice.all selectors dimensions maxSlices =
          .error (.selection (SelectionFault.noRelevantValue factor.name).message)) ∧
        (factor.values ≠ [] → maxSlices < combinations (before ++ [factor]) →
          Slice.all selectors dimensions maxSlices =
            .error (.tooManySlices (Nat.min (combinations (before ++ [factor])) (wordCount - 1))
              maxSlices))) ∧
    (Fits maxSlices (factors selectors dimensions) →
      ∃ slices, IsProduct (factors selectors dimensions) slices ∧
        Slice.all selectors dimensions maxSlices = .ok slices) := by
  constructor
  · intro before factor after split fits
    obtain ⟨others, reached, othersSplit, product, run⟩ := exists_all bounded distinct split fits
    obtain ⟨_, _, step⟩ := extendAll_of_cons maxSlices othersSplit reached
    rw [product.length, ← combinations_append_singleton] at step
    constructor
    · intro empty
      rw [run, step, if_pos (by simpa using empty)]
    · intro occupied many
      rw [run, step, if_neg (by simpa using occupied),
        if_pos ((lt_saturated_iff bounded _).mpr many)]
      rfl
  · intro fits
    obtain ⟨others, reached, none, product, run⟩ :=
      exists_all bounded distinct (List.append_nil _).symm fits
    exact ⟨reached, product, run.trans (extendAll_of_nil none reached)⟩

namespace Sample

/-- Between two dimensions with two values each there is one without declared values. -/
def dimensions : List Dimension :=
  [⟨"market", .enumeration (.ofList ["away", "home"])⟩, ⟨"year", .integer .empty⟩,
    ⟨"open", .boolean (.singleton true)⟩]

def selectors : List Selector := [⟨⟨"market", .single (.enumeration "home")⟩, .split⟩]

theorem fits_dimensions : Fits 2 (factors selectors dimensions) := by
  have market : Fits 2 [⟨"market", [.enumeration "home"], .split⟩] :=
    (fits_nil 2).append_singleton ⟨by decide, by decide⟩
  have both : Fits 2 [⟨"market", [.enumeration "home"], .split⟩,
      ⟨"open", [.boolean false, .boolean true], .any⟩] :=
    market.append_singleton ⟨by decide, by decide⟩
  exact both

end Sample

theorem slices_are_product_sample :
    (Sample.dimensions.map (·.name)).Nodup ∧ 2 < wordCount - 1 ∧
    (∃ slices, IsProduct (factors Sample.selectors Sample.dimensions) slices ∧
      Slice.all Sample.selectors Sample.dimensions 2 = .ok slices) ∧
    Slice.all [] Sample.dimensions 3 = .error (.tooManySlices 4 3) := by
  have distinct : (Sample.dimensions.map (·.name)).Nodup := by decide
  apply And.intro distinct
  apply And.intro (by decide)
  constructor
  · exact (slices_are_product distinct (by decide)).2 Sample.fits_dimensions
  · have market : Fits 3 [⟨"market", [.enumeration "away", .enumeration "home"], .any⟩] :=
      (fits_nil 3).append_singleton ⟨by decide, by decide⟩
    have split : factors [] Sample.dimensions =
        [⟨"market", [.enumeration "away", .enumeration "home"], .any⟩] ++
          [⟨"open", [.boolean false, .boolean true], .any⟩] := by decide
    have bounded : 3 < wordCount - 1 := by decide
    have failing := (slices_are_product distinct bounded).1 _ _ [] split market
    exact failing.2 (by decide) (by decide)

end RuleSlicing
