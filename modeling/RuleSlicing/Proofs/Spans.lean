import RuleSlicing.Proofs.Axis
import RuleSlicing.Proofs.Tiling

/-!
# The widest selection

A dimension that is selected from its least to its greatest declared value, or with all its
declared values, is represented by its relevant values: the ones that it is represented by if it
is not selected at all. The first of them is the least and the last the greatest declared value.
-/

set_option autoImplicit false

namespace RuleSlicing

/-! ## Numbers and dates -/

namespace Breakpoints

variable {low high : Int} {points : Breakpoints low high}

theorem isSome_min? (points : Breakpoints low high) :
    points.min?.isSome = points.max?.isSome := by
  unfold min? max? SortedSet.first? SortedSet.last?
  cases points.declared.toList with
  | nil => rfl
  | cons value rest =>
      rw [List.head?_cons, List.getLast?_cons, Option.isSome_some, Option.isSome_some]

variable (grounded : points.Grounded)

include grounded

/-- In the span a segment is represented by its first value. -/
private theorem standIn_span {value : Bounded low high} (inSpan : value ∈ points.span) :
    ∃ segment ∈ points.segments, segment.contains value = true ∧
      points.standIn points.span value = segment.first := by
  obtain ⟨segment, member, inside⟩ := exists_segment grounded inSpan
  refine ⟨segment, member, inside, ?_⟩
  obtain ⟨min, max, least, greatest, above, below⟩ := (mem_span_iff points value).mp inSpan
  have shape : points.span = .interval min max (Std.le_trans above below) := by
    unfold span
    rw [least, greatest]
    exact dif_pos _
  have firstInSpan := mem_span_of_mem_relevant (Segment.first_mem member)
  rw [shape] at firstInSpan ⊢
  rw [standIn_interval member inside]
  have bounds := (LinearOrdered.larger_le_iff min segment.first _).mp (Std.le_refl _)
  have within := (LinearOrdered.larger_le_iff min segment.first segment.first).mpr
    ⟨firstInSpan.1, Std.le_refl _⟩
  exact Std.le_antisymm within bounds.2

theorem relevantIn_span : points.relevantIn points.span = points.relevant := by
  ext value
  rw [mem_relevantIn_iff grounded]
  constructor
  · intro given
    obtain ⟨inSpan, _, same⟩ := given
    obtain ⟨segment, member, _, standIn⟩ := standIn_span grounded inSpan
    rw [← same, standIn]
    exact Segment.first_mem member
  · intro beginning
    have inSpan := mem_span_of_mem_relevant beginning
    obtain ⟨segment, member, inside, standIn⟩ := standIn_span grounded inSpan
    refine ⟨inSpan, inSpan, ?_⟩
    rw [standIn]
    exact (Segment.eq_first_of_contains points.relevant.ascending member beginning inside).symm

theorem first?_relevant : points.relevant.first? = points.min? := by
  cases least : points.min? with
  | none =>
      cases first : points.relevant.first? with
      | none => rfl
      | some value =>
          have member := ((SortedSet.first?_eq_some_iff _ _).mp first).1
          obtain ⟨min, _, found, _⟩ := (mem_span_iff _ _).mp (mem_span_of_mem_relevant member)
          cases least.symm.trans found
  | some min =>
      obtain ⟨max, greatest⟩ : ∃ max, points.max? = some max :=
        Option.isSome_iff_exists.mp (points.isSome_min? ▸ least ▸ rfl)
      refine (SortedSet.first?_eq_some_iff _ _).mpr
        ⟨min_mem_relevant grounded least greatest, fun value member => ?_⟩
      obtain ⟨other, _, found, _, above, _⟩ :=
        (mem_span_iff _ _).mp (mem_span_of_mem_relevant member)
      obtain rfl := Option.some.inj (least.symm.trans found)
      exact above

omit grounded in
theorem last?_relevant : points.relevant.last? = points.max? := by
  cases greatest : points.max? with
  | none =>
      cases last : points.relevant.last? with
      | none => rfl
      | some value =>
          have member := ((SortedSet.last?_eq_some_iff _ _).mp last).1
          obtain ⟨_, max, _, found, _⟩ := (mem_span_iff _ _).mp (mem_span_of_mem_relevant member)
          cases greatest.symm.trans found
  | some max =>
      refine (SortedSet.last?_eq_some_iff _ _).mpr
        ⟨max_mem_relevant greatest, fun value member => ?_⟩
      obtain ⟨_, other, _, found, _, below⟩ :=
        (mem_span_iff _ _).mp (mem_span_of_mem_relevant member)
      obtain rfl := Option.some.inj (greatest.symm.trans found)
      exact below

end Breakpoints

/-! ## Domains -/

namespace Domain

variable {domain : Domain}

theorem relevantValuesIn_fullRange (grounded : domain.Grounded) :
    domain.relevantValuesIn domain.fullRange = domain.relevantValues := by
  have whole : ∀ value ∈ domain.relevantValues,
      (PropertyRange.ofValues domain.type domain.relevantValues).contains value = true :=
    fun value member => (PropertyRange.mem_ofValues_iff _ _ _).mpr
      ⟨Axis.type_of_mem_relevantValues member, member⟩
  cases domain with
  | boolean | enumeration => exact List.filter_eq_self.mpr whole
  | integer points | date points =>
      simp only [fullRange, relevantValuesIn, relevantValues,
        Breakpoints.relevantIn_span grounded]

theorem head?_relevantValues (grounded : domain.Grounded) :
    domain.relevantValues.head? = domain.min? := by
  cases domain with
  | boolean | enumeration => rfl
  | integer points | date points =>
      simp only [relevantValues, min?, List.head?_map, ← Breakpoints.first?_relevant grounded]
      rfl

theorem getLast?_relevantValues (domain : Domain) :
    domain.relevantValues.getLast? = domain.max? := by
  cases domain with
  | boolean | enumeration => rfl
  | integer points | date points =>
      simp only [relevantValues, max?, List.getLast?_map, ← Breakpoints.last?_relevant]
      rfl

/-- A number or date domain with one extreme has both, and its full range lies between them. -/
theorem exists_extremes (supported : domain.type.supportsIntervals = true)
    (declared : domain.min?.isSome = true ∨ domain.max?.isSome = true) :
    ∃ low high, domain.min? = some low ∧ domain.max? = some high ∧
      PropertyRange.between? low high = some domain.fullRange := by
  cases domain with
  | boolean | enumeration => cases supported
  | integer points | date points =>
      simp only [min?, max?, Option.isSome_map, points.isSome_min?, or_self] at declared
      obtain ⟨max, greatest⟩ := Option.isSome_iff_exists.mp declared
      obtain ⟨min, least⟩ := Option.isSome_iff_exists.mp (points.isSome_min?.trans declared)
      refine ⟨_, _, congrArg (Option.map _) least, congrArg (Option.map _) greatest, ?_⟩
      simp only [PropertyRange.between?, fullRange, Breakpoints.span, least, greatest]

end Domain

/-! ## Dimensions -/

namespace Dimension

/-- The widest selection is represented by the relevant values, which reach from the least to the
greatest declared value. -/
structure Spanned (dimension : Dimension) : Prop where
  whole : dimension.relevantValuesIn dimension.domain.fullRange = dimension.relevantValues
  first : dimension.relevantValues.head? = dimension.domain.min?
  last : dimension.relevantValues.getLast? = dimension.domain.max?

theorem spanned_of_grounded {dimension : Dimension} (grounded : dimension.domain.Grounded) :
    dimension.Spanned :=
  ⟨Domain.relevantValuesIn_fullRange grounded, Domain.head?_relevantValues grounded,
    Domain.getLast?_relevantValues dimension.domain⟩

/-- The ranges that a dimension has not refused have been declared for it. -/
theorem exists_declared_offer (dimension : Dimension) (ranges : List PropertyRange) :
    ∃ accepted : List PropertyRange,
      accepted.foldlM Domain.add? dimension.domain = some (dimension.offer ranges).domain := by
  induction ranges generalizing dimension with
  | nil => exact ⟨[], rfl⟩
  | cons range rest ih =>
      unfold offer at ih ⊢
      rw [List.foldl_cons]
      unfold add
      cases added : dimension.domain.add? range with
      | none => exact ih dimension
      | some domain =>
          obtain ⟨accepted, declared⟩ := ih { dimension with domain }
          refine ⟨range :: accepted, ?_⟩
          rw [List.foldlM_cons, added]
          exact declared

theorem spanned_offer (name : String) (type : PropertyType) (ranges : List PropertyRange) :
    ((new name type).offer ranges).Spanned := by
  obtain ⟨_, declared⟩ := (new name type).exists_declared_offer ranges
  exact spanned_of_grounded (Domain.grounded_of_ofRanges? declared)

end Dimension

end RuleSlicing
