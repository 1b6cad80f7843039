import RuleSlicing.Proofs.Segments

/-!
# Breakpoints of declared ranges

What adding a range leaves in the breakpoints, and what follows for their
segments: they cover the span from the least to the greatest declared value, and
no declared range tells two values of one segment apart.
-/

set_option autoImplicit false

namespace RuleSlicing.Breakpoints

variable {low high : Int}

/-! ## What has been declared -/

/-- A range has left its marks: its ends, or its listed values. -/
def Knows (points : Breakpoints low high) : Range (Bounded low high) → Prop
  | .empty => True
  | .list values _ => ∀ value ∈ values, value ∈ points.singles
  | .interval min max _ => min ∈ points.starts ∧ max ∈ points.ends

/-- Some interval begins at or before each end. -/
def Grounded (points : Breakpoints low high) : Prop :=
  ∀ last ∈ points.ends, ∃ first ∈ points.starts, first ≤ last

theorem add_grounded {points : Breakpoints low high} (grounded : points.Grounded)
    (range : Range (Bounded low high)) : (points.add range).Grounded := by
  cases range with
  | empty => exact grounded
  | list values occupied => exact grounded
  | interval min max ordered =>
      intro last member
      rcases (SortedSet.mem_insert_iff _ _ _).mp member with rfl | earlier
      · exact ⟨min, (SortedSet.mem_insert_iff _ _ _).mpr (.inl rfl), ordered⟩
      · obtain ⟨first, inStarts, before⟩ := grounded last earlier
        exact ⟨first, (SortedSet.mem_insert_iff _ _ _).mpr (.inr inStarts), before⟩

theorem add_knows_self (points : Breakpoints low high) (range : Range (Bounded low high)) :
    (points.add range).Knows range := by
  cases range with
  | empty => trivial
  | list values occupied =>
      intro value member
      exact (SortedSet.mem_union_iff _ _ _).mpr (.inl member)
  | interval min max ordered =>
      exact ⟨(SortedSet.mem_insert_iff _ _ _).mpr (.inl rfl),
        (SortedSet.mem_insert_iff _ _ _).mpr (.inl rfl)⟩

theorem add_knows {points : Breakpoints low high} {known : Range (Bounded low high)}
    (knows : points.Knows known) (range : Range (Bounded low high)) :
    (points.add range).Knows known := by
  cases range with
  | empty => exact knows
  | list values occupied =>
      cases known with
      | empty => trivial
      | list listed _ =>
          intro value member
          exact (SortedSet.mem_union_iff _ _ _).mpr (.inr (knows value member))
      | interval min max _ => exact knows
  | interval min max ordered =>
      cases known with
      | empty => trivial
      | list listed _ => exact knows
      | interval _ _ _ =>
          exact ⟨(SortedSet.mem_insert_iff _ _ _).mpr (.inr knows.1),
            (SortedSet.mem_insert_iff _ _ _).mpr (.inr knows.2)⟩

/-! ## The span -/

variable (points : Breakpoints low high)

theorem mem_declared_iff (value : Bounded low high) :
    value ∈ points.declared ↔
      value ∈ points.starts ∨ value ∈ points.ends ∨ value ∈ points.singles := by
  simp [declared]

theorem min?_eq_some_iff (min : Bounded low high) :
    points.min? = some min ↔ min ∈ points.declared ∧ ∀ value ∈ points.declared, min ≤ value :=
  SortedSet.first?_eq_some_iff _ _

theorem max?_eq_some_iff (max : Bounded low high) :
    points.max? = some max ↔ max ∈ points.declared ∧ ∀ value ∈ points.declared, value ≤ max :=
  SortedSet.last?_eq_some_iff _ _

theorem mem_span_iff (value : Bounded low high) :
    value ∈ points.span ↔ ∃ min max, points.min? = some min ∧ points.max? = some max ∧
      min ≤ value ∧ value ≤ max := by
  unfold span
  cases least : points.min? with
  | none => simp [Range.not_mem_empty]
  | some min =>
      cases greatest : points.max? with
      | none => simp [Range.not_mem_empty]
      | some max => simp

/-! ## Where segments begin -/

/-- The span has no gaps. -/
theorem mem_span_of_between {left right value : Bounded low high} (first : left ∈ points.span)
    (last : right ∈ points.span) (above : left ≤ value) (below : value ≤ right) :
    value ∈ points.span := by
  obtain ⟨min, max, least, greatest, leftAbove, _⟩ := (mem_span_iff points left).mp first
  obtain ⟨otherMin, otherMax, _, otherGreatest, _, rightBelow⟩ := (mem_span_iff points right).mp last
  obtain rfl : otherMax = max := Option.some.inj (otherGreatest.symm.trans greatest)
  exact (mem_span_iff points value).mpr ⟨min, otherMax, least, greatest,
    Std.le_trans leftAbove above, Std.le_trans below rightBelow⟩

theorem mem_relevant_iff (value : Bounded low high) :
    value ∈ points.relevant ↔ ∃ max, points.max? = some max ∧
      (value = max ∨ value ∈ points.starts ∨ value ∈ points.singles ∨
        value < max ∧ ∃ previous, (previous ∈ points.singles ∨ previous ∈ points.ends) ∧
          previous.succ? = some value) := by
  unfold relevant
  cases greatest : points.max? with
  | none => simp [SortedSet.not_mem_empty]
  | some max =>
      simp only [SortedSet.mem_insert_iff, SortedSet.mem_union_iff, SortedSet.mem_ofList_iff,
        List.mem_filter, List.mem_filterMap, decide_eq_true_eq, Option.some.injEq,
        exists_eq_left', ← SortedSet.mem_def]
      rw [or_assoc, and_comm (b := value < max)]

variable {points}

theorem mem_declared_add {range : Range (Bounded low high)} {value : Bounded low high}
    (member : value ∈ (points.add range).declared) : value ∈ points.declared ∨ value ∈ range := by
  rw [mem_declared_iff] at member ⊢
  cases range with
  | empty => exact .inl member
  | list values occupied =>
      rcases member with start | final | single
      · exact .inl (.inl start)
      · exact .inl (.inr (.inl final))
      · rcases (SortedSet.mem_union_iff _ _ _).mp single with added | earlier
        · exact .inr added
        · exact .inl (.inr (.inr earlier))
  | interval min max ordered =>
      rcases member with start | final | single
      · rcases (SortedSet.mem_insert_iff _ _ _).mp start with rfl | earlier
        · exact .inr ⟨Std.le_refl _, ordered⟩
        · exact .inl (.inl earlier)
      · rcases (SortedSet.mem_insert_iff _ _ _).mp final with rfl | earlier
        · exact .inr ⟨ordered, Std.le_refl _⟩
        · exact .inl (.inr (.inl earlier))
      · exact .inl (.inr (.inr single))

/-- Something has been declared if it had been before, or the range has some value. -/
theorem exists_declared_add_iff {range : Range (Bounded low high)} :
    (∃ value, value ∈ (points.add range).declared) ↔
      (∃ value, value ∈ points.declared) ∨ range.isEmpty = false := by
  rw [Range.isEmpty_eq_false_iff]
  constructor
  · rintro ⟨value, member⟩
    exact (mem_declared_add member).imp (⟨value, ·⟩) (⟨value, ·⟩)
  · simp only [mem_declared_iff]
    cases range with
    | empty => exact fun given => given.resolve_right fun inside => inside.choose_spec
    | list values occupied =>
        rintro (⟨value, start | final | single⟩ | ⟨value, listed⟩)
        · exact ⟨value, .inl start⟩
        · exact ⟨value, .inr (.inl final)⟩
        · exact ⟨value, .inr (.inr ((SortedSet.mem_union_iff _ _ _).mpr (.inr single)))⟩
        · exact ⟨value, .inr (.inr ((SortedSet.mem_union_iff _ _ _).mpr (.inl listed)))⟩
    | interval min max ordered =>
        exact fun _ => ⟨min, .inl ((SortedSet.mem_insert_iff _ _ _).mpr (.inl rfl))⟩

theorem exists_relevant_iff :
    (∃ value, value ∈ points.relevant) ↔ ∃ value, value ∈ points.declared := by
  constructor
  · rintro ⟨value, member⟩
    obtain ⟨max, greatest, _⟩ := (mem_relevant_iff points value).mp member
    exact ⟨max, ((max?_eq_some_iff points max).mp greatest).1⟩
  · rintro ⟨value, member⟩
    have occupied : points.declared.toList ≠ [] := List.ne_nil_of_mem member
    obtain ⟨max, greatest⟩ : ∃ max, points.max? = some max :=
      ⟨_, List.getLast?_eq_some_getLast occupied⟩
    exact ⟨max, (mem_relevant_iff points max).mpr ⟨max, greatest, .inl rfl⟩⟩

theorem max_mem_relevant {max : Bounded low high} (greatest : points.max? = some max) :
    max ∈ points.relevant :=
  (mem_relevant_iff points max).mpr ⟨max, greatest, .inl rfl⟩

theorem min_mem_relevant (grounded : points.Grounded) {min max : Bounded low high}
    (least : points.min? = some min) (greatest : points.max? = some max) :
    min ∈ points.relevant := by
  obtain ⟨member, below⟩ := (min?_eq_some_iff points min).mp least
  refine (mem_relevant_iff points min).mpr ⟨max, greatest, ?_⟩
  rcases (mem_declared_iff points min).mp member with start | final | single
  · exact .inr (.inl start)
  · obtain ⟨first, start, before⟩ := grounded min final
    have same : first = min :=
      Std.le_antisymm before (below first ((mem_declared_iff points first).mpr (.inl start)))
    exact .inr (.inl (same ▸ start))
  · exact .inr (.inr (.inl single))

theorem mem_span_of_mem_relevant {value : Bounded low high} (member : value ∈ points.relevant) :
    value ∈ points.span := by
  obtain ⟨max, greatest, reason⟩ := (mem_relevant_iff points value).mp member
  obtain ⟨maxDeclared, maxAbove⟩ := (max?_eq_some_iff points max).mp greatest
  have occupied : points.declared.toList ≠ [] := List.ne_nil_of_mem maxDeclared
  obtain ⟨min, least⟩ : ∃ min, points.min? = some min :=
    ⟨_, List.head?_eq_some_head occupied⟩
  obtain ⟨minDeclared, minBelow⟩ := (min?_eq_some_iff points min).mp least
  refine (mem_span_iff points value).mpr ⟨min, max, least, greatest, ?_⟩
  rcases reason with rfl | start | single | ⟨below, previous, declared, next⟩
  · exact ⟨minBelow _ maxDeclared, Std.le_refl _⟩
  · have declared := (mem_declared_iff points value).mpr (.inl start)
    exact ⟨minBelow _ declared, maxAbove _ declared⟩
  · have declared := (mem_declared_iff points value).mpr (.inr (.inr single))
    exact ⟨minBelow _ declared, maxAbove _ declared⟩
  · have above : min ≤ previous := minBelow _ <| (mem_declared_iff points previous).mpr <|
      declared.elim (fun single => .inr (.inr single)) fun final => .inr (.inl final)
    rw [Bounded.succ?_eq_some_iff] at next
    rw [Bounded.le_iff] at above
    refine ⟨?_, Std.le_of_lt below⟩
    rw [Bounded.le_iff]
    omega

/-- A segment begins behind each declared value and each end inside the span. -/
theorem exists_relevant_behind {previous value : Bounded low high}
    (declared : previous ∈ points.singles ∨ previous ∈ points.ends) (before : previous < value)
    (inside : value ∈ points.span) :
    ∃ next ∈ points.relevant, next.val = previous.val + 1 := by
  obtain ⟨min, max, _, greatest, _, below⟩ := (mem_span_iff points value).mp inside
  have limit := max.le_high
  have limit' := previous.low_le
  rw [Bounded.lt_iff] at before
  rw [Bounded.le_iff] at below
  have next : previous.succ? = some ⟨previous.val + 1, by omega, by omega⟩ :=
    (Bounded.succ?_eq_some_iff _ _).mpr rfl
  by_cases reaches : previous.val + 1 < max.val
  · exact ⟨_, (mem_relevant_iff points _).mpr
      ⟨max, greatest, .inr (.inr (.inr ⟨reaches, previous, declared, next⟩))⟩, rfl⟩
  · exact ⟨max, max_mem_relevant greatest, by omega⟩

/-! ## Segments -/

variable {segment : Segment low high}

theorem eq_segment {other : Segment low high} (member : segment ∈ points.segments)
    (otherMember : other ∈ points.segments) {value : Bounded low high}
    (inside : segment.contains value = true) (otherInside : other.contains value = true) :
    segment = other :=
  Segment.eq_of_contains points.relevant.ascending member otherMember inside otherInside

/-- The segments cover the span. -/
theorem exists_segment (grounded : points.Grounded) {value : Bounded low high}
    (inside : value ∈ points.span) : ∃ segment ∈ points.segments, segment.contains value = true := by
  obtain ⟨min, max, least, greatest, above, below⟩ := (mem_span_iff points value).mp inside
  exact Segment.exists_contains points.relevant.ascending
    (min_mem_relevant grounded least greatest) (max_mem_relevant greatest) above below

theorem mem_span_of_contains (member : segment ∈ points.segments) {value : Bounded low high}
    (inside : segment.contains value = true) : value ∈ points.span := by
  obtain ⟨above, below⟩ := (Segment.contains_iff segment value).mp inside
  obtain ⟨upper, upperMember, reaches⟩ :=
    Segment.exists_last_le points.relevant.ascending segment member
  obtain ⟨min, max, least, greatest, minBelow, _⟩ := (mem_span_iff points _).mp
    (mem_span_of_mem_relevant (Segment.first_mem member))
  obtain ⟨_, _, _, greatest', _, maxAbove⟩ := (mem_span_iff points _).mp
    (mem_span_of_mem_relevant upperMember)
  cases greatest.symm.trans greatest'
  exact (mem_span_iff points value).mpr ⟨min, max, least, greatest,
    Std.le_trans minBelow above, Std.le_trans below (Std.le_trans reaches maxAbove)⟩

private theorem le_of_contains (member : segment ∈ points.segments)
    {previous value : Bounded low high}
    (declared : previous ∈ points.singles ∨ previous ∈ points.ends)
    (inside : segment.contains previous = true) (valueInside : segment.contains value = true) :
    value ≤ previous := by
  refine Std.not_lt.mp fun before => ?_
  obtain ⟨next, beginning, isNext⟩ :=
    exists_relevant_behind declared before (mem_span_of_contains member valueInside)
  rw [Segment.contains_iff] at inside valueInside
  simp only [Bounded.le_iff, Bounded.lt_iff] at inside valueInside before
  have nextInside : segment.contains next = true := by
    rw [Segment.contains_iff, Bounded.le_iff, Bounded.le_iff]
    omega
  have atFirst := Segment.eq_first_of_contains points.relevant.ascending member beginning nextInside
  have same : next.val = segment.first.val := congrArg Bounded.val atFirst
  omega

private theorem mem_of_mem_of_contains {range : Range (Bounded low high)}
    (knows : points.Knows range) (member : segment ∈ points.segments)
    {left right : Bounded low high} (leftInside : segment.contains left = true)
    (rightInside : segment.contains right = true) (inRange : left ∈ range) : right ∈ range := by
  cases range with
  | empty => exact absurd inRange (Range.not_mem_empty left)
  | list values occupied =>
      have single : left ∈ points.singles := knows left inRange
      have bounded := le_of_contains member (.inl single) leftInside rightInside
      obtain ⟨max, greatest, _⟩ := (mem_relevant_iff points _).mp (Segment.first_mem member)
      have beginning : left ∈ points.relevant :=
        (mem_relevant_iff points left).mpr ⟨max, greatest, .inr (.inr (.inl single))⟩
      have atFirst := Segment.eq_first_of_contains points.relevant.ascending member beginning leftInside
      have above := ((Segment.contains_iff segment right).mp rightInside).1
      rw [← atFirst] at above
      rw [Std.le_antisymm bounded above]
      exact inRange
  | interval min max ordered =>
      obtain ⟨start, final⟩ := knows
      obtain ⟨above, below⟩ := inRange
      have leftBounds := (Segment.contains_iff segment left).mp leftInside
      have rightBounds := (Segment.contains_iff segment right).mp rightInside
      simp only [Bounded.le_iff] at leftBounds rightBounds above below
      refine ⟨Std.not_lt.mp fun before => ?_, Std.not_lt.mp fun behind => ?_⟩
      · rw [Bounded.lt_iff] at before
        obtain ⟨last, greatest, _⟩ := (mem_relevant_iff points _).mp (Segment.first_mem member)
        have beginning : min ∈ points.relevant :=
          (mem_relevant_iff points min).mpr ⟨last, greatest, .inr (.inl start)⟩
        have inside : segment.contains min = true := by
          rw [Segment.contains_iff, Bounded.le_iff, Bounded.le_iff]
          omega
        have atFirst := Segment.eq_first_of_contains points.relevant.ascending member beginning inside
        have same : min.val = segment.first.val := congrArg Bounded.val atFirst
        omega
      · rw [Bounded.lt_iff] at behind
        have inside : segment.contains max = true := by
          rw [Segment.contains_iff, Bounded.le_iff, Bounded.le_iff]
          omega
        have bounded := le_of_contains member (.inr final) inside rightInside
        rw [Bounded.le_iff] at bounded
        omega

/-- No declared range tells two values of one segment apart. -/
theorem mem_congr_of_contains {range : Range (Bounded low high)} (knows : points.Knows range)
    (member : segment ∈ points.segments) {left right : Bounded low high}
    (leftInside : segment.contains left = true) (rightInside : segment.contains right = true) :
    left ∈ range ↔ right ∈ range :=
  ⟨mem_of_mem_of_contains knows member leftInside rightInside,
    mem_of_mem_of_contains knows member rightInside leftInside⟩

end RuleSlicing.Breakpoints
