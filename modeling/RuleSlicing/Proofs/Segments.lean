import RuleSlicing.Space.Breakpoints

/-!
# Segments of declared ranges

The segments that ascending beginnings make are apart, and together they hold
every value from the first to the last beginning. For the breakpoints of declared
ranges this is the whole span, and a declared range holds all values of a segment
or none of them.
-/

set_option autoImplicit false

namespace RuleSlicing

variable {low high : Int}

/-! ## Segments between beginnings -/

namespace Segment

theorem contains_iff (segment : Segment low high) (value : Bounded low high) :
    segment.contains value = true ↔ segment.first ≤ value ∧ value ≤ segment.last := by
  simp [contains]

theorem val_last (first next : Bounded low high) (below : first < next) :
    (next.pred?.getD first).val = next.val - 1 := by
  have limit := first.low_le
  have limit' := next.le_high
  rw [Bounded.lt_iff] at below
  cases previous : next.pred? with
  | none =>
      have missing : ∀ value : Bounded low high, value.val ≠ next.val - 1 := fun value same =>
        nomatch previous.symm.trans ((Bounded.pred?_eq_some_iff next value).mpr same)
      exact absurd rfl (missing ⟨next.val - 1, by omega, by omega⟩)
  | some value => exact (Bounded.pred?_eq_some_iff next value).mp previous

theorem map_first_ofBeginnings (beginnings : List (Bounded low high)) :
    (ofBeginnings beginnings).map (·.first) = beginnings := by
  induction beginnings with
  | nil => rfl
  | cons first rest ih =>
      cases rest with
      | nil => rfl
      | cons next others =>
          simp only [ofBeginnings, List.map_cons]
          rw [ih]

theorem first_mem {beginnings : List (Bounded low high)} {segment : Segment low high}
    (member : segment ∈ ofBeginnings beginnings) : segment.first ∈ beginnings := by
  rw [← map_first_ofBeginnings beginnings]
  exact List.mem_map_of_mem member

theorem exists_of_beginning {beginnings : List (Bounded low high)} {value : Bounded low high}
    (member : value ∈ beginnings) : ∃ segment ∈ ofBeginnings beginnings, segment.first = value := by
  rw [← map_first_ofBeginnings beginnings] at member
  exact List.mem_map.mp member

variable {beginnings : List (Bounded low high)}

theorem first_le_last (ascending : beginnings.Pairwise (· < ·)) :
    ∀ segment ∈ ofBeginnings beginnings, segment.first ≤ segment.last := by
  induction beginnings with
  | nil => simp [ofBeginnings]
  | cons first rest ih =>
      obtain ⟨below, restAscending⟩ := List.pairwise_cons.mp ascending
      cases rest with
      | nil =>
          intro segment member
          cases List.mem_singleton.mp member
          exact Int.le_refl _
      | cons next others =>
          intro segment member
          rcases List.mem_cons.mp member with rfl | inRest
          · have final := val_last first next (below next (.head _))
            have nextBelow := below next (.head _)
            rw [Bounded.lt_iff] at nextBelow
            rw [Bounded.le_iff]
            simp only
            omega
          · exact ih restAscending segment inRest

/-- A segment ends before the next one begins. -/
theorem pairwise_ofBeginnings (ascending : beginnings.Pairwise (· < ·)) :
    (ofBeginnings beginnings).Pairwise fun left right => left.last < right.first := by
  induction beginnings with
  | nil => exact .nil
  | cons first rest ih =>
      obtain ⟨below, restAscending⟩ := List.pairwise_cons.mp ascending
      cases rest with
      | nil => simp [ofBeginnings]
      | cons next others =>
          refine List.pairwise_cons.mpr ⟨fun segment member => ?_, ih restAscending⟩
          have final := val_last first next (below next (.head _))
          have notBefore : next ≤ segment.first := by
            rcases List.mem_cons.mp (first_mem member) with equal | inOthers
            · rw [equal]
              exact Int.le_refl _
            · exact Std.le_of_lt ((List.pairwise_cons.mp restAscending).1 _ inOthers)
          rw [Bounded.le_iff] at notBefore
          rw [Bounded.lt_iff]
          simp only
          omega

theorem eq_of_contains (ascending : beginnings.Pairwise (· < ·)) {left right : Segment low high}
    (leftMember : left ∈ ofBeginnings beginnings) (rightMember : right ∈ ofBeginnings beginnings)
    {value : Bounded low high} (inLeft : left.contains value = true)
    (inRight : right.contains value = true) : left = right := by
  have apart : (ofBeginnings beginnings).Pairwise fun one other : Segment low high =>
      one = other ∨ one.last < other.first ∨ other.last < one.first :=
    (pairwise_ofBeginnings ascending).imp fun before => .inr (.inl before)
  have behind : (ofBeginnings beginnings).Pairwise <|
      flip fun one other : Segment low high =>
        one = other ∨ one.last < other.first ∨ other.last < one.first :=
    (pairwise_ofBeginnings ascending).imp fun before => .inr (.inr before)
  have related := apart.forall_of_forall_of_flip (fun _ _ => .inl rfl) behind
    leftMember rightMember
  rw [contains_iff] at inLeft inRight
  simp only [Bounded.le_iff, Bounded.lt_iff] at inLeft inRight related
  rcases related with same | before | behind
  · exact same
  · omega
  · omega

theorem eq_first_of_contains (ascending : beginnings.Pairwise (· < ·))
    {segment : Segment low high} (member : segment ∈ ofBeginnings beginnings)
    {value : Bounded low high} (beginning : value ∈ beginnings)
    (inside : segment.contains value = true) : value = segment.first := by
  obtain ⟨other, otherMember, rfl⟩ := exists_of_beginning beginning
  have atFirst : other.contains other.first = true :=
    (contains_iff other _).mpr ⟨Int.le_refl _, first_le_last ascending other otherMember⟩
  rw [eq_of_contains ascending otherMember member atFirst inside]

theorem exists_contains (ascending : beginnings.Pairwise (· < ·))
    {lower upper value : Bounded low high} (lowerMember : lower ∈ beginnings)
    (upperMember : upper ∈ beginnings) (above : lower ≤ value) (below : value ≤ upper) :
    ∃ segment ∈ ofBeginnings beginnings, segment.contains value = true := by
  induction beginnings generalizing lower with
  | nil => simp at lowerMember
  | cons first rest ih =>
      obtain ⟨firstBelow, restAscending⟩ := List.pairwise_cons.mp ascending
      have firstLe : first ≤ value := by
        rcases List.mem_cons.mp lowerMember with rfl | inRest
        · exact above
        · exact Std.le_trans (Std.le_of_lt (firstBelow lower inRest)) above
      cases rest with
      | nil =>
          rw [List.mem_singleton.mp upperMember] at below
          exact ⟨⟨first, first⟩, .head _, (contains_iff _ _).mpr ⟨firstLe, below⟩⟩
      | cons next others =>
          have nextAbove := firstBelow next (.head _)
          have final := val_last first next nextAbove
          by_cases before : value < next
          · refine ⟨_, .head _, (contains_iff _ _).mpr ⟨firstLe, ?_⟩⟩
            rw [Bounded.lt_iff] at before
            rw [Bounded.le_iff]
            simp only
            omega
          · have upperInRest : upper ∈ next :: others := by
              rcases List.mem_cons.mp upperMember with rfl | inRest
              · rw [Bounded.lt_iff] at before nextAbove
                rw [Bounded.le_iff] at below
                omega
              · exact inRest
            have nextLe : next ≤ value := Std.not_lt.mp before
            obtain ⟨segment, member, inside⟩ := ih restAscending (.head _) upperInRest nextLe
            exact ⟨segment, .tail _ member, inside⟩

/-- No segment reaches beyond all beginnings. -/
theorem exists_last_le (ascending : beginnings.Pairwise (· < ·)) :
    ∀ segment ∈ ofBeginnings beginnings, ∃ upper ∈ beginnings, segment.last ≤ upper := by
  induction beginnings with
  | nil => simp [ofBeginnings]
  | cons first rest ih =>
      obtain ⟨firstBelow, restAscending⟩ := List.pairwise_cons.mp ascending
      cases rest with
      | nil =>
          intro segment member
          cases List.mem_singleton.mp member
          exact ⟨first, .head _, Int.le_refl _⟩
      | cons next others =>
          intro segment member
          rcases List.mem_cons.mp member with rfl | inRest
          · refine ⟨next, .tail _ (.head _), ?_⟩
            have final := val_last first next (firstBelow next (.head _))
            rw [Bounded.le_iff]
            simp only
            omega
          · obtain ⟨upper, upperMember, reaches⟩ := ih restAscending segment inRest
            exact ⟨upper, .tail _ upperMember, reaches⟩

theorem find?_contains (ascending : beginnings.Pairwise (· < ·))
    {segment : Segment low high} (member : segment ∈ ofBeginnings beginnings)
    {value : Bounded low high} (inside : segment.contains value = true) :
    (ofBeginnings beginnings).find? (·.contains value) = some segment := by
  cases found : (ofBeginnings beginnings).find? (·.contains value) with
  | none => exact absurd inside (List.find?_eq_none.mp found segment member)
  | some other =>
      have holds : other.contains value = true := by simpa using List.find?_some found
      rw [eq_of_contains ascending (List.mem_of_find?_eq_some found) member holds inside]

end Segment

end RuleSlicing
