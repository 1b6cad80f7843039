import Mathlib.Data.List.Nodup
import RuleSlicing.Proofs.Solving

/-!
# The solution that is found

What the solver finds is an assignment of exactly the variables of its formulas, and
makes all of them true. It is told apart by the variables that it makes true: a choice
of exactly these satisfies the formulas as well.
-/

set_option autoImplicit false

namespace RuleSlicing

namespace Valuation

/-- The listed variables have the listed values, all others are false. -/
def ofValues : List (String × Bool) → Valuation
  | [] => fun _ => false
  | (name, value) :: rest => (ofValues rest).update name value

theorem ofValues_eq_true_iff {values : List (String × Bool)}
    (distinct : (values.map (·.1)).Nodup) (name : String) :
    ofValues values name = true ↔ (name, true) ∈ values := by
  induction values with
  | nil => exact iff_of_false Bool.false_ne_true List.not_mem_nil
  | cons head rest ih =>
      obtain ⟨other, value⟩ := head
      obtain ⟨fresh, restDistinct⟩ := List.nodup_cons.mp distinct
      unfold ofValues update
      rw [List.mem_cons]
      by_cases same : name = other
      · subst same
        have elsewhere : (name, true) ∉ rest := fun member =>
          fresh (List.mem_map_of_mem (f := (·.1)) member)
        rw [if_pos rfl, or_iff_left elsewhere, Prod.mk.injEq, and_iff_right rfl]
        exact eq_comm
      · rw [if_neg same, ih restDistinct, or_iff_right]
        exact fun equal => same (congrArg Prod.fst equal)

end Valuation

/-! ## Assignments -/

namespace Assignment

theorem mem_positive_iff (assignment : Assignment) (name : String) :
    name ∈ assignment.positive ↔ assignment.get? name = some true := by
  unfold positive get?
  rw [SortedMap.get?_eq_some_iff, List.mem_map]
  constructor
  · intro given
    obtain ⟨⟨_, value⟩, member, rfl⟩ := given
    obtain ⟨stored, isTrue⟩ := List.mem_filter.mp member
    exact (isTrue : value = true) ▸ stored
  · intro stored
    exact ⟨(name, true), List.mem_filter.mpr ⟨stored, rfl⟩, rfl⟩

/-- An assignment chooses the variables that it makes true. -/
theorem ofTrue_positive (assignment : Assignment) :
    Valuation.ofTrue assignment.positive = assignment.valuation := by
  funext name
  unfold Valuation.ofTrue valuation
  rw [Bool.eq_iff_iff, List.contains_iff_mem, mem_positive_iff]
  cases assignment.get? name with
  | none => simp
  | some value => simp

theorem valuation_ofList {values : List (String × Bool)} (distinct : (values.map (·.1)).Nodup) :
    valuation ⟨.ofList values⟩ = Valuation.ofValues values := by
  rw [← ofTrue_positive]
  funext name
  unfold Valuation.ofTrue
  rw [Bool.eq_iff_iff, List.contains_iff_mem, mem_positive_iff,
    Valuation.ofValues_eq_true_iff distinct]
  exact SortedMap.get?_ofList distinct name true

end Assignment

/-! ## What the search finds -/

namespace TruthTable

/-- A variable is fixed, and the search goes on with the formulas that remain. It is made
true only if nothing is found with it false. -/
theorem exists_of_search_cons {name : String} {rest : List String}
    {formulas : List Formula} {values : List (String × Bool)}
    (found : search (name :: rest) formulas = some values) :
    ∃ value remaining others, assignAll name value formulas = some remaining ∧
      search rest remaining = some others ∧ values = (name, value) :: others ∧
      (value = true → (assignAll name false formulas).bind (search rest) = none) := by
  unfold search at found
  split at found
  · rename_i others searched
    obtain ⟨remaining, assigned, restFound⟩ := Option.bind_eq_some_iff.mp searched
    exact ⟨false, remaining, others, assigned, restFound, (Option.some.inj found).symm,
      fun isTrue => absurd isTrue Bool.false_ne_true⟩
  · rename_i missed
    split at found
    · rename_i others searched
      obtain ⟨remaining, assigned, restFound⟩ := Option.bind_eq_some_iff.mp searched
      exact ⟨true, remaining, others, assigned, restFound, (Option.some.inj found).symm,
        fun _ => missed⟩
    · cases found

theorem names_of_search {names : List String} {formulas : List Formula}
    {values : List (String × Bool)} (found : search names formulas = some values) :
    values.map (·.1) = names := by
  induction names generalizing formulas values with
  | nil =>
      unfold search at found
      split at found
      · cases found
        rfl
      · cases found
  | cons name rest ih =>
      obtain ⟨value, remaining, others, _, restFound, rfl, _⟩ := exists_of_search_cons found
      exact congrArg (name :: ·) (ih restFound)

theorem solves_of_search {names : List String} {formulas : List Formula}
    {values : List (String × Bool)} (found : search names formulas = some values) :
    (Valuation.ofValues values).Solves formulas := by
  induction names generalizing formulas values with
  | nil =>
      unfold search at found
      split at found
      · rename_i allTrue
        cases found
        exact List.all_eq_true.mp allTrue
      · cases found
  | cons name rest ih =>
      obtain ⟨value, remaining, others, assigned, restFound, rfl, _⟩ := exists_of_search_cons found
      exact (solves_update_iff name value formulas _).mpr ⟨remaining, assigned, ih restFound⟩

/-! ## What the solver finds -/

section Solve

variable {limit : Limit} {formulas : List Formula} {assignment : Assignment}
  (solved : solve limit formulas = .ok (some assignment))

include solved

theorem exists_values : ∃ values : List (String × Bool),
    search (Formula.varsOfAll formulas).toList.reverse formulas = some values ∧
      (values.map (·.1)).Nodup ∧ assignment = ⟨.ofList values⟩ := by
  unfold solve at solved
  simp only at solved
  split at solved
  · obtain ⟨values, found, rfl⟩ := Option.map_eq_some_iff.mp (Except.ok.inj solved)
    refine ⟨values, found, ?_, rfl⟩
    rw [names_of_search found]
    exact List.nodup_reverse.mpr (Formula.varsOfAll formulas).nodup
  · cases solved

theorem solves_of_solve : assignment.valuation.Solves formulas := by
  obtain ⟨values, found, distinct, rfl⟩ := exists_values solved
  rw [Assignment.valuation_ofList distinct]
  exact solves_of_search found

/-- Exactly the variables of the formulas have values. -/
theorem keys_of_solve : assignment.values.keys = Formula.varsOfAll formulas := by
  obtain ⟨values, found, distinct, rfl⟩ := exists_values solved
  ext name
  rw [SortedMap.mem_keys_iff]
  simp only [SortedMap.get?_ofList distinct]
  rw [SortedSet.mem_def, ← List.mem_reverse, ← names_of_search found, List.mem_map]
  constructor
  · intro given
    obtain ⟨value, member⟩ := given
    exact ⟨(name, value), member, rfl⟩
  · intro given
    obtain ⟨⟨_, value⟩, member, rfl⟩ := given
    exact ⟨value, member⟩

theorem mem_varsOfAll_of_positive {name : String} (member : name ∈ assignment.positive) :
    name ∈ Formula.varsOfAll formulas := by
  rw [← keys_of_solve solved, SortedMap.mem_keys_iff]
  exact ⟨true, (assignment.mem_positive_iff name).mp member⟩

end Solve

end TruthTable

end RuleSlicing
