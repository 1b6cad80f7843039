import RuleSlicing.Proofs.Details

/-!
# Explanations are minimal conflicts

If the active rules are in conflict under some formulas, and the solver can take all of
them, then an explanation is found, and it names rules that are in conflict while no part
of them is. The features that are not active are excluded by all active rules together,
also by those that are left out.
-/

set_option autoImplicit false

namespace RuleSlicing

namespace Conflict

variable {Item : Type}

theorem exists_eraseIdx_of_sublist {fewer items : List Item} (part : fewer.Sublist items)
    (proper : fewer ≠ items) : ∃ index < items.length, fewer.Sublist (items.eraseIdx index) := by
  induction part with
  | slnil => exact absurd rfl proper
  | cons item part _ => exact ⟨0, Nat.zero_lt_succ _, part⟩
  | cons_cons item part ih =>
      obtain ⟨index, inRange, part⟩ := ih fun same => proper (congrArg _ same)
      exact ⟨index + 1, Nat.succ_lt_succ inRange, part.cons_cons item⟩

/-- No proper part of a minimal conflict is one, if adding items keeps conflicts. -/
theorem Minimal.not_of_sublist {Conflicting : List Item → Prop} {fewer items : List Item}
    (minimal : Minimal Conflicting items)
    (grows : ∀ fewer more : List Item, fewer.Sublist more → Conflicting fewer → Conflicting more)
    (part : fewer.Sublist items) (proper : fewer ≠ items) : ¬Conflicting fewer := by
  obtain ⟨index, inRange, part⟩ := exists_eraseIdx_of_sublist part proper
  exact fun conflicting => minimal.needed index inRange (grows _ _ part conflicting)

end Conflict

namespace Consistency

/-- Active rules that are in conflict under some formulas, with not too many variables, have
an explanation. It lists labels of active rules in their order; these rules are in conflict
under the formulas, are not if any one is left out, and no other part of them is either. -/
theorem explain_eq_minimal (task : SliceTask) (formulas : List Formula)
    (conflicting : ¬task.set.activation.Solvable formulas task.rules)
    (small : (Formula.varsOfAll (task.theory.formulas ++ formulas)).size ≤
      Nat.min task.limits.maxVariables TruthTable.wordVariables) :
    ∃ core : List Rule, explain task formulas = .ok (core.map (·.label)) ∧
      core.Sublist task.rules ∧
      ¬task.set.activation.Solvable formulas core ∧
      (∀ index < core.length, task.set.activation.Solvable formulas (core.eraseIdx index)) ∧
      ∀ fewer : List Rule, fewer.Sublist core → fewer ≠ core →
        task.set.activation.Solvable formulas fewer := by
  obtain ⟨labels, explained⟩ := exists_explain (decide_eq_true small)
  obtain ⟨core, part, rfl, minimal⟩ := minimal_of_explain explained conflicting
  refine ⟨core, explained, part, minimal.conflicting, ?_, ?_⟩
  · exact fun index inRange => not_not.mp (minimal.needed index inRange)
  · intro fewer smaller proper
    exact not_not.mp <| minimal.not_of_sublist
      (fun _ _ part => mt (Activation.Solvable.of_sublist part)) smaller proper

theorem explain_eq_minimal_sample : ∃ model slices set,
    Model.compile Sample.conflictDocument = .ok model ∧ set ∈ SliceSet.group model slices ∧
    ∃ core : List Rule,
      explain ⟨Sample.conflictRequest, set, .standard⟩ [Constraint.formula "-A"] =
        .ok (core.map (·.label)) ∧
      core.Sublist set.activation.rules ∧
      ¬set.activation.Solvable [Constraint.formula "-A"] core ∧
      (∀ index < core.length,
        set.activation.Solvable [Constraint.formula "-A"] (core.eraseIdx index)) ∧
      ∀ fewer : List Rule, fewer.Sublist core → fewer ≠ core →
        set.activation.Solvable [Constraint.formula "-A"] fewer := by
  obtain ⟨model, _, slices, set, _, compiled, _, _, sets, _, formulas, _⟩ := Sample.exists_conflict
  refine ⟨model, slices, set, compiled, sets ▸ List.Mem.head _, ?_⟩
  refine explain_eq_minimal ⟨Sample.conflictRequest, set, .standard⟩ _ ?_ ?_
  -- One rule needs the feature, the other one excludes it.
  · rintro ⟨valuation, satisfied, _⟩
    have solves := Activation.solves_rules_iff.mpr satisfied
    rw [SliceTask.rules, formulas] at solves
    have isTrue := solves (.var "A") (List.Mem.head _)
    have isFalse := solves (.not (.var "A")) (.tail _ (List.Mem.head _))
    rw [Formula.eval, isTrue] at isFalse
    cases isFalse
  · show (Formula.varsOfAll (set.activation.formulas ["-A"])).size ≤
      Nat.min Limits.standard.maxVariables TruthTable.wordVariables
    rw [Activation.varsOfAll_formulas, Activation.unknowns, Activation.ruleVariables, formulas]
    decide

end Consistency

end RuleSlicing
