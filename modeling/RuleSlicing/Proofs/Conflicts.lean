import RuleSlicing.Proofs.Failures
import RuleSlicing.Proofs.Meaning
import RuleSlicing.Proofs.Runs

/-!
# What an explanation says

Shrinking keeps a conflict in conflict and ends when none of its items can be left
out. So the rules that explain an inconsistency are in conflict with the constraints
of the request and need each other, with the constraints if these are needed for the
conflict, and without them if the rules are in conflict by themselves.
-/

set_option autoImplicit false

namespace RuleSlicing

/-! ## Shrinking -/

namespace Conflict

variable {Item Error : Type}

/-- Items that are in conflict, and are not if any one of them is left out. -/
structure Minimal (Conflicting : List Item → Prop) (items : List Item) : Prop where
  conflicting : Conflicting items
  needed : ∀ index < items.length, ¬Conflicting (items.eraseIdx index)

theorem sublist_of_shrinkFrom {inConflict : List Item → Except Error Bool}
    {necessary items core : List Item}
    (shrunk : shrinkFrom inConflict necessary items = .ok core) :
    core.Sublist (necessary ++ items) := by
  induction items generalizing necessary with
  | nil =>
      cases shrunk
      exact List.sublist_append_left _ []
  | cons item rest ih =>
      obtain ⟨conflicting, _, shrunk⟩ := ok_of_bind shrunk
      split at shrunk
      · exact (ih shrunk).trans ((List.sublist_cons_self item rest).append_left necessary)
      · simpa using ih shrunk

section Minimal

variable {inConflict : List Item → Except Error Bool} {Conflicting : List Item → Prop}
  (decides : ∀ items verdict, inConflict items = .ok verdict →
    (verdict = true ↔ Conflicting items))
  (grows : ∀ fewer more : List Item, fewer.Sublist more → Conflicting fewer → Conflicting more)

include decides grows

/-- The items stay in conflict, and those that were found necessary stay so when others
go. -/
theorem minimal_of_shrinkFrom {necessary items core : List Item}
    (conflicting : Conflicting (necessary ++ items))
    (needed : ∀ index < necessary.length, ¬Conflicting (necessary.eraseIdx index ++ items))
    (shrunk : shrinkFrom inConflict necessary items = .ok core) : Minimal Conflicting core := by
  induction items generalizing necessary with
  | nil =>
      cases shrunk
      simp only [List.append_nil] at conflicting needed
      exact ⟨conflicting, needed⟩
  | cons item rest ih =>
      obtain ⟨verdict, tested, shrunk⟩ := ok_of_bind shrunk
      have verdictIff := decides _ _ tested
      split at shrunk
      · -- The item goes. What was needed beside it is needed without it.
        rename_i without
        refine ih (verdictIff.mp without) (fun index inRange still => ?_) shrunk
        exact needed index inRange
          (grows _ _ ((List.sublist_cons_self item rest).append_left _) still)
      · -- The item stays, and is needed like those before it.
        rename_i required
        have itemNeeded : ¬Conflicting (necessary ++ rest) := mt verdictIff.mpr required
        refine ih (by rwa [List.append_assoc]) (fun index inRange => ?_) shrunk
        rw [List.length_append, List.length_singleton] at inRange
        rcases Nat.lt_or_eq_of_le (Nat.le_of_lt_succ inRange) with earlier | rfl
        · rw [List.eraseIdx_append_of_lt_length earlier, List.append_assoc]
          exact needed index earlier
        · rw [List.eraseIdx_append_of_length_le (Nat.le_refl _), Nat.sub_self]
          simpa using itemNeeded

theorem minimal_of_shrink {items core : List Item} (conflicting : Conflicting items)
    (shrunk : shrink inConflict items = .ok core) : Minimal Conflicting core := by
  refine minimal_of_shrinkFrom decides grows ?_ ?_ shrunk
  · exact conflicting
  · exact fun _ inRange => absurd inRange (Nat.not_lt_zero _)

end Minimal

end Conflict

/-! ## Rules in conflict -/

namespace Activation

/-- Some choice without inactive features satisfies some of the active rules and the
constraints. -/
def Compatible (activation : Activation) (constraints : List String) (rules : List Rule) : Prop :=
  ∃ valuation : Valuation,
    (∀ rule ∈ rules, rule.formula.eval valuation = true) ∧
    (∀ name ∈ activation.ruleVariables, name ∉ activation.codes → valuation name = false) ∧
    ∀ text ∈ constraints, ∀ literal ∈ Constraint.literals text,
      valuation literal.name = literal.phase

/-- Some choice without inactive features satisfies some of the active rules and other
formulas. -/
def Solvable (activation : Activation) (formulas : List Formula) (rules : List Rule) : Prop :=
  ∃ valuation : Valuation,
    (∀ rule ∈ rules, rule.formula.eval valuation = true) ∧
    (∀ name ∈ activation.ruleVariables, name ∉ activation.codes → valuation name = false) ∧
    valuation.Solves formulas

variable {activation : Activation}

theorem solvable_iff_solves {formulas : List Formula} {rules : List Rule} :
    activation.Solvable formulas rules ↔ ∃ valuation : Valuation, valuation.Solves
      (activation.exclusions ++ formulas ++ rules.map (·.formula)) := by
  refine exists_congr fun valuation => ?_
  rw [Valuation.solves_append_iff, Valuation.solves_append_iff, solves_exclusions_iff,
    solves_rules_iff, and_comm]

theorem Solvable.of_sublist {formulas : List Formula} {fewer more : List Rule}
    (part : fewer.Sublist more) (solvable : activation.Solvable formulas more) :
    activation.Solvable formulas fewer := by
  obtain ⟨valuation, rules, others⟩ := solvable
  exact ⟨valuation, fun rule member => rules rule (part.subset member), others⟩

variable {constraints : List String}

theorem compatible_iff_solvable {rules : List Rule} :
    activation.Compatible constraints rules ↔
      activation.Solvable (constraints.map Constraint.formula) rules := by
  refine exists_congr fun valuation => ?_
  rw [solves_constraints_iff]

theorem Compatible.without_constraints {rules : List Rule}
    (compatible : activation.Compatible constraints rules) : activation.Compatible [] rules := by
  obtain ⟨valuation, satisfied, absent, _⟩ := compatible
  exact ⟨valuation, satisfied, absent, fun _ member => nomatch member⟩

theorem compatible_rules_iff :
    activation.Compatible constraints activation.rules ↔
      ∃ valuation, activation.Satisfies constraints valuation :=
  exists_congr fun _ => ⟨fun ⟨rules, absent, asked⟩ => ⟨rules, absent, asked⟩,
    fun satisfies => ⟨satisfies.rules, satisfies.absent, satisfies.constraints⟩⟩

end Activation

/-! ## A small conflict -/

theorem SliceSet.group_singleton (model : Model) (slice : Slice) :
    SliceSet.group model [slice] = [⟨slice, [], model.activation slice⟩] := by
  unfold group
  simp [groupByHash_eq_map, keysFrom, ofGroup?]

namespace Sample

/-- A feature that one rule needs and another excludes. -/
def conflictDocument : ModelDocument where
  dimensions := []
  features := [⟨"A", []⟩]
  rules := [⟨some "needs-a", none, .var "A", []⟩, ⟨some "no-a", none, .not (.var "A"), []⟩]

/-- The only slice is analysed without the feature. -/
def conflictRequest : Request where
  ruleFileId := "rules"
  selections := []
  constraints := ["-A"]
  allDetails := true

theorem exists_conflict : ∃ model selectors slices set result,
    Model.compile conflictDocument = .ok model ∧
    conflictRequest.resolve model.space consistency.allows consistency.defaultDiscipline =
      .ok selectors ∧
    Slice.all selectors model.space.dimensions Limits.standard.maxSlices = .ok slices ∧
    SliceSet.group model slices = [set] ∧
    set.activation.Interprets conflictRequest.constraints ∧
    set.activation.rules.map (·.formula) = [.var "A", .not (.var "A")] ∧
    (Consistency.compute ⟨conflictRequest, set, .standard⟩).outcome = .ok result ∧
    result.consistent = false ∧ result.explanation? = some ["needs-a", "no-a"] := by
  refine ⟨_, _, _, _, _, rfl, rfl, rfl, SliceSet.group_singleton _ _, ?_, rfl, rfl, rfl, rfl⟩
  intro text member
  rw [List.mem_singleton.mp member]
  refine ⟨[⟨"A", false⟩], rfl, fun literal inConstraint => ?_⟩
  rw [List.mem_singleton.mp inConstraint]
  exact List.Mem.head _

end Sample

/-! ## Explanations -/

namespace Consistency

variable {task : SliceTask}

/-- The ways in which a set gets a result: it has no solution, by itself or together with
the constraints, or a solution is found. -/
theorem outcome_eq_ok {result : ConsistencyResult}
    (computed : (compute task).outcome = .ok result) :
    (task.solve task.theory.formulas = .ok none ∧ inconsistent task [] = .ok result) ∨
    (∃ assignment constraints, task.solve task.theory.formulas = .ok (some assignment) ∧
      task.constraints = .ok constraints ∧
      task.solve (task.theory.formulas ++ constraints) = .ok none ∧
      inconsistent task constraints = .ok result) ∨
    ∃ assignment constraints, task.constraints = .ok constraints ∧
      task.solve (task.theory.formulas ++ constraints) = .ok (some assignment) ∧
      result = .ofAssignment assignment := by
  unfold compute at computed
  simp only at computed
  split at computed
  · cases computed
  · rename_i unsolved
    exact .inl ⟨unsolved, computed⟩
  · rename_i assignment solved
    split at computed
    · cases computed
    · rename_i translated
      cases computed
      rw [← List.append_nil task.theory.formulas] at solved
      exact .inr (.inr ⟨assignment, [], translated, solved, rfl⟩)
    · rename_i constraints _ translated
      split at computed
      · cases computed
      · rename_i other together
        cases computed
        exact .inr (.inr ⟨other, constraints, translated, together, rfl⟩)
      · rename_i unsolved
        exact .inr (.inl ⟨assignment, constraints, solved, translated, unsolved, computed⟩)

/-- An explanation names a minimal conflict if the rules are in conflict at all. -/
theorem minimal_of_explain {formulas : List Formula} {labels : List String}
    (explained : explain task formulas = .ok labels)
    (conflicting : ¬task.set.activation.Solvable formulas task.rules) :
    ∃ core : List Rule, core.Sublist task.rules ∧ core.map (·.label) = labels ∧
      Conflict.Minimal (fun rules => ¬task.set.activation.Solvable formulas rules) core := by
  obtain ⟨core, shrunk, named⟩ := ok_of_bind explained
  refine ⟨core, Conflict.sublist_of_shrinkFrom shrunk, Except.ok.inj named, ?_⟩
  refine Conflict.minimal_of_shrink (fun rules verdict tested => ?_)
    (fun _ _ part => mt (Activation.Solvable.of_sublist part)) conflicting shrunk
  obtain ⟨solution, solved, rfl⟩ := ok_of_map tested
  rw [Activation.solvable_iff_solves, ← (SliceTask.solve_eq_ok solved).2]
  cases solution <;> simp

private theorem isSome_iff_compatible {constraints : List String} {solution : Option Assignment}
    (solved : task.solve (task.set.activation.formulas constraints) = .ok solution) :
    solution.isSome = true ↔ task.set.activation.Compatible constraints task.rules := by
  refine (SliceTask.solve_eq_ok solved).2.trans (Iff.trans ?_ Activation.compatible_rules_iff.symm)
  exact exists_congr fun _ => Activation.solves_formulas_iff

/-- A set without a solution is in conflict by its rules, or only together with the
constraints. -/
theorem inconsistent_of_compute {result : ConsistencyResult}
    (computed : (compute task).outcome = .ok result) (negative : result.consistent = false) :
    (¬task.set.activation.Compatible [] task.rules ∧ inconsistent task [] = .ok result) ∨
      (task.set.activation.Compatible [] task.rules ∧
        ¬task.set.activation.Compatible task.request.constraints task.rules ∧
        inconsistent task (task.request.constraints.map Constraint.formula) = .ok result) := by
  have alone : task.theory.formulas = task.set.activation.formulas [] :=
    (List.append_nil _).symm
  rcases outcome_eq_ok computed with ⟨unsolved, made⟩ | ⟨assignment, constraints, solved,
    translated, unsolved, made⟩ | ⟨_, _, _, _, rfl⟩
  · rw [alone] at unsolved
    exact .inl ⟨fun compatible => (nomatch (isSome_iff_compatible unsolved).mpr compatible), made⟩
  · obtain ⟨_, rfl⟩ := SliceTask.constraints_eq_ok_iff.mp translated
    rw [alone] at solved
    exact .inr ⟨(isSome_iff_compatible solved).mp rfl,
      fun compatible => (nomatch (isSome_iff_compatible unsolved).mpr compatible), made⟩
  · cases negative

private theorem minimal_of_inconsistent {constraints : List String} {result : ConsistencyResult}
    (detailed : task.request.allDetails = true)
    (made : inconsistent task (constraints.map Constraint.formula) = .ok result)
    (conflicting : ¬task.set.activation.Compatible constraints task.rules) :
    ∃ core : List Rule, core.Sublist task.rules ∧
      result.explanation? = some (core.map (·.label)) ∧
      Conflict.Minimal (fun rules => ¬task.set.activation.Compatible constraints rules) core := by
  unfold inconsistent at made
  rw [if_pos detailed] at made
  obtain ⟨labels, explained, rfl⟩ := ok_of_map made
  simp only [Activation.compatible_iff_solvable] at conflicting ⊢
  obtain ⟨core, part, rfl, minimal⟩ := minimal_of_explain explained conflicting
  exact ⟨core, part, rfl, minimal⟩

/-- With all details, a set that is found inconsistent has an explanation: active rules
that are in conflict with the constraints. If the conflict needs the constraints, it needs
each of these rules beside them; if not, it needs each of them by itself. -/
theorem explanation_of_compute {result : ConsistencyResult}
    (detailed : task.request.allDetails = true) (computed : (compute task).outcome = .ok result)
    (negative : result.consistent = false) :
    ∃ core : List Rule, core.Sublist task.rules ∧
      result.explanation? = some (core.map (·.label)) ∧
      ¬task.set.activation.Compatible task.request.constraints core ∧
      ∀ index < core.length,
        (task.set.activation.Compatible [] task.rules →
          task.set.activation.Compatible task.request.constraints (core.eraseIdx index)) ∧
        (¬task.set.activation.Compatible [] task.rules →
          task.set.activation.Compatible [] (core.eraseIdx index)) := by
  rcases inconsistent_of_compute computed negative with
    ⟨conflicting, made⟩ | ⟨compatible, conflicting, made⟩
  · obtain ⟨core, part, named, minimal⟩ :=
      @minimal_of_inconsistent task [] result detailed made conflicting
    refine ⟨core, part, named, mt Activation.Compatible.without_constraints minimal.conflicting, ?_⟩
    exact fun index inRange => ⟨fun compatible => absurd compatible conflicting,
      fun _ => not_not.mp (minimal.needed index inRange)⟩
  · obtain ⟨core, part, named, minimal⟩ := minimal_of_inconsistent detailed made conflicting
    refine ⟨core, part, named, minimal.conflicting, ?_⟩
    exact fun index inRange => ⟨fun _ => not_not.mp (minimal.needed index inRange),
      fun conflicting => absurd compatible conflicting⟩

theorem explanation_of_compute_sample : ∃ model slices set result core,
    Model.compile Sample.conflictDocument = .ok model ∧ set ∈ SliceSet.group model slices ∧
    (compute ⟨Sample.conflictRequest, set, .standard⟩).outcome = .ok result ∧
    result.consistent = false ∧ core.Sublist set.activation.rules ∧
    result.explanation? = some (core.map (·.label)) ∧
    ¬set.activation.Compatible Sample.conflictRequest.constraints core ∧
    ∀ index < core.length,
      (set.activation.Compatible [] set.activation.rules →
        set.activation.Compatible Sample.conflictRequest.constraints (core.eraseIdx index)) ∧
      (¬set.activation.Compatible [] set.activation.rules →
        set.activation.Compatible [] (core.eraseIdx index)) := by
  obtain ⟨model, _, slices, set, result, compiled, _, _, sets, _, _, computed, negative, _⟩ :=
    Sample.exists_conflict
  obtain ⟨core, part, explained, conflicting, needed⟩ :=
    explanation_of_compute rfl computed negative
  exact ⟨model, slices, set, result, core, compiled, sets ▸ List.Mem.head _, computed, negative,
    part, explained, conflicting, needed⟩

/-- An explanation can name rules that are not needed beside the constraints. -/
theorem explanation_not_minimal : ∃ model selectors slices set result,
    Model.compile Sample.conflictDocument = .ok model ∧
    Sample.conflictRequest.resolve model.space consistency.allows consistency.defaultDiscipline =
      .ok selectors ∧
    Slice.all selectors model.space.dimensions Limits.standard.maxSlices = .ok slices ∧
    set ∈ SliceSet.group model slices ∧
    set.activation.Interprets Sample.conflictRequest.constraints ∧
    (compute ⟨Sample.conflictRequest, set, .standard⟩).outcome = .ok result ∧
    result.consistent = false ∧
    ∀ core : List Rule, core.Sublist set.activation.rules →
      result.explanation? = some (core.map (·.label)) →
        ∃ index < core.length, ¬set.activation.Compatible Sample.conflictRequest.constraints
          (core.eraseIdx index) := by
  obtain ⟨model, selectors, slices, set, result, compiled, resolved, made, sets, interprets,
    formulas, computed, negative, explained⟩ := Sample.exists_conflict
  refine ⟨model, selectors, slices, set, result, compiled, resolved, made, sets ▸ List.Mem.head _,
    interprets, computed, negative, fun core part named => ?_⟩
  have labels : core.map (·.label) = ["needs-a", "no-a"] :=
    Option.some.inj (named.symm.trans explained)
  obtain rfl : core = set.activation.rules := by
    refine part.eq_of_length ?_
    simpa using (congrArg List.length labels).trans (congrArg List.length formulas).symm
  have remaining : (set.activation.rules.eraseIdx 1).map (·.formula) = [.var "A"] := by
    rw [← List.eraseIdx_map, formulas]
    rfl
  refine ⟨1, ?_, fun compatible => ?_⟩
  · rw [← List.length_map (·.label), labels]
    decide
  · -- The rule that stays is in conflict with the constraint by itself.
    obtain ⟨valuation, rules, _, asked⟩ := compatible
    have isTrue := Activation.solves_rules_iff.mpr rules (.var "A") (remaining ▸ List.Mem.head _)
    have isFalse := asked "-A" (List.Mem.head _) ⟨"A", false⟩ (List.Mem.head _)
    exact Bool.false_ne_true (isFalse.symm.trans isTrue)

end Consistency

end RuleSlicing
