import RuleSlicing.Analysis.Computation
import RuleSlicing.Proofs.Outcomes
import RuleSlicing.Proofs.Solving

/-!
# What an analysis is about

The choices of features that the active rules and the constraints of a request
allow, stated without formulas of the solver, and what the formulas that a task
hands to the solver have to do with them.
-/

set_option autoImplicit false

namespace RuleSlicing

/-! ## Constraints -/

namespace Constraint

/-- The literals that a constraint asks for; none if it cannot be read. -/
def literals (text : String) : List Literal := (parse text).toOption.getD []

def formula (text : String) : Formula := toFormula (literals text)

theorem literals_of_parse {text : String} {found : List Literal} (parsed : parse text = .ok found) :
    literals text = found := by
  unfold literals
  rw [parsed]
  rfl

theorem eval_formula (valuation : Valuation) (text : String) :
    (formula text).eval valuation = true ↔
      ∀ literal ∈ literals text, valuation literal.name = literal.phase := by
  unfold formula toFormula
  rw [Formula.eval, Formula.evalAll_eq_all, List.all_eq_true, List.forall_mem_map]
  exact forall₂_congr fun literal _ => Literal.eval_toFormula valuation literal

theorem mem_vars_toFormula {literal : Literal} {name : String} :
    name ∈ literal.toFormula.vars ↔ literal.name = name := by
  unfold Literal.toFormula
  split
  · simp [Formula.vars, SortedSet.singleton, SortedSet.mem_def, eq_comm]
  · simp [Formula.vars, SortedSet.singleton, SortedSet.mem_def, eq_comm]

theorem mem_vars_formula {text name : String} :
    name ∈ (formula text).vars ↔ name ∈ (literals text).map (·.name) := by
  unfold formula toFormula
  rw [Formula.vars, Formula.mem_varsOfAll_iff, List.mem_map]
  constructor
  · intro given
    obtain ⟨_, member, inVars⟩ := given
    obtain ⟨literal, inLiterals, rfl⟩ := List.mem_map.mp member
    exact ⟨literal, inLiterals, mem_vars_toFormula.mp inVars⟩
  · intro given
    obtain ⟨literal, inLiterals, same⟩ := given
    exact ⟨_, List.mem_map_of_mem inLiterals, mem_vars_toFormula.mpr same⟩

end Constraint

theorem Activation.mem_codes_iff {activation : Activation} {name : String} :
    name ∈ activation.codes ↔ ∃ feature ∈ activation.features, feature.code = name := by
  unfold codes
  rw [SortedSet.mem_ofList_iff, List.mem_map]

/-! ## Allowed choices -/

namespace Activation

/-- Every constraint can be read and names active features only. -/
def Interprets (activation : Activation) (constraints : List String) : Prop :=
  ∀ text ∈ constraints, ∃ literals, Constraint.parse text = .ok literals ∧
    ∀ literal ∈ literals, literal.name ∈ activation.codes

/-- A choice that satisfies the active rules and the constraints and has no feature
that is not active. -/
structure Satisfies (activation : Activation) (constraints : List String)
    (valuation : Valuation) : Prop where
  rules : ∀ rule ∈ activation.rules, rule.formula.eval valuation = true
  absent : ∀ name ∈ activation.ruleVariables, name ∉ activation.codes → valuation name = false
  constraints : ∀ text ∈ constraints, ∀ literal ∈ Constraint.literals text,
    valuation literal.name = literal.phase

/-- The variables of the active rules and of the constraints. -/
def unknowns (activation : Activation) (constraints : List String) : SortedSet String :=
  activation.ruleVariables.union <|
    .ofList <| constraints.flatMap fun text => (Constraint.literals text).map (·.name)

def formulas (activation : Activation) (constraints : List String) : List Formula :=
  activation.theory.formulas ++ constraints.map Constraint.formula

variable {activation : Activation} {constraints : List String} {valuation : Valuation}

theorem solves_rules_iff {rules : List Rule} :
    valuation.Solves (rules.map (·.formula)) ↔
      ∀ rule ∈ rules, rule.formula.eval valuation = true := List.forall_mem_map

theorem solves_exclusions_iff :
    valuation.Solves activation.exclusions ↔
      ∀ name ∈ activation.ruleVariables, name ∉ activation.codes → valuation name = false := by
  unfold Valuation.Solves exclusions
  rw [List.forall_mem_map]
  refine forall_congr' fun name => ?_
  rw [← SortedSet.mem_def, SortedSet.mem_filter_iff, and_imp]
  simp [Formula.eval, ← SortedSet.contains_iff]

theorem solves_constraints_iff :
    valuation.Solves (constraints.map Constraint.formula) ↔
      ∀ text ∈ constraints, ∀ literal ∈ Constraint.literals text,
        valuation literal.name = literal.phase :=
  List.forall_mem_map.trans <| forall₂_congr fun text _ => Constraint.eval_formula valuation text

/-- The formulas are solved by the choices that are allowed. -/
theorem solves_formulas_iff :
    valuation.Solves (activation.formulas constraints) ↔
      activation.Satisfies constraints valuation := by
  unfold formulas theory
  rw [Valuation.solves_append_iff, Valuation.solves_append_iff, solves_rules_iff,
    solves_exclusions_iff, solves_constraints_iff]
  constructor
  · intro given
    obtain ⟨⟨rules, absent⟩, constraints⟩ := given
    exact ⟨rules, absent, constraints⟩
  · intro satisfies
    exact ⟨⟨satisfies.rules, satisfies.absent⟩, satisfies.constraints⟩

/-- Excluding features that are not active brings in no variables. -/
private theorem mem_vars_exclusion {formula : Formula} (member : formula ∈ activation.exclusions)
    {name : String} (inVars : name ∈ formula.vars) : name ∈ activation.ruleVariables := by
  obtain ⟨other, excluded, rfl⟩ := List.mem_map.mp member
  have same : name = other := by
    simpa [Formula.vars, SortedSet.singleton, SortedSet.mem_def] using inVars
  exact same ▸ ((SortedSet.mem_filter_iff _ _ _).mp excluded).1

theorem varsOfAll_formulas :
    Formula.varsOfAll (activation.formulas constraints) = activation.unknowns constraints := by
  ext name
  unfold formulas theory unknowns
  rw [Formula.mem_varsOfAll_iff, SortedSet.mem_union_iff, SortedSet.mem_ofList_iff,
    List.mem_flatMap]
  simp only [← Constraint.mem_vars_formula]
  constructor
  · intro given
    obtain ⟨formula, member, inVars⟩ := given
    rcases List.mem_append.mp member with inTheory | asked
    · rcases List.mem_append.mp inTheory with rule | excluded
      · exact .inl (Formula.mem_varsOfAll_iff.mpr ⟨formula, rule, inVars⟩)
      · exact .inl (mem_vars_exclusion excluded inVars)
    · obtain ⟨text, inConstraints, rfl⟩ := List.mem_map.mp asked
      exact .inr ⟨text, inConstraints, inVars⟩
  · rintro (inRules | ⟨text, inConstraints, inVars⟩)
    · obtain ⟨formula, rule, inVars⟩ := Formula.mem_varsOfAll_iff.mp inRules
      exact ⟨formula, List.mem_append_left _ (List.mem_append_left _ rule), inVars⟩
    · exact ⟨_, List.mem_append_right _ (List.mem_map_of_mem inConstraints), inVars⟩

/-! ### Fewer constraints -/

section Fewer

variable {fewer : List String} (part : fewer ⊆ constraints)

include part

theorem Satisfies.of_subset (satisfies : activation.Satisfies constraints valuation) :
    activation.Satisfies fewer valuation :=
  ⟨satisfies.rules, satisfies.absent, fun text member => satisfies.constraints text (part member)⟩

theorem size_unknowns_le_of_subset :
    (activation.unknowns fewer).size ≤ (activation.unknowns constraints).size := by
  refine SortedSet.size_le_of_subset fun name member => ?_
  unfold unknowns at member ⊢
  rw [SortedSet.mem_union_iff] at member ⊢
  rcases member with inRules | asked
  · exact .inl inRules
  · refine .inr ((SortedSet.mem_ofList_iff _ _).mpr ?_)
    obtain ⟨text, inFewer, named⟩ := List.mem_flatMap.mp ((SortedSet.mem_ofList_iff _ _).mp asked)
    exact List.mem_flatMap.mpr ⟨text, part inFewer, named⟩

end Fewer

end Activation

/-! ## Tasks -/

/-- A constraint has a formula if it can be read and names active features only. -/
theorem Theory.interpret_eq_ok_iff {theory : Theory} {text : String} {formula : Formula} :
    theory.interpret text = .ok formula ↔
      (∃ literals, Constraint.parse text = .ok literals ∧
        ∀ literal ∈ literals, literal.name ∈ theory.codes) ∧
      Constraint.formula text = formula := by
  constructor
  · intro interpreted
    obtain ⟨literals, parsed, named⟩ := ok_of_bind (ok_of_mapError interpreted)
    have parsed := ok_of_mapError parsed
    unfold Constraint.formula
    rw [Constraint.literals_of_parse parsed]
    split at named
    · cases named
    · rename_i known
      refine ⟨⟨literals, parsed, fun literal member => ?_⟩, Except.ok.inj named⟩
      simpa using List.find?_eq_none.mp known literal member
  · intro given
    obtain ⟨⟨literals, parsed, active⟩, rfl⟩ := given
    have known : literals.find? (fun literal => !theory.codes.contains literal.name) = none :=
      List.find?_eq_none.mpr fun literal member => by simpa using active literal member
    unfold interpret constraint Constraint.formula
    rw [Constraint.literals_of_parse parsed, parsed]
    simp only [Except.mapError, bind, Except.bind, known]

namespace SliceTask

variable {task : SliceTask}

theorem constraints_eq_ok_iff {formulas : List Formula} :
    task.constraints = .ok formulas ↔
      task.set.activation.Interprets task.request.constraints ∧
        task.request.constraints.map Constraint.formula = formulas := by
  have whole := mapM_eq_ok_iff task.theory.interpret task.request.constraints formulas
  simp only [Theory.interpret_eq_ok_iff, List.forall₂_and_left] at whole
  rw [← List.forall₂_map_left_iff (f := Constraint.formula), List.forall₂_eq_eq_eq] at whole
  exact whole

theorem solve_eq_ok {formulas : List Formula} {solution : Option Assignment}
    (solved : task.solve formulas = .ok solution) :
    task.limits.solver.allows (Formula.varsOfAll formulas).size = true ∧
      (solution.isSome = true ↔ ∃ valuation : Valuation, valuation.Solves formulas) := by
  have solved := ok_of_mapError solved
  have allows := TruthTable.allows_of_solve solved
  obtain ⟨other, same, decides⟩ := TruthTable.solve_of_allows allows
  rw [solved] at same
  exact ⟨allows, Except.ok.inj same ▸ decides⟩

theorem solveUnder_eq_ok {formulas : List Formula} {literal : Literal}
    {solution : Option Assignment} (solved : task.solveUnder formulas literal = .ok solution) :
    solution.isSome = true ↔ ∃ valuation : Valuation, valuation.Solves formulas ∧
      valuation literal.name = literal.phase := by
  have decided := (@solve_eq_ok task (literal.toFormula :: formulas) _ solved).2
  refine decided.trans (exists_congr fun valuation => ?_)
  rw [and_comm, ← Literal.eval_toFormula]
  exact List.forall_mem_cons

theorem exists_solution {formulas : List Formula}
    (allows : task.limits.solver.allows (Formula.varsOfAll formulas).size = true) :
    ∃ solution, task.solve formulas = .ok solution := by
  obtain ⟨solution, solved, _⟩ := TruthTable.solve_of_allows allows
  unfold solve
  rw [solved]
  exact ⟨solution, rfl⟩

theorem not_allows_of_solve {formulas : List Formula} {error : AnalysisError}
    (failed : task.solve formulas = .error error) :
    ¬task.limits.solver.allows (Formula.varsOfAll formulas).size = true := by
  intro allows
  obtain ⟨solution, solved⟩ := exists_solution allows
  rw [solved] at failed
  cases failed

end SliceTask

end RuleSlicing
