import Mathlib.Data.List.Perm.Subperm
import RuleSlicing.Logic.TruthTable

/-!
# The solver is right

Within its limit the solver finds a solution exactly if there is one. The search
fixes one variable after another, so the invariant is that the formulas that
remain depend on the remaining variables only.
-/

set_option autoImplicit false

namespace RuleSlicing

/-! ## Variables -/

namespace Formula

theorem mem_varsOfAll_iff {formulas : List Formula} {name : String} :
    name ∈ varsOfAll formulas ↔ ∃ formula ∈ formulas, name ∈ formula.vars := by
  induction formulas with
  | nil => simp [varsOfAll, SortedSet.not_mem_empty]
  | cons formula rest ih => rw [varsOfAll, SortedSet.mem_union_iff, ih, List.exists_mem_cons_iff]

mutual

theorem eval_congr {left right : Valuation} (formula : Formula)
    (agree : ∀ name ∈ formula.vars, left name = right name) :
    formula.eval left = formula.eval right := by
  cases formula with
  | const value => rfl
  | var name => exact agree name (by simp [vars, SortedSet.mem_def, SortedSet.singleton])
  | not operand =>
      rw [eval, eval, eval_congr operand agree]
  | and parts => exact evalAll_congr parts agree
  | or parts => exact evalAny_congr parts agree
  | implies premise conclusion =>
      rw [eval, eval,
        eval_congr premise fun name member => agree name (by simp [vars, member]),
        eval_congr conclusion fun name member => agree name (by simp [vars, member])]
  | equiv first second =>
      rw [eval, eval,
        eval_congr first fun name member => agree name (by simp [vars, member]),
        eval_congr second fun name member => agree name (by simp [vars, member])]

theorem evalAll_congr {left right : Valuation} (parts : List Formula)
    (agree : ∀ name ∈ varsOfAll parts, left name = right name) :
    evalAll left parts = evalAll right parts := by
  cases parts with
  | nil => rfl
  | cons part rest =>
      rw [evalAll, evalAll,
        eval_congr part fun name member => agree name (by simp [varsOfAll, member]),
        evalAll_congr rest fun name member => agree name (by simp [varsOfAll, member])]

theorem evalAny_congr {left right : Valuation} (parts : List Formula)
    (agree : ∀ name ∈ varsOfAll parts, left name = right name) :
    evalAny left parts = evalAny right parts := by
  cases parts with
  | nil => rfl
  | cons part rest =>
      rw [evalAny, evalAny,
        eval_congr part fun name member => agree name (by simp [varsOfAll, member]),
        evalAny_congr rest fun name member => agree name (by simp [varsOfAll, member])]

end

end Formula

/-- A valuation under which all formulas of a list are true. -/
def Valuation.Solves (valuation : Valuation) (formulas : List Formula) : Prop :=
  ∀ formula ∈ formulas, formula.eval valuation = true

theorem Valuation.solves_append_iff {valuation : Valuation} {left right : List Formula} :
    valuation.Solves (left ++ right) ↔ valuation.Solves left ∧ valuation.Solves right :=
  List.forall_mem_append

theorem Valuation.solves_congr {formulas : List Formula} {left right : Valuation}
    (agree : ∀ name ∈ Formula.varsOfAll formulas, left name = right name) :
    left.Solves formulas ↔ right.Solves formulas := by
  refine forall₂_congr fun formula member => ?_
  rw [Formula.eval_congr formula fun name inVars =>
    agree name (Formula.mem_varsOfAll_iff.mpr ⟨formula, member, inVars⟩)]

/-! ## The search -/

namespace TruthTable

/-- Fixing a variable leaves the solutions that have its value. -/
theorem solves_update_iff (name : String) (value : Bool) (formulas : List Formula)
    (valuation : Valuation) :
    (valuation.update name value).Solves formulas ↔
      ∃ remaining, assignAll name value formulas = some remaining ∧
        valuation.Solves remaining := by
  induction formulas with
  | nil => simp [assignAll, Valuation.Solves]
  | cons formula rest ih =>
      have split : (valuation.update name value).Solves (formula :: rest) ↔
          (formula.assign name value).eval valuation = true ∧
            ∃ remaining, assignAll name value rest = some remaining ∧
              valuation.Solves remaining := by
        rw [Formula.eval_assign, ← ih]
        exact List.forall_mem_cons
      rw [split]
      conv_rhs => unfold assignAll
      split
      · rename_i folded
        simp [folded, Formula.eval]
      · rename_i folded
        simp [folded, Formula.eval]
      · constructor
        · intro given
          obtain ⟨holds, remaining, assigned, solves⟩ := given
          exact ⟨_ :: remaining, by rw [assigned]; rfl, List.forall_mem_cons.mpr ⟨holds, solves⟩⟩
        · intro given
          obtain ⟨_, assigned, solves⟩ := given
          obtain ⟨remaining, found, rfl⟩ := Option.map_eq_some_iff.mp assigned
          obtain ⟨holds, solvesRest⟩ := List.forall_mem_cons.mp solves
          exact ⟨holds, remaining, found, solvesRest⟩

/-- Whether a valuation solves formulas depends on some variables only. -/
def DependsOn (names : List String) (formulas : List Formula) : Prop :=
  ∀ left right : Valuation, (∀ name ∈ names, left name = right name) →
    left.Solves formulas → right.Solves formulas

theorem dependsOn_of_assignAll {name : String} {value : Bool} {names : List String}
    {formulas remaining : List Formula} (depends : DependsOn (name :: names) formulas)
    (assigned : assignAll name value formulas = some remaining) : DependsOn names remaining := by
  intro left right agree solves
  have leftSolves := (solves_update_iff name value formulas left).mpr ⟨remaining, assigned, solves⟩
  have rightSolves := depends _ (right.update name value) (fun other member => ?_) leftSolves
  · obtain ⟨other, found, solves⟩ := (solves_update_iff name value formulas right).mp rightSolves
    rw [assigned] at found
    exact Option.some.inj found ▸ solves
  · unfold Valuation.update
    split
    · rfl
    · rename_i different
      exact agree other ((List.mem_cons.mp member).resolve_left different)

theorem search_isSome_iff {names : List String} {formulas : List Formula}
    (depends : DependsOn names formulas) :
    (search names formulas).isSome = true ↔ ∃ valuation : Valuation, valuation.Solves formulas := by
  induction names generalizing formulas with
  | nil =>
      have decided : (search [] formulas).isSome = true ↔
          Valuation.Solves (fun _ => false) formulas := by
        unfold search Valuation.Solves
        rw [← List.all_eq_true]
        split <;> simp [*]
      rw [decided]
      constructor
      · exact fun solves => ⟨_, solves⟩
      · intro given
        obtain ⟨valuation, solves⟩ := given
        exact depends valuation _ (fun _ member => absurd member List.not_mem_nil) solves
  | cons name rest ih =>
      have branch : ∀ value, ((assignAll name value formulas).bind (search rest)).isSome = true ↔
          ∃ valuation : Valuation, (valuation.update name value).Solves formulas := by
        intro value
        simp only [solves_update_iff]
        cases assigned : assignAll name value formulas with
        | none => simp
        | some remaining =>
            have found := ih (dependsOn_of_assignAll depends assigned)
            simpa using found
      have either : (search (name :: rest) formulas).isSome = true ↔
          ((assignAll name false formulas).bind (search rest)).isSome = true ∨
            ((assignAll name true formulas).bind (search rest)).isSome = true := by
        rw [search]
        cases (assignAll name false formulas).bind (search rest) with
        | some values => simp
        | none => cases (assignAll name true formulas).bind (search rest) <;> simp
      rw [either, branch, branch]
      constructor
      · rintro (⟨valuation, solves⟩ | ⟨valuation, solves⟩)
        · exact ⟨_, solves⟩
        · exact ⟨_, solves⟩
      · intro given
        obtain ⟨valuation, solves⟩ := given
        have same : valuation.update name (valuation name) = valuation := by
          funext other
          unfold Valuation.update
          split
          · rename_i equal
            rw [equal]
          · rfl
        rw [← same] at solves
        cases value : valuation name with
        | false => exact .inl ⟨valuation, value ▸ solves⟩
        | true => exact .inr ⟨valuation, value ▸ solves⟩

theorem dependsOn_vars (formulas : List Formula) :
    DependsOn (Formula.varsOfAll formulas).toList.reverse formulas := by
  intro left right agree
  exact (Valuation.solves_congr fun name member => agree name (List.mem_reverse.mpr member)).mp

/-- Within the limit the solver decides whether there is a solution. -/
theorem solve_of_allows {limit : Limit} {formulas : List Formula}
    (allows : limit.allows (Formula.varsOfAll formulas).size = true) :
    ∃ solution, solve limit formulas = .ok solution ∧
      (solution.isSome = true ↔ ∃ valuation : Valuation, valuation.Solves formulas) := by
  refine ⟨_, if_pos allows, ?_⟩
  rw [Option.isSome_map]
  exact search_isSome_iff (dependsOn_vars formulas)

theorem allows_of_solve {limit : Limit} {formulas : List Formula}
    {solution : Option Assignment} (solved : solve limit formulas = .ok solution) :
    limit.allows (Formula.varsOfAll formulas).size = true := by
  unfold solve at solved
  simp only at solved
  split at solved
  · assumption
  · cases solved

end TruthTable

/-- A part of a set is no larger. -/
theorem SortedSet.size_le_of_subset {α : Type} [LinearOrdered α] {part whole : SortedSet α}
    (subset : ∀ value ∈ part, value ∈ whole) : part.size ≤ whole.size :=
  (List.subperm_of_subset part.nodup subset).length_le

/-- A limit that allows formulas allows some of them. -/
theorem TruthTable.Limit.allows_of_subset {limit : Limit} {fewer more : List Formula}
    (part : fewer ⊆ more) (allows : limit.allows (Formula.varsOfAll more).size = true) :
    limit.allows (Formula.varsOfAll fewer).size = true := by
  refine decide_eq_true (Nat.le_trans (SortedSet.size_le_of_subset fun name member => ?_)
    (of_decide_eq_true allows))
  obtain ⟨formula, listed, inVars⟩ := Formula.mem_varsOfAll_iff.mp member
  exact Formula.mem_varsOfAll_iff.mpr ⟨formula, part listed, inVars⟩

end RuleSlicing
