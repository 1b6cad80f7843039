import RuleSlicing.Proofs.Meaning
import RuleSlicing.Proofs.Solutions

/-!
# The least solution

The truth values of ordered variables are the binary digits of a number, the first
variable the lowest. The search fixes the highest digit first and tries false before
true, so what it finds has the least number among all solutions. Together with the
limit this determines every outcome of the solver.
-/

set_option autoImplicit false

namespace RuleSlicing

/-! ## Numbers of valuations -/

namespace Valuation

/-- The values of the listed variables as binary digits, the first one lowest. -/
def number (valuation : Valuation) : List String → Nat
  | [] => 0
  | name :: rest => (valuation name).toNat + 2 * number valuation rest

theorem testBit_number (valuation : Valuation) (names : List String) (index : Nat) :
    (valuation.number names).testBit index = (names[index]?.map valuation).getD false := by
  induction names generalizing index with
  | nil => simp [number]
  | cons name rest ih =>
      cases index with
      | zero => cases value : valuation name <;> simp [number, value, Nat.testBit_zero]
      | succ next =>
          have half : ((valuation name).toNat + 2 * valuation.number rest) / 2 =
              valuation.number rest := by
            have digit := (valuation name).toNat_lt
            omega
          rw [number, Nat.testBit_succ, half, ih, List.getElem?_cons_succ]

theorem number_lt (valuation : Valuation) (names : List String) :
    valuation.number names < Nat.pow 2 names.length := by
  refine Nat.lt_pow_two_of_testBit _ fun index beyond => ?_
  rw [testBit_number, List.getElem?_eq_none beyond]
  rfl

theorem number_congr {left right : Valuation} {names : List String}
    (agree : ∀ name ∈ names, left name = right name) : left.number names = right.number names := by
  refine Nat.eq_of_testBit_eq fun index => ?_
  rw [testBit_number, testBit_number]
  cases placed : names[index]? with
  | none => rfl
  | some name => exact agree name (List.mem_of_getElem? placed)

theorem eq_of_number_eq {left right : Valuation} {names : List String}
    (same : left.number names = right.number names) : ∀ name ∈ names, left name = right name := by
  intro name member
  obtain ⟨index, inside, rfl⟩ := List.mem_iff_getElem.mp member
  have digits := congrArg (Nat.testBit · index) same
  simp only [testBit_number] at digits
  rw [List.getElem?_eq_getElem inside] at digits
  exact digits

/-- Continue a number with the values of more variables as lower digits. -/
def numberFrom (valuation : Valuation) (start : Nat) : List String → Nat
  | [] => start
  | name :: rest => numberFrom valuation ((valuation name).toNat + 2 * start) rest

theorem number_reverse (valuation : Valuation) (names higher : List String) :
    valuation.number (names.reverse ++ higher) =
      valuation.numberFrom (valuation.number higher) names := by
  induction names generalizing higher with
  | nil => rfl
  | cons name rest ih =>
      rw [List.reverse_cons, List.append_assoc]
      exact ih (name :: higher)

theorem numberFrom_congr {left right : Valuation} {names : List String} (start : Nat)
    (agree : ∀ name ∈ names, left name = right name) :
    left.numberFrom start names = right.numberFrom start names := by
  induction names generalizing start with
  | nil => rfl
  | cons name rest ih =>
      obtain ⟨here, others⟩ := List.forall_mem_cons.mp agree
      unfold numberFrom
      rw [here]
      exact ih _ others

/-- A lower start is not made up for by lower digits. -/
theorem numberFrom_lt (left right : Valuation) (names : List String) {start later : Nat}
    (before : start < later) : left.numberFrom start names < right.numberFrom later names := by
  induction names generalizing start later with
  | nil => exact before
  | cons name rest ih =>
      have digit := (left name).toNat_lt
      exact ih (by omega)

end Valuation

/-! ## What the search finds is least -/

namespace TruthTable

theorem numberFrom_le_of_search {names : List String} (distinct : names.Nodup)
    {formulas : List Formula} (depends : DependsOn names formulas)
    {values : List (String × Bool)} (found : search names formulas = some values)
    {other : Valuation} (solves : other.Solves formulas) (start : Nat) :
    (Valuation.ofValues values).numberFrom start names ≤ other.numberFrom start names := by
  -- As long as both agree the numbers so far are equal, and where they differ first the other
  -- valuation is ahead for good. The start stands for what has been compared.
  induction names generalizing formulas values start with
  | nil => exact Nat.le_refl start
  | cons name rest ih =>
      obtain ⟨fresh, restDistinct⟩ := List.nodup_cons.mp distinct
      obtain ⟨value, remaining, others, assigned, restFound, rfl, lowest⟩ :=
        exists_of_search_cons found
      have here : Valuation.ofValues ((name, value) :: others) name = value := if_pos rfl
      have elsewhere : ∀ later ∈ rest, Valuation.ofValues ((name, value) :: others) later =
          Valuation.ofValues others later := fun later member =>
        if_neg (by rintro rfl; exact fresh member)
      -- Whatever the other valuation says of the variable, it solves what remains then.
      have same : other.update name (other name) = other := by
        funext later
        unfold Valuation.update
        split
        · rename_i equal
          rw [equal]
        · rfl
      rw [← same] at solves
      obtain ⟨left, leftAssigned, leftSolves⟩ := (solves_update_iff _ _ _ _).mp solves
      have leftDepends := dependsOn_of_assignAll depends leftAssigned
      unfold Valuation.numberFrom
      rw [here, Valuation.numberFrom_congr _ elsewhere]
      cases otherValue : other name with
      | false =>
          rw [otherValue] at leftAssigned
          cases value with
          | false =>
              obtain rfl := Option.some.inj (assigned.symm.trans leftAssigned)
              exact ih restDistinct leftDepends restFound leftSolves _
          | true =>
              -- The search says true only after it has failed with false.
              have missed := lowest rfl
              rw [leftAssigned, Option.bind_some] at missed
              have solvable := (search_isSome_iff leftDepends).mpr ⟨other, leftSolves⟩
              rw [missed] at solvable
              cases solvable
      | true =>
          rw [otherValue] at leftAssigned
          cases value with
          | false => exact Nat.le_of_lt (Valuation.numberFrom_lt _ _ _ (by simp))
          | true =>
              obtain rfl := Option.some.inj (assigned.symm.trans leftAssigned)
              exact ih restDistinct leftDepends restFound leftSolves _

theorem number_le_of_solve {limit : Limit} {formulas : List Formula} {assignment : Assignment}
    (solved : solve limit formulas = .ok (some assignment)) {other : Valuation}
    (solves : other.Solves formulas) :
    assignment.valuation.number (Formula.varsOfAll formulas).toList ≤
      other.number (Formula.varsOfAll formulas).toList := by
  obtain ⟨values, found, distinct, rfl⟩ := exists_values solved
  have unique := List.nodup_reverse.mpr (Formula.varsOfAll formulas).nodup
  have least := numberFrom_le_of_search unique (dependsOn_vars formulas) found solves 0
  rw [Assignment.valuation_ofList distinct]
  have turned := fun valuation : Valuation =>
    valuation.number_reverse (Formula.varsOfAll formulas).toList.reverse []
  simp only [List.reverse_reverse, List.append_nil] at turned
  rwa [turned, turned]

end TruthTable

/-! ## Assignments of exactly some variables -/

namespace Assignment

theorem get?_of_mem {assignment : Assignment} {name : String}
    (member : name ∈ assignment.values.keys) :
    assignment.values.get? name = some (assignment.valuation name) := by
  obtain ⟨value, stored⟩ := (SortedMap.mem_keys_iff _ _).mp member
  show _ = some ((assignment.values.get? name).getD false)
  rw [stored]
  rfl

theorem eq_of_number_eq {left right : Assignment}
    (keys : left.values.keys = right.values.keys)
    (same : left.valuation.number left.values.keys.toList =
      right.valuation.number left.values.keys.toList) : left = right := by
  have agree := Valuation.eq_of_number_eq same
  refine congrArg Assignment.mk (SortedMap.ext fun name => Option.ext fun value => ?_)
  have listed : ∀ assignment : Assignment, assignment.values.get? name = some value ↔
      name ∈ assignment.values.keys ∧ assignment.valuation name = value := by
    intro assignment
    constructor
    · intro stored
      have member := (SortedMap.mem_keys_iff _ _).mpr ⟨value, stored⟩
      exact ⟨member, Option.some.inj ((get?_of_mem member).symm.trans stored)⟩
    · rintro ⟨member, rfl⟩
      exact get?_of_mem member
  rw [listed, listed, keys]
  exact and_congr_right fun member => by rw [agree name (keys ▸ member)]

/-- The assignment that gives some variables the values of a valuation. -/
def ofValuation (vars : SortedSet String) (valuation : Valuation) : Assignment :=
  ⟨.tabulate vars valuation⟩

theorem valuation_ofValuation {vars : SortedSet String} {name : String} (member : name ∈ vars)
    (valuation : Valuation) : (ofValuation vars valuation).valuation name = valuation name := by
  have stored : (ofValuation vars valuation).get? name = some (valuation name) :=
    (SortedMap.get?_tabulate vars valuation name _).mpr ⟨member, rfl⟩
  show ((ofValuation vars valuation).get? name).getD false = valuation name
  rw [stored]
  rfl

theorem keys_ofValuation (vars : SortedSet String) (valuation : Valuation) :
    (ofValuation vars valuation).values.keys = vars := by
  ext name
  rw [SortedMap.mem_keys_iff]
  simp only [ofValuation, SortedMap.get?_tabulate, exists_and_left, exists_eq', and_true]

/-- All formulas are true and all assumptions hold. A variable without a value is false. -/
structure Satisfies (assignment : Assignment) (formulas : List Formula)
    (assumptions : List Literal) : Prop where
  formulas : ∀ formula ∈ formulas, formula.eval assignment.valuation = true
  assumptions : ∀ literal ∈ assumptions, assignment.valuation literal.name = literal.phase

/-- An assignment of exactly the given variables that satisfies formulas and assumptions,
with the least number of all assignments that do. -/
structure IsLeast (assignment : Assignment) (vars : SortedSet String) (formulas : List Formula)
    (assumptions : List Literal) : Prop where
  keys : assignment.values.keys = vars
  satisfies : assignment.Satisfies formulas assumptions
  least : ∀ other : Assignment, other.Satisfies formulas assumptions →
    assignment.valuation.number vars.toList ≤ other.valuation.number vars.toList

theorem IsLeast.eq {left right : Assignment} {vars : SortedSet String} {formulas : List Formula}
    {assumptions : List Literal} (leftLeast : left.IsLeast vars formulas assumptions)
    (rightLeast : right.IsLeast vars formulas assumptions) : left = right := by
  -- Each is among those that the other is least of.
  apply eq_of_number_eq (leftLeast.keys.trans rightLeast.keys.symm)
  rw [leftLeast.keys]
  exact Nat.le_antisymm (leftLeast.least right rightLeast.satisfies)
    (rightLeast.least left leftLeast.satisfies)

end Assignment

/-! ## Solving under assumptions -/

namespace TruthTable

/-- The variables of formulas and assumptions. -/
def unknowns (formulas : List Formula) (assumptions : List Literal) : SortedSet String :=
  (Formula.varsOfAll formulas).union (.ofList (assumptions.map (·.name)))

section Assumptions

variable {formulas : List Formula} {assumptions : List Literal}

theorem varsOfAll_assumed :
    Formula.varsOfAll (assumptions.map Literal.toFormula ++ formulas) =
      unknowns formulas assumptions := by
  ext name
  unfold unknowns
  rw [Formula.mem_varsOfAll_iff, SortedSet.mem_union_iff, SortedSet.mem_ofList_iff,
    Formula.mem_varsOfAll_iff, List.mem_map]
  constructor
  · intro given
    obtain ⟨formula, member, inVars⟩ := given
    rcases List.mem_append.mp member with assumed | added
    · obtain ⟨literal, inAssumptions, rfl⟩ := List.mem_map.mp assumed
      exact .inr ⟨literal, inAssumptions, Constraint.mem_vars_toFormula.mp inVars⟩
    · exact .inl ⟨formula, added, inVars⟩
  · rintro (⟨formula, added, inVars⟩ | ⟨literal, inAssumptions, named⟩)
    · exact ⟨formula, List.mem_append_right _ added, inVars⟩
    · exact ⟨_, List.mem_append_left _ (List.mem_map_of_mem inAssumptions),
        Constraint.mem_vars_toFormula.mpr named⟩

theorem satisfies_iff_solves {assignment : Assignment} :
    assignment.Satisfies formulas assumptions ↔
      assignment.valuation.Solves (assumptions.map Literal.toFormula ++ formulas) := by
  have assumed : assignment.valuation.Solves (assumptions.map Literal.toFormula) ↔
      ∀ literal ∈ assumptions, assignment.valuation literal.name = literal.phase :=
    List.forall_mem_map.trans <| forall₂_congr fun _ _ => Literal.eval_toFormula _ _
  rw [Valuation.solves_append_iff, assumed]
  exact ⟨fun satisfies => ⟨satisfies.assumptions, satisfies.formulas⟩,
    fun given => ⟨given.2, given.1⟩⟩

theorem exists_satisfies_iff :
    (∃ assignment : Assignment, assignment.Satisfies formulas assumptions) ↔
      ∃ valuation : Valuation,
        valuation.Solves (assumptions.map Literal.toFormula ++ formulas) := by
  constructor
  · intro given
    obtain ⟨assignment, satisfies⟩ := given
    exact ⟨_, satisfies_iff_solves.mp satisfies⟩
  · intro given
    obtain ⟨valuation, solves⟩ := given
    refine ⟨.ofValuation (unknowns formulas assumptions) valuation, satisfies_iff_solves.mpr ?_⟩
    refine (Valuation.solves_congr fun name member => ?_).mpr solves
    rw [varsOfAll_assumed] at member
    exact Assignment.valuation_ofValuation member valuation

variable {limit : Limit}

theorem isLeast_of_solveUnder {found : Assignment}
    (solved : solveUnder limit formulas assumptions = .ok (some found)) :
    found.IsLeast (unknowns formulas assumptions) formulas assumptions := by
  constructor
  · rw [← varsOfAll_assumed]
    exact keys_of_solve solved
  · exact satisfies_iff_solves.mpr (solves_of_solve solved)
  · intro other satisfies
    rw [← varsOfAll_assumed]
    exact number_le_of_solve solved (satisfies_iff_solves.mp satisfies)

theorem solveUnder_of_small
    (small : (unknowns formulas assumptions).size ≤ Nat.min limit.maxVariables wordVariables) :
    ∃ solution, solveUnder limit formulas assumptions = .ok solution ∧
      (solution.isSome = true ↔
        ∃ assignment : Assignment, assignment.Satisfies formulas assumptions) := by
  rw [← varsOfAll_assumed] at small
  rw [exists_satisfies_iff]
  exact solve_of_allows (decide_eq_true small)

theorem solveUnder_of_large
    (large : Nat.min limit.maxVariables wordVariables < (unknowns formulas assumptions).size) :
    solveUnder limit formulas assumptions =
      .error ⟨(unknowns formulas assumptions).size, limit⟩ := by
  rw [← varsOfAll_assumed] at large ⊢
  refine if_neg fun allows => ?_
  exact Nat.not_le_of_lt large (of_decide_eq_true allows)

end Assumptions

/-- The solver fails exactly beyond its limit, with the number of variables. Within it,
nothing is found exactly if no assignment satisfies formulas and assumptions, and what is
found is the least assignment of exactly their variables that does. -/
theorem solveUnder_eq_iff (limit : Limit) (formulas : List Formula) (assumptions : List Literal) :
    (∀ excess, solveUnder limit formulas assumptions = .error excess ↔
      Nat.min limit.maxVariables wordVariables < (unknowns formulas assumptions).size ∧
        excess = ⟨(unknowns formulas assumptions).size, limit⟩) ∧
    (solveUnder limit formulas assumptions = .ok none ↔
      (unknowns formulas assumptions).size ≤ Nat.min limit.maxVariables wordVariables ∧
        ∀ assignment : Assignment, ¬assignment.Satisfies formulas assumptions) ∧
    ∀ found, solveUnder limit formulas assumptions = .ok (some found) ↔
      (unknowns formulas assumptions).size ≤ Nat.min limit.maxVariables wordVariables ∧
        found.IsLeast (unknowns formulas assumptions) formulas assumptions := by
  rcases Nat.lt_or_ge (Nat.min limit.maxVariables wordVariables)
    (unknowns formulas assumptions).size with large | small
  · have failed := solveUnder_of_large large
    have notSmall := Nat.not_le_of_lt large
    refine ⟨fun excess => ?_, ?_, fun found => ?_⟩
    · rw [failed, and_iff_right large, Except.error.injEq]
      exact eq_comm
    · rw [failed]
      exact iff_of_false nofun fun given => notSmall given.1
    · rw [failed]
      exact iff_of_false nofun fun given => notSmall given.1
  · obtain ⟨solution, solved, decides⟩ := solveUnder_of_small small
    refine ⟨fun excess => ?_, ?_, fun found => ?_⟩
    · rw [solved]
      exact iff_of_false nofun fun given => Nat.not_le_of_lt given.1 small
    · rw [solved, and_iff_right small, Except.ok.injEq, ← not_exists, ← decides]
      exact Option.not_isSome_iff_eq_none.symm
    · rw [solved, and_iff_right small, Except.ok.injEq]
      constructor
      · rintro rfl
        exact isLeast_of_solveUnder solved
      · intro least
        obtain ⟨other, rfl⟩ :=
          Option.isSome_iff_exists.mp (decides.mpr ⟨found, least.satisfies⟩)
        exact congrArg some ((isLeast_of_solveUnder solved).eq least)

/-- Of two variables one of which has to be true, the one with the lower digit is. -/
example : solveUnder ⟨8⟩ [.or [.var "A", .var "B"]] [] =
    .ok (some ⟨.ofList [("A", true), ("B", false)]⟩) := by
  rfl

end TruthTable

end RuleSlicing
