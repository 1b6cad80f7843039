import RuleSlicing.Proofs.LeastSolution

/-!
# Solving row by row

The truth table can be gone through row by row. Formulas are compiled to nodes that name a variable
by its position, and a row is the list of the binary digits of its number. The first row that
agrees with the assumptions and makes all nodes true gives its values to the variables. What is
found that way is what the search finds.
-/

set_option autoImplicit false

namespace RuleSlicing.TruthTable

/-! ## Nodes -/

/-- A formula that names variables by their positions in a row. -/
inductive Node where
  | const (value : Bool)
  | var (position : Nat)
  | not (operand : Node)
  | and (parts : List Node)
  | or (parts : List Node)
  | implies (premise conclusion : Node)
  | equiv (left right : Node)

/-- The positions of variables in their order. -/
def positions (vars : SortedSet String) : SortedMap String Nat := .ofList vars.toList.zipIdx

namespace Node

mutual

/-- Replace variables by their positions. A variable without a position is false. -/
def compile (positions : SortedMap String Nat) : Formula → Node
  | .const value => .const value
  | .var name =>
      match positions.get? name with
      | some position => .var position
      | none => .const false
  | .not operand => .not (compile positions operand)
  | .and parts => .and (compileAll positions parts)
  | .or parts => .or (compileAll positions parts)
  | .implies premise conclusion =>
      .implies (compile positions premise) (compile positions conclusion)
  | .equiv left right => .equiv (compile positions left) (compile positions right)

def compileAll (positions : SortedMap String Nat) : List Formula → List Node
  | [] => []
  | part :: rest => compile positions part :: compileAll positions rest

end

mutual

def eval (row : List Bool) : Node → Bool
  | .const value => value
  | .var position => row[position]?.getD false
  | .not operand => !eval row operand
  | .and parts => evalAll row parts
  | .or parts => evalAny row parts
  | .implies premise conclusion => !eval row premise || eval row conclusion
  | .equiv left right => eval row left == eval row right

def evalAll (row : List Bool) : List Node → Bool
  | [] => true
  | part :: rest => eval row part && evalAll row rest

def evalAny (row : List Bool) : List Node → Bool
  | [] => false
  | part :: rest => eval row part || evalAny row rest

end

end Node

/-! ## Rows -/

/-- The digits of a number, the first one lowest. -/
def row (size bits : Nat) : List Bool := (List.range size).map bits.testBit

/-- The positions of assumed variables, with the values that are assumed. -/
def fixed (positions : SortedMap String Nat) (assumptions : List Literal) : List (Nat × Bool) :=
  assumptions.filterMap fun literal =>
    (positions.get? literal.name).map fun position => (position, literal.phase)

/-- A row has all assumed values and makes all formulas true. -/
def accepts (formulas : List Formula) (assumptions : List Literal) (bits : Nat) : Bool :=
  let vars := unknowns formulas assumptions
  let nodes := formulas.map (Node.compile (positions vars))
  let values := row vars.size bits
  !(fixed (positions vars) assumptions).any (fun (position, phase) =>
    values[position]?.getD false != phase) && nodes.all (·.eval values)

/-- The variables with the values of a row. -/
def rowAssignment (vars : SortedSet String) (bits : Nat) : Assignment :=
  ⟨.ofList (vars.toList.zip (row vars.size bits))⟩

/-- The assignment of the first row that is accepted. -/
def enumerate (limit : Limit) (formulas : List Formula) (assumptions : List Literal) :
    Except Excess (Option Assignment) :=
  let vars := unknowns formulas assumptions
  if limit.allows vars.size then
    let first? := (List.range (Nat.pow 2 vars.size)).find? (accepts formulas assumptions)
    .ok (first?.map (rowAssignment vars))
  else .error ⟨vars.size, limit⟩

/-! ## Values of variables -/

theorem get?_positions_eq_some_iff {vars : SortedSet String} {name : String} {position : Nat} :
    (positions vars).get? name = some position ↔ vars.toList[position]? = some name := by
  unfold positions
  rw [SortedMap.get?_ofList (by simpa using vars.nodup), List.mem_zipIdx_iff_getElem?]

/-- What the nodes take the value of a variable to be. -/
def valueIn (positions : SortedMap String Nat) (row : List Bool) : Valuation := fun name =>
  ((positions.get? name).bind (row[·]?)).getD false

/-- The values of variables in the row with a number. -/
abbrev rowValuation (vars : SortedSet String) (bits : Nat) : Valuation :=
  valueIn (positions vars) (row vars.size bits)

mutual

theorem eval_compile (positions : SortedMap String Nat) (row : List Bool) (formula : Formula) :
    (Node.compile positions formula).eval row = formula.eval (valueIn positions row) := by
  cases formula with
  | const value => rfl
  | var name =>
      rw [Node.compile, Formula.eval, valueIn]
      cases positions.get? name <;> rfl
  | not operand => rw [Node.compile, Node.eval, Formula.eval, eval_compile]
  | and parts => exact evalAll_compileAll positions row parts
  | or parts => exact evalAny_compileAll positions row parts
  | implies premise conclusion =>
      rw [Node.compile, Node.eval, Formula.eval, eval_compile, eval_compile]
  | equiv left right => rw [Node.compile, Node.eval, Formula.eval, eval_compile, eval_compile]

theorem evalAll_compileAll (positions : SortedMap String Nat) (row : List Bool)
    (parts : List Formula) : Node.evalAll row (Node.compileAll positions parts) =
      Formula.evalAll (valueIn positions row) parts := by
  cases parts with
  | nil => rfl
  | cons part rest =>
      rw [Node.compileAll, Node.evalAll, Formula.evalAll, eval_compile, evalAll_compileAll]

theorem evalAny_compileAll (positions : SortedMap String Nat) (row : List Bool)
    (parts : List Formula) : Node.evalAny row (Node.compileAll positions parts) =
      Formula.evalAny (valueIn positions row) parts := by
  cases parts with
  | nil => rfl
  | cons part rest =>
      rw [Node.compileAll, Node.evalAny, Formula.evalAny, eval_compile, evalAny_compileAll]

end

section Row

variable {vars : SortedSet String} {bits : Nat}

theorem getElem?_row {name : String} {position : Nat}
    (placed : vars.toList[position]? = some name) :
    (row vars.size bits)[position]? = some (bits.testBit position) := by
  have inside : position < vars.size := (List.getElem?_eq_some_iff.mp placed).1
  rw [row, List.getElem?_map, List.getElem?_range inside, Option.map_some]

theorem rowValuation_of_placed {name : String} {position : Nat}
    (placed : vars.toList[position]? = some name) :
    rowValuation vars bits name = bits.testBit position := by
  rw [rowValuation, valueIn, get?_positions_eq_some_iff.mpr placed, Option.bind_some,
    getElem?_row placed, Option.getD_some]

theorem rowAssignment_eq_ofValuation :
    rowAssignment vars bits = .ofValuation vars (rowValuation vars bits) := by
  have entries : vars.toList.zip (row vars.size bits) =
      (SortedMap.tabulate vars (rowValuation vars bits)).entries := by
    refine List.ext_getElem? fun position => ?_
    show _ = (vars.toList.map _)[position]?
    rw [List.zip, List.getElem?_zipWith, List.getElem?_map]
    cases placed : vars.toList[position]? with
    | none => rfl
    | some name =>
        rw [getElem?_row placed, Option.map_some, rowValuation_of_placed placed]
  rw [rowAssignment, entries, SortedMap.ofList_entries]
  rfl

theorem number_rowValuation (small : bits < Nat.pow 2 vars.size) :
    (rowValuation vars bits).number vars.toList = bits := by
  refine Nat.eq_of_testBit_eq fun position => ?_
  rw [Valuation.testBit_number]
  cases placed : vars.toList[position]? with
  | none =>
      have beyond : vars.size ≤ position := List.getElem?_eq_none_iff.mp placed
      have larger := Nat.lt_of_lt_of_le small (Nat.pow_le_pow_right Nat.two_pos beyond)
      exact (Nat.testBit_lt_two_pow larger).symm
  | some name => exact rowValuation_of_placed placed

end Row

theorem rowValuation_number {vars : SortedSet String} (valuation : Valuation) {name : String}
    (member : name ∈ vars) :
    rowValuation vars (valuation.number vars.toList) name = valuation name := by
  obtain ⟨position, placed⟩ := List.mem_iff_getElem?.mp member
  rw [rowValuation_of_placed placed, Valuation.testBit_number, placed]
  rfl

/-! ## The first accepted row -/

section Accepted

variable {formulas : List Formula} {assumptions : List Literal}

theorem name_mem_unknowns {literal : Literal} (member : literal ∈ assumptions) :
    literal.name ∈ unknowns formulas assumptions := by
  unfold unknowns
  rw [SortedSet.mem_union_iff, SortedSet.mem_ofList_iff]
  exact .inr (List.mem_map_of_mem member)

theorem vars_subset_unknowns {formula : Formula} (member : formula ∈ formulas) {name : String}
    (inVars : name ∈ formula.vars) : name ∈ unknowns formulas assumptions := by
  unfold unknowns
  rw [SortedSet.mem_union_iff, Formula.mem_varsOfAll_iff]
  exact .inl ⟨formula, member, inVars⟩

variable {bits : Nat}

theorem any_fixed_eq_false_iff {vars : SortedSet String} {values : List Bool}
    (named : ∀ literal ∈ assumptions, literal.name ∈ vars) :
    ((fixed (positions vars) assumptions).any fun (position, phase) =>
        values[position]?.getD false != phase) = false ↔
      ∀ literal ∈ assumptions, valueIn (positions vars) values literal.name = literal.phase := by
  rw [List.any_eq_false]
  constructor
  · intro agrees literal member
    obtain ⟨position, placed⟩ := List.mem_iff_getElem?.mp (named literal member)
    have found := get?_positions_eq_some_iff.mpr placed
    have entry : (position, literal.phase) ∈ fixed (positions vars) assumptions :=
      List.mem_filterMap.mpr ⟨literal, member, by rw [found]; rfl⟩
    rw [valueIn, found]
    simpa using agrees _ entry
  · intro agrees entry member
    obtain ⟨literal, inAssumptions, made⟩ := List.mem_filterMap.mp member
    obtain ⟨position, found, rfl⟩ := Option.map_eq_some_iff.mp made
    have value := agrees literal inAssumptions
    rw [valueIn, found] at value
    simpa using value

/-- A row is accepted if an assignment with its values satisfies formulas and assumptions. -/
theorem accepts_iff_satisfies {assignment : Assignment}
    (agrees : ∀ name ∈ unknowns formulas assumptions,
      rowValuation (unknowns formulas assumptions) bits name = assignment.valuation name) :
    accepts formulas assumptions bits = true ↔ assignment.Satisfies formulas assumptions := by
  have evaluated : (∀ formula ∈ formulas, formula.eval
      (rowValuation (unknowns formulas assumptions) bits) = true) ↔
        ∀ formula ∈ formulas, formula.eval assignment.valuation = true :=
    forall₂_congr fun formula member => by
      rw [Formula.eval_congr formula fun name inVars =>
        agrees name (vars_subset_unknowns member inVars)]
  have assumed : (∀ literal ∈ assumptions,
      rowValuation (unknowns formulas assumptions) bits literal.name = literal.phase) ↔
        ∀ literal ∈ assumptions, assignment.valuation literal.name = literal.phase :=
    forall₂_congr fun literal member => by rw [agrees literal.name (name_mem_unknowns member)]
  unfold accepts
  simp only
  rw [Bool.and_eq_true, Bool.not_eq_true',
    any_fixed_eq_false_iff fun literal => name_mem_unknowns, List.all_eq_true,
    List.forall_mem_map]
  simp only [eval_compile]
  rw [assumed, evaluated]
  exact ⟨fun given => ⟨given.2, given.1⟩,
    fun satisfies => ⟨satisfies.assumptions, satisfies.formulas⟩⟩

theorem accepts_number {other : Assignment} (satisfies : other.Satisfies formulas assumptions) :
    accepts formulas assumptions
      (other.valuation.number (unknowns formulas assumptions).toList) = true :=
  (accepts_iff_satisfies fun _ => rowValuation_number other.valuation).mpr satisfies

theorem isLeast_of_first
    (first : (List.range (Nat.pow 2 (unknowns formulas assumptions).size)).find?
      (accepts formulas assumptions) = some bits) :
    (rowAssignment (unknowns formulas assumptions) bits).IsLeast (unknowns formulas assumptions)
      formulas assumptions := by
  obtain ⟨accepted, inside, earlier⟩ := List.find?_range_eq_some.mp first
  rw [rowAssignment_eq_ofValuation]
  have agrees : ∀ name ∈ unknowns formulas assumptions,
      rowValuation (unknowns formulas assumptions) bits name =
        (Assignment.ofValuation (unknowns formulas assumptions) _).valuation name :=
    fun _ member => (Assignment.valuation_ofValuation member _).symm
  constructor
  · exact Assignment.keys_ofValuation _ _
  · exact (accepts_iff_satisfies agrees).mp accepted
  · -- An assignment with a smaller number would have been accepted before.
    intro other satisfies
    rw [← Valuation.number_congr agrees, number_rowValuation (List.mem_range.mp inside)]
    by_contra before
    have missed := earlier _ (Nat.lt_of_not_le before)
    rw [accepts_number satisfies] at missed
    cases missed

/-- Going through the rows finds what the search finds, and fails as it does. -/
theorem enumerate_eq_solveUnder (limit : Limit) : enumerate limit formulas assumptions =
    solveUnder limit formulas assumptions := by
  unfold enumerate
  rcases Nat.lt_or_ge (Nat.min limit.maxVariables wordVariables)
    (unknowns formulas assumptions).size with large | small
  · rw [solveUnder_of_large large]
    exact if_neg fun allows => Nat.not_le_of_lt large (of_decide_eq_true allows)
  · obtain ⟨solution, solved, decides⟩ := solveUnder_of_small small
    rw [solved]
    refine (if_pos (decide_eq_true small)).trans (congrArg Except.ok ?_)
    cases first : (List.range (Nat.pow 2 (unknowns formulas assumptions).size)).find?
        (accepts formulas assumptions) with
    | none =>
        -- Every assignment that satisfies them has the number of a row.
        refine (Option.not_isSome_iff_eq_none.mp fun found => ?_).symm
        obtain ⟨other, satisfies⟩ := decides.mp found
        have missed := List.find?_eq_none.mp first _
          (List.mem_range.mpr (Valuation.number_lt other.valuation _))
        exact missed (accepts_number satisfies)
    | some bits =>
        have least := isLeast_of_first first
        obtain ⟨other, rfl⟩ := Option.isSome_iff_exists.mp (decides.mpr ⟨_, least.satisfies⟩)
        exact congrArg some (least.eq (isLeast_of_solveUnder solved))

end Accepted

end RuleSlicing.TruthTable
