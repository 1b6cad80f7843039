import RuleSlicing.Logic.Formula

/-!
# Assignments and literals

An assignment gives truth values to finitely many variables and makes all other
variables false. A literal asks for one truth value of one variable.
-/

set_option autoImplicit false

namespace RuleSlicing

/-- Truth values of finitely many variables. -/
structure Assignment where
  values : SortedMap String Bool
deriving DecidableEq

namespace Assignment

def empty : Assignment := ⟨∅⟩

def set (assignment : Assignment) (name : String) (value : Bool) : Assignment :=
  ⟨assignment.values.insert name value⟩

def get? (assignment : Assignment) (name : String) : Option Bool :=
  assignment.values.get? name

/-- The value of a variable; a variable without a value is false. -/
def valuation (assignment : Assignment) : Valuation :=
  fun name => (assignment.get? name).getD false

/-- The variables that are true, ascending. -/
def positive (assignment : Assignment) : List String :=
  (assignment.values.entries.filter (·.2)).map (·.1)

end Assignment

/-- A variable with the value that is asked of it. -/
structure Literal where
  name : String
  phase : Bool
deriving DecidableEq

namespace Literal

def toFormula (literal : Literal) : Formula :=
  if literal.phase then .var literal.name else .not (.var literal.name)

theorem eval_toFormula (valuation : Valuation) (literal : Literal) :
    literal.toFormula.eval valuation = true ↔
      valuation literal.name = literal.phase := by
  unfold toFormula
  split
  · rename_i positive
    rw [positive]
    rfl
  · rename_i negative
    simp only [Bool.not_eq_true] at negative
    rw [negative]
    simp [Formula.eval]

end Literal

end RuleSlicing
