import RuleSlicing.Logic.Assignment

/-!
# Solving by truth table

A list of formulas is solved by trying the values of all its variables. The
variables are ordered by name and the first variable is the lowest binary
digit, so the assignments are numbered, and the solution with the least number
is found. The search fixes one variable after another, the highest digit first,
and leaves a branch as soon as a formula has become false.
-/

set_option autoImplicit false

namespace RuleSlicing

namespace TruthTable

/-- Fix a variable in every formula. Formulas that have become true go; if one
has become false there is nothing left to solve. -/
def assignAll (name : String) (value : Bool) : List Formula → Option (List Formula)
  | [] => some []
  | formula :: rest =>
      match formula.assign name value with
      | .const false => none
      | .const true => assignAll name value rest
      | remaining => (assignAll name value rest).map (remaining :: ·)

/-- Values for the given variables under which every formula is true, where the
formulas have no other variables. False is tried before true, and the values of
the first variables change last. -/
def search : List String → List Formula → Option (List (String × Bool))
  | [], formulas =>
      if formulas.all (·.eval fun _ => false) then some [] else none
  | name :: rest, formulas =>
      match (assignAll name false formulas).bind (search rest) with
      | some values => some ((name, false) :: values)
      | none =>
          match (assignAll name true formulas).bind (search rest) with
          | some values => some ((name, true) :: values)
          | none => none

/-- The number of variables that are numbered by the bits of a machine word. -/
def wordVariables : Nat := 63

structure Limit where
  maxVariables : Nat
deriving DecidableEq

def Limit.allows (limit : Limit) (count : Nat) : Bool :=
  count ≤ Nat.min limit.maxVariables wordVariables

structure Excess where
  count : Nat
  limit : Limit

def Excess.message (excess : Excess) : String :=
  toString excess.count ++ " variables exceed the truth-table limit of "
    ++ toString excess.limit.maxVariables

/-- The least solution of a list of formulas, as an assignment of exactly their
variables. -/
def solve (limit : Limit) (formulas : List Formula) : Except Excess (Option Assignment) :=
  let vars := Formula.varsOfAll formulas
  if limit.allows vars.size then
    .ok <| (search vars.toList.reverse formulas).map fun values =>
      ⟨SortedMap.ofList values⟩
  else .error ⟨vars.size, limit⟩

def solveUnder (limit : Limit) (formulas : List Formula) (assumptions : List Literal) :
    Except Excess (Option Assignment) :=
  solve limit (assumptions.map Literal.toFormula ++ formulas)

end TruthTable

end RuleSlicing
