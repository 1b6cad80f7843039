import RuleSlicing.Bounded
import RuleSlicing.Logic.TruthTable
import RuleSlicing.Text.Blank
import RuleSlicing.Text.Digits

/-!
# Limits of an analysis

Two limits keep an analysis small: the number of slices of a request and the
number of variables of a solver problem. Both are positive machine words, and
both can be set by texts that hold a number.
-/

set_option autoImplicit false

namespace RuleSlicing

structure Limits where
  maxSlices : Nat
  maxVariables : Nat
deriving DecidableEq

namespace Limits

def standard : Limits := ⟨10000, 20⟩

/-- The positive machine word that a text denotes. -/
def read? (text : String) : Option Nat := (Text.readBelow wordCount text).filter (0 < ·)

/-- A limit set by a text, blanks around the number aside. Anything that is no
limit is ignored. -/
def override (standard : Nat) (text : Option String) : Nat :=
  (text.bind fun text => read? (Text.trim text)).getD standard

def slicesVariable : String := "SLICEWISE_MAX_SLICES"

def variablesVariable : String := "SLICEWISE_MAX_SOLVER_VARIABLES"

def ofEnvironment (lookup : String → Option String) : Limits where
  maxSlices := override standard.maxSlices (lookup slicesVariable)
  maxVariables := override standard.maxVariables (lookup variablesVariable)

def solver (limits : Limits) : TruthTable.Limit := ⟨limits.maxVariables⟩

end Limits

end RuleSlicing
