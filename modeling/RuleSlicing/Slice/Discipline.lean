import RuleSlicing.Json.Decode

/-!
# Disciplines

A discipline says how results are combined over the values of one dimension:
one value is enough, every value counts, or each value is reported by itself.
-/

set_option autoImplicit false

namespace RuleSlicing

/-- How results are combined over the values of a dimension. -/
inductive Discipline where
  /-- One value is enough. -/
  | any
  /-- The result has to hold for every value. -/
  | all
  /-- Every value is reported by itself. -/
  | split
deriving DecidableEq, Hashable

namespace Discipline

def render : Discipline → String
  | .any => "ANY"
  | .all => "ALL"
  | .split => "SPLIT"

def ofName? : String → Option Discipline
  | "ANY" => some .any
  | "ALL" => some .all
  | "SPLIT" => some .split
  | _ => none

theorem ofName?_render (discipline : Discipline) :
    ofName? discipline.render = some discipline := by
  cases discipline <;> rfl

def rank : Discipline → Nat
  | .any => 0
  | .all => 1
  | .split => 2

def decode : Json.Decoder Discipline := Json.Decoder.name ofName?

end Discipline

end RuleSlicing
