import RuleSlicing.Json.Decode

/-!
# Boolean formulas

Rules are formulas over the codes of features. `Formula.eval` is their meaning;
`Formula.assign` fixes one variable and folds the constants that arise, and
`eval_assign` says that this is what changing the valuation does.
-/

set_option autoImplicit false

namespace RuleSlicing

inductive Formula where
  | const (value : Bool)
  | var (name : String)
  | not (operand : Formula)
  | and (parts : List Formula)
  | or (parts : List Formula)
  | implies (premise conclusion : Formula)
  | equiv (left right : Formula)
deriving Inhabited

/-- A truth value for every variable. -/
abbrev Valuation : Type := String → Bool

namespace Valuation

def update (valuation : Valuation) (name : String) (value : Bool) : Valuation :=
  fun other => if other = name then value else valuation other

/-- The valuation that makes exactly the listed variables true. -/
def ofTrue (names : List String) : Valuation := fun name => names.contains name

end Valuation

namespace Formula

/-! ## Meaning -/

mutual

def eval (valuation : Valuation) : Formula → Bool
  | .const value => value
  | .var name => valuation name
  | .not operand => !eval valuation operand
  | .and parts => evalAll valuation parts
  | .or parts => evalAny valuation parts
  | .implies premise conclusion => !eval valuation premise || eval valuation conclusion
  | .equiv left right => eval valuation left == eval valuation right

def evalAll (valuation : Valuation) : List Formula → Bool
  | [] => true
  | part :: rest => eval valuation part && evalAll valuation rest

def evalAny (valuation : Valuation) : List Formula → Bool
  | [] => false
  | part :: rest => eval valuation part || evalAny valuation rest

end

theorem evalAll_eq_all (valuation : Valuation) (parts : List Formula) :
    evalAll valuation parts = parts.all (eval valuation) := by
  induction parts with
  | nil => rfl
  | cons part rest ih => rw [evalAll, ih, List.all_cons]

theorem evalAny_eq_any (valuation : Valuation) (parts : List Formula) :
    evalAny valuation parts = parts.any (eval valuation) := by
  induction parts with
  | nil => rfl
  | cons part rest ih => rw [evalAny, ih, List.any_cons]

/-! ## Variables -/

mutual

def vars : Formula → SortedSet String
  | .const _ => ∅
  | .var name => .singleton name
  | .not operand => operand.vars
  | .and parts => varsOfAll parts
  | .or parts => varsOfAll parts
  | .implies premise conclusion => premise.vars.union conclusion.vars
  | .equiv left right => left.vars.union right.vars

def varsOfAll : List Formula → SortedSet String
  | [] => ∅
  | part :: rest => part.vars.union (varsOfAll rest)

end

/-! ## Fixing a variable -/

/-- The negation of a formula; a constant is negated at once. -/
def negation : Formula → Formula
  | .const value => .const !value
  | operand => .not operand

/-- The conjunction of a formula and a conjunction. A constant among them
decides or goes. -/
def conjoin : Formula → Formula → Formula
  | .const false, _ => .const false
  | .const true, rest => rest
  | _, .const false => .const false
  | part, .const true => .and [part]
  | part, .and parts => .and (part :: parts)
  | part, rest => .and [part, rest]

/-- The disjunction of a formula and a disjunction. A constant among them
decides or goes. -/
def disjoin : Formula → Formula → Formula
  | .const true, _ => .const true
  | .const false, rest => rest
  | _, .const true => .const true
  | part, .const false => .or [part]
  | part, .or parts => .or (part :: parts)
  | part, rest => .or [part, rest]

/-- An implication; a constant on either side decides it or goes. -/
def implication : Formula → Formula → Formula
  | .const false, _ => .const true
  | .const true, conclusion => conclusion
  | _, .const true => .const true
  | premise, .const false => .not premise
  | premise, conclusion => .implies premise conclusion

/-- An equivalence; a constant on either side goes. -/
def equivalence : Formula → Formula → Formula
  | .const true, right => right
  | .const false, right => negation right
  | left, .const true => left
  | left, .const false => .not left
  | left, right => .equiv left right

mutual

/-- Fix the value of a variable and fold the constants that arise. -/
def assign (name : String) (value : Bool) : Formula → Formula
  | .const constant => .const constant
  | .var other => if other = name then .const value else .var other
  | .not operand => negation (assign name value operand)
  | .and parts => assignAnd name value parts
  | .or parts => assignOr name value parts
  | .implies premise conclusion =>
      implication (assign name value premise) (assign name value conclusion)
  | .equiv left right => equivalence (assign name value left) (assign name value right)

def assignAnd (name : String) (value : Bool) : List Formula → Formula
  | [] => .const true
  | part :: rest => conjoin (assign name value part) (assignAnd name value rest)

def assignOr (name : String) (value : Bool) : List Formula → Formula
  | [] => .const false
  | part :: rest => disjoin (assign name value part) (assignOr name value rest)

end

theorem eval_negation (valuation : Valuation) (operand : Formula) :
    eval valuation (negation operand) = !eval valuation operand := by
  cases operand <;> rfl

theorem eval_conjoin (valuation : Valuation) (part rest : Formula) :
    eval valuation (conjoin part rest) = (eval valuation part && eval valuation rest) := by
  unfold conjoin
  split <;> simp [eval, evalAll]

theorem eval_disjoin (valuation : Valuation) (part rest : Formula) :
    eval valuation (disjoin part rest) = (eval valuation part || eval valuation rest) := by
  unfold disjoin
  split <;> simp [eval, evalAny]

theorem eval_implication (valuation : Valuation) (premise conclusion : Formula) :
    eval valuation (implication premise conclusion) =
      (!eval valuation premise || eval valuation conclusion) := by
  unfold implication
  split <;> simp [eval]

theorem eval_equivalence (valuation : Valuation) (left right : Formula) :
    eval valuation (equivalence left right) =
      (eval valuation left == eval valuation right) := by
  unfold equivalence
  split <;> simp [eval, eval_negation]

mutual

/-- Fixing a variable is evaluating with that variable changed. -/
theorem eval_assign (valuation : Valuation) (name : String) (value : Bool)
    (formula : Formula) :
    eval valuation (assign name value formula) =
      eval (valuation.update name value) formula := by
  cases formula with
  | const constant => rfl
  | var other =>
      by_cases same : other = name
      · simp [assign, eval, Valuation.update, same]
      · simp [assign, eval, Valuation.update, same]
  | not operand =>
      simp only [assign, eval, eval_negation, eval_assign valuation name value operand]
  | and parts =>
      simp only [assign, eval]
      exact eval_assignAnd valuation name value parts
  | or parts =>
      simp only [assign, eval]
      exact eval_assignOr valuation name value parts
  | implies premise conclusion =>
      simp only [assign, eval, eval_implication, eval_assign valuation name value premise,
        eval_assign valuation name value conclusion]
  | equiv left right =>
      simp only [assign, eval, eval_equivalence, eval_assign valuation name value left,
        eval_assign valuation name value right]

theorem eval_assignAnd (valuation : Valuation) (name : String) (value : Bool)
    (parts : List Formula) :
    eval valuation (assignAnd name value parts) =
      evalAll (valuation.update name value) parts := by
  cases parts with
  | nil => rfl
  | cons part rest =>
      simp only [assignAnd, evalAll, eval_conjoin, eval_assign valuation name value part,
        eval_assignAnd valuation name value rest]

theorem eval_assignOr (valuation : Valuation) (name : String) (value : Bool)
    (parts : List Formula) :
    eval valuation (assignOr name value parts) =
      evalAny (valuation.update name value) parts := by
  cases parts with
  | nil => rfl
  | cons part rest =>
      simp only [assignOr, evalAny, eval_disjoin, eval_assign valuation name value part,
        eval_assignOr valuation name value rest]

end

/-! ## Text -/

/-- Several texts in parentheses, joined by an operator; none are the neutral one. -/
def joinTexts (operator neutral : String) (texts : List String) : String :=
  if texts.isEmpty then neutral
  else "(" ++ (" " ++ operator ++ " ").intercalate texts ++ ")"

mutual

def render : Formula → String
  | .const true => "$true"
  | .const false => "$false"
  | .var name => name
  | .not operand => "-" ++ operand.render
  | .and parts => joinTexts "&" "$true" (renderAll parts)
  | .or parts => joinTexts "|" "$false" (renderAll parts)
  | .implies premise conclusion => "(" ++ premise.render ++ " => " ++ conclusion.render ++ ")"
  | .equiv left right => "(" ++ left.render ++ " <=> " ++ right.render ++ ")"

def renderAll : List Formula → List String
  | [] => []
  | part :: rest => part.render :: renderAll rest

end

/-! ## Wire form -/

mutual

/-- The JSON form of a formula: an object with the operator as its only key. -/
def toJson : Formula → Json
  | .const value => .object [("const", .bool value)]
  | .var name => .object [("var", .string name)]
  | .not operand => .object [("not", operand.toJson)]
  | .and parts => .object [("and", .array (toJsons parts))]
  | .or parts => .object [("or", .array (toJsons parts))]
  | .implies premise conclusion =>
      .object [("implies", .array [premise.toJson, conclusion.toJson])]
  | .equiv left right => .object [("equiv", .array [left.toJson, right.toJson])]

def toJsons : List Formula → List Json
  | [] => []
  | part :: rest => part.toJson :: toJsons rest

end

open Json (Decoder) in
/-- Decode a formula. Each operator takes at least one level of nesting. -/
def decode : Decoder Formula
  | depth + 1, .object [(some key, operand)] =>
      match key with
      | "const" => (Decoder.bool depth operand).map .const
      | "var" => (Decoder.text depth operand).map .var
      | "not" => (decode depth operand).map .not
      | "and" =>
          match depth, operand with
          | inner + 1, .array parts => (parts.mapM (decode inner)).map .and
          | _, _ => none
      | "or" =>
          match depth, operand with
          | inner + 1, .array parts => (parts.mapM (decode inner)).map .or
          | _, _ => none
      | "implies" =>
          match depth, operand with
          | inner + 1, .array [premise, conclusion] => do
              let premise ← decode inner premise
              let conclusion ← decode inner conclusion
              return .implies premise conclusion
          | _, _ => none
      | "equiv" =>
          match depth, operand with
          | inner + 1, .array [left, right] => do
              let left ← decode inner left
              let right ← decode inner right
              return .equiv left right
          | _, _ => none
      | _ => none
  | _, _ => none

end Formula

end RuleSlicing
