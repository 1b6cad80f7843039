import RuleSlicing.Space.Dimension

/-!
# The space of a model

The dimensions of a model in the order of their declaration. Each property of a
feature or rule that names a dimension extends it; other properties do not
belong to the space.
-/

set_option autoImplicit false

namespace RuleSlicing

structure Space where
  dimensions : List Dimension
deriving DecidableEq

/-- Why a space cannot be built as declared. -/
inductive SpaceFault where
  | declaredTwice (name : String)
  | typeMismatch (name : String) (declared used : PropertyType)

def SpaceFault.message : SpaceFault → String
  | .declaredTwice name => "slicing property '" ++ name ++ "' is declared twice"
  | .typeMismatch name declared used =>
      "slicing property '" ++ name ++ "' is declared as " ++ declared.render
        ++ " but used with a " ++ used.render ++ " range"

/-- Take a declared range into account. -/
def Dimension.add (dimension : Dimension) (range : PropertyRange) :
    Except SpaceFault Dimension :=
  match dimension.domain.add? range with
  | some domain => .ok { dimension with domain }
  | none => .error (.typeMismatch dimension.name dimension.type range.type)

namespace Space

def empty : Space := ⟨[]⟩

def find? (space : Space) (name : String) : Option Dimension :=
  space.dimensions.find? (·.name = name)

def declare (space : Space) (name : String) (type : PropertyType) :
    Except SpaceFault Space :=
  match space.find? name with
  | some _ => .error (.declaredTwice name)
  | none => .ok ⟨space.dimensions ++ [.new name type]⟩

/-- Extend the first dimension that a property names by its range. -/
def addTo (property : Property) : List Dimension → Except SpaceFault (List Dimension)
  | [] => .ok []
  | dimension :: rest =>
      if dimension.name = property.name then do
        let extended ← dimension.add property.range
        return extended :: rest
      else do
        let others ← addTo property rest
        return dimension :: others

/-- Take a property of a feature or rule into account. -/
def add (space : Space) (property : Property) : Except SpaceFault Space :=
  (addTo property space.dimensions).map fun dimensions => ⟨dimensions⟩

end Space

end RuleSlicing
