/-!
# JSON values

The values that requests, rule files and responses are made of. Numbers are
integers or floating-point numbers. The members of an object keep the order in
which they are to be written.
-/

set_option autoImplicit false

namespace RuleSlicing

inductive Json where
  | null
  | bool (value : Bool)
  | integer (value : Int)
  | float (value : Float)
  | string (text : String)
  | array (items : List Json)
  | object (members : List (String × Json))
deriving Inhabited

namespace Json

/-- An object of the members that are present. -/
def objectOf (members : List (Option (String × Json))) : Json :=
  .object (members.filterMap id)

def strings (texts : List String) : Json := .array (texts.map .string)

end Json

end RuleSlicing
