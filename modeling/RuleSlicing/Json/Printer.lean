import RuleSlicing.Json.Basic
import RuleSlicing.Decimal.Shortest

/-!
# Writing JSON texts

Two layouts: the compact one without blanks, and the indented one with a line
for each item and each member. Both write strings and numbers alike.
-/

set_option autoImplicit false

namespace RuleSlicing.Json

/-! ## Scalars -/

/-- The notation of floating-point numbers: positional from `10 ^ -5` to below
`10 ^ 16`, always with a point or an exponent. -/
def floatLayout : Decimal.Layout := ⟨-5, 15⟩

/-- A character of a string. Quotes, backslashes and control characters are
escaped, the five common ones with a letter. -/
def escapeChar (char : Char) : List Char :=
  match char with
  | '"' => ['\\', '"']
  | '\\' => ['\\', '\\']
  | '\x08' => ['\\', 'b']
  | '\x0c' => ['\\', 'f']
  | '\n' => ['\\', 'n']
  | '\r' => ['\\', 'r']
  | '\t' => ['\\', 't']
  | other =>
      if other.toNat < 0x20 then
        ['\\', 'u', '0', '0', Nat.digitChar (other.toNat / 16), Nat.digitChar (other.toNat % 16)]
      else [other]

def quote (text : String) : String :=
  "\"" ++ String.ofList (text.toList.flatMap escapeChar) ++ "\""

/-! ## Compact layout -/

mutual

def compact : Json → String
  | .null => "null"
  | .bool value => if value then "true" else "false"
  | .integer value => toString value
  | .float value => floatLayout.renderBits value.toBits
  | .string text => quote text
  | .array items => "[" ++ ",".intercalate (compactItems items) ++ "]"
  | .object members => "\x7b" ++ ",".intercalate (compactMembers members) ++ "\x7d"

def compactItems : List Json → List String
  | [] => []
  | item :: rest => compact item :: compactItems rest

def compactMembers : List (String × Json) → List String
  | [] => []
  | (key, value) :: rest => (quote key ++ ":" ++ compact value) :: compactMembers rest

end

/-! ## Indented layout -/

/-- The parts of an array or object, each on a line of its own, between brackets. -/
def block (opening closing : String) (indent : Nat) (parts : List String) : String :=
  if parts.isEmpty then opening ++ closing
  else
    let margin := String.ofList (List.replicate (2 * indent) ' ')
    let line := ",\n" ++ margin ++ "  "
    opening ++ "\n" ++ margin ++ "  " ++ line.intercalate parts ++ "\n" ++ margin ++ closing

mutual

/-- The text of a value with two more blanks of margin for each nesting. -/
def indented (indent : Nat) : Json → String
  | .array items => block "[" "]" indent (indentedItems (indent + 1) items)
  | .object members => block "\x7b" "\x7d" indent (indentedMembers (indent + 1) members)
  | .null => compact .null
  | .bool value => compact (.bool value)
  | .integer value => compact (.integer value)
  | .float value => compact (.float value)
  | .string text => compact (.string text)

def indentedItems (indent : Nat) : List Json → List String
  | [] => []
  | item :: rest => indented indent item :: indentedItems indent rest

def indentedMembers (indent : Nat) : List (String × Json) → List String
  | [] => []
  | (key, value) :: rest =>
      (quote key ++ ": " ++ indented indent value) :: indentedMembers indent rest

end

def pretty (value : Json) : String := indented 0 value

end RuleSlicing.Json
