/-!
# Colours of a terminal

A palette wraps texts in escape sequences, or leaves them alone if colours are
switched off.
-/

set_option autoImplicit false

namespace RuleSlicing.CommandLine

/-- The ways in which a text can be set off. -/
inductive Style where
  | bold
  | dim
  | red
  | green
  | yellow
  | blue
  | cyan
  | gray
deriving DecidableEq

/-- The escape sequence that begins a style. -/
def Style.code : Style → String
  | .bold => "\x1b[1m"
  | .dim => "\x1b[2m"
  | .red => "\x1b[31m"
  | .green => "\x1b[32m"
  | .yellow => "\x1b[33m"
  | .blue => "\x1b[34m"
  | .cyan => "\x1b[36m"
  | .gray => "\x1b[90m"

structure Palette where
  enabled : Bool

def Palette.paint (palette : Palette) (style : Style) (text : String) : String :=
  if palette.enabled then style.code ++ text ++ "\x1b[0m" else text

end RuleSlicing.CommandLine
