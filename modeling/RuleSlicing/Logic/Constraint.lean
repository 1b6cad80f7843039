import RuleSlicing.Logic.Assignment
import RuleSlicing.Text.Blank

/-!
# Constraint texts

A constraint is a conjunction of literals such as `A & -B & C`: names joined by
ampersands, each with an optional minus sign. Blanks around a literal and
between its sign and its name do not count.
-/

set_option autoImplicit false

namespace RuleSlicing

inductive ConstraintFault where
  | empty
  | unexpected (token : String)
deriving DecidableEq

def ConstraintFault.message : ConstraintFault → String
  | .empty => "empty constraint"
  | .unexpected token => "unexpected token '" ++ token ++ "'"

namespace Constraint

def beginsName (char : Char) : Bool :=
  ('A' ≤ char && char ≤ 'Z') || ('a' ≤ char && char ≤ 'z') || char = '_'

def continuesName (char : Char) : Bool :=
  beginsName char || ('0' ≤ char && char ≤ '9') || char = '.' || char = '-'

def isName : List Char → Bool
  | [] => false
  | first :: rest => beginsName first && rest.all continuesName

/-- The literal that a text without blanks around it denotes. -/
def literal? (token : List Char) : Option Literal :=
  match token with
  | '-' :: rest =>
      let name := rest.dropWhile Text.isBlank
      if isName name then some ⟨String.ofList name, false⟩ else none
  | name => if isName name then some ⟨String.ofList name, true⟩ else none

/-- The pieces of a text between the ampersands. -/
def pieces : List Char → List (List Char)
  | [] => [[]]
  | '&' :: rest => [] :: pieces rest
  | char :: rest =>
      match pieces rest with
      | [] => [[char]]
      | piece :: others => (char :: piece) :: others

def readPiece (piece : List Char) : Except ConstraintFault Literal :=
  let token := Text.trimChars piece
  match literal? token with
  | some literal => .ok literal
  | none => .error (.unexpected (String.ofList token))

def parse (text : String) : Except ConstraintFault (List Literal) :=
  if Text.isBlankText text then .error .empty
  else (pieces text.toList).mapM readPiece

def toFormula (literals : List Literal) : Formula := .and (literals.map Literal.toFormula)

end Constraint

end RuleSlicing
