/-!
# Files that cannot be read

Why a file gives no text. What the system refuses is told by the text and the
number that the system has for it; a file that is no text has no such number.
-/

set_option autoImplicit false

namespace RuleSlicing.CommandLine

inductive FileFault where
  | absent
  | forbidden
  | notDirectory
  | isDirectory
  | nameTooLong
  | linkCycle
  | notText
  | other (number : Nat) (reason : String)

namespace FileFault

/-- A fault by the number that the system has for it. The reason is the text for
a number that is not among the common ones. -/
def ofNumber (number : Nat) (reason : String) : FileFault :=
  match number with
  | 2 => .absent
  | 13 => .forbidden
  | 20 => .notDirectory
  | 21 => .isDirectory
  | 36 => .nameTooLong
  | 40 => .linkCycle
  | number => .other number reason

def numbered (reason : String) (number : Nat) : String :=
  reason ++ " (os error " ++ toString number ++ ")"

def message : FileFault → String
  | .absent => numbered "No such file or directory" 2
  | .forbidden => numbered "Permission denied" 13
  | .notDirectory => numbered "Not a directory" 20
  | .isDirectory => numbered "Is a directory" 21
  | .nameTooLong => numbered "File name too long" 36
  | .linkCycle => numbered "Too many levels of symbolic links" 40
  | .notText => "stream did not contain valid UTF-8"
  | .other number reason => numbered reason number

end FileFault

end RuleSlicing.CommandLine
