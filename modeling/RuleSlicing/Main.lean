import RuleSlicing.CommandLine.Basic

/-!
# The program

Reads files, the environment and the arguments, and writes what a call leaves
behind.
-/

set_option autoImplicit false

open RuleSlicing

/-- The number and the reason of a fault that the system reports. -/
def systemFault? : IO.Error → Option (UInt32 × String)
  | .noFileOrDirectory _ code reason | .interrupted _ code reason
  | .inappropriateType _ code reason | .invalidArgument _ code reason
  | .permissionDenied _ code reason | .resourceExhausted _ code reason
  | .noSuchThing _ code reason | .alreadyExists _ code reason
  | .otherError code reason | .resourceBusy code reason | .resourceVanished code reason
  | .unsupportedOperation code reason | .hardwareFault code reason
  | .unsatisfiedConstraints code reason | .illegalOperation code reason
  | .protocolError code reason | .timeExpired code reason => some (code, reason)
  | .unexpectedEof | .userError _ => none

/-- Why a file cannot be read. Numbers come as they are or negated. -/
def readFault (error : IO.Error) : CommandLine.FileFault :=
  match systemFault? error with
  | some (code, reason) => .ofNumber (Nat.min code.toNat (0 - code).toNat) reason
  | none => .other 5 "Input/output error"

def readText (path : String) : IO (Except CommandLine.FileFault String) := do
  try
    let bytes ← IO.FS.readBinFile path
    match String.fromUTF8? bytes with
    | some text => return .ok text
    | none => return .error .notText
  catch error => return .error (readFault error)

def readEnvironment : IO (String → Option String) := do
  let slices ← IO.getEnv Limits.slicesVariable
  let solverVariables ← IO.getEnv Limits.variablesVariable
  return fun name =>
    if name = Limits.slicesVariable then slices
    else if name = Limits.variablesVariable then solverVariables
    else none

/-- Evaluate something and count the milliseconds. -/
def measureTime {Value : Type} (evaluate : Unit → Value) : IO (Value × Nat) := do
  let start ← IO.monoMsNow
  let value ← IO.lazyPure evaluate
  let stop ← IO.monoMsNow
  return (value, stop - start)

def main (arguments : List String) : IO UInt32 := do
  let world : CommandLine.World IO := {
    fileText := readText
    environment := ← readEnvironment
    terminal := ← (← IO.getStdout).isTty
    measure := measureTime }
  let outcome ← CommandLine.call world arguments
  IO.print outcome.output
  IO.eprint outcome.errors
  return UInt32.ofNat outcome.exitCode
