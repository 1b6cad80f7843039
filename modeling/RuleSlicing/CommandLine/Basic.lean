import RuleSlicing.CommandLine.Arguments
import RuleSlicing.CommandLine.FileFault
import RuleSlicing.CommandLine.Report

/-!
# The command line

A call reads a rule file and a request, runs an analysis and writes a report or
the response as JSON. What a call finds around it is given in some monad, so
that a call is a plain function of its arguments and its world.
-/

set_option autoImplicit false

namespace RuleSlicing.CommandLine

structure Outcome where
  exitCode : Nat
  output : String := ""
  errors : String := ""

namespace Outcome

def refused (message : String) : Outcome := ⟨2, "", message ++ "\n"⟩

def failed (error : AnalysisError) : Outcome := ⟨1, "", "error: " ++ error.message ++ "\n"⟩

def answered (status : Status) (output : String) : Outcome :=
  ⟨if status.success then 0 else 1, output, ""⟩

end Outcome

/-- The limits of a call: those of the environment, or the one among the arguments. -/
def limitsOf (settings : Settings) (environment : String → Option String) : Limits :=
  let limits := Limits.ofEnvironment environment
  { limits with maxSlices := settings.maxSlices.getD limits.maxSlices }

/-- What a call finds around it: its files, its environment, whether it writes to a
terminal, and a clock that gives the milliseconds an evaluation takes. -/
structure World (m : Type → Type) where
  fileText : String → m (Except FileFault String)
  environment : String → Option String
  terminal : Bool
  measure : {Value : Type} → (Unit → Value) → m (Value × Nat)

variable {m : Type → Type} [Monad m]

/-- Write a response with the time that it took. -/
def respond {Response : Type} (world : World m)
    (response : Unit → Except AnalysisError Response)
    (status : Response → Status) (write : (Response → Timing → String)) : m Outcome := do
  let (answer, elapsed) ← world.measure response
  match answer with
  | .error error => return .failed error
  | .ok response =>
      let timing := (status response).timingOf elapsed
      return .answered (status response) (write response timing)

def analyse (world : World m) (order : Order) (model : Model) (request : Request) :
    m Outcome :=
  let settings := order.settings
  let palette : Palette := ⟨settings.color⟩
  let limits := limitsOf settings world.environment
  match order.analysis with
  | .consistency =>
      respond world (fun _ => consistency.respond settings.jobId request model limits)
        (·.status) fun response timing =>
          let response := { response with status.timing := timing }
          if settings.json then response.consistencyJson.pretty ++ "\n"
          else Report.consistency palette response
  | .buildability =>
      respond world (fun _ => buildability.respond settings.jobId request model limits)
        (·.status) fun response timing =>
          let response := { response with status.timing := timing }
          if settings.json then response.buildabilityJson.pretty ++ "\n"
          else Report.buildability palette response

/-- How a file that cannot be read is reported. -/
def unreadable (path : String) (fault : FileFault) : Outcome :=
  .refused ("error: failed to read '" ++ path ++ "': " ++ fault.message)

/-- Read the files of an order and run its analysis. The model is read and checked
before the request is. -/
def execute (world : World m) (order : Order) : m Outcome := do
  match ← world.fileText order.model with
  | .error fault => return unreadable order.model fault
  | .ok text =>
      match Model.read text with
      | .error fault => return .refused ("error: " ++ fault.toError.message)
      | .ok model =>
          match ← world.fileText order.request with
          | .error fault => return unreadable order.request fault
          | .ok text =>
              match Request.read text with
              | .error fault => return .refused ("error: " ++ fault.toError.message)
              | .ok request =>
                  let allDetails := request.allDetails || order.settings.explain
                  analyse world order model { request with allDetails }

/-- Carry out a call. Colours are used from the start if it writes to a terminal. -/
def call (world : World m) (arguments : List String) : m Outcome :=
  match readArguments { color := world.terminal } arguments with
  | .error fault => return .refused fault.message
  | .ok .help => return ⟨0, helpText ++ "\n", ""⟩
  | .ok .version => return ⟨0, versionLine ++ "\n", ""⟩
  | .ok (.analyse order) => execute world order

end RuleSlicing.CommandLine
