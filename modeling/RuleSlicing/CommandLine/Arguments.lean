import RuleSlicing.Analysis.Limits

/-!
# Arguments of the command line

The arguments name an analysis, the two files it needs and some options. They
are taken one after another, and the first fault ends the reading; asking for
help or for the version ends it as well.
-/

set_option autoImplicit false

namespace RuleSlicing.CommandLine

def versionLine : String := "slicewise 0.1.0"

def helpText : String :=
  String.join <| List.map (· ++ "\n") [
    versionLine,
    "",
    "Slice-based configuration analysis CLI.",
    "",
    "Usage:",
    "  slicewise <consistency|buildability> --model <file> --request <file> [OPTIONS]",
    "",
    "Options:",
    "  -m, --model <file>         Compiled rule model (JSON).",
    "  -r, --request <file>       Computation request (JSON).",
    "  --job-id <id>              Job id echoed in the status. Default: local",
    "  --max-slices <n>           Override the slice limit (" ++ Limits.slicesVariable ++ ").",
    "  --explain                  Explain inconsistent slices (sets computeAllDetails).",
    "  --json                     Print the response as JSON instead of a report.",
    "  --color                    Force ANSI color output.",
    "  --no-color                 Disable ANSI color output.",
    "  -v, --verbose              Log engine details to stderr.",
    "  -h, --help                 Show this help message.",
    "  -V, --version              Print version information.",
    "",
    "Environment:",
    "  " ++ Limits.slicesVariable ++ "         Maximum number of slices per request.",
    "  " ++ Limits.variablesVariable ++ "  Variable limit of the reference solver.",
    "",
    "Exit codes:",
    "  0  Success.",
    "  1  Computation failed or reported errors.",
    "  2  Invalid arguments or unreadable input."]

inductive Analysis where
  | consistency
  | buildability
deriving DecidableEq

structure Settings where
  analysis : Option Analysis := none
  model : Option String := none
  request : Option String := none
  jobId : String := "local"
  maxSlices : Option Nat := none
  explain : Bool := false
  json : Bool := false
  color : Bool := false

structure Order where
  analysis : Analysis
  model : String
  request : String
  settings : Settings

inductive Invocation where
  | help
  | version
  | analyse (order : Order)

inductive ArgumentFault where
  | missingValue (option : String)
  | invalidMaxSlices (given : String)
  | unknownOption (argument : String)
  | repeatedAnalysis
  | unknownAnalysis (argument : String)
  | noAnalysis
  | noModel
  | noRequest

/-- The text of a fault. Where no analysis could be found the help follows. -/
def ArgumentFault.message : ArgumentFault → String
  | .missingValue option => "error: " ++ option ++ " expects a value"
  | .invalidMaxSlices given =>
      "error: invalid --max-slices '" ++ given ++ "' (expected a positive integer)"
  | .unknownOption argument => "error: unknown option '" ++ argument ++ "'"
  | .repeatedAnalysis => "error: computation provided multiple times"
  | .unknownAnalysis argument =>
      "error: unknown computation '" ++ argument ++ "'\n\n" ++ helpText
  | .noAnalysis => "error: no computation given\n\n" ++ helpText
  | .noModel => "error: --model is required"
  | .noRequest => "error: --request is required"

/-- The options that take a value. -/
inductive ValueOption where
  | model
  | request
  | jobId
  | maxSlices

namespace ValueOption

def ofFlag? : String → Option ValueOption
  | "--model" => some .model
  | "-m" => some .model
  | "--request" => some .request
  | "-r" => some .request
  | "--job-id" => some .jobId
  | "--max-slices" => some .maxSlices
  | _ => none

def flag : ValueOption → String
  | .model => "--model"
  | .request => "--request"
  | .jobId => "--job-id"
  | .maxSlices => "--max-slices"

def apply (settings : Settings) (value : String) : ValueOption → Except ArgumentFault Settings
  | .model => .ok { settings with model := some value }
  | .request => .ok { settings with request := some value }
  | .jobId => .ok { settings with jobId := value }
  | .maxSlices =>
      match Limits.read? value with
      | some limit => .ok { settings with maxSlices := some limit }
      | none => .error (.invalidMaxSlices value)

end ValueOption

/-- The parts of a text before and after its first equals sign. -/
def splitAtEquals : List Char → Option (List Char × List Char)
  | [] => none
  | '=' :: rest => some ([], rest)
  | char :: rest => (splitAtEquals rest).map fun (before, after) => (char :: before, after)

/-- The flag of an argument, and the value that follows an equals sign behind a
long flag. -/
def splitArgument (argument : String) : String × Option String :=
  match splitAtEquals argument.toList with
  | some ('-' :: '-' :: flag, value) =>
      (String.ofList ('-' :: '-' :: flag), some (String.ofList value))
  | _ => (argument, none)

/-- Take an argument without a value of its own. -/
def applyFlag (settings : Settings) (argument flag : String) :
    Except ArgumentFault Settings :=
  match flag with
  | "--color" => .ok { settings with color := true }
  | "--no-color" => .ok { settings with color := false }
  | "--json" => .ok { settings with json := true }
  | "--explain" => .ok { settings with explain := true }
  | "-v" => .ok settings
  | "--verbose" => .ok settings
  | _ =>
      if flag.toList.head? = some '-' then .error (.unknownOption argument)
      else
        let analysis? : Option Analysis :=
          if flag = "consistency" then some .consistency
          else if flag = "buildability" then some .buildability
          else none
        match analysis?, settings.analysis with
        | none, _ => .error (.unknownAnalysis argument)
        | some _, some _ => .error .repeatedAnalysis
        | some analysis, none => .ok { settings with analysis := some analysis }

/-- The order that complete settings give. -/
def Settings.complete (settings : Settings) : Except ArgumentFault Invocation :=
  match settings.analysis, settings.model, settings.request with
  | none, _, _ => .error .noAnalysis
  | some _, none, _ => .error .noModel
  | some _, some _, none => .error .noRequest
  | some analysis, some model, some request =>
      .ok (.analyse ⟨analysis, model, request, settings⟩)

/-- Read arguments on top of some settings. -/
def readArguments (settings : Settings) : List String → Except ArgumentFault Invocation
  | [] => settings.complete
  | argument :: rest =>
      let (flag, inline) := splitArgument argument
      if flag = "-h" || flag = "--help" then .ok .help
      else if flag = "-V" || flag = "--version" then .ok .version
      else
        match ValueOption.ofFlag? flag with
        | some option =>
            match inline, rest with
            | some value, rest => do
                let settings ← option.apply settings value
                readArguments settings rest
            | none, value :: others => do
                let settings ← option.apply settings value
                readArguments settings others
            | none, [] => .error (.missingValue option.flag)
        | none => do
            let settings ← applyFlag settings argument flag
            readArguments settings rest
termination_by arguments => arguments.length

end RuleSlicing.CommandLine
