import RuleSlicing.CommandLine.Palette
import RuleSlicing.Response.Basic

/-!
# Reports

A report shows a response to a reader: the sets of slices, the results, the
messages and the figures of the run, line by line.
-/

set_option autoImplicit false

namespace RuleSlicing.CommandLine

namespace Report

def heading (palette : Palette) (title : String) : List String :=
  ["", palette.paint .gray ("━━━ " ++ title ++ " ━━━")]

def sliceLines (palette : Palette) (slices : List Slice) : List String :=
  slices.map fun slice => "      " ++ palette.paint .dim slice.render

def countSlices (count : Nat) : String :=
  toString count ++ " slice" ++ (if count = 1 then "" else "s")

def setLines (palette : Palette) (number : Nat) (slices : List Slice) : List String :=
  ("  " ++ palette.paint .blue ("Set " ++ toString number ++ ":") ++ " "
    ++ palette.paint .dim (countSlices slices.length)) :: sliceLines palette slices

/-- The first lines of a report: what was analysed, and the sets of slices. -/
def opening (palette : Palette) (analysis : String) (status : Status) : List String :=
  let title :=
    "⚙  " ++ analysis ++ ": rule file \"" ++ status.ruleFileId ++ "\" (job "
      ++ status.jobId ++ ")"
  let sets := (numbered status.sliceSets).flatMap fun (number, slices) =>
    setLines palette number slices
  ["", palette.paint .bold (palette.paint .cyan title)]
    ++ heading palette "Slice Sets"
    ++ (if sets.isEmpty then [palette.paint .dim "  No slice sets computed"] else sets)

def messageLines (palette : Palette) (style : Style) (kind : String) (messages : List String) :
    List String :=
  messages.map fun message => "  " ++ palette.paint style (kind ++ ":") ++ " " ++ message

def messages (palette : Palette) (notices : Notices) : List String :=
  let lines := messageLines palette .red "error" notices.errors
    ++ messageLines palette .yellow "warning" notices.warnings
    ++ messageLines palette .cyan "info" notices.infos
  if lines.isEmpty then [] else heading palette "Messages" ++ lines

/-- The last lines of a report: the messages, the figures and the verdict. -/
def closing (palette : Palette) (status : Status) : List String :=
  let figures :=
    "  Total: " ++ palette.paint .green (toString status.timing.total ++ "ms")
      ++ "  │  Slices: " ++ palette.paint .cyan (toString status.sliceCount)
      ++ "  │  Computations: " ++ palette.paint .cyan (toString status.computationCount)
      ++ "  │  Avg: " ++ palette.paint .dim (toString status.timing.average ++ "ms")
  let verdict :=
    if status.success then palette.paint .green "✓ success" else palette.paint .red "✗ failed"
  messages palette status.notices
    ++ heading palette "Timing"
    ++ [figures, "  " ++ verdict, ""]

def detailLines (palette : Palette) (detail : SliceDetail ConsistencyDetail) : List String :=
  let line (style : Style) (title text : String) :=
    "      " ++ palette.paint style title ++ " "
      ++ palette.paint .dim ("[" ++ detail.slice.render ++ "] " ++ text)
  let examples := detail.detail.example?.toList.map fun codes =>
    line .green "example" (" ".intercalate codes)
  let conflicts := detail.detail.explanation?.toList.map fun labels =>
    line .red "conflict" (", ".intercalate labels)
  examples ++ conflicts

def consistencyEntry (palette : Palette)
    (details : List (Nat × List (SliceDetail ConsistencyDetail))) (entry : Entry Bool) :
    List String :=
  let verdict :=
    if entry.result then palette.paint .green "consistent"
    else palette.paint .red "inconsistent"
  let filed := (details.filter (·.1 = entry.id)).flatMap (·.2)
  ("  " ++ palette.paint .bold ("#" ++ toString entry.id) ++ " " ++ verdict)
    :: sliceLines palette entry.slices ++ filed.flatMap (detailLines palette)

/-- The slices of an entry in short: the first one and the number of others. -/
def sliceLabel : List Slice → String
  | [] => ""
  | [only] => "[" ++ only.render ++ "]"
  | first :: rest => "[" ++ first.render ++ "] +" ++ toString rest.length ++ " more"

def statusStyle : FeatureStatus → Style
  | .mandatory => .green
  | .optional => .blue
  | .forbidden => .red

/-- A number with a point, right-aligned. -/
def position (number : Nat) : String :=
  let digits := toString number
  String.ofList (List.replicate (3 - digits.length) ' ') ++ digits ++ "."

def featureLines (palette : Palette) (feature : ElementEntries String FeatureStatus) :
    List String :=
  ("  " ++ palette.paint .dim (position feature.id) ++ " "
      ++ palette.paint .bold feature.element)
    :: feature.entries.map fun entry =>
      "      " ++ palette.paint (statusStyle entry.result) entry.result.render ++ " "
        ++ palette.paint .dim (sliceLabel entry.slices)

def ofLines (lines : List String) : String := String.join (lines.map (· ++ "\n"))

def consistency (palette : Palette) (response : SingleResponse Bool ConsistencyDetail) :
    String :=
  let entries := response.entries.flatMap (consistencyEntry palette response.details)
  ofLines <| opening palette "Consistency" response.status
    ++ heading palette "Results"
    ++ (if entries.isEmpty then [palette.paint .dim "  No results"] else entries)
    ++ closing palette response.status

def buildability (palette : Palette) (response : ListResponse String FeatureStatus) : String :=
  let features := response.elements.flatMap (featureLines palette)
  ofLines <| opening palette "Buildability" response.status
    ++ heading palette "Results"
    ++ (if features.isEmpty then [palette.paint .dim "  No features"] else features)
    ++ closing palette response.status

end Report

end RuleSlicing.CommandLine
