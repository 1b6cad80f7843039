import RuleSlicing.Analysis.Buildability
import RuleSlicing.Analysis.Consistency
import RuleSlicing.Response.Status
import RuleSlicing.Response.Windows

/-!
# Responses

A response has an entry for each result that occurs. The slices of an entry are
the merged combinations of values with that result. In a second pass the details
of the combinations are filed under the entries, which are looked up by the
results. A response with a list of elements has such entries for each element.
Entries and elements are numbered from one.
-/

set_option autoImplicit false

namespace RuleSlicing

/-! ## Entries -/

/-- A result with the slices that have it. -/
structure Entry (Main : Type) where
  id : Nat
  result : Main
  slices : List Slice

/-- What is reported beside the result of one combination of values. -/
structure SliceDetail (Detail : Type) where
  slice : Slice
  detail : Detail

structure ElementEntries (Element Main : Type) where
  id : Nat
  element : Element
  entries : List (Entry Main)

@[ext] structure SingleResponse (Main Detail : Type) where
  status : Status
  entries : List (Entry Main)
  /-- The details by the number of their entry. Entries without details are left out. -/
  details : List (Nat × List (SliceDetail Detail))

structure ListResponse (Element Main : Type) where
  status : Status
  elements : List (ElementEntries Element Main)

/-- Combine the items of a list with their numbers, from one. -/
def numbered {Item : Type} (items : List Item) : List (Nat × Item) :=
  (items.zipIdx 1).map fun (item, id) => (id, item)

/-- The entry of the combinations of values that share a result. -/
def Entry.ofKeys {Main : Type} (dimensions : List ReportedDimension) (id : Nat) (result : Main)
    (keys : List Slice) : Entry Main :=
  ⟨id, result, ReportedDimension.mergeAll dimensions keys⟩

/-- The dimensions of a run that are reported value by value. -/
def Run.reported {Result : Type} (run : Run Result) (model : Model) : List ReportedDimension :=
  ReportedDimension.ofSelectors run.selectors model.space (run.keys.map (·.1))

/-! ## Responses of computations -/

namespace SingleComputation

variable {Result Main Detail : Type} [BEq Main]

def groups (computation : SingleComputation Result Main Detail) (run : Run Result) :
    List (Nat × Main × List (Slice × Result)) :=
  numbered (groupBy (fun (_, result) => computation.main result) run.keys)

def entriesOf (computation : SingleComputation Result Main Detail) (run : Run Result)
    (dimensions : List ReportedDimension) : List (Entry Main) :=
  (computation.groups run).map fun (id, result, keys) =>
    .ofKeys dimensions id result (keys.map (·.1))

/-- The first entry with an equal result. -/
def entryOf? (computation : SingleComputation Result Main Detail) (entries : List (Entry Main))
    (result : Result) : Option (Entry Main) :=
  entries.find? fun entry => entry.result == computation.main result

/-- File the detail of a combination of values, if it has one, behind those that are
filed under the number of its entry. -/
def fileDetail (computation : SingleComputation Result Main Detail) (entries : List (Entry Main))
    (filed : SortedMap Nat (List (SliceDetail Detail))) :
    Slice × Result → SortedMap Nat (List (SliceDetail Detail))
  | (slice, result) =>
      match computation.detail? result, computation.entryOf? entries result with
      | some detail, some entry =>
          filed.insert entry.id ((filed.get? entry.id).getD [] ++ [⟨slice, detail⟩])
      | _, _ => filed

/-- The details of all combinations, in their order, by the numbers of their entries. -/
def fileDetails (computation : SingleComputation Result Main Detail)
    (entries : List (Entry Main)) (keys : List (Slice × Result)) :
    SortedMap Nat (List (SliceDetail Detail)) :=
  keys.foldl (computation.fileDetail entries) ∅

/-- The response of a computation to a request on a model. -/
def respond (computation : SingleComputation Result Main Detail) (jobId : String)
    (request : Request) (model : Model) (limits : Limits) :
    Except AnalysisError (SingleResponse Main Detail) := do
  let run ← computation.run request model limits
  let entries := computation.entriesOf run (run.reported model)
  return {
    status := .ofRun jobId request .single run
    entries := entries
    details := (computation.fileDetails entries run.keys).entries }

end SingleComputation

namespace ListComputation

variable {Result Element Main : Type} [LinearOrdered Element] [BEq Main]

def occurring (computation : ListComputation Result Element Main) (run : Run Result) :
    SortedSet Element :=
  run.keys.foldr (fun (_, result) elements => (computation.elements result).union elements) ∅

def mainOf (computation : ListComputation Result Element Main) (element : Element)
    (result : Result) : Main :=
  (computation.main? element result).getD computation.absent

def entriesOf (computation : ListComputation Result Element Main) (run : Run Result)
    (dimensions : List ReportedDimension) (element : Element) : List (Entry Main) :=
  (numbered (groupBy (fun (_, result) => computation.mainOf element result) run.keys)).map
    fun (id, result, keys) => .ofKeys dimensions id result (keys.map (·.1))

/-- The response of a computation to a request on a model. -/
def respond (computation : ListComputation Result Element Main) (jobId : String)
    (request : Request) (model : Model) (limits : Limits) :
    Except AnalysisError (ListResponse Element Main) := do
  let run ← computation.run request model limits
  let dimensions := run.reported model
  return {
    status := .ofRun jobId request .list run
    elements := (numbered (computation.occurring run).toList).map fun (id, element) =>
      ⟨id, element, computation.entriesOf run dimensions element⟩ }

end ListComputation

/-! ## Wire form -/

def Entry.toJson {Main : Type} (mainJson : Main → Json) (entry : Entry Main) : Json :=
  .object [
    ("id", .integer entry.id),
    ("result", mainJson entry.result),
    ("slices", .array (entry.slices.map (·.toJson)))]

def SliceDetail.toJson {Detail : Type} (detailJson : Detail → Json)
    (detail : SliceDetail Detail) : Json :=
  .object [("slice", detail.slice.toJson), ("detail", detailJson detail.detail)]

/-- The JSON form of a response. Without details the member for them is left out. -/
def SingleResponse.toJson {Main Detail : Type} (mainJson : Main → Json)
    (detailJson : Detail → Json) (response : SingleResponse Main Detail) : Json :=
  let details := response.details.map fun (id, details) =>
    (toString id, Json.array (details.map (·.toJson detailJson)))
  .objectOf [
    some ("status", response.status.toJson),
    some ("results", .array (response.entries.map (·.toJson mainJson))),
    if details.isEmpty then none else some ("details", .object details)]

def ElementEntries.toJson {Element Main : Type} (elementJson : Element → Json)
    (mainJson : Main → Json) (entries : ElementEntries Element Main) : Json :=
  .object [
    ("element", .object [
      ("id", .integer entries.id), ("content", elementJson entries.element)]),
    ("results", .array (entries.entries.map (·.toJson mainJson)))]

def ListResponse.toJson {Element Main : Type} (elementJson : Element → Json)
    (mainJson : Main → Json) (response : ListResponse Element Main) : Json :=
  .object [
    ("status", response.status.toJson),
    ("results", .array (response.elements.map (·.toJson elementJson mainJson)))]

def SingleResponse.consistencyJson (response : SingleResponse Bool ConsistencyDetail) : Json :=
  response.toJson .bool (·.toJson)

def ListResponse.buildabilityJson (response : ListResponse String FeatureStatus) : Json :=
  response.toJson .string fun status => .string status.render

end RuleSlicing
