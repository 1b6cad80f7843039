import RuleSlicing.Proofs.DecodedParts
import RuleSlicing.Proofs.FormulaForms
import RuleSlicing.Request.Basic

/-!
# What is written is read back

A request may leave fields out, give null for them, or list its fields in an array. It is written
with every default filled in, and what is written is decoded to the same request, provided that its
floating-point numbers are read back. It has none if all numbers were integers of 64 bits. Formulas
are read back as long as their forms nest no deeper than the reader allows.
-/

set_option autoImplicit false

namespace RuleSlicing

namespace Json

/-! ## Decoders that take back what they gave -/

/-- What is decoded within some levels is decoded again from the way it is written. -/
def Decoder.Restores {Value : Type} (decoder : Decoder Value) (toJson : Value → Json)
    (depth : Nat) : Prop :=
  ∀ ⦃tree value⦄, decoder depth tree = some value → (toJson value).AllFloats IsLegible →
    decoder depth (toJson value).written = some value

namespace Decoder

variable {Value : Type}

theorem restores_text (depth : Nat) : text.Restores .string depth := fun _ _ _ _ => rfl

theorem restores_bool (depth : Nat) : bool.Restores .bool depth := fun _ _ _ _ => rfl

theorem restores_value (depth : Nat) : value.Restores id depth := fun _ _ => value?_written

theorem restores_name {ofName? : String → Option Value} {render : Value → String}
    (inverse : ∀ value, ofName? (render value) = some value) (depth : Nat) :
    (name ofName?).Restores (fun value => .string (render value)) depth :=
  fun _ value _ _ => inverse value

theorem restores_list {item : Decoder Value} {toJson : Value → Json} {depth : Nat}
    (restores : ∀ inner, depth = inner + 1 → item.Restores toJson inner) :
    (list item).Restores (fun values => .array (values.map toJson)) depth := by
  intro tree values decoded legible
  rw [allFloats_array_iff, List.forall_mem_map] at legible
  cases depth with
  | zero => cases tree <;> cases decoded
  | succ depth =>
      have each : ∀ value ∈ values, item depth (toJson value).written = some value := by
        intro value member
        cases tree with
        | array trees =>
            obtain ⟨tree, _, decoded⟩ :=
              exists_left_of_forall₂ ((mapM_eq_some_iff _ _ _).mp decoded) member
            exact restores depth rfl decoded (legible value member)
        | null | bool | number | string | object => cases decoded
      show (writtenItems (values.map toJson)).mapM (item depth) = some values
      rw [writtenItems_eq_map, List.map_map, mapM_eq_some_iff, List.forall₂_map_left_iff,
        List.forall₂_same]
      exact each

theorem restores_values (depth : Nat) : (list value).Restores .array depth := by
  have restores := restores_list fun inner (_ : depth = inner + 1) => restores_value inner
  simpa only [List.map_id] using restores

end Decoder

/-- Only null is read as null. -/
theorem eq_null_of_value? {depth : Nat} {tree : Written} {value : Json}
    (read : tree.value? depth = some value) (isNull : value = .null) : tree = .null := by
  subst isNull
  cases tree with
  | null => rfl
  | number literal =>
      rw [Written.value?] at read
      obtain ⟨_, _, _, same⟩ | ⟨_, same⟩ := eq_of_number? read <;> cases same
  | bool | string => simp [Written.value?] at read
  | array | object => cases depth <;> simp [Written.value?] at read

theorem written_ne_null {value : Json} (noNull : value ≠ .null)
    (legible : value.AllFloats IsLegible) : value.written ≠ .null := by
  cases value with
  | null => exact absurd rfl noNull
  | float number =>
      obtain ⟨literal, prints, _⟩ := legible number (List.mem_singleton.mpr rfl)
      rw [written_float prints]
      exact Written.noConfusion
  | bool | integer | string | array | object => simp [written]

/-! ## Fields -/

/-! What has been read of a field is read again from a record that holds it as it is written. -/

namespace Fields

variable {Value : Type} {fields again : Fields} {name : String} {decoder : Decoder Value}
  {toJson : Value → Json}

theorem required?_written {value : Value} (read : fields.required? name decoder = some value)
    (restores : decoder.Restores toJson fields.depth) (sameDepth : again.depth = fields.depth)
    (found : again.find? name = some (toJson value).written)
    (legible : (toJson value).AllFloats IsLegible) :
    again.required? name decoder = some value := by
  obtain ⟨tree, _, decoded⟩ := exists_of_required? read
  rw [required?, found, sameDepth]
  exact restores decoded legible

theorem withDefault?_written {default value : Value}
    (read : fields.withDefault? name default decoder = some value)
    (restores : decoder.Restores toJson fields.depth)
    (restored : decoder fields.depth (toJson default).written = some default)
    (sameDepth : again.depth = fields.depth)
    (found : again.find? name = some (toJson value).written)
    (legible : (toJson value).AllFloats IsLegible) :
    again.withDefault? name default decoder = some value := by
  rw [withDefault?, found, sameDepth]
  obtain rfl | ⟨tree, _, decoded⟩ := exists_of_withDefault? read
  · exact restored
  · exact restores decoded legible

theorem optional?_written {value? : Option Value}
    (read : fields.optional? name decoder = some value?)
    (restores : decoder.Restores toJson fields.depth)
    (keepsNull : ∀ ⦃tree value⦄, decoder fields.depth tree = some value → toJson value = .null →
      tree = .null)
    (sameDepth : again.depth = fields.depth)
    (found : again.find? name = value?.map fun value => (toJson value).written)
    (legible : ∀ value ∈ value?, (toJson value).AllFloats IsLegible) :
    again.optional? name decoder = some value? := by
  rw [optional?, withDefault?, found]
  cases value? with
  | none => rfl
  | some value =>
      have legible := legible value rfl
      -- A value that was there is not written as null, which would be read as left out.
      obtain ⟨tree, noNull, _, decoded⟩ := exists_of_optional? read
      show decoder.optional again.depth (toJson value).written = some (some value)
      rw [Decoder.optional_of_ne_null (written_ne_null (mt (keepsNull decoded) noNull) legible),
        sameDepth, restores decoded legible]
      rfl

end Fields

end Json

open Json (Decoder Fields IsLegible)

/-! ## Requests -/

namespace RangeSpec

/-- The fields of a range as it is written. -/
theorem fields_written (spec : RangeSpec) (depth : Nat) :
    ∃ fields, Fields.of? ["values", "min", "max"] (depth + 1) spec.toJson.written = some fields ∧
      fields.depth = depth ∧
      fields.find? "values" = spec.values.map (fun values => (Json.array values).written) ∧
      fields.find? "min" = spec.min.map Json.written ∧
      fields.find? "max" = spec.max.map Json.written := by
  obtain ⟨values, min, max⟩ := spec
  cases values <;> cases min <;> cases max <;> exact ⟨_, rfl, rfl, rfl, rfl, rfl⟩

theorem allFloats_toJson_iff {Holds : Float → Prop} (spec : RangeSpec) :
    spec.toJson.AllFloats Holds ↔ (∀ values ∈ spec.values, (Json.array values).AllFloats Holds) ∧
      (∀ min ∈ spec.min, min.AllFloats Holds) ∧ ∀ max ∈ spec.max, max.AllFloats Holds := by
  obtain ⟨values, min, max⟩ := spec
  cases values <;> cases min <;> cases max <;>
    simp [toJson, Json.objectOf, Json.allFloats_object_iff]

theorem restores_decode (depth : Nat) : Decoder.Restores decode toJson depth := by
  intro tree spec decoded legible
  simp only [decode, Option.bind_eq_bind, Option.bind_eq_some_iff, Option.pure_def,
    Option.some.injEq] at decoded
  obtain ⟨fields, read, values, readValues, min, readMin, max, readMax, rfl⟩ := decoded
  obtain rfl := Fields.depth_of_of? read
  obtain ⟨again, readAgain, sameDepth, foundValues, foundMin, foundMax⟩ :=
    fields_written ⟨values, min, max⟩ fields.depth
  obtain ⟨valuesLegible, minLegible, maxLegible⟩ := (allFloats_toJson_iff _).mp legible
  have valuesAgain : again.optional? "values" (.list .value) = some values :=
    Fields.optional?_written readValues (Decoder.restores_values fields.depth)
      (fun _ _ _ isNull => Json.noConfusion isNull) sameDepth foundValues valuesLegible
  have minAgain : again.optional? "min" .value = some min :=
    Fields.optional?_written readMin (Decoder.restores_value fields.depth)
      (fun _ _ => Json.eq_null_of_value?) sameDepth foundMin minLegible
  have maxAgain : again.optional? "max" .value = some max :=
    Fields.optional?_written readMax (Decoder.restores_value fields.depth)
      (fun _ _ => Json.eq_null_of_value?) sameDepth foundMax maxLegible
  simp only [decode, readAgain, Option.bind_eq_bind, Option.bind_some, valuesAgain, minAgain,
    maxAgain, Option.pure_def]

theorem takesFloats_decode : Decoder.TakesFloats decode toJson := by
  intro depth tree spec decoded
  simp only [decode, Option.bind_eq_bind, Option.bind_eq_some_iff, Option.pure_def,
    Option.some.injEq] at decoded
  obtain ⟨fields, read, values, givenValues, min, givenMin, max, givenMax, rfl⟩ := decoded
  have takesValues : (Decoder.list .value).TakesFloats Json.array := by
    simpa only [List.map_id] using Decoder.takesFloats_list Decoder.takesFloats_value
  exact (allFloats_toJson_iff _).mpr ⟨Fields.allFloats_of_optional? read takesValues givenValues,
    Fields.allFloats_of_optional? read Decoder.takesFloats_value givenMin,
    Fields.allFloats_of_optional? read Decoder.takesFloats_value givenMax⟩

end RangeSpec

namespace DimensionSelection

/-- The fields of a selection as it is written. -/
theorem fields_written (selection : DimensionSelection) (depth : Nat) :
    ∃ fields, Fields.of? ["property", "propertyType", "range", "sliceType"] (depth + 1)
        selection.toJson.written = some fields ∧
      fields.depth = depth ∧
      fields.find? "property" = some (Json.string selection.name).written ∧
      fields.find? "propertyType" = some (Json.string selection.type.render).written ∧
      fields.find? "range" = some selection.range.toJson.written ∧
      fields.find? "sliceType" =
        selection.discipline.map fun discipline => (Json.string discipline.render).written := by
  obtain ⟨name, type, range, discipline⟩ := selection
  cases discipline <;> exact ⟨_, rfl, rfl, rfl, rfl, rfl, rfl⟩

theorem allFloats_toJson_iff {Holds : Float → Prop} (selection : DimensionSelection) :
    selection.toJson.AllFloats Holds ↔ selection.range.toJson.AllFloats Holds := by
  obtain ⟨name, type, range, discipline⟩ := selection
  cases discipline <;>
    simp [toJson, Json.objectOf, Json.allFloats_object_iff, Json.allFloats_string]

/-- The range of a selection takes a second level when it is written, also if it was left out. -/
theorem restores_decode {depth : Nat} (levels : 2 ≤ depth) :
    Decoder.Restores decode toJson depth := by
  intro tree selection decoded legible
  simp only [decode, Option.bind_eq_bind, Option.bind_eq_some_iff, Option.pure_def,
    Option.some.injEq] at decoded
  obtain ⟨fields, read, name, readName, type, readType, range, readRange, discipline,
    readDiscipline, rfl⟩ := decoded
  obtain rfl := Fields.depth_of_of? read
  obtain ⟨again, readAgain, sameDepth, foundName, foundType, foundRange, foundDiscipline⟩ :=
    fields_written ⟨name, type, range, discipline⟩ fields.depth
  have nameAgain : again.required? "property" .text = some name :=
    Fields.required?_written readName (Decoder.restores_text _) sameDepth foundName
      (Json.allFloats_string _)
  have typeAgain : again.required? "propertyType" PropertyType.decode = some type :=
    Fields.required?_written readType (Decoder.restores_name PropertyType.ofName?_render _)
      sameDepth foundType (Json.allFloats_string _)
  have wholeRange : RangeSpec.decode fields.depth (RangeSpec.toJson ⟨none, none, none⟩).written =
      some ⟨none, none, none⟩ := by
    obtain ⟨inner, isSucc⟩ := Nat.exists_eq_add_of_le' (Nat.le_of_succ_le_succ levels)
    rw [isSucc]
    rfl
  have rangeAgain : again.withDefault? "range" ⟨none, none, none⟩ RangeSpec.decode = some range :=
    Fields.withDefault?_written readRange (RangeSpec.restores_decode _) wholeRange sameDepth
      foundRange ((allFloats_toJson_iff _).mp legible)
  have disciplineAgain : again.optional? "sliceType" Discipline.decode = some discipline :=
    Fields.optional?_written readDiscipline (Decoder.restores_name Discipline.ofName?_render _)
      (fun _ _ _ isNull => Json.noConfusion isNull) sameDepth foundDiscipline
      fun _ _ => Json.allFloats_string _
  simp only [decode, readAgain, Option.bind_eq_bind, Option.bind_some, nameAgain, typeAgain,
    rangeAgain, disciplineAgain, Option.pure_def]

theorem takesFloats_decode : Decoder.TakesFloats decode toJson := by
  intro depth tree selection decoded
  simp only [decode, Option.bind_eq_bind, Option.bind_eq_some_iff, Option.pure_def,
    Option.some.injEq] at decoded
  obtain ⟨fields, read, name, _, type, _, range, givenRange, discipline, _, rfl⟩ := decoded
  have plain : (RangeSpec.toJson ⟨none, none, none⟩).AllFloats tree.Denotes :=
    Json.allFloats_of_floats_eq_nil rfl
  exact (allFloats_toJson_iff _).mpr
    (Fields.allFloats_of_withDefault? read RangeSpec.takesFloats_decode plain givenRange)

end DimensionSelection

namespace Request

/-- The fields of a request as it is written. -/
theorem fields_written (request : Request) (depth : Nat) :
    ∃ fields, Fields.of?
        ["ruleFileId", "sliceSelection", "additionalConstraints", "computeAllDetails"] (depth + 1)
        request.toJson.written = some fields ∧
      fields.depth = depth ∧
      fields.find? "ruleFileId" = some (Json.string request.ruleFileId).written ∧
      fields.find? "sliceSelection" =
        some (Json.array (request.selections.map (·.toJson))).written ∧
      fields.find? "additionalConstraints" = some (Json.strings request.constraints).written ∧
      fields.find? "computeAllDetails" = some (Json.bool request.allDetails).written :=
  ⟨_, rfl, rfl, rfl, rfl, rfl, rfl⟩

theorem allFloats_toJson_iff {Holds : Float → Prop} (request : Request) :
    request.toJson.AllFloats Holds ↔
      ∀ selection ∈ request.selections, selection.toJson.AllFloats Holds := by
  simp [toJson, Json.allFloats_object_iff, Json.allFloats_array_iff, Json.strings, Json.allFloats_string,
    Json.allFloats_bool]

/-- The selections of a request take their two levels in a list within an object. -/
theorem restores_decode {depth : Nat} (levels : 4 ≤ depth) :
    Decoder.Restores decode toJson depth := by
  intro tree request decoded legible
  simp only [decode, Option.bind_eq_bind, Option.bind_eq_some_iff, Option.pure_def,
    Option.some.injEq] at decoded
  obtain ⟨fields, read, ruleFileId, readId, selections, readSelections, constraints,
    readConstraints, allDetails, readDetails, rfl⟩ := decoded
  obtain rfl := Fields.depth_of_of? read
  obtain ⟨again, readAgain, sameDepth, foundId, foundSelections, foundConstraints, foundDetails⟩ :=
    fields_written ⟨ruleFileId, selections, constraints, allDetails⟩ fields.depth
  obtain ⟨inner, isSucc⟩ := Nat.exists_eq_add_of_le' (Nat.le_of_succ_le_succ levels)
  have idAgain : again.withDefault? "ruleFileId" "" .text = some ruleFileId :=
    Fields.withDefault?_written readId (Decoder.restores_text _) rfl sameDepth foundId
      (Json.allFloats_string _)
  have selectionsAgain : again.withDefault? "sliceSelection" [] (.list DimensionSelection.decode) =
      some selections :=
    Fields.withDefault?_written readSelections
      (Decoder.restores_list fun inner isSucc => DimensionSelection.restores_decode (by omega))
      (by rw [isSucc]; rfl) sameDepth foundSelections
      ((Json.allFloats_array_iff _).mpr
        (List.forall_mem_map.mpr ((allFloats_toJson_iff _).mp legible)))
  have constraintsAgain : again.withDefault? "additionalConstraints" [] (.list .text) =
      some constraints :=
    Fields.withDefault?_written readConstraints
      (Decoder.restores_list fun inner _ => Decoder.restores_text inner)
      (by rw [isSucc]; rfl) sameDepth foundConstraints
      ((Json.allFloats_array_iff _).mpr (List.forall_mem_map.mpr fun _ _ => Json.allFloats_string _))
  have detailsAgain : again.withDefault? "computeAllDetails" false .bool = some allDetails :=
    Fields.withDefault?_written readDetails (Decoder.restores_bool _) rfl sameDepth foundDetails
      (Json.allFloats_bool _)
  simp only [decode, readAgain, Option.bind_eq_bind, Option.bind_some, idAgain, selectionsAgain,
    constraintsAgain, detailsAgain, Option.pure_def]

theorem takesFloats_decode : Decoder.TakesFloats decode toJson := by
  intro depth tree request decoded
  simp only [decode, Option.bind_eq_bind, Option.bind_eq_some_iff, Option.pure_def,
    Option.some.injEq] at decoded
  obtain ⟨fields, read, ruleFileId, _, selections, givenSelections, constraints, _, allDetails, _,
    rfl⟩ := decoded
  have plain : (Json.array (List.map DimensionSelection.toJson [])).AllFloats tree.Denotes :=
    Json.allFloats_of_floats_eq_nil rfl
  have takes := Fields.allFloats_of_withDefault? read
    (Decoder.takesFloats_list DimensionSelection.takesFloats_decode) plain givenSelections
  exact (allFloats_toJson_iff _).mpr
    (List.forall_mem_map.mp ((Json.allFloats_array_iff _).mp takes))

/-- A request that has been read is read again from its own text if its floating-point numbers
are. -/
theorem read_compact {tree : Json.Written} {request : Request}
    (decoded : decode Json.greatestNesting tree = some request)
    (legible : request.toJson.AllFloats IsLegible) :
    read request.toJson.compact = .ok request := by
  rw [read, Json.read?_compact (legible.imp fun _ => IsLegible.isNumber)]
  show ofWritten request.toJson.written = .ok request
  rw [ofWritten, restores_decode (by decide) decoded legible]

end Request

/-- Formulas and requests are read back from the texts that they are written as. A formula is read
back exactly if its form nests within the levels of the reader, and what is decoded to a formula is
the form of that formula, so no two formulas share a text. A request is read back if all numbers of
the text that it has been decoded from are integers of 64 bits. -/
theorem wire_forms_read_back :
    (∀ depth formula,
      (Json.Written.read? formula.toJson.compact).bind (Formula.decode depth) =
        if formula.toJson.nesting ≤ depth then some formula else none) ∧
    (∀ depth tree formula, Formula.decode depth tree = some formula →
      tree.value? depth = some formula.toJson ∧
        Json.Written.read? formula.toJson.compact = some tree) ∧
    (∀ left right : Formula, left.toJson.compact = right.toJson.compact → left = right) ∧
    ∀ tree request, Request.decode Json.greatestNesting tree = some request →
      tree.IsIntegral → Request.read request.toJson.compact = .ok request := by
  refine ⟨Formula.decode_compact, ?_, ?_, ?_⟩
  · intro depth tree formula decoded
    obtain ⟨rfl, fits⟩ := Formula.isForm_of_decode decoded
    exact ⟨formula.value?_written fits, formula.read?_compact⟩
  · intro left right same
    have written : some left.toJson.written = some right.toJson.written := by
      rw [← left.read?_compact, ← right.read?_compact, same]
    exact Formula.written_injective (Option.some.inj written)
  · intro tree request decoded integral
    have legible : request.toJson.AllFloats IsLegible :=
      Request.takesFloats_decode.allFloats_of_isIntegral decoded integral
    exact request.read_compact decoded legible

namespace Sample

/-- A request with a selection as an array, fields that are null or missing, integers, and a member
that is no field. -/
def writtenRequest : Json.Written :=
  .object [
    (some "note", .number ⟨false, [7], [], none⟩),
    (some "sliceSelection", .array [
      .array [.string (some "size"), .string (some "INT"),
        .object [(some "min", .null), (some "values", .array [.number ⟨true, [1, 2], [], none⟩])],
        .string (some "SPLIT")],
      .object [
        (some "sliceType", .null), (some "propertyType", .string (some "DATE")),
        (some "property", .string (some "since"))]]),
    (some "ruleFileId", .string (some "rules"))]

def decodedRequest : Request where
  ruleFileId := "rules"
  selections := [
    ⟨"size", .integer, ⟨some [.integer (-12)], none, none⟩, some .split⟩,
    ⟨"since", .date, ⟨none, none, none⟩, none⟩]
  constraints := []
  allDetails := false

def writtenRule : Json.Written :=
  .object [(some "implies", .array [
    .object [(some "var", .string (some "winter"))],
    .object [(some "or", .array [.object [(some "const", .bool false)]])]])]

def decodedRule : Formula := .implies (.var "winter") (.or [.const false])

end Sample

theorem wire_forms_read_back_sample :
    Request.decode Json.greatestNesting Sample.writtenRequest = some Sample.decodedRequest ∧
    Sample.writtenRequest.IsIntegral ∧
    Request.read Sample.decodedRequest.toJson.compact = .ok Sample.decodedRequest ∧
    Formula.decode Json.greatestNesting Sample.writtenRule = some Sample.decodedRule ∧
    Json.Written.read? Sample.decodedRule.toJson.compact = some Sample.writtenRule := by
  obtain ⟨_, formulas, _, requests⟩ := wire_forms_read_back
  have request : Request.decode Json.greatestNesting Sample.writtenRequest =
      some Sample.decodedRequest := rfl
  have integral : Sample.writtenRequest.IsIntegral := by decide
  have rule : Formula.decode Json.greatestNesting Sample.writtenRule =
      some Sample.decodedRule := rfl
  exact ⟨request, integral, requests _ _ request integral, rule, (formulas _ _ _ rule).2⟩

namespace Sample

/-- The way a request for one number is written. -/
def writtenFor (literal : Decimal.Literal) : Json.Written :=
  .object [
    (some "ruleFileId", .string (some "rules")),
    (some "sliceSelection", .array [.object [
      (some "property", .string (some "size")), (some "propertyType", .string (some "INT")),
      (some "range", .object [(some "values", .array [.number literal])])]]),
    (some "additionalConstraints", .array []),
    (some "computeAllDetails", .bool false)]

def requestFor (number : Json) : Request where
  ruleFileId := "rules"
  selections := [⟨"size", .integer, ⟨some [number], none, none⟩, none⟩]
  constraints := []
  allDetails := false

theorem decode_writtenFor {literal : Decimal.Literal} {number : Json}
    (denotes : Json.number? literal = some number) :
    Request.decode Json.greatestNesting (writtenFor literal) = some (requestFor number) := by
  simp [Request.decode, DimensionSelection.decode, RangeSpec.decode, PropertyType.decode,
    Decoder.list, Decoder.optional, Decoder.name, Decoder.text, Decoder.value, Decoder.bool,
    Fields.of?, Fields.ofMembers?, Fields.find?, Fields.required?, Fields.withDefault?,
    Fields.optional?, Json.Written.value?, Json.greatestNesting, PropertyType.ofName?, writtenFor,
    requestFor, denotes]

theorem read_requestFor {number : Float} {literal : Decimal.Literal}
    (prints : Json.PrintsAs number literal) {again : Json}
    (denotes : Json.number? literal = some again) :
    Request.read (requestFor (.float number)).toJson.compact = .ok (requestFor again) := by
  have numbers : (requestFor (.float number)).toJson.AllFloats Json.IsNumber := by
    intro other member
    obtain rfl := List.mem_singleton.mp member
    exact ⟨literal, prints⟩
  have written : (requestFor (.float number)).toJson.written = writtenFor literal := by
    rw [writtenFor, ← Json.written_float prints]
    rfl
  rw [Request.read, Json.read?_compact numbers, written]
  show Request.ofWritten (writtenFor literal) = _
  rw [Request.ofWritten, decode_writtenFor denotes]

/-- An integer of more than 64 bits, which denotes a floating-point number. -/
def wideInteger : Decimal.Literal :=
  ⟨false, [1, 2, 3, 4, 5, 6, 7, 8, 9, 0, 1, 2, 3, 4, 5, 6, 7, 8, 9, 0, 1], [], none⟩

/-- The text of the number that the integer denotes. -/
def roundedInteger : Decimal.Literal :=
  ⟨false, [1], [2, 3, 4, 5, 6, 7, 8, 9, 0, 1, 2, 3, 4, 5, 6, 7], some (false, [2, 0])⟩

/-- What the integer denotes, and what the text of that denotes. -/
def rounded : Float := .ofBits 4907451598986591449

def roundedAgain : Float := .ofBits 4907451598986591450

theorem number?_wideInteger : Json.number? wideInteger = some (.float rounded) := by
  have wide : wideInteger.toInt? = some 123456789012345678901 := by decide
  have denotes : wideInteger.toFloat? = some rounded := by decide +kernel
  rw [Json.number?, wide, denotes]
  rfl

theorem number?_roundedInteger : Json.number? roundedInteger = some (.float roundedAgain) := by
  have denotes : roundedInteger.toFloat? = some roundedAgain := by decide +kernel
  rw [Json.number?, denotes]
  rfl

theorem printsAs_rounded : Json.PrintsAs rounded roundedInteger := by
  have text : (Json.float rounded).compact = "1.2345678901234567e+20" := by
    rw [Json.compact]
    decide +kernel
  rw [Json.PrintsAs, text]
  rfl

end Sample

/-- What goes beyond the limits of the reader is not read back: a formula of more levels than it
allows is refused, and an integer of more than 64 bits is rounded each time that it is read. -/
theorem beyond_limits_unread :
    (Json.Written.read? (Nat.iterate Formula.not 127 (.var "A")).toJson.compact).bind
      (Formula.decode Json.greatestNesting) = none ∧
    ∃ request,
      Request.decode Json.greatestNesting (Sample.writtenFor Sample.wideInteger) = some request ∧
      Request.read request.toJson.compact ≠ .ok request := by
  constructor
  · rw [Formula.decode_compact, Formula.nesting_iterate_not]
    rfl
  · refine ⟨_, Sample.decode_writtenFor Sample.number?_wideInteger, fun same => ?_⟩
    rw [Sample.read_requestFor Sample.printsAs_rounded Sample.number?_roundedInteger] at same
    have different : Sample.roundedAgain ≠ Sample.rounded := by decide +kernel
    simp [Sample.requestFor, different] at same

end RuleSlicing
