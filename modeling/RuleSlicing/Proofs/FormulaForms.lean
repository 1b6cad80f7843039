import RuleSlicing.Logic.Formula
import RuleSlicing.Proofs.Outcomes
import RuleSlicing.Proofs.PrintedTexts

/-!
# The JSON form of a formula

A formula is decoded from the way it is written and from nothing else, given as many levels as its
form nests.
-/

set_option autoImplicit false

namespace RuleSlicing

/-! ## Nesting -/

namespace Json

mutual

/-- How deep the arrays and objects of a value nest. -/
def nesting : Json → Nat
  | .null | .bool _ | .integer _ | .float _ | .string _ => 0
  | .array items => nestingOfItems items + 1
  | .object members => nestingOfMembers members + 1

def nestingOfItems : List Json → Nat
  | [] => 0
  | item :: rest => max (nesting item) (nestingOfItems rest)

def nestingOfMembers : List (String × Json) → Nat
  | [] => 0
  | (_, value) :: rest => max (nesting value) (nestingOfMembers rest)

end

theorem nestingOfItems_le_iff (items : List Json) (depth : Nat) :
    nestingOfItems items ≤ depth ↔ ∀ item ∈ items, item.nesting ≤ depth := by
  induction items with
  | nil => simp [nestingOfItems]
  | cons item rest ih => rw [nestingOfItems, Nat.max_le, ih, List.forall_mem_cons]

theorem nesting_member (key : String) (value : Json) :
    (object [(key, value)]).nesting = value.nesting + 1 := by
  rw [nesting, nestingOfMembers, nestingOfMembers, Nat.max_zero]

theorem nesting_member_le_iff (key : String) (value : Json) (depth : Nat) :
    (object [(key, value)]).nesting ≤ depth ↔
      ∃ inner, depth = inner + 1 ∧ value.nesting ≤ inner := by
  rw [nesting_member]
  cases depth with
  | zero => simp
  | succ depth => simp

theorem nesting_array_le_iff (items : List Json) (depth : Nat) :
    (array items).nesting ≤ depth ↔
      ∃ inner, depth = inner + 1 ∧ ∀ item ∈ items, item.nesting ≤ inner := by
  rw [nesting]
  cases depth with
  | zero => simp
  | succ depth => simp [nestingOfItems_le_iff]

theorem Decoder.bool_eq_some_iff {depth : Nat} {tree : Written} {value : Bool} :
    Decoder.bool depth tree = some value ↔ tree = .bool value := by
  cases tree <;> simp [Decoder.bool]

theorem Decoder.text_eq_some_iff {depth : Nat} {tree : Written} {value : String} :
    Decoder.text depth tree = some value ↔ tree = .string (some value) := by
  cases tree <;> simp [Decoder.text]

end Json

namespace Formula

open Json (Written Decoder)

theorem toJsons_eq_map (parts : List Formula) : toJsons parts = parts.map toJson := by
  induction parts with
  | nil => rfl
  | cons part rest ih => rw [toJsons, ih, List.map_cons]

/-! ## What is decoded -/

/-- A tree is the way a formula is written, and nests within some levels. -/
def IsForm (depth : Nat) (tree : Written) (formula : Formula) : Prop :=
  tree = formula.toJson.written ∧ formula.toJson.nesting ≤ depth

theorem forms_of_mapM {depth : Nat}
    (forms : ∀ {tree formula}, decode depth tree = some formula → IsForm depth tree formula)
    {trees : List Written} {parts : List Formula}
    (decoded : trees.mapM (decode depth) = some parts) :
    trees = Json.writtenItems (toJsons parts) ∧ ∀ item ∈ toJsons parts, item.nesting ≤ depth := by
  rw [mapM_eq_some_iff] at decoded
  rw [toJsons_eq_map, List.forall_mem_map]
  induction decoded with
  | nil => exact ⟨rfl, fun _ none => nomatch none⟩
  | cons decodedPart _ others =>
      obtain ⟨rfl, fits⟩ := forms decodedPart
      rw [List.map_cons, List.forall_mem_cons, others.1]
      exact ⟨rfl, fits, others.2⟩

/-- An operator on one operand. -/
theorem isForm_member {depth : Nat} {key : String} {formula : Formula} (value : Json)
    (form : formula.toJson = .object [(key, value)]) (fits : value.nesting ≤ depth) :
    IsForm (depth + 1) (.object [(some key, value.written)]) formula := by
  rw [IsForm, form]
  exact ⟨rfl, (Json.nesting_member_le_iff _ _ _).mpr ⟨depth, rfl, fits⟩⟩

/-- An operator on a list of operands. -/
theorem isForm_items {depth : Nat} {key : String} {formula : Formula} (items : List Json)
    (form : formula.toJson = .object [(key, .array items)])
    (fits : ∀ item ∈ items, item.nesting ≤ depth) :
    IsForm (depth + 1 + 1) (.object [(some key, .array (Json.writtenItems items))]) formula :=
  isForm_member (.array items) form ((Json.nesting_array_le_iff _ _).mpr ⟨depth, rfl, fits⟩)

theorem isForm_of_decode {depth : Nat} {tree : Written} {formula : Formula}
    (decoded : decode depth tree = some formula) : IsForm depth tree formula := by
  -- An operator on several operands takes two levels at once.
  induction depth using Nat.strong_induction_on generalizing tree formula with
  | _ depth ih =>
      rw [decode.eq_def] at decoded
      split at decoded
      case h_2 => cases decoded
      case h_1 depth key operand =>
        split at decoded
        case h_1 =>
          obtain ⟨value, isBool, rfl⟩ := Option.map_eq_some_iff.mp decoded
          obtain rfl := Decoder.bool_eq_some_iff.mp isBool
          exact isForm_member (.bool value) rfl (Nat.zero_le depth)
        case h_2 =>
          obtain ⟨name, isText, rfl⟩ := Option.map_eq_some_iff.mp decoded
          obtain rfl := Decoder.text_eq_some_iff.mp isText
          exact isForm_member (.string name) rfl (Nat.zero_le depth)
        case h_3 =>
          obtain ⟨part, decodedPart, rfl⟩ := Option.map_eq_some_iff.mp decoded
          obtain ⟨rfl, fits⟩ := ih depth (Nat.lt_succ_self depth) decodedPart
          exact isForm_member part.toJson rfl fits
        case h_4 | h_5 =>
          split at decoded
          · rename_i inner trees
            obtain ⟨parts, decodedParts, rfl⟩ := Option.map_eq_some_iff.mp decoded
            obtain ⟨rfl, fits⟩ := forms_of_mapM (ih inner (by omega)) decodedParts
            exact isForm_items (toJsons parts) rfl fits
          · cases decoded
        case h_6 | h_7 =>
          split at decoded
          · rename_i inner left right
            simp only [Option.bind_eq_bind, Option.bind_eq_some_iff, Option.pure_def,
              Option.some.injEq] at decoded
            obtain ⟨left, decodedLeft, right, decodedRight, rfl⟩ := decoded
            obtain ⟨rfl, leftFits⟩ := ih inner (by omega) decodedLeft
            obtain ⟨rfl, rightFits⟩ := ih inner (by omega) decodedRight
            exact isForm_items [left.toJson, right.toJson] rfl (by simp [leftFits, rightFits])
          · cases decoded
        case h_8 => cases decoded

/-! ## What is written -/

private theorem decode_pair {build : Formula → Formula → Formula} {depth : Nat}
    {first second : Written} {left right : Formula} (decodedLeft : decode depth first = some left)
    (decodedRight : decode depth second = some right) :
    (do
      let left ← decode depth first
      let right ← decode depth second
      return build left right) = some (build left right) := by
  rw [decodedLeft, decodedRight]
  rfl

mutual

theorem decode_written {depth : Nat} (formula : Formula) (fits : formula.toJson.nesting ≤ depth) :
    decode depth formula.toJson.written = some formula := by
  cases formula with
  | const value | var value =>
      obtain ⟨inner, rfl, _⟩ := (Json.nesting_member_le_iff _ _ _).mp fits
      rfl
  | not operand =>
      obtain ⟨inner, rfl, within⟩ := (Json.nesting_member_le_iff _ _ _).mp fits
      exact congrArg (Option.map Formula.not) (decode_written operand within)
  | and parts =>
      obtain ⟨_, rfl, within⟩ := (Json.nesting_member_le_iff _ _ _).mp fits
      obtain ⟨inner, rfl, each⟩ := (Json.nesting_array_le_iff _ _).mp within
      exact congrArg (Option.map Formula.and) (mapM_decode_written parts each)
  | or parts =>
      obtain ⟨_, rfl, within⟩ := (Json.nesting_member_le_iff _ _ _).mp fits
      obtain ⟨inner, rfl, each⟩ := (Json.nesting_array_le_iff _ _).mp within
      exact congrArg (Option.map Formula.or) (mapM_decode_written parts each)
  | implies premise conclusion =>
      obtain ⟨_, rfl, within⟩ := (Json.nesting_member_le_iff _ _ _).mp fits
      obtain ⟨inner, rfl, each⟩ := (Json.nesting_array_le_iff _ _).mp within
      rw [List.forall_mem_cons, List.forall_mem_singleton] at each
      exact decode_pair (decode_written premise each.1) (decode_written conclusion each.2)
  | equiv left right =>
      obtain ⟨_, rfl, within⟩ := (Json.nesting_member_le_iff _ _ _).mp fits
      obtain ⟨inner, rfl, each⟩ := (Json.nesting_array_le_iff _ _).mp within
      rw [List.forall_mem_cons, List.forall_mem_singleton] at each
      exact decode_pair (decode_written left each.1) (decode_written right each.2)

theorem mapM_decode_written {depth : Nat} (parts : List Formula)
    (fits : ∀ item ∈ toJsons parts, item.nesting ≤ depth) :
    (Json.writtenItems (toJsons parts)).mapM (decode depth) = some parts := by
  cases parts with
  | nil => rfl
  | cons part rest =>
      rw [toJsons, List.forall_mem_cons] at fits
      rw [toJsons, Json.writtenItems, List.mapM_cons, decode_written part fits.1,
        mapM_decode_written rest fits.2]
      rfl

end

/-- Different formulas are written differently. -/
theorem written_injective {left right : Formula}
    (same : left.toJson.written = right.toJson.written) : left = right := by
  have leftDecoded := decode_written left (Nat.le_max_left _ right.toJson.nesting)
  have rightDecoded := decode_written right (Nat.le_max_right left.toJson.nesting _)
  rw [same, rightDecoded] at leftDecoded
  exact (Option.some.inj leftDecoded).symm

/-- A formula is decoded from its own form exactly if the levels suffice. -/
theorem decode_written_eq (depth : Nat) (formula : Formula) :
    decode depth formula.toJson.written =
      if formula.toJson.nesting ≤ depth then some formula else none := by
  split
  · rename_i fits
    exact decode_written formula fits
  · rename_i deep
    rw [Option.eq_none_iff_forall_ne_some]
    intro other decoded
    obtain ⟨same, fits⟩ := isForm_of_decode decoded
    obtain rfl := written_injective same
    exact deep fits

/-! ## Texts -/

mutual

/-- There are no numbers in the form of a formula. -/
theorem allFloats_toJson {Holds : Float → Prop} (formula : Formula) :
    formula.toJson.AllFloats Holds := by
  cases formula with
  | const | var => exact Json.allFloats_of_floats_eq_nil rfl
  | not operand =>
      rw [toJson, Json.allFloats_object_iff, List.forall_mem_singleton]
      exact allFloats_toJson operand
  | and parts | or parts =>
      rw [toJson, Json.allFloats_object_iff, List.forall_mem_singleton, Json.allFloats_array_iff]
      exact allFloats_toJsons parts
  | implies left right | equiv left right =>
      rw [toJson, Json.allFloats_object_iff, List.forall_mem_singleton, Json.allFloats_array_iff,
        List.forall_mem_cons, List.forall_mem_singleton]
      exact ⟨allFloats_toJson left, allFloats_toJson right⟩

theorem allFloats_toJsons {Holds : Float → Prop} (parts : List Formula) :
    ∀ item ∈ toJsons parts, item.AllFloats Holds := by
  cases parts with
  | nil => exact fun _ none => nomatch none
  | cons part rest =>
      rw [toJsons, List.forall_mem_cons]
      exact ⟨allFloats_toJson part, allFloats_toJsons rest⟩

end

theorem read?_compact (formula : Formula) :
    Written.read? formula.toJson.compact = some formula.toJson.written :=
  Json.read?_compact formula.allFloats_toJson

theorem decode_compact (depth : Nat) (formula : Formula) :
    (Written.read? formula.toJson.compact).bind (decode depth) =
      if formula.toJson.nesting ≤ depth then some formula else none := by
  rw [read?_compact, Option.bind_some, decode_written_eq]

/-- Each negation is one level. -/
theorem nesting_iterate_not (count : Nat) (formula : Formula) :
    (Nat.iterate not count formula).toJson.nesting = formula.toJson.nesting + count := by
  induction count with
  | zero => rfl
  | succ count ih =>
      rw [Function.iterate_succ_apply', toJson, Json.nesting_member, ih, Nat.add_assoc]

/-! ## Values -/

theorem value?_member {depth : Nat} {key : String} {value : Json}
    (read : value.written.value? depth = some value) :
    (Json.object [(key, value)]).written.value? (depth + 1) =
      some (.object [(key, value)]) := by
  have members : Written.members? depth (Json.writtenMembers [(key, value)]) =
      some [(key, value)] :=
    Json.members?_writtenMembers (List.forall_mem_singleton.mpr read)
  rw [Json.written, Written.value?, members]
  rfl

mutual

/-- The form of a formula evaluates to itself. -/
theorem value?_written {depth : Nat} (formula : Formula) (fits : formula.toJson.nesting ≤ depth) :
    formula.toJson.written.value? depth = some formula.toJson := by
  cases formula with
  | const value | var value =>
      obtain ⟨inner, rfl, _⟩ := (Json.nesting_member_le_iff _ _ _).mp fits
      exact value?_member (by simp [Json.written, Written.value?])
  | not operand =>
      obtain ⟨inner, rfl, within⟩ := (Json.nesting_member_le_iff _ _ _).mp fits
      exact value?_member (value?_written operand within)
  | and parts | or parts =>
      obtain ⟨_, rfl, within⟩ := (Json.nesting_member_le_iff _ _ _).mp fits
      obtain ⟨inner, rfl, each⟩ := (Json.nesting_array_le_iff _ _).mp within
      exact value?_member (Json.value?_array (value?_written_parts parts each))
  | implies left right | equiv left right =>
      obtain ⟨_, rfl, within⟩ := (Json.nesting_member_le_iff _ _ _).mp fits
      obtain ⟨inner, rfl, each⟩ := (Json.nesting_array_le_iff _ _).mp within
      rw [List.forall_mem_cons, List.forall_mem_singleton] at each
      refine value?_member (Json.value?_array ?_)
      rw [List.forall_mem_cons, List.forall_mem_singleton]
      exact ⟨value?_written left each.1, value?_written right each.2⟩

theorem value?_written_parts {depth : Nat} (parts : List Formula)
    (fits : ∀ item ∈ toJsons parts, item.nesting ≤ depth) :
    ∀ item ∈ toJsons parts, item.written.value? depth = some item := by
  cases parts with
  | nil => exact fun _ none => nomatch none
  | cons part rest =>
      rw [toJsons, List.forall_mem_cons] at fits ⊢
      exact ⟨value?_written part fits.1, value?_written_parts rest fits.2⟩

end

end Formula

end RuleSlicing
