import RuleSlicing.Json.Decode
import RuleSlicing.Proofs.Outcomes
import RuleSlicing.Proofs.PrintedTexts

/-!
# What is decoded comes from the text

A field of a record is decoded from a part of the text or is a default. So every floating-point
number of what is decoded is denoted by a literal of the text, and there is none if all literals
are integers.
-/

set_option autoImplicit false

namespace RuleSlicing.Json

/-! ## The numbers of a text -/

namespace Written

mutual

/-- The literals of all numbers in a text, also of those that nobody asks for. -/
def numbers : Written → List Decimal.Literal
  | .null | .bool _ | .string _ => []
  | .number literal => [literal]
  | .array items => numbersOfItems items
  | .object members => numbersOfMembers members

def numbersOfItems : List Written → List Decimal.Literal
  | [] => []
  | item :: rest => numbers item ++ numbersOfItems rest

def numbersOfMembers : List (Option String × Written) → List Decimal.Literal
  | [] => []
  | (_, value) :: rest => numbers value ++ numbersOfMembers rest

end

/-- All numbers in a text are integers of 64 bits, with or without sign. -/
def IsIntegral (tree : Written) : Prop :=
  ∀ literal ∈ tree.numbers, ∃ value ∈ literal.toInt?,
    -9223372036854775808 ≤ value ∧ value < wordCount

instance (tree : Written) : Decidable tree.IsIntegral :=
  inferInstanceAs (Decidable (∀ literal ∈ tree.numbers, ∃ value ∈ literal.toInt?,
    -9223372036854775808 ≤ value ∧ value < wordCount))

/-- A text has a literal that denotes a floating-point number. -/
def Denotes (tree : Written) (number : Float) : Prop :=
  ∃ literal ∈ tree.numbers, number? literal = some (.float number)

theorem numbers_subset_of_mem_array {tree : Written} {items : List Written}
    (member : tree ∈ items) : tree.numbers ⊆ (array items).numbers := by
  show tree.numbers ⊆ numbersOfItems items
  induction member with
  | head rest => exact List.subset_append_left _ _
  | tail item _ ih => exact List.subset_append_of_subset_right _ ih

theorem numbers_subset_of_mem_object {key : Option String} {tree : Written}
    {members : List (Option String × Written)} (member : (key, tree) ∈ members) :
    tree.numbers ⊆ (object members).numbers := by
  show tree.numbers ⊆ numbersOfMembers members
  induction members with
  | nil => cases member
  | cons entry rest ih =>
      rcases List.mem_cons.mp member with rfl | inRest
      · exact List.subset_append_left _ _
      · exact List.subset_append_of_subset_right _ (ih inRest)

variable {tree part : Written}

theorem Denotes.of_subset (subset : part.numbers ⊆ tree.numbers) {number : Float}
    (denotes : part.Denotes number) : tree.Denotes number := by
  obtain ⟨literal, member, same⟩ := denotes
  exact ⟨literal, subset member, same⟩

theorem IsIntegral.not_denotes (integral : tree.IsIntegral) (number : Float) :
    ¬ tree.Denotes number := by
  intro ⟨literal, member, isFloat⟩
  obtain ⟨value, isInteger, range⟩ := integral literal member
  have isInteger : literal.toInt? = some value := isInteger
  rw [number?, isInteger] at isFloat
  simp only [if_pos range] at isFloat
  cases isFloat

theorem allFloats_of_value? {depth : Nat} {value : Json} (read : tree.value? depth = some value) :
    value.AllFloats tree.Denotes := by
  induction depth using Nat.strong_induction_on generalizing tree value with
  | _ depth ih =>
  cases tree with
  | null =>
      rw [value?] at read
      cases read
      exact allFloats_of_floats_eq_nil rfl
  | bool =>
      rw [value?] at read
      cases read
      exact allFloats_of_floats_eq_nil rfl
  | number literal =>
      rw [value?] at read
      obtain ⟨_, _, _, rfl⟩ | ⟨number, rfl⟩ := eq_of_number? read
      · exact allFloats_of_floats_eq_nil rfl
      · intro other member
        obtain rfl := List.mem_singleton.mp member
        exact ⟨literal, List.mem_singleton.mpr rfl, read⟩
  | string =>
      rw [value?] at read
      obtain ⟨_, _, rfl⟩ := Option.map_eq_some_iff.mp read
      exact allFloats_of_floats_eq_nil rfl
  | array trees =>
      cases depth with
      | zero =>
          rw [value?] at read
          cases read
      | succ depth =>
          rw [value?] at read
          obtain ⟨items, readItems, rfl⟩ := Option.map_eq_some_iff.mp read
          rw [allFloats_array_iff]
          intro item member
          obtain ⟨part, inTrees, readItem⟩ := exists_of_values? readItems item member
          exact (ih depth depth.lt_succ_self readItem).imp fun _ =>
            Denotes.of_subset (numbers_subset_of_mem_array inTrees)
  | object trees =>
      cases depth with
      | zero =>
          rw [value?] at read
          cases read
      | succ depth =>
          rw [value?] at read
          obtain ⟨members, readMembers, rfl⟩ := Option.map_eq_some_iff.mp read
          rw [allFloats_object_iff]
          intro entry member
          obtain ⟨part, inTrees, readEntry⟩ :=
            exists_of_members? readMembers entry (SortedMap.mem_of_mem_ofList member)
          exact (ih depth depth.lt_succ_self readEntry).imp fun _ =>
            Denotes.of_subset (numbers_subset_of_mem_object inTrees)

end Written

/-! ## Decoders -/

namespace Decoder

variable {Value : Type}

theorem optional_of_ne_null {decoder : Decoder Value} {tree : Written} (noNull : tree ≠ .null)
    (depth : Nat) : decoder.optional depth tree = (decoder depth tree).map some := by
  cases tree with
  | null => exact absurd rfl noNull
  | bool | number | string | array | object => rfl

/-- The floating-point numbers of what is decoded are denoted by literals of the text. -/
def TakesFloats (decoder : Decoder Value) (toJson : Value → Json) : Prop :=
  ∀ ⦃depth tree value⦄, decoder depth tree = some value → (toJson value).AllFloats tree.Denotes

/-- What is decoded from a text of integers has no floating-point numbers. -/
theorem TakesFloats.allFloats_of_isIntegral {decoder : Decoder Value} {toJson : Value → Json}
    (takes : decoder.TakesFloats toJson) {depth : Nat} {tree : Written} {value : Value}
    (decoded : decoder depth tree = some value) (integral : tree.IsIntegral)
    {Holds : Float → Prop} : (toJson value).AllFloats Holds :=
  (takes decoded).imp fun number denotes => absurd denotes (integral.not_denotes number)

theorem takesFloats_value : value.TakesFloats id := fun _ _ _ => Written.allFloats_of_value?

theorem takesFloats_list {item : Decoder Value} {toJson : Value → Json}
    (takes : item.TakesFloats toJson) :
    (list item).TakesFloats fun values => .array (values.map toJson) := by
  intro depth tree values decoded
  rw [allFloats_array_iff, List.forall_mem_map]
  intro value member
  cases depth with
  | zero => cases tree <;> cases decoded
  | succ depth =>
      cases tree with
      | array trees =>
          obtain ⟨part, inTrees, decodedPart⟩ :=
            exists_left_of_forall₂ ((mapM_eq_some_iff _ _ _).mp decoded) member
          exact (takes decodedPart).imp fun _ =>
            Written.Denotes.of_subset (Written.numbers_subset_of_mem_array inTrees)
      | null | bool | number | string | object => cases decoded

end Decoder

/-! ## Fields -/

namespace Fields

variable {names : List String} {depth : Nat} {tree : Written} {fields : Fields}

theorem depth_of_of? (read : of? names depth tree = some fields) : depth = fields.depth + 1 := by
  cases depth with
  | zero => cases tree <;> cases read
  | succ depth =>
      cases tree with
      | object members =>
          obtain ⟨_, _, rfl⟩ := Option.map_eq_some_iff.mp read
          rfl
      | array items =>
          rw [of?] at read
          split at read
          · cases read
            rfl
          · cases read
      | null | bool | number | string => cases read

theorem mem_of_ofMembers? {members : List (Option String × Written)}
    {present : List (String × Written)} (read : ofMembers? names members = some present) :
    ∀ entry ∈ present, (some entry.1, entry.2) ∈ members := by
  induction members generalizing present with
  | nil =>
      cases read
      exact fun _ none => nomatch none
  | cons member rest ih =>
      simp only [ofMembers?, Option.bind_eq_bind, Option.bind_eq_some_iff] at read
      obtain ⟨name, named, later, readRest, read⟩ := read
      have inRest : ∀ entry ∈ later, (some entry.1, entry.2) ∈ member :: rest :=
        fun entry inLater => List.mem_cons_of_mem member (ih readRest entry inLater)
      split at read
      · split at read
        · cases read
        · cases read
          rw [List.forall_mem_cons, ← named]
          exact ⟨List.mem_cons_self, inRest⟩
      · cases read
        exact inRest

/-- A field is a part of the text. -/
theorem numbers_subset_of_find? (read : of? names depth tree = some fields) {name : String}
    {part : Written} (found : fields.find? name = some part) : part.numbers ⊆ tree.numbers := by
  obtain ⟨⟨key, _⟩, isFound, rfl⟩ := Option.map_eq_some_iff.mp found
  have member := List.mem_of_find?_eq_some isFound
  cases depth with
  | zero => cases tree <;> cases read
  | succ depth =>
      cases tree with
      | object members =>
          obtain ⟨present, readMembers, rfl⟩ := Option.map_eq_some_iff.mp read
          exact Written.numbers_subset_of_mem_object (mem_of_ofMembers? readMembers _ member)
      | array items =>
          rw [of?] at read
          split at read
          · cases read
            exact Written.numbers_subset_of_mem_array (List.of_mem_zip member).2
          · cases read
      | null | bool | number | string => cases read

variable {Value : Type} {name : String} {decoder : Decoder Value} {toJson : Value → Json}

theorem exists_of_required? {value : Value} (given : fields.required? name decoder = some value) :
    ∃ part, fields.find? name = some part ∧ decoder fields.depth part = some value :=
  Option.bind_eq_some_iff.mp given

theorem exists_of_withDefault? {default value : Value}
    (given : fields.withDefault? name default decoder = some value) :
    value = default ∨
      ∃ part, fields.find? name = some part ∧ decoder fields.depth part = some value := by
  unfold withDefault? at given
  split at given
  · exact .inl (Option.some.inj given).symm
  · exact .inr ⟨_, ‹_›, given⟩

theorem exists_of_optional? {value : Value}
    (given : fields.optional? name decoder = some (some value)) :
    ∃ part, part ≠ .null ∧ fields.find? name = some part ∧
      decoder fields.depth part = some value := by
  obtain absent | ⟨part, found, decoded⟩ := exists_of_withDefault? given
  · cases absent
  · have noNull : part ≠ .null := by
      intro isNull
      subst isNull
      cases decoded
    rw [Decoder.optional_of_ne_null noNull, Option.map_eq_some_iff] at decoded
    obtain ⟨_, decoded, same⟩ := decoded
    cases same
    exact ⟨part, noNull, found, decoded⟩

/-- A field that is no default has its floating-point numbers from the text. -/
theorem allFloats_of_withDefault? (read : of? names depth tree = some fields)
    (takes : decoder.TakesFloats toJson) {default value : Value}
    (plain : (toJson default).AllFloats tree.Denotes)
    (given : fields.withDefault? name default decoder = some value) :
    (toJson value).AllFloats tree.Denotes := by
  obtain rfl | ⟨part, found, decoded⟩ := exists_of_withDefault? given
  · exact plain
  · exact (takes decoded).imp fun _ =>
      Written.Denotes.of_subset (numbers_subset_of_find? read found)

theorem allFloats_of_optional? (read : of? names depth tree = some fields)
    (takes : decoder.TakesFloats toJson) {value? : Option Value}
    (given : fields.optional? name decoder = some value?) :
    ∀ value ∈ value?, (toJson value).AllFloats tree.Denotes := by
  intro value isValue
  obtain rfl : value? = some value := isValue
  obtain ⟨part, _, found, decoded⟩ := exists_of_optional? given
  exact (takes decoded).imp fun _ =>
    Written.Denotes.of_subset (numbers_subset_of_find? read found)

end Fields

end RuleSlicing.Json
