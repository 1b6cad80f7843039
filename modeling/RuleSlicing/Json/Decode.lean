import RuleSlicing.Json.Written

/-!
# Decoding JSON texts into records

Decoders take the number of levels that arrays and objects may still nest and a
written text, and answer a value of a domain type, or nothing if the text does
not have the form of that type. A record is an object of named fields or an
array of its fields in order. Members that name no field are skipped unread.
-/

set_option autoImplicit false

namespace RuleSlicing.Json

/-- A decoder of one domain type. Its first argument bounds the nesting. -/
abbrev Decoder (Value : Type) : Type := Nat → Written → Option Value

/-- The greatest nesting of a document that is decoded. -/
def greatestNesting : Nat := 127

namespace Decoder

def text : Decoder String
  | _, .string text => text
  | _, _ => none

def bool : Decoder Bool
  | _, .bool value => some value
  | _, _ => none

def value : Decoder Json := Written.value?

def list {Value : Type} (item : Decoder Value) : Decoder (List Value)
  | depth + 1, .array items => items.mapM (item depth)
  | _, _ => none

def optional {Value : Type} (decoder : Decoder Value) : Decoder (Option Value)
  | _, .null => some none
  | depth, written => (decoder depth written).map some

/-- One of several names. A name may also stand as the only key of an object,
with null as its value. -/
def name {Value : Type} (ofName? : String → Option Value) : Decoder Value
  | _, .string text => text.bind ofName?
  | _ + 1, .object [(key, .null)] => key.bind ofName?
  | _, _ => none

end Decoder

/-! ## Records -/

/-- The written fields of a record that are present, and the nesting left to them. -/
structure Fields where
  depth : Nat
  present : List (String × Written)

namespace Fields

/-- The members of an object that name fields. No field may come twice. -/
def ofMembers? (names : List String) :
    List (Option String × Written) → Option (List (String × Written))
  | [] => some []
  | (key, written) :: rest => do
      let name ← key
      let later ← ofMembers? names rest
      if names.contains name then
        if later.any (·.1 = name) then none else return (name, written) :: later
      else return later

/-- The fields of a record with the given field names. -/
def of? (names : List String) : Decoder Fields
  | depth + 1, .object members => (ofMembers? names members).map fun present => ⟨depth, present⟩
  | depth + 1, .array items =>
      if items.length ≤ names.length then some ⟨depth, names.zip items⟩ else none
  | _, _ => none

def find? (fields : Fields) (name : String) : Option Written :=
  (fields.present.find? (·.1 = name)).map (·.2)

def required? {Value : Type} (fields : Fields) (name : String) (decoder : Decoder Value) :
    Option Value :=
  (fields.find? name).bind (decoder fields.depth)

/-- The value of a field that may be left out, which stands for a default. -/
def withDefault? {Value : Type} (fields : Fields) (name : String) (default : Value)
    (decoder : Decoder Value) : Option Value :=
  match fields.find? name with
  | none => some default
  | some written => decoder fields.depth written

/-- The value of a field that may be left out or null. -/
def optional? {Value : Type} (fields : Fields) (name : String) (decoder : Decoder Value) :
    Option (Option Value) :=
  fields.withDefault? name none decoder.optional

end Fields

end RuleSlicing.Json
