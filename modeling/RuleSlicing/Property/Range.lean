import RuleSlicing.Property.Value
import RuleSlicing.Range.Basic

/-!
# Ranges of property values

A range of one of the four property types. Ranges of different types have no
value in common. Membership of property values is the view of a typed range, as
it is for the ranges of one order.
-/

set_option autoImplicit false

namespace RuleSlicing

inductive PropertyRange where
  | boolean (range : Range Bool)
  | integer (range : Range Whole)
  | enumeration (range : Range String)
  | date (range : Range Date)
deriving DecidableEq

instance {low high : Int} : Hashable (Bounded low high) := ⟨fun value => hash value.val⟩

namespace PropertyRange

def type : PropertyRange → PropertyType
  | .boolean _ => .boolean
  | .integer _ => .integer
  | .enumeration _ => .enumeration
  | .date _ => .date

/-! ## Building ranges -/

def empty : PropertyType → PropertyRange
  | .boolean => .boolean .empty
  | .integer => .integer .empty
  | .enumeration => .enumeration .empty
  | .date => .date .empty

def single : PropertyValue → PropertyRange
  | .boolean value => .boolean (.single value)
  | .integer value => .integer (.single value)
  | .enumeration value => .enumeration (.single value)
  | .date value => .date (.single value)

/-- The range of the values of a list that have a given type. -/
def ofValues (type : PropertyType) (values : List PropertyValue) : PropertyRange :=
  match type with
  | .boolean => .boolean <| .ofList <| values.filterMap fun
      | .boolean value => some value
      | _ => none
  | .integer => .integer <| .ofList <| values.filterMap fun
      | .integer value => some value
      | _ => none
  | .enumeration => .enumeration <| .ofList <| values.filterMap fun
      | .enumeration value => some value
      | _ => none
  | .date => .date <| .ofList <| values.filterMap fun
      | .date value => some value
      | _ => none

def between? : PropertyValue → PropertyValue → Option PropertyRange
  | .boolean min, .boolean max => some (.boolean (.between min max))
  | .integer min, .integer max => some (.integer (.between min max))
  | .enumeration min, .enumeration max => some (.enumeration (.between min max))
  | .date min, .date max => some (.date (.between min max))
  | _, _ => none

/-- The values between two whole numbers or two dates, as a single value if the
two are the same. -/
def window? : PropertyValue → PropertyValue → Option PropertyRange
  | .integer min, .integer max => some (.integer (.window min max))
  | .date min, .date max => some (.date (.window min max))
  | _, _ => none

@[simp] theorem type_single (value : PropertyValue) : (single value).type = value.type := by
  cases value <;> rfl

/-! ## Members and shapes -/

def contains : PropertyRange → PropertyValue → Bool
  | .boolean range, .boolean value => range.contains value
  | .integer range, .integer value => range.contains value
  | .enumeration range, .enumeration value => range.contains value
  | .date range, .date value => range.contains value
  | _, _ => false

instance : Membership PropertyValue PropertyRange :=
  ⟨fun range value => range.contains value = true⟩

instance (value : PropertyValue) (range : PropertyRange) : Decidable (value ∈ range) :=
  inferInstanceAs (Decidable (range.contains value = true))

@[simp] theorem boolean_mem_iff (range : Range Bool) (value : Bool) :
    PropertyValue.boolean value ∈ boolean range ↔ value ∈ range :=
  Range.contains_iff range value

@[simp] theorem integer_mem_iff (range : Range Whole) (value : Whole) :
    PropertyValue.integer value ∈ integer range ↔ value ∈ range :=
  Range.contains_iff range value

@[simp] theorem enumeration_mem_iff (range : Range String) (value : String) :
    PropertyValue.enumeration value ∈ enumeration range ↔ value ∈ range :=
  Range.contains_iff range value

@[simp] theorem date_mem_iff (range : Range Date) (value : Date) :
    PropertyValue.date value ∈ date range ↔ value ∈ range :=
  Range.contains_iff range value

theorem type_of_mem {value : PropertyValue} {range : PropertyRange} (member : value ∈ range) :
    value.type = range.type := by
  have inside : range.contains value = true := member
  unfold contains at inside
  split at inside
  all_goals first
    | rfl
    | cases inside

theorem mem_def (value : PropertyValue) (range : PropertyRange) :
    value ∈ range ↔ range.contains value = true := Iff.rfl

@[simp] theorem mem_single_iff (value other : PropertyValue) :
    other ∈ single value ↔ other = value := by
  cases value <;> cases other <;> simp [mem_def, single, contains]

theorem single_inj {left right : PropertyValue} (same : single left = single right) :
    left = right := by
  have member : left ∈ single left := (mem_single_iff left left).mpr rfl
  rw [same] at member
  exact (mem_single_iff right left).mp member

def isEmpty : PropertyRange → Bool
  | .boolean range => range.isEmpty
  | .integer range => range.isEmpty
  | .enumeration range => range.isEmpty
  | .date range => range.isEmpty

def isDiscrete : PropertyRange → Bool
  | .boolean range => range.isDiscrete
  | .integer range => range.isDiscrete
  | .enumeration range => range.isDiscrete
  | .date range => range.isDiscrete

def isContinuous : PropertyRange → Bool
  | .boolean range => range.isContinuous
  | .integer range => range.isContinuous
  | .enumeration range => range.isContinuous
  | .date range => range.isContinuous

def only? : PropertyRange → Option PropertyValue
  | .boolean range => range.only?.map .boolean
  | .integer range => range.only?.map .integer
  | .enumeration range => range.only?.map .enumeration
  | .date range => range.only?.map .date

def listed : PropertyRange → List PropertyValue
  | .boolean range => range.listed.map .boolean
  | .integer range => range.listed.map .integer
  | .enumeration range => range.listed.map .enumeration
  | .date range => range.listed.map .date

def last? : PropertyRange → Option PropertyValue
  | .boolean range => range.last?.map .boolean
  | .integer range => range.last?.map .integer
  | .enumeration range => range.last?.map .enumeration
  | .date range => range.last?.map .date

@[simp] theorem only?_single (value : PropertyValue) : (single value).only? = some value := by
  cases value <;> rfl

@[simp] theorem listed_single (value : PropertyValue) : (single value).listed = [value] := by
  cases value <;> rfl

private theorem mem_filterMap_iff {Value : Type} {embed : Value → PropertyValue}
    {extract : PropertyValue → Option Value}
    (inverse : ∀ given value, extract given = some value ↔ given = embed value)
    (values : List PropertyValue) (value : Value) :
    value ∈ values.filterMap extract ↔ embed value ∈ values := by
  simp [List.mem_filterMap, inverse]

theorem mem_ofValues_iff (type : PropertyType) (values : List PropertyValue)
    (value : PropertyValue) :
    value ∈ ofValues type values ↔ value.type = type ∧ value ∈ values := by
  cases type <;> cases value <;> first
    | exact (Range.contains_iff _ _).trans <| (Range.mem_ofList_iff _ _).trans <|
        (mem_filterMap_iff (fun given _ => by cases given <;> simp) values _).trans
          (and_iff_right rfl).symm
    | simp [mem_def, ofValues, contains, PropertyValue.type]

/-! ## Common part and overlap -/

def intersects : PropertyRange → PropertyRange → Bool
  | .boolean left, .boolean right => left.intersects right
  | .integer left, .integer right => left.intersects right
  | .enumeration left, .enumeration right => left.intersects right
  | .date left, .date right => left.intersects right
  | _, _ => false

theorem single_intersects_iff (value : PropertyValue) (range : PropertyRange) :
    (single value).intersects range = true ↔ value ∈ range := by
  cases value <;> cases range <;>
    simp [mem_def, single, intersects, contains, Range.intersects_iff]

/-- The common part of two ranges of one type. -/
def intersection? : PropertyRange → PropertyRange → Option PropertyRange
  | .boolean left, .boolean right => some (.boolean (left.intersection right))
  | .integer left, .integer right => some (.integer (left.intersection right))
  | .enumeration left, .enumeration right => some (.enumeration (left.intersection right))
  | .date left, .date right => some (.date (left.intersection right))
  | _, _ => none

/-! ## Order, hash and text -/

/-- Ranges are ordered by type first. -/
def order : PropertyRange → PropertyRange → Ordering
  | .boolean left, .boolean right => left.order right
  | .integer left, .integer right => left.order right
  | .enumeration left, .enumeration right => left.order right
  | .date left, .date right => left.order right
  | left, right => compare left.type.rank right.type.rank

instance : Hashable PropertyRange where
  hash
    | .boolean range => mixHash 3 (hash range)
    | .integer range => mixHash 5 (hash range)
    | .enumeration range => mixHash 7 (hash range)
    | .date range => mixHash 9 (hash range)

def render : PropertyRange → String
  | .boolean range => range.render PropertyValue.renderBool PropertyValue.renderBool
  | .integer range => range.render PropertyValue.renderWhole PropertyValue.renderWhole
  | .enumeration range => range.render PropertyValue.renderQuoted id
  | .date range => range.render Date.render Date.render

end PropertyRange

end RuleSlicing
