import RuleSlicing.SortedSet

/-!
# Ranges of values

A range is empty, a list of values or a closed interval of a linear order. The
shape is part of a range: a list is never empty and the ends of an interval are
never crossed, so the empty range has one form only. Membership is the view of
a range. `mem_intersection_iff` and `intersects_iff` say that common part and
overlap are what membership makes of them, whatever the shapes.
-/

set_option autoImplicit false

namespace RuleSlicing

/-- A range of values: nothing, some listed values, or all values between two
ends, the ends included. -/
inductive Range (Value : Type) [LinearOrdered Value] where
  | empty
  | list (values : SortedSet Value) (occupied : values.isEmpty = false)
  | interval (min max : Value) (ordered : min ≤ max)
deriving DecidableEq

namespace Range

variable {Value : Type} [LinearOrdered Value]

/-! ## Building ranges -/

def ofSet (values : SortedSet Value) : Range Value :=
  match occupied : values.isEmpty with
  | true => .empty
  | false => .list values occupied

def ofList (values : List Value) : Range Value := ofSet (.ofList values)

def single (value : Value) : Range Value := .list (.singleton value) rfl

def between (min max : Value) : Range Value :=
  if ordered : min ≤ max then .interval min max ordered else .empty

/-- The values from `min` to `max`, as a single value if the ends coincide. -/
def window [DecidableEq Value] (min max : Value) : Range Value :=
  if min = max then single min else between min max

/-! ## Members -/

def contains [DecidableEq Value] : Range Value → Value → Bool
  | .empty, _ => false
  | .list values _, value => values.contains value
  | .interval min max _, value => min ≤ value && value ≤ max

def Mem : Range Value → Value → Prop
  | .empty, _ => False
  | .list values _, value => value ∈ values
  | .interval min max _, value => min ≤ value ∧ value ≤ max

instance : Membership Value (Range Value) := ⟨Mem⟩

theorem not_mem_empty (value : Value) : value ∉ (empty : Range Value) := id

@[simp] theorem mem_list_iff (values : SortedSet Value) (occupied : values.isEmpty = false)
    (value : Value) : value ∈ Range.list values occupied ↔ value ∈ values := Iff.rfl

@[simp] theorem mem_interval_iff (min max : Value) (ordered : min ≤ max) (value : Value) :
    value ∈ Range.interval min max ordered ↔ min ≤ value ∧ value ≤ max := Iff.rfl

@[simp] theorem contains_iff [DecidableEq Value] (range : Range Value) (value : Value) :
    range.contains value = true ↔ value ∈ range := by
  cases range with
  | empty => simp [contains, not_mem_empty]
  | list values occupied => simp [contains]
  | interval min max ordered => simp [contains]

@[simp] theorem mem_ofSet_iff (values : SortedSet Value) (value : Value) :
    value ∈ ofSet values ↔ value ∈ values := by
  unfold ofSet
  split
  · rename_i isEmpty
    rw [SortedSet.isEmpty_iff] at isEmpty
    subst isEmpty
    simp [not_mem_empty, SortedSet.not_mem_empty]
  · rfl

@[simp] theorem mem_ofList_iff (values : List Value) (value : Value) :
    value ∈ ofList values ↔ value ∈ values := by
  simp [ofList]

@[simp] theorem mem_between_iff (min max value : Value) :
    value ∈ between min max ↔ min ≤ value ∧ value ≤ max := by
  unfold between
  split
  · rfl
  · simp only [not_mem_empty, false_iff]
    grind

@[simp] theorem mem_single_iff (value other : Value) : other ∈ single value ↔ other = value := by
  simp [single, SortedSet.mem_def, SortedSet.singleton]

@[simp] theorem mem_window_iff [DecidableEq Value] (min max value : Value) :
    value ∈ window min max ↔ min ≤ value ∧ value ≤ max := by
  unfold window
  split
  · rename_i same
    rw [mem_single_iff, same]
    grind
  · exact mem_between_iff min max value

/-! ## Shapes -/

def isEmpty : Range Value → Bool
  | .empty => true
  | _ => false

theorem isEmpty_eq_false_iff (range : Range Value) :
    range.isEmpty = false ↔ ∃ value, value ∈ range := by
  cases range with
  | empty => exact iff_of_false (fun given => nomatch given) fun given => given.choose_spec
  | list values occupied => exact iff_of_true rfl ((SortedSet.isEmpty_eq_false_iff _).mp occupied)
  | interval min max ordered => exact iff_of_true rfl ⟨min, Std.le_refl min, ordered⟩

def isDiscrete : Range Value → Bool
  | .interval _ _ _ => false
  | _ => true

theorem isDiscrete_ofSet (values : SortedSet Value) : (ofSet values).isDiscrete = true := by
  unfold ofSet
  split <;> rfl

def isContinuous : Range Value → Bool
  | .list _ _ => false
  | _ => true

def first? : Range Value → Option Value
  | .empty => none
  | .list values _ => values.first?
  | .interval min _ _ => some min

def last? : Range Value → Option Value
  | .empty => none
  | .list values _ => values.last?
  | .interval _ max _ => some max

def listed : Range Value → List Value
  | .list values _ => values.toList
  | _ => []

theorem mem_listed_iff {range : Range Value} (discrete : range.isDiscrete = true) (value : Value) :
    value ∈ range.listed ↔ value ∈ range := by
  cases range with
  | empty => exact List.mem_nil_iff value
  | list values occupied => rfl
  | interval min max ordered => cases discrete

def only? (range : Range Value) : Option Value :=
  match range.listed with
  | [value] => some value
  | _ => none

/-! ## Common part and overlap -/

/-- The values in both ranges. A list keeps its values that the other range has;
two intervals have an interval in common. -/
def intersection [DecidableEq Value] : Range Value → Range Value → Range Value
  | .empty, _ => .empty
  | .list values _, right => ofSet (values.filter right.contains)
  | .interval min max ordered, .list values _ =>
      ofSet (values.filter (Range.interval min max ordered).contains)
  | .interval min max _, .interval otherMin otherMax _ =>
      between (LinearOrdered.larger min otherMin) (LinearOrdered.smaller max otherMax)
  | .interval _ _ _, .empty => .empty

def intersects [DecidableEq Value] : Range Value → Range Value → Bool
  | .empty, _ => false
  | .list values _, right => values.toList.any right.contains
  | .interval min max ordered, .list values _ =>
      values.toList.any (Range.interval min max ordered).contains
  | .interval min max _, .interval otherMin otherMax _ => min ≤ otherMax && otherMin ≤ max
  | .interval _ _ _, .empty => false

@[simp] theorem mem_intersection_iff [DecidableEq Value] (left right : Range Value)
    (value : Value) : value ∈ left.intersection right ↔ value ∈ left ∧ value ∈ right := by
  cases left with
  | empty => simp [intersection, not_mem_empty]
  | list values occupied => simp [intersection]
  | interval min max ordered =>
      cases right with
      | empty => simp [intersection, not_mem_empty]
      | list values occupied =>
          simp only [intersection, mem_ofSet_iff, SortedSet.mem_filter_iff, contains_iff,
            mem_list_iff]
          exact and_comm
      | interval otherMin otherMax otherOrdered =>
          simp only [intersection, mem_between_iff, LinearOrdered.larger_le_iff,
            LinearOrdered.le_smaller_iff, mem_interval_iff]
          grind

theorem intersects_iff [DecidableEq Value] (left right : Range Value) :
    left.intersects right = true ↔ ∃ value, value ∈ left ∧ value ∈ right := by
  cases left with
  | empty => simp [intersects, not_mem_empty]
  | list values occupied => simp [intersects, SortedSet.mem_def]
  | interval min max ordered =>
      cases right with
      | empty => simp [intersects, not_mem_empty]
      | list values occupied =>
          simp only [intersects, List.any_eq_true, contains_iff, mem_list_iff,
            SortedSet.mem_def]
          exact exists_congr fun value => and_comm
      | interval otherMin otherMax otherOrdered =>
          simp only [intersects, Bool.and_eq_true, decide_eq_true_eq, mem_interval_iff]
          constructor
          · rintro ⟨low, high⟩
            by_cases below : min ≤ otherMin
            · exact ⟨otherMin, by grind⟩
            · exact ⟨min, by grind⟩
          · rintro ⟨value, inside⟩
            grind

/-! ## Order and hash -/

def rank : Range Value → Nat
  | .empty => 0
  | .list _ _ => 1
  | .interval _ _ _ => 2

/-- Lists of values in lexicographic order. -/
def orderLists : List Value → List Value → Ordering
  | [], [] => .eq
  | [], _ :: _ => .lt
  | _ :: _, [] => .gt
  | left :: lefts, right :: rights =>
      (LinearOrdered.order left right).then (orderLists lefts rights)

/-- The empty range comes first, then lists, then intervals. -/
def order : Range Value → Range Value → Ordering
  | .list left _, .list right _ => orderLists left.toList right.toList
  | .interval min max _, .interval otherMin otherMax _ =>
      (LinearOrdered.order min otherMin).then (LinearOrdered.order max otherMax)
  | left, right => compare left.rank right.rank

instance [Hashable Value] : Hashable (Range Value) where
  hash
    | .empty => 11
    | .list values _ => mixHash 13 (hash values.toList)
    | .interval min max _ => mixHash (hash min) (hash max)

/-! ## Text -/

/-- Several texts in brackets; a single one stands for itself. -/
def renderTexts : List String → String
  | [text] => text
  | texts => "[" ++ ", ".intercalate texts ++ "]"

/-- The text of a range, given the text of a listed value and of an end. -/
def render (listed ending : Value → String) : Range Value → String
  | .empty => "[]"
  | .list values _ => renderTexts (values.toList.map listed)
  | .interval min max _ => "[" ++ ending min ++ " - " ++ ending max ++ "]"

end Range

end RuleSlicing
