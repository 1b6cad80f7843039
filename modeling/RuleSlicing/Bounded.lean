import RuleSlicing.Order

/-!
# Integers between two limits

The integers from a lowest to a highest one, ends included. Whole numbers of a
property are the signed 64-bit integers, dates are the day numbers of a range
of years; both are instances of this one type. The next and the previous value
exist exactly inside the limits.
-/

set_option autoImplicit false

namespace RuleSlicing

/-- An integer from `low` to `high`. -/
structure Bounded (low high : Int) where
  val : Int
  low_le : low ≤ val
  le_high : val ≤ high
deriving DecidableEq

namespace Bounded

variable {low high : Int}

@[ext] theorem ext {left right : Bounded low high} (same : left.val = right.val) :
    left = right := by
  cases left
  cases right
  simp only at same
  subst same
  rfl

instance : LE (Bounded low high) := ⟨fun left right => left.val ≤ right.val⟩

instance : LT (Bounded low high) := ⟨fun left right => left.val < right.val⟩

theorem le_iff (left right : Bounded low high) : left ≤ right ↔ left.val ≤ right.val :=
  Iff.rfl

theorem lt_iff (left right : Bounded low high) : left < right ↔ left.val < right.val :=
  Iff.rfl

instance : LinearOrdered (Bounded low high) where
  toLE := inferInstance
  toLT := inferInstance
  le_refl value := Int.le_refl value.val
  le_trans _ _ _ := Int.le_trans
  le_antisymm _ _ below above := ext (Int.le_antisymm below above)
  le_total left right := Int.le_total left.val right.val
  lt_iff left right := by
    rw [lt_iff, le_iff, le_iff]
    omega
  decidableLE left right := inferInstanceAs (Decidable (left.val ≤ right.val))
  decidableLT left right := inferInstanceAs (Decidable (left.val < right.val))

/-- The integer as a bounded one, if it is between the limits. -/
def ofInt? (low high value : Int) : Option (Bounded low high) :=
  if within : low ≤ value ∧ value ≤ high then some ⟨value, within.1, within.2⟩ else none

theorem ofInt?_eq_some_iff (value : Int) (bounded : Bounded low high) :
    ofInt? low high value = some bounded ↔ bounded.val = value := by
  obtain ⟨val, low_le, le_high⟩ := bounded
  unfold ofInt?
  split
  · simp only [Option.some.injEq, Bounded.mk.injEq]
    exact eq_comm
  · rename_i outside
    simp only [reduceCtorEq, false_iff]
    intro same
    subst same
    exact outside ⟨low_le, le_high⟩

/-- The next integer, unless the value is the highest one. -/
def succ? (value : Bounded low high) : Option (Bounded low high) :=
  ofInt? low high (value.val + 1)

/-- The previous integer, unless the value is the lowest one. -/
def pred? (value : Bounded low high) : Option (Bounded low high) :=
  ofInt? low high (value.val - 1)

theorem succ?_eq_some_iff (value next : Bounded low high) :
    value.succ? = some next ↔ next.val = value.val + 1 :=
  ofInt?_eq_some_iff _ _

theorem pred?_eq_some_iff (value previous : Bounded low high) :
    value.pred? = some previous ↔ previous.val = value.val - 1 :=
  ofInt?_eq_some_iff _ _

end Bounded

def wordCount : Nat := 18446744073709551616

abbrev Whole : Type := Bounded (-9223372036854775808) 9223372036854775807

end RuleSlicing
