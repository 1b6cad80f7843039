/-!
# Decidable linear orders

The values of a property, the names of features and the names of properties are
compared by decidable linear orders. One class bundles what the finite sets and
the ranges of this library ask of such an order. The laws are those of the core
classes, so their lemmas and the order reasoning of `grind` apply. A list in
strict order is determined by its members.
-/

set_option autoImplicit false

namespace RuleSlicing

/-- A linear order whose two relations can be evaluated. The strict relation is
determined by the weak one. -/
class LinearOrdered (α : Type) extends LE α, LT α, Std.IsLinearOrder α,
    Std.LawfulOrderLT α where
  decidableLE : DecidableLE α
  decidableLT : DecidableLT α

namespace LinearOrdered

variable {α : Type} [LinearOrdered α]

instance : DecidableLE α := LinearOrdered.decidableLE

instance : DecidableLT α := LinearOrdered.decidableLT

/-- The larger of two values; of equal values the second. -/
def larger (left right : α) : α := if right ≤ left then left else right

/-- The smaller of two values; of equal values the first. -/
def smaller (left right : α) : α := if left ≤ right then left else right

theorem larger_le_iff (left right value : α) :
    larger left right ≤ value ↔ left ≤ value ∧ right ≤ value := by
  unfold larger
  split <;> grind

theorem le_smaller_iff (left right value : α) :
    value ≤ smaller left right ↔ value ≤ left ∧ value ≤ right := by
  unfold smaller
  split <;> grind

/-- The order of two values as one of three outcomes. -/
def order (left right : α) : Ordering :=
  if left < right then .lt else if right < left then .gt else .eq

theorem order_eq_iff (left right : α) : order left right = .eq ↔ left = right := by
  unfold order
  split
  · simp; grind
  · split
    · simp; grind
    · simp; grind

end LinearOrdered

/-- A list in strict order is determined by its members. -/
theorem eq_of_strictlyOrdered {Item : Type} {before : Item → Item → Prop}
    (asymmetric : ∀ first second, before first second → ¬before second first)
    {left right : List Item} (leftOrdered : left.Pairwise before)
    (rightOrdered : right.Pairwise before)
    (same : ∀ item, item ∈ left ↔ item ∈ right) : left = right := by
  have different : ∀ {first second}, before first second → first ≠ second := by
    intro first second ordered equal
    subst equal
    exact asymmetric first first ordered ordered
  have distinct : ∀ {list : List Item}, list.Pairwise before → list.Nodup :=
    fun ordered => ordered.imp different
  have perm : left.Perm right :=
    (List.perm_ext_iff_of_nodup (distinct leftOrdered) (distinct rightOrdered)).mpr same
  exact perm.eq_of_pairwise (fun first second _ _ forth back => absurd back
    (asymmetric first second forth)) leftOrdered rightOrdered

/-- Truth values, false before true. -/
instance : LinearOrdered Bool where
  toLE := Bool.instLE
  toLT := Bool.instLT
  le_refl := by decide
  le_trans := by decide
  le_antisymm := by decide
  le_total := by decide
  lt_iff := by decide
  decidableLE := Bool.instDecidableLe
  decidableLT := Bool.instDecidableLt

instance : LinearOrdered Nat where
  toLE := instLENat
  toLT := instLTNat
  toIsLinearOrder := inferInstance
  toLawfulOrderLT := inferInstance
  decidableLE := Nat.decLe
  decidableLT := Nat.decLt

/-- Texts, compared code point by code point. -/
instance : LinearOrdered String where
  toLE := String.instLE
  toLT := String.instLT
  toIsLinearOrder := String.instIsLinearOrder
  toLawfulOrderLT := String.instLawfulOrderLT
  decidableLE := String.decLE
  decidableLT := String.decidableLT

end RuleSlicing
