import RuleSlicing.Grouping
import RuleSlicing.Model.Activation

/-!
# Sets of slices

Slices in which the same features and rules are active form a set, and a set is
analysed once for all its slices. Features and rules count as the same by their
numbers only, so equal declarations keep slices apart.
-/

set_option autoImplicit false

namespace RuleSlicing

/-- Slices with the same active features and rules. There is at least one, which
represents the others. -/
structure SliceSet where
  representative : Slice
  others : List Slice
  activation : Activation

namespace SliceSet

def slices (set : SliceSet) : List Slice := set.representative :: set.others

/-- The set of the slices of a group, all with the same active features and rules. -/
def ofGroup? : List (Slice × Activation) → Option SliceSet
  | [] => none
  | (representative, activation) :: rest => some ⟨representative, rest.map (·.1), activation⟩

/-- The sets of a list of slices, in the order in which they first occur. -/
def group (model : Model) (slices : List Slice) : List SliceSet :=
  let activated := slices.map fun slice => (slice, model.activation slice)
  (groupByHash (fun (_, activation) => activation.key) activated).filterMap fun (_, members) =>
    ofGroup? members

end SliceSet

end RuleSlicing
