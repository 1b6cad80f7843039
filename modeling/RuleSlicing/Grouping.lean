import Std.Data.HashMap
import Std.Data.HashSet

/-!
# Grouping the items of a list

Items with one key form a group. Groups come in the order in which their keys
first occur, and the items of a group keep their order. `groupBy` needs no more
than a test of equality; `groupByHash` finds groups by the hash of their keys.
-/

set_option autoImplicit false

namespace RuleSlicing

variable {Item Key : Type}

/-- The items of the group with a given key. -/
def groupWith [BEq Key] (key : Key) : List (Key × List Item) → List Item
  | [] => []
  | (current, items) :: rest => if current == key then items else groupWith key rest

def groupsWithout [BEq Key] (key : Key) : List (Key × List Item) → List (Key × List Item)
  | [] => []
  | (current, items) :: rest =>
      if current == key then rest else (current, items) :: groupsWithout key rest

def groupBy [BEq Key] (keyOf : Item → Key) : List Item → List (Key × List Item)
  | [] => []
  | item :: rest =>
      let key := keyOf item
      let groups := groupBy keyOf rest
      (key, item :: groupWith key groups) :: groupsWithout key groups

/-- The keys of a list that are not among those seen already, each once. -/
def keysFrom [BEq Key] [Hashable Key] (keyOf : Item → Key) (seen : Std.HashSet Key) :
    List Item → List Key
  | [] => []
  | item :: rest =>
      let key := keyOf item
      if seen.contains key then keysFrom keyOf seen rest
      else key :: keysFrom keyOf (seen.insert key) rest

def itemsByKey [BEq Key] [Hashable Key] (keyOf : Item → Key) (items : List Item) :
    Std.HashMap Key (List Item) :=
  items.foldr (fun item groups =>
    let key := keyOf item
    groups.insert key (item :: groups.getD key [])) ∅

/-- The groups of a list by keys that can be hashed. -/
def groupByHash [BEq Key] [Hashable Key] (keyOf : Item → Key) (items : List Item) :
    List (Key × List Item) :=
  let groups := itemsByKey keyOf items
  (keysFrom keyOf ∅ items).map fun key => (key, groups.getD key [])

/-! ## The items of a group -/

variable [BEq Key] [Hashable Key] [LawfulBEq Key]

/-- Under each key are exactly the items with that key, in order. -/
theorem getD_itemsByKey (keyOf : Item → Key) (items : List Item) (key : Key) :
    (itemsByKey keyOf items).getD key [] = items.filter fun item => keyOf item == key := by
  induction items with
  | nil => simp [itemsByKey]
  | cons item rest ih =>
      have unfolded : itemsByKey keyOf (item :: rest) =
          (itemsByKey keyOf rest).insert (keyOf item)
            (item :: (itemsByKey keyOf rest).getD (keyOf item) []) := rfl
      rw [unfolded, Std.HashMap.getD_insert]
      split
      · rename_i same
        have equal : keyOf item = key := eq_of_beq same
        subst equal
        rw [ih, List.filter_cons_of_pos (by simp)]
      · rename_i different
        simp only [ih, List.filter_cons, different, Bool.false_eq_true, if_false]

end RuleSlicing
