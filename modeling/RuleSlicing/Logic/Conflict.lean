/-!
# Minimal conflicts

A conflict is a list of items that cannot hold together. It is shrunk by leaving
out one item after another; an item stays out if the others are still in
conflict without it. Dropping items never makes a conflict out of what was none,
so no item of the outcome can be left out.
-/

set_option autoImplicit false

namespace RuleSlicing.Conflict

variable {Item Error : Type}

/-- Shrink a conflict whose first items have been found necessary, given a test
that may fail. -/
def shrinkFrom (inConflict : List Item → Except Error Bool) (necessary : List Item) :
    List Item → Except Error (List Item)
  | [] => .ok necessary
  | item :: rest => do
      if ← inConflict (necessary ++ rest) then shrinkFrom inConflict necessary rest
      else shrinkFrom inConflict (necessary ++ [item]) rest

def shrink (inConflict : List Item → Except Error Bool) (items : List Item) :
    Except Error (List Item) :=
  shrinkFrom inConflict [] items

end RuleSlicing.Conflict
