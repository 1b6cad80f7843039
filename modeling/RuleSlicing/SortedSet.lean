import RuleSlicing.Order

/-!
# Finite sets as ascending lists

A finite set is its list of members in strictly ascending order. Each set has
exactly one such list, so two sets with the same members are equal, and the
members come out in order wherever a set is shown.
-/

set_option autoImplicit false

namespace RuleSlicing

/-- A finite set, kept as the strictly ascending list of its members. -/
structure SortedSet (α : Type) [LinearOrdered α] where
  toList : List α
  ascending : toList.Pairwise (· < ·)
deriving DecidableEq

namespace SortedSet

variable {α : Type} [LinearOrdered α]

/-! ## Members -/

instance : Membership α (SortedSet α) where
  mem set value := value ∈ set.toList

theorem mem_def (value : α) (set : SortedSet α) : value ∈ set ↔ value ∈ set.toList :=
  Iff.rfl

theorem nodup (set : SortedSet α) : set.toList.Nodup :=
  List.Pairwise.imp (fun below => Std.ne_of_lt below) set.ascending

theorem eq_of_ascending {left right : List α} (leftAscending : left.Pairwise (· < ·))
    (rightAscending : right.Pairwise (· < ·))
    (same : ∀ value, value ∈ left ↔ value ∈ right) : left = right :=
  eq_of_strictlyOrdered (fun _ _ => Std.not_gt_of_lt) leftAscending rightAscending same

@[ext] theorem ext {left right : SortedSet α}
    (same : ∀ value, value ∈ left ↔ value ∈ right) : left = right := by
  cases left with
  | mk leftList leftAscending =>
      cases right with
      | mk rightList rightAscending =>
          have equal : leftList = rightList :=
            eq_of_ascending leftAscending rightAscending same
          subst equal
          rfl

/-- Whether a value is a member, for any value type with decidable equality. -/
def contains [DecidableEq α] (set : SortedSet α) (value : α) : Bool :=
  set.toList.contains value

@[simp] theorem contains_iff [DecidableEq α] (set : SortedSet α) (value : α) :
    set.contains value = true ↔ value ∈ set := by
  simp [contains, mem_def]

/-! ## Building sets -/

def empty : SortedSet α := ⟨[], .nil⟩

instance : EmptyCollection (SortedSet α) := ⟨empty⟩

instance : Inhabited (SortedSet α) := ⟨empty⟩

@[simp] theorem toList_empty : (∅ : SortedSet α).toList = [] := rfl

theorem not_mem_empty (value : α) : value ∉ (∅ : SortedSet α) := by
  simp [mem_def]

def singleton (value : α) : SortedSet α := ⟨[value], by simp⟩

/-- Place a value into an ascending list, unless it is there already. -/
def place (value : α) : List α → List α
  | [] => [value]
  | head :: tail =>
      if value < head then value :: head :: tail
      else if head < value then head :: place value tail
      else head :: tail

theorem mem_place_iff (value other : α) (list : List α) :
    other ∈ place value list ↔ other = value ∨ other ∈ list := by
  induction list with
  | nil => simp [place]
  | cons head tail ih => grind [place]

theorem ascending_place (value : α) {list : List α} (ascending : list.Pairwise (· < ·)) :
    (place value list).Pairwise (· < ·) := by
  induction list with
  | nil => simp [place]
  | cons head tail ih =>
      rw [List.pairwise_cons] at ascending
      unfold place
      split
      · rename_i below
        rw [List.pairwise_cons, List.pairwise_cons]
        refine ⟨fun other member => ?_, ascending⟩
        rcases List.mem_cons.1 member with rfl | inTail
        · exact below
        · have := ascending.1 other inTail
          grind
      · split
        · rename_i above
          rw [List.pairwise_cons]
          refine ⟨fun other member => ?_, ih ascending.2⟩
          rcases (mem_place_iff value other tail).1 member with rfl | inTail
          · exact above
          · exact ascending.1 other inTail
        · rw [List.pairwise_cons]
          exact ascending

def insert (set : SortedSet α) (value : α) : SortedSet α :=
  ⟨place value set.toList, ascending_place value set.ascending⟩

@[simp] theorem mem_insert_iff (set : SortedSet α) (value other : α) :
    other ∈ set.insert value ↔ other = value ∨ other ∈ set :=
  mem_place_iff value other set.toList

def ofList (list : List α) : SortedSet α :=
  list.foldr (fun value set => set.insert value) ∅

@[simp] theorem mem_ofList_iff (list : List α) (value : α) :
    value ∈ ofList list ↔ value ∈ list := by
  induction list with
  | nil => simp [ofList, not_mem_empty]
  | cons head tail ih =>
      have unfolded : ofList (head :: tail) = (ofList tail).insert head := rfl
      rw [unfolded, mem_insert_iff, ih, List.mem_cons]

/-- Merge an ascending list that begins with `head` into another one, given how
its tail is merged. -/
def mergeFrom (head : α) (tail : List α) (mergeTail : List α → List α) : List α → List α
  | [] => head :: tail
  | other :: rest =>
      if head < other then head :: mergeTail (other :: rest)
      else if other < head then other :: mergeFrom head tail mergeTail rest
      else head :: mergeTail rest

def merge : List α → List α → List α
  | [] => fun right => right
  | head :: tail => mergeFrom head tail (merge tail)

theorem mem_merge_iff (left right : List α) (value : α) :
    value ∈ merge left right ↔ value ∈ left ∨ value ∈ right := by
  induction left generalizing right with
  | nil => simp [merge]
  | cons head tail ih =>
      show value ∈ mergeFrom head tail (merge tail) right ↔ _
      induction right with
      | nil => simp [mergeFrom]
      | cons other rest inner =>
          unfold mergeFrom
          split
          · simp only [List.mem_cons, ih]
            grind
          · split
            · simp only [List.mem_cons, inner]
              grind
            · simp only [List.mem_cons, ih]
              grind

theorem ascending_merge {left right : List α} (leftAscending : left.Pairwise (· < ·))
    (rightAscending : right.Pairwise (· < ·)) : (merge left right).Pairwise (· < ·) := by
  induction left generalizing right with
  | nil => exact rightAscending
  | cons head tail ih =>
      have headBelow := (List.pairwise_cons.1 leftAscending).1
      have tailAscending := (List.pairwise_cons.1 leftAscending).2
      show (mergeFrom head tail (merge tail) right).Pairwise (· < ·)
      induction right with
      | nil => exact leftAscending
      | cons other rest inner =>
          have otherBelow := (List.pairwise_cons.1 rightAscending).1
          have restAscending := (List.pairwise_cons.1 rightAscending).2
          unfold mergeFrom
          split
          · rename_i below
            rw [List.pairwise_cons]
            refine ⟨fun value member => ?_, ih tailAscending rightAscending⟩
            rcases (mem_merge_iff tail (other :: rest) value).1 member with inTail | inRight
            · exact headBelow value inTail
            · rcases List.mem_cons.1 inRight with rfl | inRest
              · exact below
              · have := otherBelow value inRest
                grind
          · split
            · rename_i above
              rw [List.pairwise_cons]
              refine ⟨fun value member => ?_, inner restAscending⟩
              have member : value ∈ merge (head :: tail) rest := member
              rcases (mem_merge_iff (head :: tail) rest value).1 member with inLeft | inRest
              · rcases List.mem_cons.1 inLeft with rfl | inTail
                · exact above
                · have := headBelow value inTail
                  grind
              · exact otherBelow value inRest
            · rename_i notBelow notAbove
              rw [List.pairwise_cons]
              refine ⟨fun value member => ?_, ih tailAscending restAscending⟩
              rcases (mem_merge_iff tail rest value).1 member with inTail | inRest
              · exact headBelow value inTail
              · have := otherBelow value inRest
                grind

def union (left right : SortedSet α) : SortedSet α :=
  ⟨merge left.toList right.toList, ascending_merge left.ascending right.ascending⟩

@[simp] theorem mem_union_iff (left right : SortedSet α) (value : α) :
    value ∈ left.union right ↔ value ∈ left ∨ value ∈ right :=
  mem_merge_iff left.toList right.toList value

def filter (set : SortedSet α) (test : α → Bool) : SortedSet α :=
  ⟨set.toList.filter test, set.ascending.filter test⟩

@[simp] theorem mem_filter_iff (set : SortedSet α) (test : α → Bool) (value : α) :
    value ∈ set.filter test ↔ value ∈ set ∧ test value = true := by
  simp [filter, mem_def]

/-! ## Extremes and size -/

def isEmpty (set : SortedSet α) : Bool := set.toList.isEmpty

def size (set : SortedSet α) : Nat := set.toList.length

def first? (set : SortedSet α) : Option α := set.toList.head?

def last? (set : SortedSet α) : Option α := set.toList.getLast?

theorem first?_eq_some_iff (set : SortedSet α) (value : α) :
    set.first? = some value ↔ value ∈ set ∧ ∀ other ∈ set, value ≤ other := by
  obtain ⟨list, ascending⟩ := set
  cases list with
  | nil => simp [first?, mem_def]
  | cons head tail =>
      have below := (List.pairwise_cons.1 ascending).1
      simp only [first?, List.head?_cons, Option.some.injEq, mem_def, List.mem_cons]
      constructor
      · rintro rfl
        refine ⟨.inl rfl, fun other member => ?_⟩
        rcases member with rfl | inTail
        · exact Std.le_refl _
        · exact Std.le_of_lt (below other inTail)
      · rintro ⟨rfl | inTail, least⟩
        · rfl
        · have above := below value inTail
          have notAbove := least head (.inl rfl)
          grind

theorem last?_eq_some_iff (set : SortedSet α) (value : α) :
    set.last? = some value ↔ value ∈ set ∧ ∀ other ∈ set, other ≤ value := by
  obtain ⟨list, ascending⟩ := set
  simp only [last?, mem_def]
  constructor
  · intro isLast
    obtain ⟨earlier, rfl⟩ := List.getLast?_eq_some_iff.1 isLast
    have below := (List.pairwise_append.1 ascending).2.2
    refine ⟨by simp, fun other member => ?_⟩
    rcases List.mem_append.1 member with inEarlier | inLast
    · exact Std.le_of_lt (below other inEarlier value (by simp))
    · rw [List.mem_singleton.1 inLast]
      exact Std.le_refl _
  · rintro ⟨member, greatest⟩
    obtain ⟨before, behind, rfl⟩ := List.append_of_mem member
    have above := (List.pairwise_cons.1 (List.pairwise_append.1 ascending).2.1).1
    cases behind with
    | nil => simp
    | cons next rest =>
        have greater := above next (.head _)
        have notGreater := greatest next (by simp)
        grind

@[simp] theorem isEmpty_iff (set : SortedSet α) : set.isEmpty = true ↔ set = ∅ := by
  cases set with
  | mk list ascending =>
      simp only [isEmpty, List.isEmpty_iff]
      constructor
      · intro isNil
        subst isNil
        rfl
      · intro equal
        exact congrArg SortedSet.toList equal

theorem isEmpty_eq_false_iff (set : SortedSet α) :
    set.isEmpty = false ↔ ∃ value, value ∈ set := List.isEmpty_eq_false_iff_exists_mem

end SortedSet

end RuleSlicing
