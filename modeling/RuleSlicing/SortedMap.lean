import RuleSlicing.SortedSet

/-!
# Finite maps as ascending association lists

A finite map is its list of entries in strictly ascending order of the keys.
`get?` is the view of a map: each operation is described by what it does to the
lookups, and two maps with the same lookups are equal.
-/

set_option autoImplicit false

namespace RuleSlicing

/-- A finite map, kept as its entries in strictly ascending order of the keys. -/
structure SortedMap (Key Value : Type) [LinearOrdered Key] where
  entries : List (Key × Value)
  ascending : entries.Pairwise (·.1 < ·.1)
deriving DecidableEq

namespace SortedMap

variable {Key Value : Type} [LinearOrdered Key]

/-! ## Lookup -/

/-- The value of the first entry with a key, in a list with ascending keys. -/
def find? (key : Key) : List (Key × Value) → Option Value
  | [] => none
  | (current, value) :: rest =>
      if key < current then none
      else if current < key then find? key rest
      else some value

def get? (map : SortedMap Key Value) (key : Key) : Option Value := find? key map.entries

theorem find?_eq_some_iff {list : List (Key × Value)}
    (ascending : list.Pairwise (·.1 < ·.1)) (key : Key) (value : Value) :
    find? key list = some value ↔ (key, value) ∈ list := by
  induction list with
  | nil => simp [find?]
  | cons head tail ih =>
      obtain ⟨current, stored⟩ := head
      rw [List.pairwise_cons] at ascending
      have later := ascending.1
      unfold find?
      split
      · rename_i below
        simp only [reduceCtorEq, List.mem_cons, Prod.mk.injEq, false_iff, not_or, not_and]
        refine ⟨fun equal => ?_, fun inTail => ?_⟩
        · subst equal; grind
        · have above : current < key := later _ inTail
          grind
      · split
        · rename_i above
          rw [ih ascending.2]
          simp only [List.mem_cons, Prod.mk.injEq]
          constructor
          · exact .inr
          · rintro (⟨equal, _⟩ | inTail)
            · subst equal; grind
            · exact inTail
        · rename_i notBelow notAbove
          have equal : current = key := by grind
          subst equal
          simp only [Option.some.injEq, List.mem_cons, Prod.mk.injEq, true_and]
          constructor
          · intro same
            exact .inl same.symm
          · rintro (same | inTail)
            · exact same.symm
            · have above : current < current := later _ inTail
              grind

theorem get?_eq_some_iff (map : SortedMap Key Value) (key : Key) (value : Value) :
    map.get? key = some value ↔ (key, value) ∈ map.entries :=
  find?_eq_some_iff map.ascending key value

theorem eq_of_ascending_entries {left right : List (Key × Value)}
    (leftAscending : left.Pairwise (·.1 < ·.1))
    (rightAscending : right.Pairwise (·.1 < ·.1))
    (same : ∀ entry, entry ∈ left ↔ entry ∈ right) : left = right :=
  eq_of_strictlyOrdered (fun _ _ => Std.not_gt_of_lt) leftAscending rightAscending same

@[ext] theorem ext {left right : SortedMap Key Value}
    (same : ∀ key, left.get? key = right.get? key) : left = right := by
  have entriesEq : left.entries = right.entries := by
    refine eq_of_ascending_entries left.ascending right.ascending fun entry => ?_
    obtain ⟨key, value⟩ := entry
    rw [← get?_eq_some_iff, ← get?_eq_some_iff, same key]
  cases left
  cases right
  simp only at entriesEq
  subst entriesEq
  rfl

/-! ## Building maps -/

def empty : SortedMap Key Value := ⟨[], .nil⟩

instance : EmptyCollection (SortedMap Key Value) := ⟨empty⟩

instance : Inhabited (SortedMap Key Value) := ⟨empty⟩

@[simp] theorem get?_empty (key : Key) : (∅ : SortedMap Key Value).get? key = none := rfl

/-- Store a value under a key in a list with ascending keys. -/
def place (key : Key) (value : Value) : List (Key × Value) → List (Key × Value)
  | [] => [(key, value)]
  | (current, stored) :: rest =>
      if key < current then (key, value) :: (current, stored) :: rest
      else if current < key then (current, stored) :: place key value rest
      else (key, value) :: rest

theorem key_of_mem_place {key : Key} {value : Value} {list : List (Key × Value)}
    {entry : Key × Value} (member : entry ∈ place key value list) :
    entry.1 = key ∨ entry ∈ list := by
  induction list with
  | nil => simp [place] at member; grind
  | cons head tail ih => grind [place]

theorem ascending_place (key : Key) (value : Value) {list : List (Key × Value)}
    (ascending : list.Pairwise (·.1 < ·.1)) :
    (place key value list).Pairwise (·.1 < ·.1) := by
  induction list with
  | nil => simp [place]
  | cons head tail ih =>
      obtain ⟨current, stored⟩ := head
      rw [List.pairwise_cons] at ascending
      unfold place
      split
      · rename_i below
        rw [List.pairwise_cons, List.pairwise_cons]
        refine ⟨fun entry member => ?_, ascending⟩
        rcases List.mem_cons.1 member with rfl | inTail
        · exact below
        · have := ascending.1 entry inTail
          grind
      · split
        · rename_i above
          rw [List.pairwise_cons]
          refine ⟨fun entry member => ?_, ih ascending.2⟩
          rcases key_of_mem_place member with equal | inTail
          · rw [equal]; exact above
          · exact ascending.1 entry inTail
        · rename_i notBelow notAbove
          have equal : current = key := by grind
          subst equal
          rw [List.pairwise_cons]
          exact ascending

/-- Store a value under a key, in place of the value stored there before. -/
def insert (map : SortedMap Key Value) (key : Key) (value : Value) : SortedMap Key Value :=
  ⟨place key value map.entries, ascending_place key value map.ascending⟩

theorem find?_place [DecidableEq Key] (key other : Key) (value : Value)
    (list : List (Key × Value)) :
    find? other (place key value list) =
      if other = key then some value else find? other list := by
  induction list with
  | nil => grind [place, find?]
  | cons head tail ih => grind [place, find?]

theorem get?_insert [DecidableEq Key] (map : SortedMap Key Value) (key other : Key)
    (value : Value) :
    (map.insert key value).get? other = if other = key then some value else map.get? other :=
  find?_place key other value map.entries

/-- The map of a list of entries; of several entries with one key the last counts. -/
def ofList (list : List (Key × Value)) : SortedMap Key Value :=
  list.foldl (fun map entry => map.insert entry.1 entry.2) ∅

theorem get?_ofList [DecidableEq Key] {list : List (Key × Value)}
    (distinct : (list.map (·.1)).Nodup) (key : Key) (value : Value) :
    (ofList list).get? key = some value ↔ (key, value) ∈ list := by
  have stored : ∀ map : SortedMap Key Value,
      (list.foldl (fun map entry => map.insert entry.1 entry.2) map).get? key = some value ↔
        (key, value) ∈ list ∨ key ∉ list.map (·.1) ∧ map.get? key = some value := by
    induction list with
    | nil => simp
    | cons head tail ih =>
        obtain ⟨fresh, restDistinct⟩ := List.nodup_cons.mp distinct
        intro map
        rw [List.foldl_cons, ih restDistinct, get?_insert]
        grind
  unfold ofList
  simpa using stored ∅

/-- Of several entries with one key the last is stored. -/
theorem get?_ofList_eq_find? [DecidableEq Key] (list : List (Key × Value)) (key : Key) :
    (ofList list).get? key = (list.reverse.find? (·.1 = key)).map (·.2) := by
  have stored : ∀ map : SortedMap Key Value,
      (list.foldl (fun map entry => map.insert entry.1 entry.2) map).get? key =
        ((list.reverse.find? (·.1 = key)).map (·.2)).or (map.get? key) := by
    induction list with
    | nil => exact fun map => rfl
    | cons head tail ih =>
        intro map
        rw [List.foldl_cons, ih, get?_insert, List.reverse_cons, List.find?_append,
          Option.map_or, Option.or_assoc]
        grind
  unfold ofList
  rw [stored, get?_empty, Option.or_none]

theorem mem_of_mem_ofList [DecidableEq Key] {list : List (Key × Value)} {entry : Key × Value}
    (member : entry ∈ (ofList list).entries) : entry ∈ list := by
  have stored := (get?_eq_some_iff (ofList list) entry.1 entry.2).mpr member
  rw [get?_ofList_eq_find?, Option.map_eq_some_iff] at stored
  obtain ⟨found, isFound, sameValue⟩ := stored
  have sameKey : found.1 = entry.1 := by simpa using List.find?_some isFound
  have isEntry : found = entry := Prod.ext sameKey sameValue
  exact isEntry ▸ List.mem_reverse.mp (List.mem_of_find?_eq_some isFound)

theorem ofList_entries [DecidableEq Key] (map : SortedMap Key Value) :
    ofList map.entries = map := by
  have distinct : (map.entries.map (·.1)).Nodup :=
    List.pairwise_map.mpr (map.ascending.imp fun below => Std.ne_of_lt below)
  ext1 key
  refine Option.ext fun value => ?_
  rw [get?_ofList distinct, get?_eq_some_iff]

def tabulate (keys : SortedSet Key) (valueOf : Key → Value) : SortedMap Key Value :=
  ⟨keys.toList.map fun key => (key, valueOf key), by
    rw [List.pairwise_map]
    exact keys.ascending⟩

theorem get?_tabulate (keys : SortedSet Key) (valueOf : Key → Value) (key : Key) (value : Value) :
    (tabulate keys valueOf).get? key = some value ↔ key ∈ keys ∧ valueOf key = value := by
  rw [get?_eq_some_iff, SortedSet.mem_def]
  constructor
  · intro member
    obtain ⟨_, inKeys, same⟩ := List.mem_map.mp member
    cases same
    exact ⟨inKeys, rfl⟩
  · rintro ⟨inKeys, rfl⟩
    exact List.mem_map_of_mem inKeys

def filter (map : SortedMap Key Value) (test : Key → Value → Bool) : SortedMap Key Value :=
  ⟨map.entries.filter fun entry => test entry.1 entry.2, map.ascending.filter _⟩

theorem get?_filter (map : SortedMap Key Value) (test : Key → Value → Bool) (key : Key) :
    (map.filter test).get? key = (map.get? key).filter (test key) := by
  refine Option.ext fun value => ?_
  rw [get?_eq_some_iff, Option.filter_eq_some_iff, get?_eq_some_iff]
  simp [filter]

def erase [DecidableEq Key] (map : SortedMap Key Value) (key : Key) : SortedMap Key Value :=
  map.filter fun current _ => current ≠ key

theorem get?_erase [DecidableEq Key] (map : SortedMap Key Value) (key other : Key) :
    (map.erase key).get? other = if other = key then none else map.get? other := by
  unfold erase
  rw [get?_filter]
  by_cases equal : other = key
  · simp [equal]
  · cases map.get? other <;> simp [equal]

/-! ## Keys and size -/

def keys (map : SortedMap Key Value) : SortedSet Key :=
  ⟨map.entries.map (·.1), by
    rw [List.pairwise_map]
    exact map.ascending⟩

theorem mem_keys_iff (map : SortedMap Key Value) (key : Key) :
    key ∈ map.keys ↔ ∃ value, map.get? key = some value := by
  simp [keys, SortedSet.mem_def, get?_eq_some_iff]

def isEmpty (map : SortedMap Key Value) : Bool := map.entries.isEmpty

def size (map : SortedMap Key Value) : Nat := map.entries.length

end SortedMap

end RuleSlicing
