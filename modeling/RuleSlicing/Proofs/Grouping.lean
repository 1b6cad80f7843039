import Mathlib.Data.List.Pairwise
import Mathlib.Data.List.Perm.Basic
import RuleSlicing.Grouping

/-!
# Laws of grouping

Groups partition a list: put together again they are a permutation of it. By
hash, a group is the filter for its key. By an equivalence, the items of a group
have its key and different groups have different keys.
-/

set_option autoImplicit false

namespace RuleSlicing

variable {Item Key : Type}

/-! ## Groups by hash -/

section Hash

variable [BEq Key] [Hashable Key] [LawfulBEq Key]

theorem mem_keysFrom_iff (keyOf : Item → Key) (items : List Item) (seen : Std.HashSet Key)
    (key : Key) :
    key ∈ keysFrom keyOf seen items ↔ key ∉ seen ∧ ∃ item ∈ items, keyOf item = key := by
  induction items generalizing seen with
  | nil => simp [keysFrom]
  | cons item rest ih =>
      simp only [keysFrom]
      split
      · rename_i present
        rw [ih, List.exists_mem_cons_iff]
        have member : keyOf item ∈ seen := present
        constructor
        · intro given
          obtain ⟨fresh, found⟩ := given
          exact ⟨fresh, .inr found⟩
        · rintro ⟨fresh, rfl | found⟩
          · exact absurd member fresh
          · exact ⟨fresh, found⟩
      · rename_i absent
        have fresh : keyOf item ∉ seen := absent
        rw [List.mem_cons, ih, List.exists_mem_cons_iff, Std.HashSet.mem_insert]
        simp only [beq_iff_eq, not_or]
        constructor
        · rintro (rfl | ⟨⟨_, unseen⟩, found⟩)
          · exact ⟨fresh, .inl rfl⟩
          · exact ⟨unseen, .inr found⟩
        · rintro ⟨unseen, rfl | found⟩
          · exact .inl rfl
          · by_cases same : keyOf item = key
            · exact .inl same.symm
            · exact .inr ⟨⟨same, unseen⟩, found⟩

theorem nodup_keysFrom (keyOf : Item → Key) (items : List Item) (seen : Std.HashSet Key) :
    (keysFrom keyOf seen items).Nodup := by
  induction items generalizing seen with
  | nil => exact .nil
  | cons item rest ih =>
      simp only [keysFrom]
      split
      · exact ih seen
      · refine List.nodup_cons.mpr ⟨?_, ih _⟩
        rw [mem_keysFrom_iff]
        intro given
        obtain ⟨fresh, _⟩ := given
        exact fresh Std.HashSet.mem_insert_self

/-- Keys come in the order in which they first occur. -/
theorem pairwise_keysFrom (keyOf : Item → Key) (items : List Item) (seen : Std.HashSet Key) :
    (keysFrom keyOf seen items).Pairwise fun left right =>
      items.findIdx (keyOf · == left) < items.findIdx (keyOf · == right) := by
  induction items generalizing seen with
  | nil => exact .nil
  | cons item rest ih =>
      -- A key other than that of the first item occurs one place later than in the rest.
      have shifted : ∀ other, other ≠ keyOf item →
          (item :: rest).findIdx (keyOf · == other) = rest.findIdx (keyOf · == other) + 1 := by
        intro other different
        rw [List.findIdx_cons, beq_false_of_ne different.symm]
        rfl
      have later : ∀ {known : Std.HashSet Key}, keyOf item ∈ known →
          (keysFrom keyOf known rest).Pairwise fun left right =>
            (item :: rest).findIdx (keyOf · == left) < (item :: rest).findIdx (keyOf · == right) := by
        intro known present
        apply (ih known).imp_of_mem
        intro left right leftMember rightMember before
        have leftFresh := ((mem_keysFrom_iff keyOf rest known left).mp leftMember).1
        have rightFresh := ((mem_keysFrom_iff keyOf rest known right).mp rightMember).1
        rw [shifted left fun same => leftFresh (same ▸ present),
          shifted right fun same => rightFresh (same ▸ present)]
        exact Nat.succ_lt_succ before
      simp only [keysFrom]
      split
      · rename_i present
        exact later present
      · apply List.pairwise_cons.mpr ⟨_, later Std.HashSet.mem_insert_self⟩
        intro other member
        have fresh := ((mem_keysFrom_iff keyOf rest _ other).mp member).1
        rw [shifted other fun same => fresh (same ▸ Std.HashSet.mem_insert_self),
          List.findIdx_cons, beq_self_eq_true]
        exact Nat.succ_pos _

/-- A key that no earlier item has comes last. -/
theorem keysFrom_append_of_forall {keyOf : Item → Key} {items last : List Item}
    {seen : Std.HashSet Key} {key : Key} (fresh : key ∉ seen) (occupied : last ≠ [])
    (before : ∀ item ∈ items, keyOf item ≠ key) (alike : ∀ item ∈ last, keyOf item = key) :
    keysFrom keyOf seen (items ++ last) = keysFrom keyOf seen items ++ [key] := by
  induction items generalizing seen with
  | nil =>
      cases last with
      | nil => exact absurd rfl occupied
      | cons first rest =>
          obtain ⟨rfl, others⟩ := List.forall_mem_cons.mp alike
          have none : keysFrom keyOf (seen.insert (keyOf first)) rest = [] := by
            refine List.eq_nil_iff_forall_not_mem.mpr fun other member => ?_
            obtain ⟨unseen, item, inRest, rfl⟩ := (mem_keysFrom_iff _ _ _ _).mp member
            rw [others item inRest] at unseen
            exact unseen Std.HashSet.mem_insert_self
          have absent : ¬seen.contains (keyOf first) = true := fresh
          simp only [List.nil_append, keysFrom]
          rw [if_neg absent, none]
  | cons item rest ih =>
      obtain ⟨different, others⟩ := List.forall_mem_cons.mp before
      rw [List.cons_append]
      simp only [keysFrom]
      split
      · exact ih fresh others
      · refine congrArg (keyOf item :: ·) (ih ?_ others)
        rw [Std.HashSet.mem_insert]
        simp [different, fresh]

omit [LawfulBEq Key] in
theorem keysFrom_map {Source : Type} (keyOf : Item → Key) (itemOf : Source → Item)
    (sources : List Source) (seen : Std.HashSet Key) :
    keysFrom keyOf seen (sources.map itemOf) =
      keysFrom (fun source => keyOf (itemOf source)) seen sources := by
  induction sources generalizing seen with
  | nil => rfl
  | cons source rest ih =>
      simp only [List.map_cons, keysFrom]
      rw [ih, ih]

theorem groupByHash_eq_map (keyOf : Item → Key) (items : List Item) :
    groupByHash keyOf items = (keysFrom keyOf ∅ items).map fun key =>
      (key, items.filter fun item => keyOf item == key) := by
  simp only [groupByHash, getD_itemsByKey]

/-- The groups of transformed items are the transformed groups. -/
theorem groupByHash_map {Source : Type} (keyOf : Item → Key) (itemOf : Source → Item)
    (sources : List Source) :
    groupByHash keyOf (sources.map itemOf) =
      (groupByHash (fun source => keyOf (itemOf source)) sources).map fun (key, members) =>
        (key, members.map itemOf) := by
  rw [groupByHash_eq_map, groupByHash_eq_map, keysFrom_map, List.map_map]
  refine List.map_congr_left fun key _ => ?_
  rw [List.filter_map]
  rfl

theorem map_fst_groupByHash (keyOf : Item → Key) (items : List Item) :
    (groupByHash keyOf items).map (·.1) = keysFrom keyOf ∅ items := by
  rw [groupByHash_eq_map, List.map_map]
  exact List.map_id _

theorem nodup_groupByHash (keyOf : Item → Key) (items : List Item) :
    ((groupByHash keyOf items).map (·.1)).Nodup := by
  rw [map_fst_groupByHash]
  exact nodup_keysFrom keyOf items ∅

/-- The groups are the filters for the keys that occur. -/
theorem mem_groupByHash_iff (keyOf : Item → Key) (items : List Item) (key : Key)
    (members : List Item) :
    (key, members) ∈ groupByHash keyOf items ↔
      (∃ item ∈ items, keyOf item = key) ∧
        members = items.filter fun item => keyOf item == key := by
  rw [groupByHash_eq_map, List.mem_map]
  constructor
  · intro given
    obtain ⟨other, member, equal⟩ := given
    cases equal
    exact ⟨((mem_keysFrom_iff keyOf items ∅ _).mp member).2, rfl⟩
  · intro given
    obtain ⟨occurs, rfl⟩ := given
    exact ⟨key, (mem_keysFrom_iff keyOf items ∅ key).mpr ⟨Std.HashSet.not_mem_empty, occurs⟩, rfl⟩

omit [Hashable Key] in
private theorem perm_flatMap_filter (keyOf : Item → Key) (keys : List Key) (unique : keys.Nodup)
    (items : List Item) (covered : ∀ item ∈ items, keyOf item ∈ keys) :
    (keys.flatMap fun key => items.filter fun item => keyOf item == key).Perm items := by
  induction keys generalizing items with
  | nil =>
      have none : items = [] :=
        List.eq_nil_iff_forall_not_mem.mpr fun item member => by simpa using covered item member
      subst none
      exact .nil
  | cons key rest ih =>
      obtain ⟨fresh, restUnique⟩ := List.nodup_cons.mp unique
      have others := ih restUnique (items.filter fun item => !(keyOf item == key)) <| by
        intro item member
        obtain ⟨inItems, different⟩ := List.mem_filter.mp member
        rcases List.mem_cons.mp (covered item inItems) with equal | inRest
        · simp [equal] at different
        · exact inRest
      -- No later key selects an item that the first key has selected.
      have same : (rest.flatMap fun other =>
            (items.filter fun item => !(keyOf item == key)).filter fun item =>
              keyOf item == other) =
          rest.flatMap fun other => items.filter fun item => keyOf item == other := by
        refine List.flatMap_congr fun other member => ?_
        rw [List.filter_filter]
        refine List.filter_congr fun item _ => ?_
        have distinct : other ≠ key := fun equal => fresh (equal ▸ member)
        by_cases equal : keyOf item = other <;> simp [equal, distinct]
      rw [same] at others
      rw [List.flatMap_cons]
      exact (others.append_left _).trans (List.filter_append_perm _ items)

theorem perm_groupByHash (keyOf : Item → Key) (items : List Item) :
    ((groupByHash keyOf items).flatMap (·.2)).Perm items := by
  rw [groupByHash_eq_map, List.flatMap_map]
  refine perm_flatMap_filter keyOf _ (nodup_keysFrom keyOf items ∅) items fun item member => ?_
  exact (mem_keysFrom_iff keyOf items ∅ _).mpr ⟨Std.HashSet.not_mem_empty, item, member, rfl⟩

end Hash

/-! ## Groups by an equivalence -/

section Equivalence

variable [BEq Key]

private theorem perm_groupWith (key : Key) (groups : List (Key × List Item)) :
    (groupWith key groups ++ (groupsWithout key groups).flatMap (·.2)).Perm
      (groups.flatMap (·.2)) := by
  induction groups with
  | nil => exact .nil
  | cons group rest ih =>
      obtain ⟨current, items⟩ := group
      simp only [groupWith, groupsWithout]
      split
      · exact .refl _
      · simp only [List.flatMap_cons]
        have swapped : (groupWith key rest ++ (items ++ (groupsWithout key rest).flatMap (·.2))).Perm
            (items ++ (groupWith key rest ++ (groupsWithout key rest).flatMap (·.2))) := by
          rw [← List.append_assoc, ← List.append_assoc]
          exact List.perm_append_comm.append_right _
        exact swapped.trans (ih.append_left _)

theorem perm_groupBy (keyOf : Item → Key) (items : List Item) :
    ((groupBy keyOf items).flatMap (·.2)).Perm items := by
  induction items with
  | nil => exact .nil
  | cons item rest ih =>
      simp only [groupBy, List.flatMap_cons, List.cons_append]
      exact ((perm_groupWith _ _).trans ih).cons item

section Map

variable {Source : Type} (itemOf : Source → Item)

private theorem groupWith_map (key : Key) (groups : List (Key × List Source)) :
    groupWith key (groups.map fun group => (group.1, group.2.map itemOf)) =
      (groupWith key groups).map itemOf := by
  induction groups with
  | nil => rfl
  | cons group rest ih =>
      simp only [List.map_cons, groupWith]
      rw [ih]
      split <;> rfl

private theorem groupsWithout_map (key : Key) (groups : List (Key × List Source)) :
    groupsWithout key (groups.map fun group => (group.1, group.2.map itemOf)) =
      (groupsWithout key groups).map fun group => (group.1, group.2.map itemOf) := by
  induction groups with
  | nil => rfl
  | cons group rest ih =>
      simp only [List.map_cons, groupsWithout]
      rw [ih]
      split <;> rfl

theorem groupBy_map (keyOf : Item → Key) (sources : List Source) :
    groupBy keyOf (sources.map itemOf) =
      (groupBy (fun source => keyOf (itemOf source)) sources).map fun group =>
        (group.1, group.2.map itemOf) := by
  induction sources with
  | nil => rfl
  | cons source rest ih =>
      simp only [List.map_cons, groupBy]
      rw [ih, groupWith_map, groupsWithout_map]

end Map

private theorem mem_of_mem_groupsWithout {key : Key} {groups : List (Key × List Item)}
    {group : Key × List Item} (member : group ∈ groupsWithout key groups) : group ∈ groups := by
  induction groups with
  | nil => simp [groupsWithout] at member
  | cons head rest ih =>
      obtain ⟨current, items⟩ := head
      simp only [groupsWithout] at member
      split at member
      · exact .tail _ member
      · rcases List.mem_cons.mp member with rfl | inRest
        · exact .head _
        · exact .tail _ (ih inRest)

variable [EquivBEq Key]

private theorem pairwise_groupsWithout (key : Key) {groups : List (Key × List Item)}
    (distinct : groups.Pairwise fun left right => (left.1 == right.1) = false) :
    (groupsWithout key groups).Pairwise (fun left right => (left.1 == right.1) = false) ∧
      ∀ group ∈ groupsWithout key groups, (key == group.1) = false := by
  induction groups with
  | nil => simp [groupsWithout]
  | cons head rest ih =>
      obtain ⟨current, items⟩ := head
      obtain ⟨headDistinct, restDistinct⟩ := List.pairwise_cons.mp distinct
      simp only [groupsWithout]
      split
      · rename_i same
        refine ⟨restDistinct, fun group member => ?_⟩
        rw [← BEq.congr_left same]
        exact headDistinct group member
      · rename_i different
        obtain ⟨ihDistinct, ihKey⟩ := ih restDistinct
        refine ⟨List.pairwise_cons.mpr ⟨fun group member => ?_, ihDistinct⟩, fun group member => ?_⟩
        · exact headDistinct group (mem_of_mem_groupsWithout member)
        · rcases List.mem_cons.mp member with rfl | inRest
          · rw [BEq.comm]
            simpa using different
          · exact ihKey group inRest

theorem pairwise_groupBy (keyOf : Item → Key) (items : List Item) :
    (groupBy keyOf items).Pairwise fun left right => (left.1 == right.1) = false := by
  induction items with
  | nil => exact .nil
  | cons item rest ih =>
      obtain ⟨distinct, fresh⟩ := pairwise_groupsWithout (keyOf item) ih
      exact List.pairwise_cons.mpr ⟨fresh, distinct⟩

/-- If the keys of a list are different, an equal key is that of the same item. -/
theorem eq_of_beq_key {keyOf : Item → Key} {items : List Item}
    (distinct : items.Pairwise fun left right => (keyOf left == keyOf right) = false)
    {left right : Item} (leftMember : left ∈ items) (rightMember : right ∈ items)
    (same : (keyOf left == keyOf right) = true) : left = right := by
  have symmetric : Std.Symm fun left right => (keyOf left == keyOf right) = false :=
    ⟨fun _ _ unequal => BEq.comm.trans unequal⟩
  by_contra different
  have apart := distinct.forall leftMember rightMember different
  rw [same] at apart
  cases apart

private theorem groupWith_groupsWithout {key other : Key} (different : (key == other) = false)
    (groups : List (Key × List Item)) :
    groupWith other (groupsWithout key groups) = groupWith other groups := by
  induction groups with
  | nil => rfl
  | cons head rest ih =>
      obtain ⟨current, items⟩ := head
      simp only [groupsWithout]
      split
      · rename_i same
        have elsewhere : ¬(current == other) = true := by
          rw [BEq.congr_left same, different]
          exact Bool.false_ne_true
        simp only [groupWith]
        rw [if_neg elsewhere]
      · simp only [groupWith]
        rw [ih]

theorem groupWith_groupBy (keyOf : Item → Key) (items : List Item) (key : Key) :
    groupWith key (groupBy keyOf items) = items.filter fun item => keyOf item == key := by
  induction items generalizing key with
  | nil => rfl
  | cons item rest ih =>
      simp only [groupBy, groupWith]
      split
      · rename_i same
        rw [List.filter_cons_of_pos (by simpa using same), ih]
        exact congrArg (item :: ·) (List.filter_congr fun other _ => BEq.congr_right same)
      · rename_i different
        rw [List.filter_cons_of_neg (by simpa using different),
          groupWith_groupsWithout (by simpa using different), ih]

/-- A group has all items with its key, in order. -/
theorem eq_filter_of_mem_groupBy (keyOf : Item → Key) (items : List Item) :
    ∀ group ∈ groupBy keyOf items, group.2 = items.filter fun item => keyOf item == group.1 := by
  induction items with
  | nil => exact fun _ none => absurd none List.not_mem_nil
  | cons first rest ih =>
      intro group member
      simp only [groupBy] at member
      rcases List.mem_cons.mp member with rfl | later
      · rw [List.filter_cons_of_pos (by simp), groupWith_groupBy]
      · obtain ⟨_, fresh⟩ := pairwise_groupsWithout (keyOf first) (pairwise_groupBy keyOf rest)
        rw [List.filter_cons_of_neg (by simpa using fresh group later)]
        exact ih group (mem_of_mem_groupsWithout later)

theorem beq_of_mem_groupBy (keyOf : Item → Key) (items : List Item) :
    ∀ group ∈ groupBy keyOf items, ∀ item ∈ group.2, (keyOf item == group.1) = true := by
  intro group member item inGroup
  rw [eq_filter_of_mem_groupBy keyOf items group member] at inGroup
  exact (List.mem_filter.mp inGroup).2

end Equivalence

end RuleSlicing
