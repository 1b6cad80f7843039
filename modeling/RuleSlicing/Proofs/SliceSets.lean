import RuleSlicing.Proofs.Runs

/-!
# Sets share out the slices

Grouping puts each slice of a list into one set. Two slices share a set exactly if
the same features and rules are active in them, by number; sets and the slices in
them keep the order of the list.
-/

set_option autoImplicit false

namespace RuleSlicing

namespace SliceSet

/-- How sets share out a list of slices of a model. -/
structure SharesOut (model : Model) (slices : List Slice) (sets : List SliceSet) : Prop where
  occupied : ∀ set ∈ sets, set.slices ≠ []
  perm : (sets.flatMap (·.slices)).Perm slices
  together : ∀ left ∈ slices, ∀ right ∈ slices,
    (∃ set ∈ sets, left ∈ set.slices ∧ right ∈ set.slices) ↔
      (model.activation left).SameObjects (model.activation right)
  active : ∀ set ∈ sets, ∀ slice ∈ set.slices, set.activation = model.activation slice
  /-- Sets are ordered by the first place of the list that has one of their slices. -/
  ordered : sets.Pairwise fun left right =>
    slices.findIdx (· ∈ left.slices) < slices.findIdx (· ∈ right.slices)
  /-- Within a set, slices keep their order. -/
  kept : ∀ set ∈ sets, set.slices = slices.filter (· ∈ set.slices)

/-! ## Sets by key -/

section Keys

variable (model : Model) (slices : List Slice)

private def keyOf (slice : Slice) : List Nat × List Nat := (model.activation slice).key

private def withKey? (key : List Nat × List Nat) : Option SliceSet :=
  ofGroup? ((slices.filter (keyOf model · == key)).map fun slice => (slice, model.activation slice))

private theorem group_eq_filterMap :
    group model slices = (keysFrom (keyOf model) ∅ slices).filterMap (withKey? model slices) := by
  unfold group
  simp only
  rw [groupByHash_map, groupByHash_eq_map, List.map_map, List.filterMap_map]
  rfl

variable {model slices} {key : List Nat × List Nat} {set : SliceSet}

private theorem slices_of_withKey? (made : withKey? model slices key = some set) :
    set.slices = slices.filter (keyOf model · == key) := by
  rw [(slices_ofGroup? made).1, List.map_map]
  exact List.map_id _

private theorem mem_slices_iff_of_withKey? (made : withKey? model slices key = some set)
    {slice : Slice} (member : slice ∈ slices) :
    slice ∈ set.slices ↔ keyOf model slice = key := by
  rw [slices_of_withKey? made, List.mem_filter, beq_iff_eq]
  exact and_iff_right member

private theorem findIdx_congr {Item : Type} {left right : Item → Bool} {items : List Item}
    (same : ∀ item ∈ items, left item = right item) :
    items.findIdx left = items.findIdx right := by
  induction items with
  | nil => rfl
  | cons item rest ih =>
      obtain ⟨here, others⟩ := List.forall_mem_cons.mp same
      rw [List.findIdx_cons, List.findIdx_cons, here, ih others]

private theorem findIdx_of_withKey? (made : withKey? model slices key = some set) :
    slices.findIdx (· ∈ set.slices) = slices.findIdx (keyOf model · == key) := by
  apply findIdx_congr
  intro slice member
  rw [Bool.eq_iff_iff, decide_eq_true_eq, beq_iff_eq]
  exact mem_slices_iff_of_withKey? made member

theorem ordered_group : (group model slices).Pairwise fun left right =>
    slices.findIdx (· ∈ left.slices) < slices.findIdx (· ∈ right.slices) := by
  rw [group_eq_filterMap, List.pairwise_filterMap]
  apply (pairwise_keysFrom (keyOf model) slices ∅).imp
  intro leftKey rightKey before left leftMade right rightMade
  rw [findIdx_of_withKey? leftMade, findIdx_of_withKey? rightMade]
  exact before

theorem kept_of_mem_group (member : set ∈ group model slices) :
    set.slices = slices.filter (· ∈ set.slices) := by
  rw [group_eq_filterMap] at member
  obtain ⟨key, _, made⟩ := List.mem_filterMap.mp member
  rw [slices_of_withKey? made]
  apply List.filter_congr
  intro slice inSlices
  rw [Bool.eq_iff_iff, decide_eq_true_eq, ← slices_of_withKey? made, beq_iff_eq]
  exact (mem_slices_iff_of_withKey? made inSlices).symm

theorem mem_of_mem_group (member : set ∈ group model slices) {left right : Slice}
    (leftMember : left ∈ set.slices) (rightMember : right ∈ slices)
    (same : model.activation left = model.activation right) : right ∈ set.slices := by
  rw [group_eq_filterMap] at member
  obtain ⟨key, _, made⟩ := List.mem_filterMap.mp member
  have leftKey : keyOf model left = key := by
    rw [slices_of_withKey? made] at leftMember
    exact eq_of_beq (List.mem_filter.mp leftMember).2
  apply (mem_slices_iff_of_withKey? made rightMember).mpr
  rw [← leftKey]
  exact congrArg Activation.key same.symm

end Keys

/-! ## Grouping -/

theorem sharesOut_group {model : Model} (sound : model.Sound) (slices : List Slice) :
    SharesOut model slices (group model slices) where
  occupied _ _ := List.cons_ne_nil _ _
  perm := perm_group slices
  together left leftMember right rightMember := by
    constructor
    · intro given
      obtain ⟨set, member, inLeft, inRight⟩ := given
      rw [activation_of_mem_group sound member inLeft, activation_of_mem_group sound member inRight]
      exact ⟨fun _ => .rfl, fun _ => .rfl⟩
    · intro same
      have covered := (@perm_group model slices).mem_iff.mpr leftMember
      obtain ⟨set, member, inSet⟩ := List.mem_flatMap.mp covered
      have active := activation_eq_of_sameObjects sound same
      exact ⟨set, member, inSet, mem_of_mem_group member inSet rightMember active⟩
  active _ member _ inSet := (activation_of_mem_group sound member inSet).symm
  ordered := ordered_group
  kept _ member := kept_of_mem_group member

end SliceSet

/-- Features and rules have different numbers, and the sets of any slices share them out
by what is active. -/
theorem slices_grouped_by_activation {document : ModelDocument} {model : Model}
    (compiled : Model.compile document = .ok model) (slices : List Slice) :
    (model.features.map (·.id) ++ model.rules.map (·.id)).Nodup ∧
      SliceSet.SharesOut model slices (SliceSet.group model slices) := by
  have sound := Model.sound_of_compile compiled
  constructor
  · have consecutive := @List.range'_append 1 model.features.length model.rules.length 1
    rw [Nat.one_mul, Nat.add_comm 1] at consecutive
    rw [sound.featureIds, sound.ruleIds, consecutive]
    exact List.nodup_range'
  · exact SliceSet.sharesOut_group sound slices

namespace Sample

/-- Equal rules that are declared for two markets. -/
def twinDocument : ModelDocument where
  dimensions := [⟨"market", .enumeration⟩]
  features := [⟨"A", []⟩]
  rules := [
    ⟨none, none, .var "A", [⟨"market", .enumeration, ⟨some [.string "home"], none, none⟩⟩]⟩,
    ⟨none, none, .var "A", [⟨"market", .enumeration, ⟨some [.string "export"], none, none⟩⟩]⟩]

def markets : List Slice :=
  ["home", "export", "home", "elsewhere"].map fun name =>
    .ofList [(⟨"market", .single (.enumeration name)⟩, .any)]

end Sample

theorem slices_grouped_by_activation_sample : ∃ model,
    Model.compile Sample.twinDocument = .ok model ∧
    (model.features.map (·.id) ++ model.rules.map (·.id)).Nodup ∧
    SliceSet.SharesOut model Sample.markets (SliceSet.group model Sample.markets) := by
  obtain ⟨model, compiled⟩ : ∃ model, Model.compile Sample.twinDocument = .ok model := ⟨_, rfl⟩
  exact ⟨model, compiled, slices_grouped_by_activation compiled Sample.markets⟩

end RuleSlicing
