import RuleSlicing.Proofs.Compilation
import RuleSlicing.Request.Resolution
import RuleSlicing.Response.Windows

/-!
# What resolving a request establishes

Resolving makes one selector for each dimension, in order, and of a discipline
that is allowed or the default. The dimensions that are reported value by value
are the axes of that discipline.
-/

set_option autoImplicit false

namespace RuleSlicing

open Resolution

/-! ## Selectors -/

/-- A selector made of a dimension. -/
structure Selector.Selects (allowed : Discipline → Bool) (default : Discipline)
    (dimension : Dimension) (selector : Selector) : Prop where
  name : selector.property.name = dimension.name
  discipline : allowed selector.discipline = true ∨ selector.discipline = default

/-- What a request makes of a dimension: what its selection asks for, if there is one. -/
structure Request.Makes (allowed : Discipline → Bool) (default : Discipline) (request : Request)
    (dimension : Dimension) (made : Selector) : Prop where
  selected : ∀ selection ∈ request.selections, selection.name = dimension.name →
    selector allowed default dimension selection = .ok made
  unselected : dimension.name ∉ request.selections.map (·.name) →
    made = Resolution.unselected default dimension

section Resolve

variable {allowed : Discipline → Bool} {default : Discipline}

/-- A selection is taken if it has the type of the dimension and an allowed discipline, its own
or the default. -/
theorem selector_eq_ok_iff {dimension : Dimension} {selection : DimensionSelection}
    {made : Selector} :
    selector allowed default dimension selection = .ok made ↔
      selection.type = dimension.type ∧ allowed (selection.discipline.getD default) = true ∧
      ∃ range, selectedRange dimension selection.range = .ok range ∧
        made = ⟨⟨dimension.name, range⟩, selection.discipline.getD default⟩ := by
  constructor
  · intro success
    unfold selector at success
    simp only at success
    split at success
    · cases success
    · rename_i sameType
      split at success
      · cases success
      · rename_i permitted
        obtain ⟨range, found, success⟩ := ok_of_bind success
        cases success
        exact ⟨not_not.mp sameType, by simpa using permitted, range, found, rfl⟩
  · rintro ⟨sameType, permitted, range, found, rfl⟩
    simp only [selector, sameType, permitted, found, ne_eq, not_true_eq_false, if_false,
      Bool.not_true, Bool.false_eq_true]
    rfl

variable {request : Request} {space : Space} {selectors : List Selector}

theorem checkNames_eq_ok_iff {seen : List String} {selections : List DimensionSelection} :
    checkNames space seen selections = .ok () ↔
      (∀ selection ∈ selections, selection.name ∈ space.names ∧ selection.name ∉ seen) ∧
      (selections.map (·.name)).Nodup := by
  induction selections generalizing seen with
  | nil => simp [checkNames]
  | cons first rest ih =>
      rw [List.forall_mem_cons, List.map_cons, List.nodup_cons]
      unfold checkNames
      split
      · rename_i unknown
        refine iff_of_false nofun fun given => ?_
        exact Space.find?_eq_none_iff.mp (Option.isNone_iff_eq_none.mp unknown) given.1.1.1
      · rename_i known
        have declared : first.name ∈ space.names := by
          by_contra missing
          exact known (Option.isNone_iff_eq_none.mpr (Space.find?_eq_none_iff.mpr missing))
        split
        · rename_i repeated
          exact iff_of_false nofun fun given => given.1.1.2 (List.contains_iff_mem.mp repeated)
        · rename_i unseen
          rw [ih]
          constructor
          · rintro ⟨others, distinct⟩
            refine ⟨⟨⟨declared, fun inSeen => unseen (List.contains_iff_mem.mpr inSeen)⟩, ?_⟩, ?_,
              distinct⟩
            · exact fun other member => ⟨(others other member).1,
                fun inSeen => (others other member).2 (.tail _ inSeen)⟩
            · intro repeated
              obtain ⟨other, member, same⟩ := List.mem_map.mp repeated
              exact (others other member).2 (same ▸ .head _)
          · rintro ⟨⟨_, others⟩, fresh, distinct⟩
            refine ⟨fun other member => ⟨(others other member).1, ?_⟩, distinct⟩
            rw [List.mem_cons, not_or]
            exact ⟨fun same => fresh (List.mem_map.mpr ⟨other, member, same⟩),
              (others other member).2⟩

/-- What resolving accepts and what it makes of it. -/
theorem resolve_eq_ok_iff :
    request.resolve space allowed default = .ok selectors ↔
      Text.isBlankText request.ruleFileId = false ∧
      (∀ selection ∈ request.selections, selection.name ∈ space.names) ∧
      (request.selections.map (·.name)).Nodup ∧
      List.Forall₂ (request.Makes allowed default) space.dimensions selectors := by
  unfold Request.resolve
  split
  · rename_i blank
    exact iff_of_false nofun fun given => Bool.eq_false_iff.mp given.1 blank
  · rename_i named
    constructor
    · intro resolved
      obtain ⟨_, checked, resolved⟩ := ok_of_bind resolved
      obtain ⟨known, distinct⟩ := checkNames_eq_ok_iff.mp (ok_of_mapError checked)
      refine ⟨Bool.of_not_eq_true named, fun selection member => (known selection member).1,
        distinct, ((mapM_eq_ok_iff _ _ _).mp resolved).imp fun dimension made success => ?_⟩
      split at success
      · rename_i chosen found
        obtain ⟨inRequest, isNamed⟩ := (find?_name_eq_some_iff distinct).mp found
        refine ⟨fun selection member same => ?_, fun absent => ?_⟩
        · have only := (find?_name_eq_some_iff distinct).mpr ⟨member, same⟩
          obtain rfl := Option.some.inj (found.symm.trans only)
          exact ok_of_mapError success
        · exact absurd (List.mem_map.mpr ⟨chosen, inRequest, isNamed⟩) absent
      · rename_i none
        have absent := find?_name_eq_none_iff.mp none
        exact ⟨fun selection member same =>
          absurd (List.mem_map.mpr ⟨selection, member, same⟩) absent,
          fun _ => (Except.ok.inj success).symm⟩
    · rintro ⟨_, known, distinct, makes⟩
      have checked : checkNames space [] request.selections = .ok () :=
        checkNames_eq_ok_iff.mpr
          ⟨fun selection member => ⟨known selection member, List.not_mem_nil⟩, distinct⟩
      rw [checked]
      refine (mapM_eq_ok_iff _ _ _).mpr (makes.imp fun dimension made makes => ?_)
      split
      · rename_i chosen found
        obtain ⟨inRequest, isNamed⟩ := (find?_name_eq_some_iff distinct).mp found
        exact mapError_eq_ok_iff.mpr (makes.selected chosen inRequest isNamed)
      · rename_i none
        exact congrArg Except.ok (makes.unselected (find?_name_eq_none_iff.mp none)).symm

theorem Request.Makes.selects {dimension : Dimension} {made : Selector}
    (makes : request.Makes allowed default dimension made) :
    made.Selects allowed default dimension := by
  by_cases selected : dimension.name ∈ request.selections.map (·.name)
  · obtain ⟨selection, member, same⟩ := List.mem_map.mp selected
    obtain ⟨_, permitted, range, _, rfl⟩ :=
      selector_eq_ok_iff.mp (makes.selected selection member same)
    exact ⟨rfl, .inl permitted⟩
  · rw [makes.unselected selected]
    exact ⟨rfl, .inr rfl⟩

theorem selects_of_resolve (resolved : request.resolve space allowed default = .ok selectors) :
    List.Forall₂ (Selector.Selects allowed default) space.dimensions selectors := by
  obtain ⟨_, _, _, makes⟩ := resolve_eq_ok_iff.mp resolved
  exact makes.imp fun _ _ makes => makes.selects

end Resolve

/-! ## Selectors and dimensions find each other -/

/-- A dimension and a selector that find each other by name. -/
private structure Paired (space : Space) (selectors : List Selector) (dimension : Dimension)
    (partner : Selector) : Prop where
  toPartner : selectors.find? (·.property.name = dimension.name) = some partner
  toDimension : space.find? partner.property.name = some dimension

section Pairs

variable {space : Space} {selectors : List Selector}

private theorem selector_names {dimensions : List Dimension} {named : List Selector}
    (same : List.Forall₂ (fun dimension (partner : Selector) =>
      partner.property.name = dimension.name) dimensions named) :
    named.map (·.property.name) = dimensions.map (·.name) := by
  induction same with
  | nil => rfl
  | cons head _ ih => rw [List.map_cons, List.map_cons, head, ih]

private theorem paired_of_names (distinct : space.names.Nodup)
    (same : List.Forall₂ (fun dimension (partner : Selector) =>
      partner.property.name = dimension.name) space.dimensions selectors) :
    List.Forall₂ (Paired space selectors) space.dimensions selectors := by
  have selectorsDistinct : (selectors.map (·.property.name)).Nodup :=
    selector_names same ▸ distinct
  rw [List.forall₂_iff_zip] at same ⊢
  refine ⟨same.1, fun {dimension partner} member => ?_⟩
  have name := same.2 member
  obtain ⟨inSpace, inSelectors⟩ := List.of_mem_zip member
  have foundPartner := find?_name selectorsDistinct inSelectors
  have foundDimension := find?_name distinct inSpace
  rw [name] at foundPartner
  rw [← name] at foundDimension
  exact ⟨foundPartner, foundDimension⟩

/-- The selector of a dimension is what the request makes of it. -/
theorem exists_selector_of_resolve {request : Request} {allowed : Discipline → Bool}
    {default : Discipline} (resolved : request.resolve space allowed default = .ok selectors)
    (distinct : space.names.Nodup) {dimension : Dimension} (member : dimension ∈ space.dimensions) :
    ∃ made, selectors.find? (·.property.name = dimension.name) = some made ∧
      request.Makes allowed default dimension made := by
  obtain ⟨_, _, _, makes⟩ := resolve_eq_ok_iff.mp resolved
  have names := selector_names (makes.imp fun _ _ makes => makes.selects.name)
  obtain ⟨made, inSelectors, makes⟩ := exists_right_of_forall₂ makes member
  exact ⟨made, (find?_name_eq_some_iff (names ▸ distinct)).mpr ⟨inSelectors, makes.selects.name⟩,
    makes⟩

/-- How the dimension of a selector is reported, if it is used. -/
private def reported? (space : Space) (keys : List Slice) (partner : Selector) :
    Option ReportedDimension :=
  match space.find? partner.property.name with
  | some dimension =>
      if dimension.isUnused then none
      else some ⟨partner.property.name, .of dimension.domain partner.property.range
        (keys.filterMap (·.range? partner.property.name))⟩
  | none => none

private theorem reported?_eq (keys : List Slice) {dimension : Dimension} {partner : Selector}
    (paired : Paired space selectors dimension partner) :
    reported? space keys partner = (Axis.of? selectors dimension).map fun axis =>
      ⟨axis.name, .of axis.dimension.domain axis.range (keys.filterMap (·.range? axis.name))⟩ := by
  have name : partner.property.name = dimension.name := by
    simpa using List.find?_some paired.toPartner
  unfold reported? Axis.of?
  rw [paired.toDimension, paired.toPartner]
  cases unused : dimension.isUnused with
  | true => simp [unused]
  | false => simp [unused, Axis.name, name]

private theorem ofSelectors_of_paired (keys : List Slice) {dimensions : List Dimension}
    {paired : List Selector} (pairs : List.Forall₂ (Paired space selectors) dimensions paired) :
    ReportedDimension.ofSelectors paired space keys =
      (Axis.having .split (Axis.ofSelectors selectors dimensions)).map fun axis =>
        ⟨axis.name, .of axis.dimension.domain axis.range (keys.filterMap (·.range? axis.name))⟩ := by
  show (paired.filter (·.discipline = .split)).filterMap (reported? space keys) = _
  unfold Axis.having Axis.ofSelectors
  induction pairs with
  | nil => rfl
  | cons head _ ih =>
      rename_i dimension partner rest others _
      have reported := reported?_eq keys head
      cases made : Axis.of? selectors dimension with
      | none =>
          rw [made] at reported
          rw [List.filterMap_cons_none made, ← ih]
          by_cases split : partner.discipline = .split
          · rw [List.filter_cons_of_pos (by simpa using split)]
            exact List.filterMap_cons_none reported
          · rw [List.filter_cons_of_neg (by simpa using split)]
      | some axis =>
          rw [made] at reported
          have discipline : axis.discipline = partner.discipline := by
            obtain ⟨_, other, found, rfl⟩ := Axis.of?_eq_some_iff.mp made
            rw [head.toPartner] at found
            exact congrArg Selector.discipline (Option.some.inj found).symm
          rw [List.filterMap_cons_some made]
          by_cases split : partner.discipline = .split
          · rw [List.filter_cons_of_pos (by simpa using split),
              List.filter_cons_of_pos (by simpa [discipline] using split), List.map_cons, ← ih]
            exact List.filterMap_cons_some reported
          · rw [List.filter_cons_of_neg (by simpa using split),
              List.filter_cons_of_neg (by simpa [discipline] using split), ih]

end Pairs

/-! ## Resolved requests on a sound model -/

section Sound

variable {model : Model} {request : Request} {allowed : Discipline → Bool}
  {default : Discipline} {selectors : List Selector}
  (resolved : request.resolve model.space allowed default = .ok selectors)

include resolved

theorem discipline_of_resolve {axis : Axis} (member : axis ∈ model.axes selectors) :
    allowed axis.discipline = true ∨ axis.discipline = default := by
  obtain ⟨_, _, partner, found, _, discipline⟩ := Axis.mem_ofSelectors_iff.mp member
  obtain ⟨dimension, _, selects⟩ := exists_left_of_forall₂ (selects_of_resolve resolved)
    (List.mem_of_find?_eq_some found)
  rw [discipline]
  exact selects.discipline

variable (sound : model.Sound)

include sound

private theorem paired_of_resolve :
    List.Forall₂ (Paired model.space selectors) model.space.dimensions selectors :=
  paired_of_names sound.distinct <|
    (selects_of_resolve resolved).imp fun _ _ selects => selects.name

theorem selected_of_resolve :
    ∀ dimension ∈ model.space.dimensions,
      (selectors.find? (·.property.name = dimension.name)).isSome = true := by
  intro dimension member
  obtain ⟨made, found, _⟩ := exists_selector_of_resolve resolved sound.distinct member
  exact Option.isSome_of_eq_some found

/-- A selection of a dimension makes its selector. -/
theorem selector_of_resolve {dimension : Dimension} (member : dimension ∈ model.space.dimensions)
    {selection : DimensionSelection} (selected : selection ∈ request.selections)
    (same : selection.name = dimension.name) :
    ∃ made, selectors.find? (·.property.name = dimension.name) = some made ∧
      selector allowed default dimension selection = .ok made := by
  obtain ⟨made, found, makes⟩ := exists_selector_of_resolve resolved sound.distinct member
  exact ⟨made, found, makes.selected selection selected same⟩

theorem reported_of_resolve (keys : List Slice) :
    ReportedDimension.ofSelectors selectors model.space keys =
      (Axis.having .split (model.axes selectors)).map fun axis =>
        ⟨axis.name, .of axis.dimension.domain axis.range (keys.filterMap (·.range? axis.name))⟩ :=
  ofSelectors_of_paired keys (paired_of_resolve resolved sound)

end Sound

end RuleSlicing
