import Mathlib.Data.List.Forall2

/-!
# Steps and lookups that may fail

What success or failure of a composed step says about its parts, which items of two
related lists belong together, and what a lookup finds among items with different
names.
-/

set_option autoImplicit false

namespace RuleSlicing

variable {Error Fault Value Result : Type}

theorem bind_eq_ok_iff {first : Except Error Value} {next : Value → Except Error Result}
    {result : Result} :
    first >>= next = .ok result ↔ ∃ value, first = .ok value ∧ next value = .ok result := by
  cases first with
  | error error => simp [bind, Except.bind]
  | ok value => simp [bind, Except.bind]

theorem ok_of_bind {first : Except Error Value} {next : Value → Except Error Result}
    {result : Result} (success : first >>= next = .ok result) :
    ∃ value, first = .ok value ∧ next value = .ok result :=
  bind_eq_ok_iff.mp success

theorem ok_of_map {source : Except Error Value} {transform : Value → Result} {result : Result}
    (success : source.map transform = .ok result) :
    ∃ value, source = .ok value ∧ transform value = result := by
  cases source with
  | error error => cases success
  | ok value => exact ⟨value, rfl, Except.ok.inj success⟩

theorem mapError_eq_ok_iff {source : Except Error Value} {convert : Error → Fault}
    {value : Value} : source.mapError convert = .ok value ↔ source = .ok value := by
  cases source <;> simp [Except.mapError]

theorem ok_of_mapError {source : Except Error Value} {convert : Error → Fault} {value : Value}
    (success : source.mapError convert = .ok value) : source = .ok value :=
  mapError_eq_ok_iff.mp success

theorem mapM_eq_ok_iff (step : Value → Except Error Result) (items : List Value)
    (results : List Result) :
    items.mapM step = .ok results ↔
      List.Forall₂ (fun item result => step item = .ok result) items results := by
  induction items generalizing results with
  | nil =>
      rw [List.mapM_nil, List.forall₂_nil_left_iff]
      exact ⟨fun success => (Except.ok.inj success).symm, fun none => congrArg Except.ok none.symm⟩
  | cons item rest ih =>
      rw [List.mapM_cons, List.forall₂_cons_left_iff]
      constructor
      · intro success
        obtain ⟨result, done, success⟩ := ok_of_bind success
        obtain ⟨others, restDone, success⟩ := ok_of_bind success
        exact ⟨result, others, done, (ih others).mp restDone, (Except.ok.inj success).symm⟩
      · intro given
        obtain ⟨result, others, done, restDone, rfl⟩ := given
        rw [done, (ih others).mpr restDone]
        rfl

theorem mapM_eq_some_iff (step : Value → Option Result) (items : List Value)
    (results : List Result) :
    items.mapM step = some results ↔
      List.Forall₂ (fun item result => step item = some result) items results := by
  induction items generalizing results with
  | nil =>
      rw [List.mapM_nil, List.forall₂_nil_left_iff]
      exact ⟨fun same => (Option.some.inj same).symm, fun none => congrArg some none.symm⟩
  | cons item rest ih =>
      rw [List.mapM_cons, List.forall₂_cons_left_iff]
      simp only [Option.bind_eq_bind, Option.bind_eq_some_iff, Option.pure_def, Option.some.injEq,
        ih]
      constructor
      · intro success
        obtain ⟨result, done, others, restDone, rfl⟩ := success
        exact ⟨result, others, done, restDone, rfl⟩
      · intro given
        obtain ⟨result, others, done, restDone, rfl⟩ := given
        exact ⟨result, done, others, restDone, rfl⟩

/-! ## Failure -/

theorem error_of_bind {first : Except Error Value} {next : Value → Except Error Result}
    {error : Error} (failed : first >>= next = .error error) :
    first = .error error ∨ ∃ value, first = .ok value ∧ next value = .error error := by
  cases first with
  | error other => exact .inl (congrArg Except.error (Except.error.inj failed))
  | ok value => exact .inr ⟨value, rfl, failed⟩

theorem error_of_map {source : Except Error Value} {transform : Value → Result} {error : Error}
    (failed : source.map transform = .error error) : source = .error error := by
  cases source with
  | error other => exact congrArg Except.error (Except.error.inj failed)
  | ok value => cases failed

theorem error_of_mapError {source : Except Error Value} {convert : Error → Fault} {fault : Fault}
    (failed : source.mapError convert = .error fault) :
    ∃ error, source = .error error ∧ convert error = fault := by
  cases source with
  | error error => exact ⟨error, rfl, Except.error.inj failed⟩
  | ok value => cases failed

theorem error_of_mapM {step : Value → Except Error Result} {items : List Value} {error : Error}
    (failed : items.mapM step = .error error) : ∃ item ∈ items, step item = .error error := by
  induction items with
  | nil => cases failed
  | cons item rest ih =>
      rw [List.mapM_cons] at failed
      rcases error_of_bind failed with here | ⟨_, _, failed⟩
      · exact ⟨item, .head _, here⟩
      · rcases error_of_bind failed with later | ⟨_, _, failed⟩
        · obtain ⟨other, member, found⟩ := ih later
          exact ⟨other, .tail _ member, found⟩
        · cases failed

theorem exists_of_mapM {step : Value → Except Error Result} {items : List Value}
    (each : ∀ item ∈ items, ∃ result, step item = .ok result) :
    ∃ results, items.mapM step = .ok results := by
  cases whole : items.mapM step with
  | ok results => exact ⟨results, rfl⟩
  | error error =>
      obtain ⟨item, member, failed⟩ := error_of_mapM whole
      obtain ⟨result, done⟩ := each item member
      rw [done] at failed
      cases failed

theorem mapM_eq_map {Other : Type} {step : Value → Except Error Other}
    {base : Value → Except Error Result} {change : Result → Other} {items : List Value}
    (each : ∀ item ∈ items, step item = (base item).map change) :
    items.mapM step = (items.mapM base).map (List.map change) := by
  induction items with
  | nil => rfl
  | cons item rest ih =>
      obtain ⟨here, others⟩ := List.forall_mem_cons.mp each
      rw [List.mapM_cons, List.mapM_cons, here, ih others]
      cases base item with
      | error error => rfl
      | ok result => cases rest.mapM base <;> rfl

/-! ## Partners -/

section Partners

variable {Left Right : Type} {Related : Left → Right → Prop} {lefts : List Left}
  {rights : List Right}

theorem exists_left_of_forall₂ (related : List.Forall₂ Related lefts rights) {right : Right}
    (member : right ∈ rights) : ∃ left ∈ lefts, Related left right := by
  induction related with
  | nil => cases member
  | cons head _ ih =>
      rcases List.mem_cons.mp member with rfl | inRest
      · exact ⟨_, .head _, head⟩
      · obtain ⟨left, inLefts, found⟩ := ih inRest
        exact ⟨left, .tail _ inLefts, found⟩

theorem exists_right_of_forall₂ (related : List.Forall₂ Related lefts rights) {left : Left}
    (member : left ∈ lefts) : ∃ right ∈ rights, Related left right :=
  exists_left_of_forall₂ related.flip member

theorem exists_forall₂ (each : ∀ left ∈ lefts, ∃ right, Related left right) :
    ∃ rights, List.Forall₂ Related lefts rights := by
  induction lefts with
  | nil => exact ⟨[], .nil⟩
  | cons left rest ih =>
      obtain ⟨⟨right, related⟩, others⟩ := List.forall_mem_cons.mp each
      obtain ⟨rights, restRelated⟩ := ih others
      exact ⟨right :: rights, .cons related restRelated⟩

theorem forall₂_congr_of_mem {Other : Left → Right → Prop}
    (agree : ∀ left ∈ lefts, ∀ right, Related left right ↔ Other left right) :
    List.Forall₂ Related lefts rights ↔ List.Forall₂ Other lefts rights := by
  induction lefts generalizing rights with
  | nil => rw [List.forall₂_nil_left_iff, List.forall₂_nil_left_iff]
  | cons left rest ih =>
      obtain ⟨here, others⟩ := List.forall_mem_cons.mp agree
      rw [List.forall₂_cons_left_iff, List.forall₂_cons_left_iff]
      exact exists₂_congr fun right _ => and_congr (here right) (and_congr_left' (ih others))

theorem forall₂_comp_iff {Middle : Type} {First : Left → Middle → Prop}
    {Second : Middle → Right → Prop} :
    List.Forall₂ (fun left right => ∃ middle, First left middle ∧ Second middle right)
        lefts rights ↔
      ∃ middles, List.Forall₂ First lefts middles ∧ List.Forall₂ Second middles rights := by
  constructor
  · intro related
    induction related with
    | nil => exact ⟨[], .nil, .nil⟩
    | cons head _ ih =>
        obtain ⟨middle, first, second⟩ := head
        obtain ⟨middles, restFirst, restSecond⟩ := ih
        exact ⟨middle :: middles, .cons first restFirst, .cons second restSecond⟩
  · rintro ⟨middles, first, second⟩
    induction first generalizing rights with
    | nil =>
        cases second
        exact .nil
    | cons head _ ih =>
        cases second with
        | cons next rest => exact .cons ⟨_, head, next⟩ (ih rest)

end Partners

/-! ## Looking up names -/

section Names

variable {Item : Type} {nameOf : Item → String} {items : List Item} {name : String}

theorem find?_name_eq_none_iff :
    items.find? (nameOf · = name) = none ↔ name ∉ items.map nameOf := by
  simp [List.find?_eq_none]

theorem find?_name_filter_ne {other : String} (different : name ≠ other) :
    (items.filter (nameOf · ≠ other)).find? (nameOf · = name) = items.find? (nameOf · = name) := by
  rw [List.find?_filter]
  congr 1
  funext item
  by_cases named : nameOf item = name
  · simp [named, different]
  · simp [named]

variable (distinct : (items.map nameOf).Nodup)

include distinct

theorem find?_name {item : Item} (member : item ∈ items) :
    items.find? (nameOf · = nameOf item) = some item := by
  induction items with
  | nil => cases member
  | cons first rest ih =>
      obtain ⟨fresh, restDistinct⟩ := List.nodup_cons.mp distinct
      rcases List.mem_cons.mp member with rfl | inRest
      · exact List.find?_cons_of_pos (by simp)
      · have different : nameOf first ≠ nameOf item := fun same =>
          fresh (same ▸ List.mem_map_of_mem inRest)
        rw [List.find?_cons_of_neg (by simpa using different)]
        exact ih restDistinct inRest

theorem find?_name_eq_some_iff {item : Item} :
    items.find? (nameOf · = name) = some item ↔ item ∈ items ∧ nameOf item = name := by
  constructor
  · intro found
    exact ⟨List.mem_of_find?_eq_some found, by simpa using List.find?_some found⟩
  · rintro ⟨member, rfl⟩
    exact find?_name distinct member

end Names

/-- Different keys find one entry each. -/
theorem filter_key {Key : Type} [DecidableEq Key] {entries : List (Key × Value)}
    (distinct : (entries.map (·.1)).Nodup) {entry : Key × Value} (member : entry ∈ entries) :
    entries.filter (·.1 = entry.1) = [entry] := by
  induction entries with
  | nil => cases member
  | cons first rest ih =>
      obtain ⟨fresh, restDistinct⟩ := List.nodup_cons.mp distinct
      have different : ∀ other ∈ rest, other.1 ≠ first.1 := fun other inRest same =>
        fresh (List.mem_map.mpr ⟨other, inRest, same⟩)
      rcases List.mem_cons.mp member with rfl | inRest
      · have others : rest.filter (·.1 = entry.1) = [] :=
          List.filter_eq_nil_iff.mpr fun other inRest => by simpa using different other inRest
        rw [List.filter_cons_of_pos (by simp), others]
      · rw [List.filter_cons_of_neg (by simpa using (different entry inRest).symm)]
        exact ih restDistinct inRest

/-- What is made of entries with different keys, and shows their keys, is made for a key of its
entry. -/
theorem filter_filterMap_key {Key Record : Type} [DecidableEq Key] {entries : List (Key × Value)}
    (distinct : (entries.map (·.1)).Nodup) {make : Key × Value → Option Record}
    {keyOf : Record → Key}
    (kept : ∀ entry record, make entry = some record → keyOf record = entry.1)
    {entry : Key × Value} (member : entry ∈ entries) :
    (entries.filterMap make).filter (keyOf · = entry.1) = (make entry).toList := by
  have chosen : (entries.filterMap make).filter (keyOf · = entry.1) =
      (entries.filter (·.1 = entry.1)).filterMap make := by
    rw [List.filter_filterMap, List.filterMap_filter]
    refine List.filterMap_congr fun other _ => ?_
    cases made : make other with
    | none => simp
    | some record => simp [Option.filter, kept other record made]
  rw [chosen, filter_key distinct member, List.filterMap_cons, List.filterMap_nil]
  cases make entry <;> rfl

end RuleSlicing
