import RuleSlicing.Proofs.Tokens

/-!
# Printed JSON texts read back

The compact text of a value is read as the tree of that value. A number is printed by what follows
it as well as by itself, so the machine is followed over the text of a value with any text behind
it, and whatever is still open around it.
-/

set_option autoImplicit false

namespace RuleSlicing.Json

/-! ## The tree of a value -/

/-- The tree of a text that is one scalar. -/
def scalar? (chars : List Char) : Option Written :=
  match nextToken chars with
  | some (.scalar tree, []) => some tree
  | _ => none

mutual

/-- A value as it is written. A floating-point number is written as its text says. -/
def written : Json → Written
  | .null => .null
  | .bool value => .bool value
  | .integer value => .number (.ofInt value)
  | .float value => (scalar? (compact (.float value)).toList).getD .null
  | .string text => .string (some text)
  | .array items => .array (writtenItems items)
  | .object members => .object (writtenMembers members)

def writtenItems : List Json → List Written
  | [] => []
  | item :: rest => written item :: writtenItems rest

def writtenMembers : List (String × Json) → List (Option String × Written)
  | [] => []
  | (key, value) :: rest => (some key, written value) :: writtenMembers rest

end

mutual

/-- The floating-point numbers in a value. -/
def floats : Json → List Float
  | .null | .bool _ | .integer _ | .string _ => []
  | .float value => [value]
  | .array items => floatsOfItems items
  | .object members => floatsOfMembers members

def floatsOfItems : List Json → List Float
  | [] => []
  | item :: rest => floats item ++ floatsOfItems rest

def floatsOfMembers : List (String × Json) → List Float
  | [] => []
  | (_, value) :: rest => floats value ++ floatsOfMembers rest

end

/-- A property of all floating-point numbers in a value. -/
def AllFloats (Holds : Float → Prop) (value : Json) : Prop := ∀ number ∈ value.floats, Holds number

/-- The text of a floating-point number is that of a literal. -/
def PrintsAs (value : Float) (literal : Decimal.Literal) : Prop :=
  nextToken (compact (.float value)).toList = some (.scalar (.number literal), [])

/-- The text of a floating-point number is one number, whatever it denotes. -/
def IsNumber (value : Float) : Prop := ∃ literal, PrintsAs value literal

/-- The text of a floating-point number is one number that denotes it. -/
def IsLegible (value : Float) : Prop :=
  ∃ literal, PrintsAs value literal ∧ number? literal = some (.float value)

theorem IsLegible.isNumber {value : Float} (legible : IsLegible value) : IsNumber value :=
  legible.imp fun _ read => read.1

theorem writtenItems_eq_map (items : List Json) : writtenItems items = items.map written := by
  induction items with
  | nil => rfl
  | cons item rest ih => rw [writtenItems, ih, List.map_cons]

theorem mem_floatsOfItems_iff (items : List Json) (number : Float) :
    number ∈ floatsOfItems items ↔ ∃ item ∈ items, number ∈ item.floats := by
  induction items with
  | nil => simp [floatsOfItems]
  | cons item rest ih => simp [floatsOfItems, ih]

theorem mem_floatsOfMembers_iff (members : List (String × Json)) (number : Float) :
    number ∈ floatsOfMembers members ↔ ∃ entry ∈ members, number ∈ entry.2.floats := by
  induction members with
  | nil => simp [floatsOfMembers]
  | cons entry rest ih => simp [floatsOfMembers, ih]

theorem written_float {value : Float} {literal : Decimal.Literal}
    (prints : PrintsAs value literal) : written (.float value) = .number literal := by
  rw [written, scalar?, prints]
  rfl

section AllFloats

variable {Holds : Float → Prop}

theorem AllFloats.imp {Other : Float → Prop} {value : Json}
    (implies : ∀ number, Holds number → Other number) (all : value.AllFloats Holds) :
    value.AllFloats Other :=
  fun number member => implies number (all number member)

theorem allFloats_of_floats_eq_nil {value : Json} (noFloats : value.floats = []) :
    value.AllFloats Holds := by
  rw [AllFloats, noFloats]
  exact List.forall_mem_nil _

theorem allFloats_bool (value : Bool) : (bool value).AllFloats Holds :=
  allFloats_of_floats_eq_nil rfl

theorem allFloats_string (text : String) : (string text).AllFloats Holds :=
  allFloats_of_floats_eq_nil rfl

theorem allFloats_array_iff (items : List Json) :
    (array items).AllFloats Holds ↔ ∀ item ∈ items, item.AllFloats Holds := by
  unfold AllFloats
  simp only [floats, mem_floatsOfItems_iff]
  exact ⟨fun all item member number inside => all number ⟨item, member, inside⟩,
    fun all number ⟨item, member, inside⟩ => all item member number inside⟩

theorem allFloats_object_iff (members : List (String × Json)) :
    (object members).AllFloats Holds ↔ ∀ entry ∈ members, entry.2.AllFloats Holds := by
  unfold AllFloats
  simp only [floats, mem_floatsOfMembers_iff]
  exact ⟨fun all entry member number inside => all number ⟨entry, member, inside⟩,
    fun all number ⟨entry, member, inside⟩ => all entry member number inside⟩

end AllFloats

/-! ## The machine on a text -/

namespace ReaderState

/-- Take the tokens of a text. -/
def run? (state : ReaderState) (chars : List Char) : Option ReaderState :=
  (tokens chars).bind (List.foldlM step state)

theorem run?_nil (state : ReaderState) : run? state [] = some state := by
  unfold run?
  rw [tokens]
  rfl

theorem run?_of_nextToken {chars after : List Char} {token : Token}
    (read : nextToken chars = some (token, after)) (state : ReaderState) :
    run? state chars = (step state token).bind fun next => run? next after := by
  cases chars with
  | nil => cases read
  | cons char chars =>
      have first : tokens (char :: chars) = (tokens after).map (token :: ·) := by
        rw [tokens, isFiller_eq_false read, if_neg Bool.false_ne_true]
        split
        · rename_i unread
          rw [read] at unread
          cases unread
        · rename_i found
          rw [read] at found
          cases found
          rfl
      unfold run?
      rw [first, Option.bind_map]
      cases tokens after with
      | none => cases step state token <;> rfl
      | some later => rfl

/-- Where a value may begin. -/
def AwaitsValue (expected : Expected) : Prop := expected = .value ∨ expected = .valueOrEnd

theorem step_of_awaitsValue {expected : Expected} (awaits : AwaitsValue expected)
    {token : Token} (noEnd : token ≠ .closeArray) (openParts : List OpenPart) :
    step ⟨openParts, expected⟩ token = beginValue openParts token := by
  obtain rfl | rfl := awaits
  · rfl
  · cases token <;> first | rfl | exact absurd rfl noEnd

theorem run?_scalar {chars after : List Char} {value : Written} {expected : Expected}
    (read : nextToken chars = some (.scalar value, after)) (awaits : AwaitsValue expected)
    (openParts : List OpenPart) :
    run? ⟨openParts, expected⟩ chars =
      (deliver value openParts).bind fun next => run? next after := by
  rw [run?_of_nextToken read, step_of_awaitsValue awaits (by simp)]
  rfl

end ReaderState

/-! ## Values and their parts -/

/-- The text of a value takes the machine on by that value, whatever follows that does not continue
a number. -/
def Delivers (text : String) (value : Written) : Prop :=
  ∀ ⦃rest : List Char⦄ ⦃expected : Expected⦄, EndsNumber rest →
    ReaderState.AwaitsValue expected → ∀ openParts,
      ReaderState.run? ⟨openParts, expected⟩ (text.toList ++ rest) =
        (ReaderState.deliver value openParts).bind fun next => ReaderState.run? next rest

/-- The texts of a list with a comma in front of each. -/
def continued (texts : List String) : List Char := texts.flatMap fun text => ',' :: text.toList

theorem toList_intercalate (first : String) (texts : List String) :
    (",".intercalate (first :: texts)).toList = first.toList ++ continued texts := by
  induction texts generalizing first with
  | nil => simp [continued]
  | cons text texts ih =>
      rw [String.intercalate_cons_cons, String.toList_append, ih, String.toList_append]
      simp [continued]

theorem endsNumber_of_mem {char : Char} (ends : char ∈ [',', ']', '\x7d']) (rest : List Char) :
    EndsNumber (char :: rest) := by
  intro other same
  obtain rfl := Option.some.inj same
  simp only [List.mem_cons, List.not_mem_nil, or_false] at ends
  obtain rfl | rfl | rfl := ends
  all_goals exact ⟨rfl, by decide, by decide, by decide⟩

theorem endsNumber_continued (texts : List String) {char : Char}
    (ends : char ∈ [',', ']', '\x7d']) (rest : List Char) :
    EndsNumber (continued texts ++ char :: rest) := by
  cases texts with
  | nil => exact endsNumber_of_mem ends rest
  | cons text texts => exact endsNumber_of_mem List.mem_cons_self _

/-- A kind of brackets, with what the machine keeps of the parts between them. -/
structure Brackets (Part : Type) where
  opening : Char
  closing : Char
  openToken : Token
  closeToken : Token
  holding : List Part → OpenPart
  tree : List Part → Written
  first : Expected
  next : Expected
  nextToken_opening : ∀ rest, nextToken (opening :: rest) = some (openToken, rest)
  nextToken_closing : ∀ rest, nextToken (closing :: rest) = some (closeToken, rest)
  ends : closing ∈ [',', ']', '\x7d']
  openToken_ne : openToken ≠ .closeArray
  step_opening : ∀ openParts,
    ReaderState.beginValue openParts openToken = some ⟨holding [] :: openParts, first⟩
  step_comma : ∀ parts openParts,
    ReaderState.step ⟨holding parts :: openParts, .commaOrEnd⟩ .comma =
      some ⟨holding parts :: openParts, next⟩
  step_closing : ∀ {expected}, expected = first ∨ expected = .commaOrEnd → ∀ parts openParts,
    ReaderState.step ⟨holding parts :: openParts, expected⟩ closeToken =
      ReaderState.deliver (tree parts.reverse) openParts

namespace Brackets

def array : Brackets Written where
  opening := '['
  closing := ']'
  openToken := .openArray
  closeToken := .closeArray
  holding := .array
  tree := .array
  first := .valueOrEnd
  next := .value
  nextToken_opening _ := rfl
  nextToken_closing _ := rfl
  ends := by simp
  openToken_ne := by simp
  step_opening _ := rfl
  step_comma _ _ := rfl
  step_closing awaits _ _ := by obtain rfl | rfl := awaits <;> rfl

def object : Brackets (Option String × Written) where
  opening := '\x7b'
  closing := '\x7d'
  openToken := .openObject
  closeToken := .closeObject
  holding := .object
  tree := .object
  first := .keyOrEnd
  next := .key
  nextToken_opening _ := rfl
  nextToken_closing _ := rfl
  ends := by simp
  openToken_ne := by simp
  step_opening _ := rfl
  step_comma _ _ := rfl
  step_closing awaits _ _ := by obtain rfl | rfl := awaits <;> rfl

variable {Part : Type} (brackets : Brackets Part)

/-- The text of a part adds it to the parts so far. -/
def Takes (text : String) (part : Part) : Prop :=
  ∀ ⦃rest : List Char⦄ ⦃expected : Expected⦄, EndsNumber rest →
    expected = brackets.first ∨ expected = brackets.next → ∀ parts openParts,
      ReaderState.run? ⟨brackets.holding parts :: openParts, expected⟩ (text.toList ++ rest) =
        ReaderState.run? ⟨brackets.holding (part :: parts) :: openParts, .commaOrEnd⟩ rest

variable {brackets}

theorem run?_closing {expected : Expected}
    (awaits : expected = brackets.first ∨ expected = .commaOrEnd) (parts : List Part)
    (openParts : List OpenPart) (rest : List Char) :
    ReaderState.run? ⟨brackets.holding parts :: openParts, expected⟩ (brackets.closing :: rest) =
      (ReaderState.deliver (brackets.tree parts.reverse) openParts).bind fun next =>
        ReaderState.run? next rest := by
  rw [ReaderState.run?_of_nextToken (brackets.nextToken_closing rest),
    brackets.step_closing awaits]

theorem run?_continued {texts : List String} {parts : List Part}
    (each : List.Forall₂ brackets.Takes texts parts) (before : List Part)
    (openParts : List OpenPart) (rest : List Char) :
    ReaderState.run? ⟨brackets.holding before :: openParts, .commaOrEnd⟩
        (continued texts ++ brackets.closing :: rest) =
      (ReaderState.deliver (brackets.tree (before.reverse ++ parts)) openParts).bind fun next =>
        ReaderState.run? next rest := by
  induction each generalizing before with
  | nil => rw [List.append_nil]; exact run?_closing (.inr rfl) before openParts rest
  | @cons text part texts parts takes each ih =>
      have ends : EndsNumber (continued texts ++ brackets.closing :: rest) :=
        endsNumber_continued texts brackets.ends rest
      have layout : continued (text :: texts) ++ brackets.closing :: rest =
          ',' :: (text.toList ++ (continued texts ++ brackets.closing :: rest)) := by
        simp [continued]
      rw [layout, ReaderState.run?_of_nextToken (nextToken.eq_5 _), brackets.step_comma,
        Option.bind_some, takes ends (.inr rfl), ih]
      simp

theorem delivers {text : String} {texts : List String} {parts : List Part}
    (layout : text.toList =
      brackets.opening :: ((",".intercalate texts).toList ++ [brackets.closing]))
    (each : List.Forall₂ brackets.Takes texts parts) : Delivers text (brackets.tree parts) := by
  intro rest expected _ awaits openParts
  have opened : ReaderState.run? ⟨openParts, expected⟩ (text.toList ++ rest) =
      ReaderState.run? ⟨brackets.holding [] :: openParts, brackets.first⟩
        ((",".intercalate texts).toList ++ brackets.closing :: rest) := by
    rw [layout, List.cons_append, List.append_assoc,
      ReaderState.run?_of_nextToken (brackets.nextToken_opening _),
      ReaderState.step_of_awaitsValue awaits brackets.openToken_ne, brackets.step_opening]
    rfl
  rw [opened]
  cases each with
  | nil => exact run?_closing (.inl rfl) [] openParts rest
  | @cons first part texts parts takes each =>
      have ends : EndsNumber (continued texts ++ brackets.closing :: rest) :=
        endsNumber_continued texts brackets.ends rest
      rw [toList_intercalate, List.append_assoc, takes ends (.inl rfl), run?_continued each]
      rfl

end Brackets

/-! ## Printed values -/

theorem delivers_scalar {text : String} {value : Written}
    (read : ∀ ⦃rest⦄, EndsNumber rest →
      nextToken (text.toList ++ rest) = some (.scalar value, rest)) : Delivers text value :=
  fun _ _ ends awaits openParts => ReaderState.run?_scalar (read ends) awaits openParts

theorem takes_item {text : String} {value : Written} (delivers : Delivers text value) :
    Brackets.array.Takes text value :=
  fun _ _ ends awaits parts openParts => delivers ends awaits.symm (.array parts :: openParts)

theorem takes_member {text : String} {value : Written} (key : String)
    (delivers : Delivers text value) :
    Brackets.object.Takes (quote key ++ ":" ++ text) (some key, value) := by
  intro rest expected ends awaits parts openParts
  have layout : (quote key ++ ":" ++ text).toList ++ rest =
      (quote key).toList ++ ':' :: (text.toList ++ rest) := by
    simp
  have takeKey : ReaderState.step ⟨.object parts :: openParts, expected⟩
      (.scalar (.string (some key))) = some ⟨.member parts (some key) :: openParts, .colon⟩ := by
    obtain rfl | rfl := awaits <;> rfl
  have takeColon : ReaderState.step ⟨.member parts (some key) :: openParts, .colon⟩ .colon =
      some ⟨.member parts (some key) :: openParts, .value⟩ := rfl
  have entered : ReaderState.run? ⟨.object parts :: openParts, expected⟩
      ((quote key ++ ":" ++ text).toList ++ rest) =
        ReaderState.run? ⟨.member parts (some key) :: openParts, .value⟩ (text.toList ++ rest) := by
    rw [layout, ReaderState.run?_of_nextToken (nextToken_quote key _), takeKey, Option.bind_some,
      ReaderState.run?_of_nextToken (nextToken.eq_6 _), takeColon, Option.bind_some]
  exact entered.trans (delivers ends (.inl rfl) _)

mutual

theorem delivers_compact (value : Json) (numbers : value.AllFloats IsNumber) :
    Delivers value.compact value.written := by
  cases value with
  | null => exact delivers_scalar fun _ _ => rfl
  | bool value => exact delivers_scalar fun _ _ => by cases value <;> rfl
  | integer value =>
      exact delivers_scalar fun _ ends => nextToken_number ends (nextToken_integer value)
  | float value =>
      obtain ⟨literal, prints⟩ := numbers value (List.mem_singleton.mpr rfl)
      rw [written_float prints]
      exact delivers_scalar fun _ ends => nextToken_number ends prints
  | string text => exact delivers_scalar fun _ _ => nextToken_quote text _
  | array items =>
      exact Brackets.array.delivers (by simp [compact, Brackets.array])
        (takes_items items ((allFloats_array_iff items).mp numbers))
  | object members =>
      exact Brackets.object.delivers (by simp [compact, Brackets.object])
        (takes_members members ((allFloats_object_iff members).mp numbers))

theorem takes_items (items : List Json) (numbers : ∀ item ∈ items, item.AllFloats IsNumber) :
    List.Forall₂ Brackets.array.Takes (compactItems items) (writtenItems items) := by
  cases items with
  | nil => exact .nil
  | cons item rest =>
      rw [List.forall_mem_cons] at numbers
      exact .cons (takes_item (delivers_compact item numbers.1)) (takes_items rest numbers.2)

theorem takes_members (members : List (String × Json))
    (numbers : ∀ entry ∈ members, entry.2.AllFloats IsNumber) :
    List.Forall₂ Brackets.object.Takes (compactMembers members) (writtenMembers members) := by
  cases members with
  | nil => exact .nil
  | cons entry rest =>
      obtain ⟨key, value⟩ := entry
      rw [List.forall_mem_cons] at numbers
      exact .cons (takes_member key (delivers_compact value numbers.1))
        (takes_members rest numbers.2)

end

/-- The compact text of a value is read as its tree if its floating-point numbers are printed as
numbers. -/
theorem read?_compact {value : Json} (numbers : value.AllFloats IsNumber) :
    Written.read? value.compact = some value.written := by
  have ends : EndsNumber [] := fun _ none => nomatch none
  have run := delivers_compact value numbers ends (.inl rfl) []
  rw [List.append_nil, ReaderState.deliver, Option.bind_some, ReaderState.run?_nil] at run
  unfold Written.read? Written.ofTokens?
  unfold ReaderState.run? at run
  cases read : tokens value.compact.toList with
  | none =>
      rw [read] at run
      cases run
  | some found =>
      rw [read, Option.bind_some] at run
      rw [Option.bind_some, ReaderState.initial, run]
      rfl

/-! ## Written values evaluate to themselves -/

/-- A literal denotes an integer of 64 bits or a floating-point number. -/
theorem eq_of_number? {literal : Decimal.Literal} {value : Json}
    (denotes : number? literal = some value) :
    (∃ integer : Int, -9223372036854775808 ≤ integer ∧ integer < wordCount ∧
      value = .integer integer) ∨ ∃ number, value = .float number := by
  have float : ∀ {number : Option Float}, number.map Json.float = some value →
      ∃ number, value = .float number := by
    intro number isFloat
    obtain ⟨number, _, rfl⟩ := Option.map_eq_some_iff.mp isFloat
    exact ⟨number, rfl⟩
  unfold number? at denotes
  split at denotes
  · split at denotes
    · rename_i range
      cases denotes
      exact .inl ⟨_, range.1, range.2, rfl⟩
    · exact .inr (float denotes)
  · exact .inr (float denotes)

theorem value?_of_number? {literal : Decimal.Literal} {value : Json}
    (denotes : number? literal = some value) (legible : value.AllFloats IsLegible) (depth : Nat) :
    value.written.value? depth = some value := by
  obtain ⟨integer, above, below, rfl⟩ | ⟨number, rfl⟩ := eq_of_number? denotes
  · rw [written, Written.value?, number?_ofInt above below]
  · obtain ⟨literal, prints, denotes⟩ := legible number (List.mem_singleton.mpr rfl)
    rw [written_float prints, Written.value?, denotes]

theorem values?_writtenItems {depth : Nat} {items : List Json}
    (each : ∀ item ∈ items, item.written.value? depth = some item) :
    Written.values? depth (writtenItems items) = some items := by
  induction items with
  | nil => rfl
  | cons item rest ih =>
      rw [List.forall_mem_cons] at each
      rw [writtenItems, Written.values?, each.1, ih each.2]
      rfl

theorem value?_array {depth : Nat} {items : List Json}
    (each : ∀ item ∈ items, item.written.value? depth = some item) :
    (array items).written.value? (depth + 1) = some (array items) := by
  rw [written, Written.value?, values?_writtenItems each]
  rfl

theorem members?_writtenMembers {depth : Nat} {members : List (String × Json)}
    (each : ∀ entry ∈ members, entry.2.written.value? depth = some entry.2) :
    Written.members? depth (writtenMembers members) = some members := by
  induction members with
  | nil => rfl
  | cons entry rest ih =>
      rw [List.forall_mem_cons] at each
      rw [writtenMembers, Written.members?, each.1, ih each.2]
      rfl

theorem exists_of_values? {depth : Nat} {trees : List Written} {items : List Json}
    (read : Written.values? depth trees = some items) :
    ∀ item ∈ items, ∃ tree ∈ trees, tree.value? depth = some item := by
  induction trees generalizing items with
  | nil =>
      cases read
      exact fun _ none => nomatch none
  | cons tree trees ih =>
      simp only [Written.values?, Option.bind_eq_bind, Option.bind_eq_some_iff, Option.pure_def,
        Option.some.injEq] at read
      obtain ⟨first, readFirst, rest, readRest, rfl⟩ := read
      rw [List.forall_mem_cons]
      refine ⟨⟨tree, List.mem_cons_self, readFirst⟩, fun item member => ?_⟩
      obtain ⟨other, inTrees, readItem⟩ := ih readRest item member
      exact ⟨other, List.mem_cons_of_mem tree inTrees, readItem⟩

theorem exists_of_members? {depth : Nat} {trees : List (Option String × Written)}
    {members : List (String × Json)} (read : Written.members? depth trees = some members) :
    ∀ entry ∈ members, ∃ tree, (some entry.1, tree) ∈ trees ∧ tree.value? depth = some entry.2 := by
  induction trees generalizing members with
  | nil =>
      cases read
      exact fun _ none => nomatch none
  | cons entry trees ih =>
      obtain ⟨key, tree⟩ := entry
      simp only [Written.members?, Option.bind_eq_bind, Option.bind_eq_some_iff, Option.pure_def,
        Option.some.injEq] at read
      obtain ⟨name, rfl, first, readFirst, rest, readRest, rfl⟩ := read
      rw [List.forall_mem_cons]
      refine ⟨⟨tree, List.mem_cons_self, readFirst⟩, fun entry member => ?_⟩
      obtain ⟨other, inTrees, readEntry⟩ := ih readRest entry member
      exact ⟨other, List.mem_cons_of_mem _ inTrees, readEntry⟩

/-- A value that has been read is read again from the way it is written. -/
theorem value?_written {depth : Nat} {tree : Written} {value : Json}
    (read : tree.value? depth = some value) (legible : value.AllFloats IsLegible) :
    value.written.value? depth = some value := by
  induction depth using Nat.strong_induction_on generalizing tree value with
  | _ depth ih =>
  cases tree with
  | null =>
      rw [Written.value?] at read
      cases read
      rw [written, Written.value?]
  | bool value =>
      rw [Written.value?] at read
      cases read
      rw [written, Written.value?]
  | number literal =>
      rw [Written.value?] at read
      exact value?_of_number? read legible depth
  | string text =>
      rw [Written.value?] at read
      obtain ⟨text, rfl, rfl⟩ := Option.map_eq_some_iff.mp read
      rw [written, Written.value?, Option.map_some]
  | array trees =>
      cases depth with
      | zero =>
          rw [Written.value?] at read
          cases read
      | succ depth =>
          rw [Written.value?] at read
          obtain ⟨items, readItems, rfl⟩ := Option.map_eq_some_iff.mp read
          rw [allFloats_array_iff] at legible
          refine value?_array fun item member => ?_
          obtain ⟨_, _, readItem⟩ := exists_of_values? readItems item member
          exact ih depth depth.lt_succ_self readItem (legible item member)
  | object trees =>
      cases depth with
      | zero =>
          rw [Written.value?] at read
          cases read
      | succ depth =>
          rw [Written.value?] at read
          obtain ⟨members, readMembers, rfl⟩ := Option.map_eq_some_iff.mp read
          rw [allFloats_object_iff] at legible
          have each : ∀ entry ∈ (SortedMap.ofList members).entries,
              entry.2.written.value? depth = some entry.2 := by
            intro entry member
            obtain ⟨_, _, readEntry⟩ :=
              exists_of_members? readMembers entry (SortedMap.mem_of_mem_ofList member)
            exact ih depth depth.lt_succ_self readEntry (legible entry member)
          -- The members were put in order when they were read, so they stay as they are.
          rw [written, Written.value?, members?_writtenMembers each, Option.map_some,
            SortedMap.ofList_entries]

end RuleSlicing.Json
