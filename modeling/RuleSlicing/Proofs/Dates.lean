import Mathlib.Tactic.IntervalCases
import RuleSlicing.Calendar

/-!
# Dates that can be read

The number of a day and its year, month and day determine each other, so a date that is
written with a year of four digits is read back. These are the dates from the first day of
the year 0 to the last day of the year 9999, and no other date is ever read.
-/

set_option autoImplicit false

namespace RuleSlicing

/-! ## Digits -/

namespace Text

theorem digit?_lt {char : Char} {value : Nat} (read : digit? char = some value) : value < 10 := by
  unfold digit? at read
  split at read
  · rename_i isDigit
    have below : char.toNat ≤ '9'.toNat := isDigit.2
    have nine : '9'.toNat = 57 := rfl
    have zero : '0'.toNat = 48 := rfl
    have same := Option.some.inj read
    omega
  · cases read

theorem appendDigits_lt {start value : Nat} {chars : List Char}
    (read : appendDigits start chars = some value) :
    value < (start + 1) * Nat.pow 10 chars.length := by
  -- Each digit continues the number that the digits before it make, so the bound is one for
  -- every start.
  induction chars generalizing start with
  | nil =>
      cases read
      exact (Nat.mul_one _).symm ▸ Nat.lt_succ_self _
  | cons char rest ih =>
      unfold appendDigits at read
      split at read
      · rename_i digit known
        have digitBelow := digit?_lt known
        have power : Nat.pow 10 (char :: rest).length = 10 * Nat.pow 10 rest.length :=
          Nat.mul_comm _ _
        calc value < (start * 10 + digit + 1) * Nat.pow 10 rest.length := ih read
          _ ≤ ((start + 1) * 10) * Nat.pow 10 rest.length :=
            Nat.mul_le_mul_right _ (by omega)
          _ = (start + 1) * Nat.pow 10 (char :: rest).length := by rw [power, Nat.mul_assoc]
      · cases read

theorem readDigits_lt {chars : List Char} {value : Nat} (read : readDigits chars = some value) :
    value < Nat.pow 10 chars.length := by
  unfold readDigits at read
  split at read
  · cases read
  · exact (Nat.one_mul (Nat.pow 10 chars.length)) ▸ appendDigits_lt read

theorem readDigits_padded {width value : Nat} (fits : value < Nat.pow 10 width)
    (occupied : width ≠ 0) : readDigits (padded width value) = some value := by
  have nonempty : (padded width value).isEmpty = false := by
    rw [List.isEmpty_eq_false_iff_exists_mem]
    exact List.exists_mem_of_length_pos (by rw [length_padded]; exact Nat.pos_of_ne_zero occupied)
  unfold readDigits
  rw [nonempty, appendDigits_padded, Nat.mod_eq_of_lt fits]
  simp

end Text

/-! ## Days of a counting year -/

namespace Civil

/-- The year from March on that a day belongs to. -/
def countingYear (civil : Civil) : Int :=
  if civil.month ≤ 2 then civil.year - 1 else civil.year

/-- The month, where March is month 0. -/
def countingMonth (civil : Civil) : Int :=
  if civil.month ≤ 2 then civil.month + 9 else civil.month - 3

/-- The number of the first day of a counting year. -/
def yearStart (year : Int) : Int := 365 * year + year / 4 - year / 100 + year / 400

/-- The number of days before a month of a counting year. -/
def monthStart (month : Int) : Int := (153 * month + 2) / 5

theorem dayNumber_eq (civil : Civil) : civil.dayNumber =
    yearStart civil.countingYear + monthStart civil.countingMonth + civil.day - 1 := rfl

theorem isValid_iff (civil : Civil) : civil.isValid = true ↔
    1 ≤ civil.month ∧ civil.month ≤ 12 ∧ 1 ≤ civil.day ∧
      civil.day ≤ daysInMonth civil.year civil.month := by
  simp [isValid, and_assoc]

section Valid

variable {civil : Civil} (valid : civil.isValid = true)

include valid

theorem countingMonth_bounds : 0 ≤ civil.countingMonth ∧ civil.countingMonth ≤ 11 := by
  obtain ⟨low, high, _⟩ := (isValid_iff civil).mp valid
  unfold countingMonth
  split <;> omega

/-- A month other than February ends before the next one starts. -/
theorem day_lt_of_month (early : civil.countingMonth ≤ 10) :
    monthStart civil.countingMonth + civil.day - 1 < monthStart (civil.countingMonth + 1) := by
  obtain ⟨low, high, _, last⟩ := (isValid_iff civil).mp valid
  unfold countingMonth at early ⊢
  unfold monthStart
  generalize civil.month = month at *
  -- The starts of the months are rounded, and they leave just as many days as each month has.
  interval_cases month
  all_goals simp [daysInMonth] at *
  all_goals omega

/-- A counting year ends with February, before the next one starts. -/
theorem day_lt_of_year :
    yearStart civil.countingYear + monthStart civil.countingMonth + civil.day - 1 <
      yearStart (civil.countingYear + 1) := by
  -- February is the only month whose length depends on the year.
  by_cases early : civil.countingMonth ≤ 10
  · have before := day_lt_of_month valid early
    unfold yearStart
    unfold monthStart at before ⊢
    omega
  · obtain ⟨low, high, _, last⟩ := (isValid_iff civil).mp valid
    have isFebruary : civil.month = 2 := by
      unfold countingMonth at early
      split at early <;> omega
    rw [isFebruary] at last
    have days : civil.day ≤ if isLeapYear civil.year then 29 else 28 := last
    unfold countingYear countingMonth yearStart monthStart
    rw [isFebruary]
    split at days
    · rename_i leap
      simp [isLeapYear] at leap
      simp
      omega
    · simp
      omega

end Valid

theorem yearStart_mono {earlier later : Int} (ordered : earlier ≤ later) :
    yearStart earlier ≤ yearStart later := by
  rcases Int.lt_or_eq_of_le ordered with before | rfl
  · unfold yearStart
    omega
  · exact Int.le_refl _

theorem monthStart_mono {earlier later : Int} (ordered : earlier ≤ later) :
    monthStart earlier ≤ monthStart later := by
  unfold monthStart
  omega

section Order

variable {left right : Civil} (leftValid : left.isValid = true) (rightValid : right.isValid = true)

include leftValid rightValid

theorem dayNumber_lt_of_year (earlier : left.countingYear < right.countingYear) :
    left.dayNumber < right.dayNumber := by
  have start : 0 ≤ monthStart right.countingMonth := by
    have month := countingMonth_bounds rightValid
    unfold monthStart
    omega
  have first := ((isValid_iff right).mp rightValid).2.2.1
  have ends := day_lt_of_year leftValid
  have years := yearStart_mono (Int.add_one_le_of_lt earlier)
  rw [dayNumber_eq, dayNumber_eq]
  omega

theorem dayNumber_lt_of_month (year : left.countingYear = right.countingYear)
    (earlier : left.countingMonth < right.countingMonth) : left.dayNumber < right.dayNumber := by
  have last := (countingMonth_bounds rightValid).2
  have first := ((isValid_iff right).mp rightValid).2.2.1
  have ends := day_lt_of_month leftValid (by omega)
  have months := monthStart_mono (Int.add_one_le_of_lt earlier)
  rw [dayNumber_eq, dayNumber_eq, year]
  omega

theorem countingYear_eq (same : left.dayNumber = right.dayNumber) :
    left.countingYear = right.countingYear := by
  rcases lt_trichotomy left.countingYear right.countingYear with earlier | equal | later
  · have := dayNumber_lt_of_year leftValid rightValid earlier
    omega
  · exact equal
  · have := dayNumber_lt_of_year rightValid leftValid later
    omega

theorem countingMonth_eq (same : left.dayNumber = right.dayNumber) :
    left.countingMonth = right.countingMonth := by
  have year := countingYear_eq leftValid rightValid same
  rcases lt_trichotomy left.countingMonth right.countingMonth with earlier | equal | later
  · have := dayNumber_lt_of_month leftValid rightValid year earlier
    omega
  · exact equal
  · have := dayNumber_lt_of_month rightValid leftValid year.symm later
    omega

theorem eq_of_dayNumber_eq (same : left.dayNumber = right.dayNumber) : left = right := by
  -- The number settles the year, then the month within it, and what is left is the day.
  have year := countingYear_eq leftValid rightValid same
  have month := countingMonth_eq leftValid rightValid same
  rw [dayNumber_eq, dayNumber_eq, year, month] at same
  obtain ⟨leftLow, leftHigh, _⟩ := (isValid_iff left).mp leftValid
  obtain ⟨rightLow, rightHigh, _⟩ := (isValid_iff right).mp rightValid
  unfold countingMonth at month
  unfold countingYear at year
  have number : left.month = right.month := by
    split at month <;> split at month <;> omega
  rw [number] at year
  have years : left.year = right.year := by
    split at year <;> omega
  have days : left.day = right.day := by omega
  cases left
  cases right
  rw [mk.injEq]
  exact ⟨years, number, days⟩

end Order

/-! ## Days by number -/

/-- The day that comes some days after the first of March of a counting year. -/
def ofDayInYear (year inYear : Int) : Civil :=
  let month := (5 * inYear + 2) / 153
  let day := inYear - (153 * month + 2) / 5 + 1
  if month < 10 then ⟨year, (month + 3).toNat, day.toNat⟩
  else ⟨year + 1, (month - 9).toNat, day.toNat⟩

/-- A counting year has 366 days only if it ends in a leap year. -/
theorem exists_ofDayInYear (number : Int) : ∃ year inYear,
    ofDayNumber number = ofDayInYear year inYear ∧ 0 ≤ inYear ∧ inYear ≤ 365 ∧
      (inYear = 365 → isLeapYear (year + 1) = true) := by
  unfold ofDayNumber
  extract_lets cycles inCycle centuries inCentury quads inQuad years inYear month day year
  have centuriesInCycle : 0 ≤ centuries ∧ centuries ≤ 3 := by
    simp only [centuries]
    split <;> omega
  have century : 0 ≤ inCentury ∧ inCentury ≤ 36524 ∧ (inCentury = 36524 → centuries = 3) := by
    simp only [inCentury, centuries]
    split <;> omega
  have days : 0 ≤ inYear ∧ inYear ≤ 365 ∧ (inYear = 365 → years = 3 ∧ inQuad = 1460) := by
    simp only [inYear, years]
    split <;> omega
  have yearParts : year = 400 * cycles + 100 * centuries + 4 * quads + years := rfl
  have quadParts : inCentury = 1461 * quads + inQuad ∧ 0 ≤ quads := by omega
  refine ⟨year, inYear, rfl, days.1, days.2.1, fun longest => ?_⟩
  clear_value year quads inQuad years inYear inCentury centuries
  simp [isLeapYear]
  omega

theorem isValid_ofDayInYear {year inYear : Int} (low : 0 ≤ inYear) (high : inYear ≤ 365)
    (longest : inYear = 365 → isLeapYear (year + 1) = true) :
    (ofDayInYear year inYear).isValid = true := by
  rw [isValid_iff]
  unfold ofDayInYear
  extract_lets month day
  have inMonth : 153 * month ≤ 5 * inYear + 2 ∧ 5 * inYear + 2 ≤ 153 * month + 152 := by omega
  have dayInMonth : day = inYear - (153 * month + 2) / 5 + 1 := rfl
  -- From here on only these facts about month and day count, not how they are made.
  clear_value month day
  split
  · rename_i early
    have low : 0 ≤ month := by omega
    interval_cases month
    all_goals simp [daysInMonth]
    all_goals omega
  · rename_i late
    have low : 10 ≤ month := by omega
    have high : month ≤ 11 := by omega
    interval_cases month
    · simp [daysInMonth]
      omega
    · have february : daysInMonth (year + 1) ((11 : Int) - 9).toNat =
          if isLeapYear (year + 1) then 29 else 28 := rfl
      simp only [february]
      split
      · simp
        omega
      · rename_i common
        have shorter : inYear ≠ 365 := mt longest common
        simp
        omega

theorem isValid_ofDayNumber (number : Int) : (ofDayNumber number).isValid = true := by
  obtain ⟨year, inYear, same, low, high, longest⟩ := exists_ofDayInYear number
  rw [same]
  exact isValid_ofDayInYear low high longest

theorem ofDayNumber_dayNumber {civil : Civil} (valid : civil.isValid = true) :
    ofDayNumber civil.dayNumber = civil :=
  eq_of_dayNumber_eq (isValid_ofDayNumber _) valid (dayNumber_ofDayNumber _)

/-- January and February end a counting year, from its day 306 on. -/
private theorem year_of_countingYear {civil : Civil} (valid : civil.isValid = true) :
    (civil.year = civil.countingYear ∧ civil.dayNumber < yearStart civil.countingYear + 306) ∨
      (civil.year = civil.countingYear + 1 ∧
        yearStart civil.countingYear + 306 ≤ civil.dayNumber) := by
  obtain ⟨low, _, first, _⟩ := (isValid_iff civil).mp valid
  rw [dayNumber_eq]
  by_cases late : civil.month ≤ 2
  · have months : monthStart 10 ≤ monthStart civil.countingMonth :=
      monthStart_mono (by unfold countingMonth; rw [if_pos late]; omega)
    have before : monthStart 10 = 306 := rfl
    refine .inr ⟨?_, by omega⟩
    unfold countingYear
    rw [if_pos late]
    omega
  · have early : civil.countingMonth ≤ 9 := by
      have high := ((isValid_iff civil).mp valid).2.1
      unfold countingMonth
      rw [if_neg late]
      omega
    have ends := day_lt_of_month valid (by omega)
    have months : monthStart (civil.countingMonth + 1) ≤ monthStart 10 :=
      monthStart_mono (by omega)
    have before : monthStart 10 = 306 := rfl
    refine .inl ⟨?_, by omega⟩
    unfold countingYear
    rw [if_neg late]

/-- The days of the years from 0 to 9999 have consecutive numbers. -/
theorem year_bounds_iff {civil : Civil} (valid : civil.isValid = true) :
    0 ≤ civil.year ∧ civil.year ≤ 9999 ↔ -60 ≤ civil.dayNumber ∧ civil.dayNumber ≤ 3652364 := by
  have after : yearStart civil.countingYear ≤ civil.dayNumber := by
    have month := countingMonth_bounds valid
    have first := ((isValid_iff civil).mp valid).2.2.1
    have start : monthStart 0 ≤ monthStart civil.countingMonth := monthStart_mono month.1
    have zero : monthStart 0 = 0 := rfl
    rw [dayNumber_eq]
    omega
  have before : civil.dayNumber < yearStart (civil.countingYear + 1) := day_lt_of_year valid
  have parts := year_of_countingYear valid
  unfold yearStart at *
  constructor
  · rintro ⟨low, high⟩
    omega
  · rintro ⟨low, high⟩
    omega

/-! ## Texts of days -/

theorem toList_render {civil : Civil} (low : 0 ≤ civil.year) (high : civil.year ≤ 9999) :
    civil.render.toList = Text.padded 4 civil.year.toNat ++
      '-' :: (Text.padded 2 civil.month ++ '-' :: Text.padded 2 civil.day) := by
  unfold render
  rw [if_pos ⟨low, high⟩]
  simp

theorem parse?_render {civil : Civil} (valid : civil.isValid = true) (low : 0 ≤ civil.year)
    (high : civil.year ≤ 9999) : parse? civil.render = some civil := by
  obtain ⟨_, monthHigh, _, dayHigh⟩ := (isValid_iff civil).mp valid
  have dayBelow : daysInMonth civil.year civil.month ≤ 31 := by
    unfold daysInMonth
    repeat' split
    all_goals omega
  have year : Text.readDigits (Text.padded 4 civil.year.toNat) = some civil.year.toNat :=
    Text.readDigits_padded (show civil.year.toNat < 10000 by omega) (by decide)
  have month : Text.readDigits (Text.padded 2 civil.month) = some civil.month :=
    Text.readDigits_padded (show civil.month < 100 by omega) (by decide)
  have day : Text.readDigits (Text.padded 2 civil.day) = some civil.day :=
    Text.readDigits_padded (show civil.day < 100 by omega) (by decide)
  unfold parse?
  rw [toList_render low high]
  show ((Text.readDigits (Text.padded 4 civil.year.toNat)).bind fun year =>
    (Text.readDigits (Text.padded 2 civil.month)).bind fun month =>
      (Text.readDigits (Text.padded 2 civil.day)).bind fun day =>
        if (⟨year, month, day⟩ : Civil).isValid then some (⟨year, month, day⟩ : Civil) else none) = _
  have same : (civil.year.toNat : Int) = civil.year := Int.toNat_of_nonneg low
  rw [year, month, day]
  simp only [Option.bind_some, same]
  exact if_pos valid

theorem year_of_parse? {text : String} {civil : Civil} (parsed : parse? text = some civil) :
    civil.isValid = true ∧ 0 ≤ civil.year ∧ civil.year ≤ 9999 := by
  unfold parse? at parsed
  split at parsed
  · obtain ⟨year, read, parsed⟩ := Option.bind_eq_some_iff.mp parsed
    obtain ⟨month, _, parsed⟩ := Option.bind_eq_some_iff.mp parsed
    obtain ⟨day, _, parsed⟩ := Option.bind_eq_some_iff.mp parsed
    simp only at parsed
    split at parsed
    · rename_i valid
      cases parsed
      have below : year < Nat.pow 10 4 := Text.readDigits_lt read
      have width : Nat.pow 10 4 = 10000 := rfl
      exact ⟨valid, by simp only; omega, by simp only; omega⟩
    · cases parsed
  · cases parsed

end Civil

/-! ## Dates -/

namespace Date

/-- The date has a year of four digits without a sign. -/
def Readable (date : Date) : Prop := 0 ≤ date.civil.year ∧ date.civil.year ≤ 9999

theorem readable_iff (date : Date) : date.Readable ↔ -60 ≤ date.val ∧ date.val ≤ 3652364 := by
  have bounds := Civil.year_bounds_iff (Civil.isValid_ofDayNumber date.val)
  rwa [Civil.dayNumber_ofDayNumber] at bounds

theorem readable_of_between {first last date : Date} (firstReadable : first.Readable)
    (lastReadable : last.Readable) (after : first ≤ date) (before : date ≤ last) :
    date.Readable := by
  rw [readable_iff] at *
  have after : first.val ≤ date.val := after
  have before : date.val ≤ last.val := before
  omega

theorem parse?_render {date : Date} (readable : date.Readable) :
    parse? date.render = some date := by
  have valid : date.civil.isValid = true := Civil.isValid_ofDayNumber date.val
  have number : date.civil.dayNumber = date.val := Civil.dayNumber_ofDayNumber date.val
  unfold parse? render
  rw [Civil.parse?_render valid readable.1 readable.2, Option.bind_some, number]
  exact (Bounded.ofInt?_eq_some_iff _ _).mpr rfl

theorem readable_of_parse? {text : String} {date : Date} (parsed : parse? text = some date) :
    date.Readable := by
  obtain ⟨civil, read, made⟩ := Option.bind_eq_some_iff.mp parsed
  obtain ⟨valid, years⟩ := Civil.year_of_parse? read
  have number : date.val = civil.dayNumber := (Bounded.ofInt?_eq_some_iff _ _).mp made
  have same : date.civil = civil := by
    rw [Date.civil, number, Civil.ofDayNumber_dayNumber valid]
  unfold Readable
  rwa [same]

end Date

end RuleSlicing
