import Mathlib.Order.Basic
import Mathlib.Tactic.NormNum

/-!
# The calendar

The proleptic Gregorian calendar, as the standard library of Python counts
it: a date is a year, a month and a day, and its day number is how many days
after the first day of the year 1 it is. Numbering the days and naming them
are inverse to each other (`CivilDate.dayNumber_ofDayNumber`,
`CivilDate.ofDayNumber_dayNumber`), and the later of two days is the one with
the larger year, month and day, in this order (`CivilDate.dayNumber_lt_iff`).
-/

namespace Calendar

/-! ## Years and months -/

/-- Whether a year has 366 days. -/
def isLeap (y : ℕ) : Bool := y % 4 = 0 && (y % 100 ≠ 0 || y % 400 = 0)

/-- The days of a month. -/
def daysInMonth (leap : Bool) : ℕ → ℕ
  | 2 => if leap then 29 else 28
  | 4 | 6 | 9 | 11 => 30
  | _ => 31

/-- The days of a year before a month. -/
def daysBeforeMonth (leap : Bool) : ℕ → ℕ
  | 0 | 1 => 0
  | m + 2 => daysBeforeMonth leap (m + 1) + daysInMonth leap (m + 1)

/-- The days of a year. -/
def daysInYear (leap : Bool) : ℕ := if leap then 366 else 365

/-- The days before a year. -/
def daysBeforeYear (y : ℕ) : ℕ := (y - 1) * 365 + (y - 1) / 4 - (y - 1) / 100 + (y - 1) / 400

theorem isLeap_iff {y : ℕ} : isLeap y = true ↔ y % 4 = 0 ∧ (y % 100 ≠ 0 ∨ y % 400 = 0) := by
  simp [isLeap]

theorem daysInYear_isLeap (y : ℕ) : daysInYear (isLeap y)
    = if y % 4 = 0 ∧ (y % 100 ≠ 0 ∨ y % 400 = 0) then 366 else 365 := by
  simp [daysInYear, isLeap_iff]

/-- A year ends where the next one begins. -/
theorem daysBeforeYear_succ {y : ℕ} (hy : 0 < y) :
    daysBeforeYear (y + 1) = daysBeforeYear y + daysInYear (isLeap y) := by
  obtain ⟨k, rfl⟩ := Nat.exists_eq_succ_of_ne_zero hy.ne'
  have hle : k / 100 ≤ k / 4 := Nat.div_le_div_left (by decide) (by decide)
  have h4 : (k + 1) / 4 = k / 4 + if (k + 1) % 4 = 0 then 1 else 0 := by split_ifs <;> omega
  have h100 : (k + 1) / 100 = k / 100 + if (k + 1) % 100 = 0 then 1 else 0 := by
    split_ifs <;> omega
  have h400 : (k + 1) / 400 = k / 400 + if (k + 1) % 400 = 0 then 1 else 0 := by
    split_ifs <;> omega
  have hdvd : (k + 1) % 100 = 0 → (k + 1) % 4 = 0 := by omega
  have hdvd' : (k + 1) % 400 = 0 → (k + 1) % 100 = 0 := by omega
  simp only [daysInYear_isLeap, daysBeforeYear, Nat.succ_eq_add_one, Nat.add_sub_cancel, h4, h100,
    h400]
  generalize (k + 1) % 4 = r4 at *
  generalize (k + 1) % 100 = r100 at *
  generalize (k + 1) % 400 = r400 at *
  by_cases hr4 : r4 = 0 <;> by_cases hr100 : r100 = 0 <;> by_cases hr400 : r400 = 0 <;>
    simp only [hr4, hr100, hr400, if_true, if_false, ne_eq, not_true_eq_false, not_false_eq_true,
      true_and, false_and, or_true, or_false, and_self] at * <;> omega

/-- An earlier year ends before a later one begins. -/
theorem daysBeforeYear_le {y z : ℕ} (hy : 0 < y) (h : y < z) :
    daysBeforeYear y + daysInYear (isLeap y) ≤ daysBeforeYear z := by
  induction z, h using Nat.le_induction with
  | base => exact (daysBeforeYear_succ hy).ge
  | succ z hz ih =>
    rw [daysBeforeYear_succ (hy.trans hz)]
    exact ih.trans (Nat.le_add_right _ _)

/-- An earlier month ends before a later one begins. -/
theorem daysBeforeMonth_le (leap : Bool) {m n : ℕ} (hm : 0 < m) (h : m < n) :
    daysBeforeMonth leap m + daysInMonth leap m ≤ daysBeforeMonth leap n := by
  induction n, h using Nat.le_induction with
  | base =>
    obtain ⟨k, rfl⟩ := Nat.exists_eq_succ_of_ne_zero hm.ne'
    exact le_rfl
  | succ n hn ih =>
    obtain ⟨k, rfl⟩ := Nat.exists_eq_succ_of_ne_zero (hm.trans hn).ne'
    exact ih.trans (Nat.le_add_right _ _)

/-- December ends with the year. -/
theorem daysBeforeMonth_twelve (leap : Bool) :
    daysBeforeMonth leap 12 + daysInMonth leap 12 = daysInYear leap := by
  cases leap <;> rfl

/-! ## The year and the month of a day -/
/-- The year, and how many days of it have passed, of a day that is given by
its cycles of 400, 100, 4 and one years and the days over. -/
def yearOfCycles (n400 n100 n4 n1 n : ℕ) : ℕ × ℕ :=
  let year := n400 * 400 + n100 * 100 + n4 * 4 + n1
  -- the last day of a leap year makes a fifth year, or a fifth century
  if n1 = 4 ∨ n100 = 4 then (year, 365) else (year + 1, n)

/-- … of a day number. -/
def yearOfDay (n : ℕ) : ℕ × ℕ :=
  yearOfCycles (n / 146097) (n % 146097 / 36524) (n % 146097 % 36524 / 1461)
    (n % 146097 % 36524 % 1461 / 365) (n % 146097 % 36524 % 1461 % 365)

/-- The month of a day of the year, and how many days of it have passed: an
estimate that is exact or one too large. -/
def monthOfDay (leap : Bool) (n : ℕ) : ℕ × ℕ :=
  let month := (n + 50) / 32
  if n < daysBeforeMonth leap month then (month - 1, n - daysBeforeMonth leap (month - 1))
  else (month, n - daysBeforeMonth leap month)

/-- What the cycles of a day are bounded by. -/
structure Cycles (n400 n100 n4 n1 n : ℕ) : Prop where
  hundreds : n100 ≤ 4
  fours : n4 ≤ 24
  ones : n1 ≤ 4
  days : n < 365
  /-- A fifth century, or a fifth year, is one day. -/
  fifthCentury : n100 = 4 → n4 = 0 ∧ n1 = 0 ∧ n = 0
  fifthYear : n1 = 4 → n = 0
  /-- The last four years of a century are a day short. -/
  century : n4 = 24 → n1 < 4

theorem cycles_day (n : ℕ) : Cycles (n / 146097) (n % 146097 / 36524)
    (n % 146097 % 36524 / 1461) (n % 146097 % 36524 % 1461 / 365)
    (n % 146097 % 36524 % 1461 % 365) := by
  have ha : n % 146097 < 146097 := Nat.mod_lt _ (by decide)
  have hb : n % 146097 % 36524 < 36524 := Nat.mod_lt _ (by decide)
  have hc : n % 146097 % 36524 % 1461 < 1461 := Nat.mod_lt _ (by decide)
  constructor <;> omega

/-- The last day of a leap year. -/
theorem daysBeforeYear_last {k n400 n100 n4 n1 n : ℕ} (h : Cycles n400 n100 n4 n1 n)
    (hk : k = n400 * 400 + n100 * 100 + n4 * 4 + n1) (hlast : n1 = 4 ∨ n100 = 4) :
    0 < k ∧ daysInYear (isLeap k) = 366
      ∧ daysBeforeYear k + 365
        = n400 * 146097 + n100 * 36524 + n4 * 1461 + n1 * 365 + n := by
  obtain ⟨h100, h4, h1, hn, hcentury, hyear, hshort⟩ := h
  have hpos : 0 < k := by omega
  have hleap : k % 4 = 0 ∧ (k % 100 ≠ 0 ∨ k % 400 = 0) := by omega
  have hdays : daysInYear (isLeap k) = 366 := by rw [daysInYear_isLeap, if_pos hleap]
  have hsucc := daysBeforeYear_succ hpos
  rw [hdays] at hsucc
  have hbefore : daysBeforeYear (k + 1) = k * 365 + k / 4 - k / 100 + k / 400 := rfl
  have hk4 : k / 4 = n400 * 100 + n100 * 25 + n4 + n1 / 4 := by omega
  have hk100 : k / 100 = n400 * 4 + n100 := by omega
  have hk400 : k / 400 = n400 + n100 / 4 := by omega
  refine ⟨hpos, hdays, ?_⟩
  omega

/-- Any other day. -/
theorem daysBeforeYear_other {k n400 n100 n4 n1 n : ℕ} (h : Cycles n400 n100 n4 n1 n)
    (hk : k = n400 * 400 + n100 * 100 + n4 * 4 + n1) (hlast : ¬ (n1 = 4 ∨ n100 = 4)) :
    daysBeforeYear (k + 1) + n
      = n400 * 146097 + n100 * 36524 + n4 * 1461 + n1 * 365 + n := by
  obtain ⟨h100, h4, h1, hn, hcentury, hyear, hshort⟩ := h
  have hbefore : daysBeforeYear (k + 1) = k * 365 + k / 4 - k / 100 + k / 400 := rfl
  have hk4 : k / 4 = n400 * 100 + n100 * 25 + n4 := by omega
  have hk100 : k / 100 = n400 * 4 + n100 := by omega
  have hk400 : k / 400 = n400 := by omega
  omega

theorem yearOfCycles_spec {n400 n100 n4 n1 n : ℕ} (h : Cycles n400 n100 n4 n1 n) :
    0 < (yearOfCycles n400 n100 n4 n1 n).1
      ∧ (yearOfCycles n400 n100 n4 n1 n).2
        < daysInYear (isLeap (yearOfCycles n400 n100 n4 n1 n).1)
      ∧ daysBeforeYear (yearOfCycles n400 n100 n4 n1 n).1
          + (yearOfCycles n400 n100 n4 n1 n).2
        = n400 * 146097 + n100 * 36524 + n4 * 1461 + n1 * 365 + n := by
  unfold yearOfCycles
  dsimp only
  split_ifs with hlast
  · obtain ⟨hpos, hdays, hsum⟩ := daysBeforeYear_last h rfl hlast
    exact ⟨hpos, hdays.symm ▸ Nat.lt_succ_self 365, hsum⟩
  · refine ⟨Nat.succ_pos _, h.days.trans_le ?_, daysBeforeYear_other h rfl hlast⟩
    unfold daysInYear
    split_ifs <;> decide

/-- A year is found among the days before it and after. -/
theorem yearOfDay_spec (n : ℕ) : 0 < (yearOfDay n).1
    ∧ (yearOfDay n).2 < daysInYear (isLeap (yearOfDay n).1)
    ∧ daysBeforeYear (yearOfDay n).1 + (yearOfDay n).2 = n := by
  unfold yearOfDay
  obtain ⟨hpos, hlt, heq⟩ := yearOfCycles_spec (cycles_day n)
  refine ⟨hpos, hlt, ?_⟩
  rw [heq]
  have h400 := Nat.div_add_mod n 146097
  have h100 := Nat.div_add_mod (n % 146097) 36524
  have h4 := Nat.div_add_mod (n % 146097 % 36524) 1461
  have h1 := Nat.div_add_mod (n % 146097 % 36524 % 1461) 365
  omega

/-- A month is found among the days before it and after. -/
theorem monthOfDay_spec (leap : Bool) {n : ℕ} (h : n < daysInYear leap) :
    0 < (monthOfDay leap n).1 ∧ (monthOfDay leap n).1 ≤ 12
      ∧ (monthOfDay leap n).2 < daysInMonth leap (monthOfDay leap n).1
      ∧ daysBeforeMonth leap (monthOfDay leap n).1 + (monthOfDay leap n).2 = n := by
  have hall : ∀ leap : Bool, ∀ n : Fin 366, n.val < daysInYear leap →
      0 < (monthOfDay leap n).1 ∧ (monthOfDay leap n).1 ≤ 12
        ∧ (monthOfDay leap n).2 < daysInMonth leap (monthOfDay leap n).1
        ∧ daysBeforeMonth leap (monthOfDay leap n).1 + (monthOfDay leap n).2 = n.val := by
    decide +kernel
  have hlt : n < 366 := h.trans_le (by cases leap <;> decide)
  exact hall leap ⟨n, hlt⟩ h

end Calendar

/-! ## Dates -/

/-- **A date of the calendar.** -/
structure CivilDate where
  year : ℕ
  month : ℕ
  day : ℕ
  year_pos : 0 < year
  month_pos : 0 < month
  month_le : month ≤ 12
  day_pos : 0 < day
  day_le : day ≤ Calendar.daysInMonth (Calendar.isLeap year) month

namespace CivilDate

open Calendar

/-- **The date of a day number.** -/
def ofDayNumber (n : ℕ) : CivilDate where
  year := (yearOfDay n).1
  month := (monthOfDay (isLeap (yearOfDay n).1) (yearOfDay n).2).1
  day := (monthOfDay (isLeap (yearOfDay n).1) (yearOfDay n).2).2 + 1
  year_pos := (yearOfDay_spec n).1
  month_pos := (monthOfDay_spec _ (yearOfDay_spec n).2.1).1
  month_le := (monthOfDay_spec _ (yearOfDay_spec n).2.1).2.1
  day_pos := Nat.succ_pos _
  day_le := (monthOfDay_spec _ (yearOfDay_spec n).2.1).2.2.1

/-- **The day number of a date.** -/
def dayNumber (d : CivilDate) : ℕ :=
  daysBeforeYear d.year + daysBeforeMonth (isLeap d.year) d.month + (d.day - 1)

/-- A date is earlier by its year, its month, or its day. -/
def Earlier (d e : CivilDate) : Prop :=
  d.year < e.year ∨ d.year = e.year
    ∧ (d.month < e.month ∨ d.month = e.month ∧ d.day < e.day)

theorem ext_fields {d e : CivilDate} (hyear : d.year = e.year) (hmonth : d.month = e.month)
    (hday : d.day = e.day) : d = e := by
  cases d
  cases e
  subst hyear hmonth hday
  rfl

instance : DecidableEq CivilDate := fun d e =>
  decidable_of_iff (d.year = e.year ∧ d.month = e.month ∧ d.day = e.day)
    ⟨fun h => ext_fields h.1 h.2.1 h.2.2, fun h => h ▸ ⟨rfl, rfl, rfl⟩⟩

/-- A date is within its year. -/
theorem dayOfYear_lt (d : CivilDate) :
    daysBeforeMonth (isLeap d.year) d.month + (d.day - 1) < daysInYear (isLeap d.year) := by
  have hday := d.day_le
  have hpos := d.day_pos
  have hend : daysBeforeMonth (isLeap d.year) d.month + daysInMonth (isLeap d.year) d.month
      ≤ daysInYear (isLeap d.year) := by
    rw [← daysBeforeMonth_twelve]
    rcases d.month_le.lt_or_eq with hlt | heq
    · exact (daysBeforeMonth_le _ d.month_pos hlt).trans (Nat.le_add_right _ _)
    · rw [heq]
  omega

/-- Earlier dates have smaller numbers. -/
theorem Earlier.dayNumber_lt {d e : CivilDate} (h : d.Earlier e) :
    d.dayNumber < e.dayNumber := by
  unfold dayNumber
  rcases h with hyear | ⟨hyear, hmonth | ⟨hmonth, hday⟩⟩
  · have hend := daysBeforeYear_le d.year_pos hyear
    have hin := d.dayOfYear_lt
    omega
  · rw [hyear]
    have hend := daysBeforeMonth_le (isLeap e.year) d.month_pos hmonth
    have hday := hyear ▸ d.day_le
    have hpos := d.day_pos
    omega
  · rw [hyear, hmonth]
    have hpos := d.day_pos
    omega

/-- Dates are linearly ordered. -/
theorem earlier_trichotomy (d e : CivilDate) : d.Earlier e ∨ d = e ∨ e.Earlier d := by
  rcases lt_trichotomy d.year e.year with hyear | hyear | hyear
  · exact .inl (.inl hyear)
  · rcases lt_trichotomy d.month e.month with hmonth | hmonth | hmonth
    · exact .inl (.inr ⟨hyear, .inl hmonth⟩)
    · rcases lt_trichotomy d.day e.day with hday | hday | hday
      · exact .inl (.inr ⟨hyear, .inr ⟨hmonth, hday⟩⟩)
      · exact .inr (.inl (ext_fields hyear hmonth hday))
      · exact .inr (.inr (.inr ⟨hyear.symm, .inr ⟨hmonth.symm, hday⟩⟩))
    · exact .inr (.inr (.inr ⟨hyear.symm, .inl hmonth⟩))
  · exact .inr (.inr (.inl hyear))

/-- **The earlier date is the one with the smaller number.** -/
theorem dayNumber_lt_iff {d e : CivilDate} : d.dayNumber < e.dayNumber ↔ d.Earlier e := by
  refine ⟨fun h => ?_, Earlier.dayNumber_lt⟩
  rcases earlier_trichotomy d e with hlt | rfl | hgt
  · exact hlt
  · exact absurd h (lt_irrefl _)
  · exact absurd (h.trans hgt.dayNumber_lt) (lt_irrefl _)

theorem dayNumber_injective {d e : CivilDate} (h : d.dayNumber = e.dayNumber) : d = e := by
  rcases earlier_trichotomy d e with hlt | heq | hgt
  · exact absurd h hlt.dayNumber_lt.ne
  · exact heq
  · exact absurd h hgt.dayNumber_lt.ne'

/-- A date before a year began is of an earlier year. -/
theorem year_lt_of_dayNumber_lt {d : CivilDate} {y : ℕ} (hy : 0 < y)
    (h : d.dayNumber < daysBeforeYear y) : d.year < y := by
  by_contra hle
  rcases (not_lt.mp hle).lt_or_eq with hlt | heq
  · have hbefore := daysBeforeYear_le hy hlt
    unfold dayNumber at h
    omega
  · rw [dayNumber, ← heq] at h
    omega

/-- **Naming a day and numbering it again.** -/
@[simp] theorem dayNumber_ofDayNumber (n : ℕ) : (ofDayNumber n).dayNumber = n := by
  obtain ⟨-, hin, hyear⟩ := yearOfDay_spec n
  obtain ⟨-, -, -, hmonth⟩ := monthOfDay_spec _ hin
  unfold dayNumber ofDayNumber
  rw [Nat.add_sub_cancel, add_assoc, hmonth, hyear]

/-- **Numbering a date and naming it again.** -/
@[simp] theorem ofDayNumber_dayNumber (d : CivilDate) : ofDayNumber d.dayNumber = d :=
  dayNumber_injective (dayNumber_ofDayNumber _)

end CivilDate
