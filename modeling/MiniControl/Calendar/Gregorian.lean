import MiniControl.Text.Collation

/-!
# Dates of the Gregorian calendar

Days are counted from 1 January of the year 1, in both directions. Cycles of 400, 100
and 4 years give the year of a day, and the lengths of the months give the rest of the
date. Days stand in the order of their dates.
-/

namespace Calendar

open Text

/-- The days from 1 January of the year 1 to 1 January of a year. -/
def daysBefore (year : ℤ) : ℤ :=
  365 * (year - 1) + (year - 1) / 4 - (year - 1) / 100 + (year - 1) / 400

/-- The leap years of the Gregorian calendar. -/
def isLeap (year : ℤ) : Bool :=
  year % 4 = 0 ∧ (year % 100 ≠ 0 ∨ year % 400 = 0)

/-- The year of a day. The last year of 100 and the last one of 4 may be a day longer. -/
def yearOf (days : ℤ) : ℤ :=
  let inCycle := days % 146097
  let centuries := min (inCycle / 36524) 3
  let inCentury := inCycle - 36524 * centuries
  let inFour := inCentury % 1461
  400 * (days / 146097) + 100 * centuries + 4 * (inCentury / 1461) + min (inFour / 365) 3 + 1

/-- The lengths of the months. -/
def monthLengths (leap : Bool) : List ℕ :=
  [31, if leap then 29 else 28, 31, 30, 31, 30, 31, 31, 30, 31, 30, 31]

/-- The month and the day of the month of a day of the year, which is counted from zero. -/
def monthAndDay : List ℕ → ℕ → ℕ × ℕ
  | [], day => (1, day + 1)
  | length :: rest, day =>
    if day < length then (1, day + 1)
    else ((monthAndDay rest (day - length)).1 + 1, (monthAndDay rest (day - length)).2)

/-- The number of a day in its year, counted from zero. -/
def dayOfYear (days : ℤ) : ℕ := (days - daysBefore (yearOf days)).toNat

/-- A date of the calendar. -/
structure Date where
  year : ℤ
  month : ℕ
  day : ℕ
  deriving DecidableEq

/-- The date of a day. -/
def dateOf (days : ℤ) : Date :=
  let monthDay := monthAndDay (monthLengths (isLeap (yearOf days))) (dayOfYear days)
  ⟨yearOf days, monthDay.1, monthDay.2⟩

example : dateOf 738944 = ⟨2024, 2, 29⟩ := by decide

/-- A year has 366 days if it is a leap year. -/
theorem sum_monthLengths (leap : Bool) :
    (monthLengths leap).sum = if leap then 366 else 365 := by
  cases leap <;> rfl

/-- A year begins when the months of the year before it have passed. -/
theorem daysBefore_succ (year : ℤ) :
    daysBefore (year + 1) = daysBefore year + (monthLengths (isLeap year)).sum := by
  rw [sum_monthLengths, daysBefore, daysBefore]
  by_cases hleap : isLeap year = true
  · rw [if_pos hleap]
    rw [isLeap, decide_eq_true_eq] at hleap
    omega
  · rw [if_neg hleap]
    rw [isLeap, decide_eq_true_eq] at hleap
    omega

/-- Later years begin later. -/
theorem daysBefore_le {year year' : ℤ} (h : year ≤ year') : daysBefore year ≤ daysBefore year' := by
  rw [daysBefore, daysBefore]
  omega

/-- The days before a year that lies so many cycles of each kind after the year 1. -/
theorem daysBefore_cycles {cycles centuries fours years : ℤ}
    (hcenturies : 0 ≤ centuries ∧ centuries ≤ 3) (hfours : 0 ≤ fours ∧ fours ≤ 24)
    (hyears : 0 ≤ years ∧ years ≤ 3) :
    daysBefore (400 * cycles + 100 * centuries + 4 * fours + years + 1) =
      146097 * cycles + 36524 * centuries + 1461 * fours + 365 * years := by
  have hfour : (400 * cycles + 100 * centuries + 4 * fours + years) / 4 =
      100 * cycles + 25 * centuries + fours := by omega
  have hhundred : (400 * cycles + 100 * centuries + 4 * fours + years) / 100 =
      4 * cycles + centuries := by omega
  have hcycle : (400 * cycles + 100 * centuries + 4 * fours + years) / 400 = cycles := by omega
  rw [daysBefore, Int.add_sub_cancel, hfour, hhundred, hcycle]
  omega

/-- The cycles of a day, and what is left of its year. Only the last of four years has
more than 365 days, and it does not if it is the last of a century but not of a cycle. -/
theorem exists_cycles (days : ℤ) :
    ∃ cycles centuries fours years rest : ℤ,
      (0 ≤ centuries ∧ centuries ≤ 3) ∧ (0 ≤ fours ∧ fours ≤ 24) ∧ (0 ≤ years ∧ years ≤ 3) ∧
      yearOf days = 400 * cycles + 100 * centuries + 4 * fours + years + 1 ∧
      days = 146097 * cycles + 36524 * centuries + 1461 * fours + 365 * years + rest ∧
      0 ≤ rest ∧ (rest < 365 ∨ rest = 365 ∧ years = 3 ∧ (fours < 24 ∨ centuries = 3)) := by
  obtain ⟨inCycle, hinCycle⟩ : ∃ r, r = days % 146097 := ⟨_, rfl⟩
  obtain ⟨centuries, hcenturies⟩ : ∃ n, n = min (inCycle / 36524) 3 := ⟨_, rfl⟩
  obtain ⟨inCentury, hinCentury⟩ : ∃ r, r = inCycle - 36524 * centuries := ⟨_, rfl⟩
  obtain ⟨inFour, hinFour⟩ : ∃ r, r = inCentury % 1461 := ⟨_, rfl⟩
  obtain ⟨years, hyears⟩ : ∃ n, n = min (inFour / 365) 3 := ⟨_, rfl⟩
  have hcentury : 0 ≤ inCentury ∧ inCentury ≤ 36524 ∧ (centuries < 3 → inCentury < 36524) := by
    omega
  refine ⟨days / 146097, centuries, inCentury / 1461, years, inFour - 365 * years,
    by omega, by omega, by omega, ?_, by omega, by omega, by omega⟩
  rw [yearOf, ← hinCycle, ← hcenturies, ← hinCentury, ← hinFour, ← hyears]

/-- The last of four years is a leap year, unless a century ends with it and no cycle does. -/
theorem isLeap_last {cycles centuries fours : ℤ} (hfours : 0 ≤ fours ∧ fours ≤ 24)
    (hcentury : fours < 24 ∨ centuries = 3) :
    isLeap (400 * cycles + 100 * centuries + 4 * fours + 3 + 1) = true := by
  rw [isLeap, decide_eq_true_eq]
  refine ⟨by omega, ?_⟩
  by_cases hlast : fours < 24
  · have hyear : (400 * cycles + 100 * centuries + 4 * fours + 3 + 1) % 100 = 4 * fours + 4 := by
      omega
    exact .inl (by omega)
  · obtain rfl : fours = 24 := by omega
    obtain rfl : centuries = 3 := by omega
    exact .inr (by omega)

/-- A day lies in its year. -/
theorem yearOf_spec (days : ℤ) :
    daysBefore (yearOf days) ≤ days ∧ days < daysBefore (yearOf days + 1) := by
  obtain ⟨cycles, centuries, fours, years, rest, hcenturies, hfours, hyears, hyear, hdays, hrest,
    hlast⟩ := exists_cycles days
  rw [hyear]
  refine ⟨by rw [daysBefore_cycles hcenturies hfours hyears]; omega, ?_⟩
  rw [daysBefore_succ, daysBefore_cycles hcenturies hfours hyears, sum_monthLengths]
  rcases hlast with hlast | ⟨hlast, rfl, hcentury⟩
  · split <;> omega
  · rw [if_pos (isLeap_last hfours hcentury)]
    omega

/-- An earlier day lies in an earlier year, or earlier in the same year. -/
theorem yearOf_lt {days days' : ℤ} (h : days < days') :
    yearOf days < yearOf days' ∨
      yearOf days = yearOf days' ∧ dayOfYear days < dayOfYear days' := by
  have hspec := yearOf_spec days
  have hspec' := yearOf_spec days'
  rcases Int.lt_trichotomy (yearOf days) (yearOf days') with hlt | heq | hgt
  · exact .inl hlt
  · refine .inr ⟨heq, ?_⟩
    rw [dayOfYear, dayOfYear, ← heq]
    rw [← heq] at hspec'
    omega
  · have hbefore : daysBefore (yearOf days' + 1) ≤ daysBefore (yearOf days) := daysBefore_le hgt
    omega

/-- A day has a place in its year. -/
theorem dayOfYear_lt (days : ℤ) :
    dayOfYear days < (monthLengths (isLeap (yearOf days))).sum := by
  have hspec := yearOf_spec days
  rw [daysBefore_succ] at hspec
  rw [dayOfYear]
  omega

/-- Months are counted from one. -/
theorem monthAndDay_pos (lengths : List ℕ) (day : ℕ) : 0 < (monthAndDay lengths day).1 := by
  cases lengths with
  | nil => exact Nat.one_pos
  | cons length rest =>
    rw [monthAndDay]
    split <;> omega

/-- There are as many months as lengths, and a month has no more days than the longest. -/
theorem monthAndDay_le {lengths : List ℕ} {day longest : ℕ} (hday : day < lengths.sum)
    (hlongest : ∀ length ∈ lengths, length ≤ longest) :
    (monthAndDay lengths day).1 ≤ lengths.length ∧ (monthAndDay lengths day).2 ≤ longest := by
  induction lengths generalizing day with
  | nil => exact absurd hday (Nat.not_lt_zero _)
  | cons length rest ih =>
    have hlength := hlongest length List.mem_cons_self
    rw [monthAndDay]
    rw [List.sum_cons] at hday
    split
    · exact ⟨Nat.le_add_left _ _, by omega⟩
    · have hrest := ih (by omega : day - length < rest.sum) fun other hother =>
        hlongest other (List.mem_cons_of_mem _ hother)
      exact ⟨Nat.succ_le_succ hrest.1, hrest.2⟩

/-- An earlier day of a year lies in an earlier month, or earlier in the same month. -/
theorem monthAndDay_lt (lengths : List ℕ) {day day' : ℕ} (h : day < day') :
    (monthAndDay lengths day).1 < (monthAndDay lengths day').1 ∨
      (monthAndDay lengths day).1 = (monthAndDay lengths day').1 ∧
        (monthAndDay lengths day).2 < (monthAndDay lengths day').2 := by
  induction lengths generalizing day day' with
  | nil => exact .inr ⟨rfl, Nat.succ_lt_succ h⟩
  | cons length rest ih =>
    rw [monthAndDay, monthAndDay]
    by_cases hday' : day' < length
    · rw [if_pos hday', if_pos (h.trans hday')]
      exact .inr ⟨rfl, Nat.succ_lt_succ h⟩
    · rw [if_neg hday']
      by_cases hday : day < length
      · rw [if_pos hday]
        have hmonth := monthAndDay_pos rest (day' - length)
        exact .inl (by omega)
      · rw [if_neg hday]
        have hrest := ih (by omega : day - length < day' - length)
        omega

/-- Days stand in the order of their dates. -/
theorem compare_dateOf (days days' : ℤ) :
    compare days days' = (compare (dateOf days).year (dateOf days').year).then
      ((compare (dateOf days).month (dateOf days').month).then
        (compare (dateOf days).day (dateOf days').day)) := by
  have hyear : compare days days' = (compare (yearOf days) (yearOf days')).then
      (compare (dayOfYear days) (dayOfYear days')) :=
    compare_eq_then yearOf_lt (fun h => h ▸ ⟨rfl, rfl⟩) yearOf_lt
  rw [hyear]
  change _ = (compare (yearOf days) (yearOf days')).then _
  cases hcompare : compare (yearOf days) (yearOf days') with
  | lt => rfl
  | gt => rfl
  | eq =>
    have hsame : yearOf days = yearOf days' := Int.compare_eq_eq.mp hcompare
    rw [dateOf, dateOf, hsame]
    exact compare_eq_then (monthAndDay_lt _) (fun h => h ▸ ⟨rfl, rfl⟩) (monthAndDay_lt _)

/-- Months and days have at most two digits. -/
theorem dateOf_lt (days : ℤ) : (dateOf days).month < 100 ∧ (dateOf days).day < 100 := by
  have hlongest : ∀ length ∈ monthLengths (isLeap (yearOf days)), length ≤ 31 := by
    cases isLeap (yearOf days) <;> decide
  have hle := monthAndDay_le (dayOfYear_lt days) hlongest
  have hmonths : (monthLengths (isLeap (yearOf days))).length = 12 := rfl
  rw [dateOf]
  dsimp only
  omega

end Calendar
