import MemosNote.Scheduler.Cron

/-!
# Dates

The date of a day is found by cutting off cycles of 400, 100, 4 and 1 years that start in March, so
that a leap day is the last of its cycle.

Main results:

- Theorem {lit}`daysFromDate_dateOf`: the number of the date of a day is the number of the day.
- Theorem {lit}`date_eq_of_days`: different dates have different numbers.
- Theorem {lit}`Zone.second_clock_eq_zero_iff`: in a zone of whole minutes, the whole minutes of the
  wall clock are those of the instant.
-/

namespace MemosNote
namespace Scheduler

/-! ## Days -/

/-- The number of days from the first of January 1970 to a date; a day beyond the end of its month
is one of the next. -/
def daysFromDate (year month day : ℤ) : ℤ :=
  let y := if month ≤ 2 then year - 1 else year
  let m := if month ≤ 2 then month + 9 else month - 3
  365 * y + y / 4 - y / 100 + y / 400 + (153 * m + 2) / 5 + day - 719469

/-- The year and the day of the year, both counted from the first of March, of a day that is
counted from the first of March in the year 0.  The last cycles of 100 years and of one year have
one day more than the others. -/
def yearAndDay (n : ℤ) : ℤ × ℤ :=
  let inEra := n % 146097
  let century := min (inEra / 36524) 3
  let inCentury := inEra - 36524 * century
  let four := inCentury / 1461
  let inFour := inCentury - 1461 * four
  let one := min (inFour / 365) 3
  (400 * (n / 146097) + 100 * century + 4 * four + one, inFour - 365 * one)

/-- What the cycles leave: the days before a year, and a leap day only at the end of a leap
year. -/
theorem yearAndDay_spec (n : ℤ) {y d : ℤ} (h : yearAndDay n = (y, d)) :
    n = 365 * y + y / 4 - y / 100 + y / 400 + d ∧ 0 ≤ d ∧ d ≤ 365 ∧
      (d = 365 → (y + 1) % 4 = 0 ∧ ((y + 1) % 100 ≠ 0 ∨ (y + 1) % 400 = 0)) := by
  simp only [yearAndDay, Prod.mk.injEq] at h
  generalize hera : n / 146097 = era at h
  generalize hdoe : n % 146097 = inEra at h
  have hn : n = 146097 * era + inEra := by omega
  have hinEra : 0 ≤ inEra ∧ inEra < 146097 := by omega
  generalize hc : min (inEra / 36524) 3 = century at h
  have hcentury : 0 ≤ century ∧ century ≤ 3 ∧ 36524 * century ≤ inEra ∧
      (century < 3 → inEra < 36524 * century + 36524) := by omega
  generalize hdoc : inEra - 36524 * century = inCentury at h
  have hinCentury : 0 ≤ inCentury ∧ inCentury ≤ 36524 ∧ (inCentury = 36524 → century = 3) := by
    omega
  generalize hq : inCentury / 1461 = four at h
  have hfour : 0 ≤ four ∧ four ≤ 24 := by omega
  generalize hdoq : inCentury - 1461 * four = inFour at h
  have hinFour : 0 ≤ inFour ∧ inFour ≤ 1460 ∧ (four = 24 → inFour = 1460 → century = 3) := by omega
  generalize ho : min (inFour / 365) 3 = one at h
  have hone : 0 ≤ one ∧ one ≤ 3 ∧ 365 * one ≤ inFour ∧ inFour - 365 * one ≤ 365 ∧
      (inFour - 365 * one = 365 → one = 3 ∧ inFour = 1460) := by omega
  rcases h with ⟨hy, hd⟩
  have hy4 : y / 4 = 100 * era + 25 * century + four := by omega
  have hy100 : y / 100 = 4 * era + century := by omega
  have hy400 : y / 400 = era := by omega
  refine ⟨by omega, by omega, by omega, fun hlast => ⟨by omega, ?_⟩⟩
  by_cases hfull : four = 24
  · right
    omega
  · left
    omega

/-- The month and the day of a day of the year that is counted from the first of March. -/
def monthAndDay (d : ℤ) : ℤ × ℤ :=
  let m := (5 * d + 2) / 153
  (if m < 10 then m + 3 else m - 9, d - (153 * m + 2) / 5 + 1)

/-- The month of a day of the year has the day. -/
theorem monthAndDay_mem {y d : ℤ} (h0 : 0 ≤ d) (h365 : d ≤ 365)
    (hleap : d = 365 → (y + 1) % 4 = 0 ∧ ((y + 1) % 100 ≠ 0 ∨ (y + 1) % 400 = 0)) :
    (1 ≤ (monthAndDay d).1 ∧ (monthAndDay d).1 ≤ 12) ∧ 1 ≤ (monthAndDay d).2 ∧
      (monthAndDay d).2 ≤ daysIn (y + if (monthAndDay d).1 ≤ 2 then 1 else 0) (monthAndDay d).1 := by
  have hmonth : monthAndDay d = (if (5 * d + 2) / 153 < 10 then (5 * d + 2) / 153 + 3
      else (5 * d + 2) / 153 - 9, d - (153 * ((5 * d + 2) / 153) + 2) / 5 + 1) := rfl
  rw [hmonth]
  generalize hm : (5 * d + 2) / 153 = m
  have hrange : 0 ≤ m ∧ m ≤ 11 := by omega
  dsimp only
  refine ⟨by split_ifs <;> omega, by omega, ?_⟩
  unfold daysIn
  split_ifs <;> omega

/-- A date. -/
structure Date where
  Year : ℤ
  Month : ℤ
  Day : ℤ
  month_mem : 1 ≤ Month ∧ Month ≤ 12
  day_mem : 1 ≤ Day ∧ Day ≤ daysIn Year Month

/-- The date of a day. -/
def dateOf (day : ℤ) : Date :=
  match h : yearAndDay (day + 719468) with
  | (y, d) =>
      { Year := y + if (monthAndDay d).1 ≤ 2 then 1 else 0
        Month := (monthAndDay d).1
        Day := (monthAndDay d).2
        month_mem := by
          rcases yearAndDay_spec _ h with ⟨-, h0, h365, hleap⟩
          exact (monthAndDay_mem h0 h365 hleap).1
        day_mem := by
          rcases yearAndDay_spec _ h with ⟨-, h0, h365, hleap⟩
          exact (monthAndDay_mem h0 h365 hleap).2 }

/-- The number of the date of a day is the number of the day. -/
theorem daysFromDate_dateOf (day : ℤ) :
    daysFromDate (dateOf day).Year (dateOf day).Month (dateOf day).Day = day := by
  unfold dateOf
  split
  next y d h =>
    rcases yearAndDay_spec _ h with ⟨hday, h0, h365, -⟩
    have hmonth : monthAndDay d = (if (5 * d + 2) / 153 < 10 then (5 * d + 2) / 153 + 3
        else (5 * d + 2) / 153 - 9, d - (153 * ((5 * d + 2) / 153) + 2) / 5 + 1) := rfl
    dsimp only
    rw [hmonth, daysFromDate]
    generalize hm : (5 * d + 2) / 153 = m
    have hrange : 0 ≤ m ∧ m ≤ 11 := by omega
    dsimp only
    split_ifs <;> omega

/-- A year, a month and a day of the year, the first two counted from March, of a date. -/
private theorem exists_march (d : Date) :
    ∃ y m : ℤ, 0 ≤ m ∧ m ≤ 11 ∧ d.Month = (if m < 10 then m + 3 else m - 9) ∧
      d.Year = (y + if m < 10 then 0 else 1) ∧
      daysFromDate d.Year d.Month d.Day =
        365 * y + y / 4 - y / 100 + y / 400 + (153 * m + 2) / 5 + d.Day - 719469 ∧
      (m < 11 → (153 * m + 2) / 5 + d.Day ≤ (153 * (m + 1) + 2) / 5) ∧
      (m = 11 → d.Day ≤ 29 ∧
        (d.Day = 29 → (y + 1) % 4 = 0 ∧ ((y + 1) % 100 ≠ 0 ∨ (y + 1) % 400 = 0))) := by
  rcases d with ⟨Year, Month, Day, hmonth, hday⟩
  dsimp only
  unfold daysIn at hday
  unfold daysFromDate
  by_cases h : Month ≤ 2
  · refine ⟨Year - 1, Month + 9, by omega, by omega, ?_, ?_, ?_, ?_, ?_⟩
    · rw [if_neg (by omega)]
      omega
    · rw [if_neg (by omega)]
      omega
    · simp only [if_pos h]
    · split_ifs at hday <;> omega
    · intro hlast
      have hyear : Year - 1 + 1 = Year := by omega
      have hfebruary : Month = 2 := by omega
      rw [hyear]
      rw [if_pos hfebruary] at hday
      split_ifs at hday with hleap
      · exact ⟨hday.2, fun _ => hleap⟩
      · exact ⟨by omega, by omega⟩
  · refine ⟨Year, Month - 3, by omega, by omega, ?_, ?_, ?_, ?_, by omega⟩
    · rw [if_pos (by omega)]
      omega
    · rw [if_pos (by omega)]
      omega
    · simp only [if_neg h]
    · intro _
      have hcases : Month = 3 ∨ Month = 4 ∨ Month = 5 ∨ Month = 6 ∨ Month = 7 ∨ Month = 8 ∨
          Month = 9 ∨ Month = 10 ∨ Month = 11 ∨ Month = 12 := by omega
      split_ifs at hday <;>
        rcases hcases with rfl | rfl | rfl | rfl | rfl | rfl | rfl | rfl | rfl | rfl <;> omega

private theorem days_mono {y y' : ℤ} (h : y ≤ y') :
    365 * y + y / 4 - y / 100 + y / 400 ≤ 365 * y' + y' / 4 - y' / 100 + y' / 400 := by
  have hfour : y / 4 ≤ y' / 4 := by omega
  have hcentury : y' / 100 ≤ y / 100 + (y' - y) := by omega
  have hera : y / 400 ≤ y' / 400 := by omega
  omega

/-- The last day of a year is before the first of the next. -/
private theorem days_before_next {y n : ℤ} (hn : n ≤ 366)
    (hleap : n = 366 → (y + 1) % 4 = 0 ∧ ((y + 1) % 100 ≠ 0 ∨ (y + 1) % 400 = 0)) :
    365 * y + y / 4 - y / 100 + y / 400 + n ≤
      365 * (y + 1) + (y + 1) / 4 - (y + 1) / 100 + (y + 1) / 400 := by
  omega

/-- Dates with one number are the same. -/
theorem date_eq_of_days {a b : Date}
    (h : daysFromDate a.Year a.Month a.Day = daysFromDate b.Year b.Month b.Day) : a = b := by
  rcases exists_march a with ⟨y, m, hm0, hm11, hmonth, hyear, hdays, hlong, hlast⟩
  rcases exists_march b with ⟨y', m', hm0', hm11', hmonth', hyear', hdays', hlong', hlast'⟩
  rw [hdays, hdays'] at h
  have hday := a.day_mem.1
  have hday' := b.day_mem.1
  have hlow : 0 ≤ (153 * m + 2) / 5 ∧ 0 ≤ (153 * m' + 2) / 5 := by omega
  have hhigh : (153 * m + 2) / 5 + a.Day ≤ 366 ∧ ((153 * m + 2) / 5 + a.Day = 366 →
      (y + 1) % 4 = 0 ∧ ((y + 1) % 100 ≠ 0 ∨ (y + 1) % 400 = 0)) := by
    by_cases h11 : m = 11
    · subst h11
      have := hlast rfl
      omega
    · have := hlong (by omega)
      omega
  have hhigh' : (153 * m' + 2) / 5 + b.Day ≤ 366 ∧ ((153 * m' + 2) / 5 + b.Day = 366 →
      (y' + 1) % 4 = 0 ∧ ((y' + 1) % 100 ≠ 0 ∨ (y' + 1) % 400 = 0)) := by
    by_cases h11 : m' = 11
    · subst h11
      have := hlast' rfl
      omega
    · have := hlong' (by omega)
      omega
  have hsameYear : y = y' := by
    rcases Int.lt_trichotomy y y' with hlt | heq | hgt
    · have hnext := days_before_next hhigh.1 hhigh.2
      have hmono := days_mono (by omega : y + 1 ≤ y')
      omega
    · exact heq
    · have hnext := days_before_next hhigh'.1 hhigh'.2
      have hmono := days_mono (by omega : y' + 1 ≤ y)
      omega
  subst hsameYear
  have hsameMonth : m = m' := by
    rcases Int.lt_trichotomy m m' with hlt | heq | hgt
    · have hfit := hlong (by omega)
      have hmono : (153 * (m + 1) + 2) / 5 ≤ (153 * m' + 2) / 5 := by omega
      omega
    · exact heq
    · have hfit := hlong' (by omega)
      have hmono : (153 * (m' + 1) + 2) / 5 ≤ (153 * m + 2) / 5 := by omega
      omega
  subst hsameMonth
  have hsameDay : a.Day = b.Day := by omega
  rcases a with ⟨Year, Month, Day, _, _⟩
  rcases b with ⟨Year', Month', Day', _, _⟩
  dsimp only at hmonth hmonth' hyear hyear' hsameDay
  subst hsameDay
  have hYear : Year = Year' := hyear.trans hyear'.symm
  have hMonth : Month = Month' := hmonth.trans hmonth'.symm
  subst hYear hMonth
  rfl

/-! ## The wall clock of a zone -/

/-- A time zone: how many seconds its wall clock is ahead of UTC at an instant, which is counted in
seconds from the first of January 1970. -/
structure Zone where
  offset : ℤ → ℤ

namespace Zone

/-- What the wall clock shows at an instant. -/
def clock (zone : Zone) (t : ℤ) : Instant :=
  let date := dateOf ((t + zone.offset t) / 86400)
  let second := (t + zone.offset t) % 86400
  { Year := date.Year
    Month := date.Month
    Day := date.Day
    Hour := second / 3600
    Minute := second % 3600 / 60
    Second := second % 60
    month_mem := date.month_mem
    day_mem := date.day_mem
    hour_mem := by omega
    minute_mem := by omega
    second_mem := by omega }

/-- The instant at which the wall clock shows a number of seconds: the offset is looked up at the
instant of the same number first, and again at the instant that this gives. -/
def instant (zone : Zone) (seconds : ℤ) : ℤ :=
  seconds - zone.offset (seconds - zone.offset seconds)

/-- The instant that is some years later on the wall clock. -/
def addYears (zone : Zone) (years t : ℤ) : ℤ :=
  let now := zone.clock t
  zone.instant (daysFromDate (now.Year + years) now.Month now.Day * 86400 +
    (t + zone.offset t) % 86400)

/-- A zone whose offsets are whole minutes. -/
def WholeMinutes (zone : Zone) : Prop :=
  ∀ t, 60 ∣ zone.offset t

/-- In a zone of whole minutes, the whole minutes of the wall clock are those of the instant. -/
theorem second_clock_eq_zero_iff {zone : Zone} (h : zone.WholeMinutes) (t : ℤ) :
    (zone.clock t).Second = 0 ↔ 60 ∣ t := by
  have hoffset := h t
  change (t + zone.offset t) % 86400 % 60 = 0 ↔ 60 ∣ t
  omega

end Zone

end Scheduler
end MemosNote
