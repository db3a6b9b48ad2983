import MemosNote.Scheduler.Calendar

/-!
# The filter of a day

The activity calendar counts a memo on the local date of its creation.  A click on a day filters
the memos created in the 24 hours that start at the day's midnight, where midnight is found with
the offset of the zone at midnight UTC.  A memo written under the filter gets the day as its date.

Main results:

- Theorem {lit}`selects_iff_localDate_iff`: when the filter and the calendar agree on a memo.
- Theorem {lit}`day_filter_iff`: the same together with the memos written under the filter.
-/

namespace MemosNote
namespace Web

open Scheduler

/-! ## The calendar -/

/-- The local time of a browser.  The constructor of dates resolves the times that the wall clock
skips or shows twice, and reads the years 0 to 99 as others. -/
structure LocalTime where
  zone : Zone
  construct : Date → ℤ → ℤ

/-- The number of a date. -/
def dayOf (d : Date) : ℤ :=
  daysFromDate d.Year d.Month d.Day

namespace LocalTime

variable (z : LocalTime)

/-- The local date of an instant. -/
def toDateString (t : ℤ) : Date :=
  dateOf ((t + z.zone.offset t) / 86400)

/-! ## The filter -/

/-- The first second of the filter of a day: the parsed text is midnight UTC, to which the offset
of the zone at this instant is applied. -/
def startTimestamp (d : Date) : ℤ :=
  dayOf d * 86400 - z.zone.offset (dayOf d * 86400)

def endTimestamp (d : Date) : ℤ :=
  z.startTimestamp d + 60 * 60 * 24

/-- The condition on the creation of a memo,
{lit}`created_ts >= timestamp(start) && created_ts < timestamp(end)`. -/
def Selects (d : Date) (created : ℤ) : Prop :=
  z.startTimestamp d ≤ created ∧ created < z.endTimestamp d

/-- The creation time of a memo written under the filter: the day with the time of day of now, if
the constructor keeps the day. -/
def deriveDefaultCreateTime (d : Date) (now : ℤ) : Option ℤ :=
  let candidate := z.construct d ((now + z.zone.offset now) % 86400)
  let date := z.toDateString candidate
  if date.Year ≠ d.Year ∨ date.Month ≠ d.Month ∨ date.Day ≠ d.Day then none else some candidate

/-! ## The two compared -/

/-- How far the clock has been put forward since midnight UTC of the day. -/
def shift (d : Date) (created : ℤ) : ℤ :=
  z.zone.offset created - z.zone.offset (dayOf d * 86400)

/-- What the local clock shows at an instant, in seconds since the midnight that begins a day. -/
def clockReading (d : Date) (t : ℤ) : ℤ :=
  t + z.zone.offset t - dayOf d * 86400

/-- The clock was put forward, and shows that the day began or ended less than the shift ago; or it
was put back, and shows that the day begins or ends within the shift.  A shift by more than a day
skips the whole day, or brings it again later. -/
def CarriedAcross (d : Date) (created : ℤ) : Prop :=
  let s := z.shift d created
  let u := z.clockReading d created
  0 < s ∧ (0 ≤ u ∧ u < min s 86400 ∨ max s 86400 ≤ u ∧ u < s + 86400) ∨
    s < 0 ∧ (s ≤ u ∧ u < min 0 (s + 86400) ∨ max 0 (s + 86400) ≤ u ∧ u < 86400)

instance (d : Date) (created : ℤ) : Decidable (z.Selects d created) :=
  inferInstanceAs (Decidable (_ ∧ _))

instance (d : Date) (created : ℤ) : Decidable (z.CarriedAcross d created) :=
  inferInstanceAs (Decidable (_ ∨ _))

variable {z}

/-- A local date in terms of its day. -/
theorem toDateString_eq_iff {t : ℤ} {d : Date} :
    z.toDateString t = d ↔
      dayOf d * 86400 ≤ t + z.zone.offset t ∧ t + z.zone.offset t < dayOf d * 86400 + 86400 := by
  have hday : z.toDateString t = d ↔ (t + z.zone.offset t) / 86400 = dayOf d := by
    constructor
    · rintro rfl
      exact (daysFromDate_dateOf _).symm
    · intro h
      apply date_eq_of_days
      rw [toDateString, daysFromDate_dateOf, h]
      rfl
  rw [hday]
  omega

/-- The filter and the calendar agree on a memo unless the clock carries it across an end of the
day. -/
theorem selects_iff_localDate_iff (d : Date) (created : ℤ) :
    (z.Selects d created ↔ z.toDateString created = d) ↔ ¬z.CarriedAcross d created := by
  rw [toDateString_eq_iff]
  unfold Selects CarriedAcross endTimestamp startTimestamp shift clockReading
  generalize z.zone.offset created = o
  generalize z.zone.offset (dayOf d * 86400) = o₀
  generalize dayOf d = n
  dsimp only
  omega

/-- A memo written under the filter has the day as its date. -/
theorem toDateString_of_derive {d : Date} {now created : ℤ}
    (h : z.deriveDefaultCreateTime d now = some created) : z.toDateString created = d := by
  unfold deriveDefaultCreateTime at h
  by_cases hdate : (z.toDateString (z.construct d ((now + z.zone.offset now) % 86400))).Year ≠
        d.Year ∨
      (z.toDateString (z.construct d ((now + z.zone.offset now) % 86400))).Month ≠ d.Month ∨
      (z.toDateString (z.construct d ((now + z.zone.offset now) % 86400))).Day ≠ d.Day
  · rw [if_pos hdate] at h
    cases h
  · rw [if_neg hdate] at h
    cases h
    simp only [not_or, not_not] at hdate
    rcases hdate with ⟨hyear, hmonth, hday⟩
    apply date_eq_of_days
    rw [hyear, hmonth, hday]

/-- The filter selects a memo exactly when the calendar counts it on the day, and selects it when
it was written under the filter, unless the clock carries it across an end of the day. -/
theorem day_filter_iff (d : Date) (created : ℤ) :
    ((z.Selects d created ↔ z.toDateString created = d) ∧
        ∀ now, z.deriveDefaultCreateTime d now = some created → z.Selects d created) ↔
      ¬z.CarriedAcross d created := by
  rw [← selects_iff_localDate_iff]
  constructor
  · exact And.left
  · intro h
    refine ⟨h, fun now hnow => ?_⟩
    exact h.mpr (toDateString_of_derive hnow)

/-- A zone that is put back by an hour on the third of November 2024, at two o'clock of a clock four
hours behind UTC.  A time that is shown twice is the earlier one. -/
def putBack : LocalTime where
  zone := ⟨fun t => if t < 20030 * 86400 + 21600 then -14400 else -18000⟩
  construct d second :=
    let wall := dayOf d * 86400 + second
    if wall < 20030 * 86400 + 7200 then wall + 14400 else wall + 18000

/-- The day has 25 hours.  Half past eleven in the evening is in the last of them, also for a memo
that is written under the filter a week later. -/
theorem last_hour_missed :
    let d := dateOf 20030
    let created := 20030 * 86400 + 84600 + 18000
    putBack.deriveDefaultCreateTime d (created + 7 * 86400) = some created ∧
      putBack.toDateString created = d ∧ ¬putBack.Selects d created := by
  intro d created
  have hderive : putBack.deriveDefaultCreateTime d (created + 7 * 86400) = some created := by
    decide
  exact ⟨hderive, toDateString_of_derive hderive, by decide⟩

end LocalTime

end Web
end MemosNote
