import Mathlib.Order.Bounds.Basic
import MemosNote.Scheduler.Calendar

/-!
# The next run of a schedule

The next run is searched minute by minute, or second by second, up to a horizon of four years; a
search that finds none returns the zero time.

Main results:

- Theorem {lit}`search_spec`: what a search finds.
- Theorem {lit}`next_is_least_iff`: exactly when the next run is the least instant that the schedule
  matches.
-/

namespace MemosNote
namespace Scheduler

/-! ## The search -/

/-- The zero time, the first of January of the year 1. -/
def zeroTime : ℤ :=
  -62135596800

namespace Schedule

/-- The seconds between two instants at which a schedule can run. -/
def stride (s : Schedule) : ℤ :=
  if s.hasSecs then 1 else 60

/-- Search from an instant on, which is before a horizon as long as the search goes on. -/
def search (s : Schedule) (zone : Zone) (horizon : ℤ) : ℕ → ℤ → ℤ
  | 0, _ => zeroTime
  | fuel + 1, t =>
      if t < horizon then
        if s.matches (zone.clock t) then t else search s zone horizon fuel (t + s.stride)
      else zeroTime

/-- The first whole minute, or whole second, after an instant that is counted in nanoseconds. -/
def start (s : Schedule) (nanos : ℤ) : ℤ :=
  (nanos + s.stride * 1000000000) / (s.stride * 1000000000) * s.stride

/-- The end of the search. -/
def horizon (s : Schedule) (zone : Zone) (nanos : ℤ) : ℤ :=
  zone.addYears 4 (s.start nanos)

/-- The next run after an instant. -/
def Next (s : Schedule) (zone : Zone) (nanos : ℤ) : ℤ :=
  s.search zone (s.horizon zone nanos) (s.horizon zone nanos - s.start nanos).toNat (s.start nanos)

variable {s : Schedule} {zone : Zone}

theorem stride_pos : 0 < s.stride := by
  rw [stride]
  split <;> omega

/-- What a search finds: the first instant that the schedule matches, or none before the
horizon. -/
theorem search_spec {horizon t : ℤ} {fuel : ℕ} (hfuel : horizon - t ≤ fuel) :
    (∃ n : ℕ, s.search zone horizon fuel t = t + n * s.stride ∧ t + n * s.stride < horizon ∧
      s.matches (zone.clock (t + n * s.stride)) = true ∧
        ∀ k : ℕ, k < n → s.matches (zone.clock (t + k * s.stride)) = false) ∨
      (s.search zone horizon fuel t = zeroTime ∧
        ∀ k : ℕ, t + k * s.stride < horizon → s.matches (zone.clock (t + k * s.stride)) = false) := by
  have hpos := @stride_pos s
  induction fuel generalizing t with
  | zero =>
      refine .inr ⟨rfl, fun k hk => ?_⟩
      have hk' : 0 ≤ (k : ℤ) * s.stride := Int.mul_nonneg (Int.natCast_nonneg k) (Int.le_of_lt hpos)
      omega
  | succ fuel ih =>
      rw [search]
      by_cases hbefore : t < horizon
      · rw [if_pos hbefore]
        cases hmatch : s.matches (zone.clock t) with
        | true =>
            refine .inl ⟨0, by simp, by simpa using hbefore, by simpa using hmatch, ?_⟩
            exact fun k hk => absurd hk (Nat.not_lt_zero k)
        | false =>
            rw [if_neg Bool.false_ne_true]
            have hshift : ∀ k : ℕ, t + s.stride + k * s.stride = t + (k + 1 : ℕ) * s.stride := by
              intro k
              push_cast
              ring
            rcases @ih (t + s.stride) (by omega) with
              ⟨n, hfound, hhorizon, hmatches, hbefore⟩ | ⟨hnone, hall⟩
            · rw [hshift] at hfound hhorizon hmatches
              refine .inl ⟨n + 1, hfound, hhorizon, hmatches, fun k hk => ?_⟩
              cases k with
              | zero => simpa using hmatch
              | succ k =>
                  rw [← hshift]
                  exact hbefore k (by omega)
            · refine .inr ⟨hnone, fun k hk => ?_⟩
              cases k with
              | zero => simpa using hmatch
              | succ k =>
                  rw [← hshift] at hk ⊢
                  exact hall k hk
      · rw [if_neg hbefore]
        refine .inr ⟨rfl, fun k hk => ?_⟩
        have hk' : 0 ≤ (k : ℤ) * s.stride := Int.mul_nonneg (Int.natCast_nonneg k) (Int.le_of_lt hpos)
        omega

/-! ## The least match -/

/-- A later instant that the schedule matches; without seconds, a whole minute of the wall
clock. -/
structure Due (s : Schedule) (zone : Zone) (nanos t : ℤ) : Prop where
  later : nanos < t * 1000000000
  whole : s.hasSecs = false → (zone.clock t).Second = 0
  matching : s.matches (zone.clock t) = true

/-- The instants that are due are those that the search can reach and that match. -/
theorem due_iff (hzone : zone.WholeMinutes) {nanos t : ℤ} :
    s.Due zone nanos t ↔ ∃ n : ℕ, t = s.start nanos + n * s.stride ∧
      s.matches (zone.clock (s.start nanos + n * s.stride)) = true := by
  have hgrid : (s.hasSecs = false → (zone.clock t).Second = 0) ↔ s.stride ∣ t := by
    rw [Zone.second_clock_eq_zero_iff hzone, stride]
    cases s.hasSecs <;> simp
  have hreach : nanos < t * 1000000000 ∧ s.stride ∣ t ↔
      ∃ n : ℕ, t = s.start nanos + n * s.stride := by
    rw [start, stride]
    cases s.hasSecs with
    | true =>
        simp only [if_true, one_mul, mul_one, isUnit_one, IsUnit.dvd, and_true]
        constructor
        · intro h
          exact ⟨(t - (nanos + 1000000000) / 1000000000).toNat, by omega⟩
        · rintro ⟨n, rfl⟩
          omega
    | false =>
        simp only [Bool.false_eq_true, if_false]
        constructor
        · rintro ⟨hlater, j, rfl⟩
          exact ⟨(j - (nanos + 60 * 1000000000) / (60 * 1000000000)).toNat, by omega⟩
        · rintro ⟨n, rfl⟩
          exact ⟨by omega, by omega⟩
  constructor
  · intro h
    rcases hreach.mp ⟨h.later, hgrid.mp h.whole⟩ with ⟨n, rfl⟩
    exact ⟨n, rfl, h.matching⟩
  · rintro ⟨n, rfl, hmatches⟩
    rcases hreach.mpr ⟨n, rfl⟩ with ⟨hlater, hwhole⟩
    exact ⟨hlater, hgrid.mpr hwhole, hmatches⟩

/-- The next run is the least instant that is due, if one is, and never the zero time. -/
structure NextIsLeast (s : Schedule) (zone : Zone) (nanos : ℤ) : Prop where
  least : (∃ t, s.Due zone nanos t) → IsLeast { t | s.Due zone nanos t } (s.Next zone nanos)
  notZero : s.Next zone nanos ≠ zeroTime

/-- The next run is the least instant that is due, or there is none before the horizon. -/
theorem next_cases (hzone : zone.WholeMinutes) (nanos : ℤ) :
    (IsLeast { t | s.Due zone nanos t } (s.Next zone nanos) ∧
        s.Next zone nanos < s.horizon zone nanos) ∨
      (s.Next zone nanos = zeroTime ∧ ∀ t, s.Due zone nanos t → s.horizon zone nanos ≤ t) := by
  rcases @search_spec s zone (s.horizon zone nanos) (s.start nanos)
      (s.horizon zone nanos - s.start nanos).toNat (Int.self_le_toNat _) with
    ⟨n, hfound, hhorizon, hmatches, hbefore⟩ | ⟨hnone, hall⟩
  · left
    rw [Next, hfound]
    refine ⟨⟨(due_iff hzone).mpr ⟨n, rfl, hmatches⟩, fun t ht => ?_⟩, hhorizon⟩
    rcases (due_iff hzone).mp ht with ⟨k, rfl, hk⟩
    by_contra hlt
    have hkn : k < n := by
      by_contra hge
      have hle : (n : ℤ) * s.stride ≤ k * s.stride :=
        Int.mul_le_mul_of_nonneg_right (by omega) (Int.le_of_lt stride_pos)
      omega
    rw [hbefore k hkn] at hk
    cases hk
  · right
    refine ⟨hnone, fun t ht => ?_⟩
    rcases (due_iff hzone).mp ht with ⟨k, rfl, hk⟩
    by_contra hlt
    rw [hall k (by omega)] at hk
    cases hk

/-- The next run is the least instant that is due, and not the zero time, exactly when a least
instant is due before the horizon and is not the zero time itself. -/
theorem next_is_least_iff (s : Schedule) (zone : Zone) (hzone : zone.WholeMinutes) (nanos : ℤ) :
    s.NextIsLeast zone nanos ↔
      ∃ t, IsLeast { t | s.Due zone nanos t } t ∧ t < s.horizon zone nanos ∧ t ≠ zeroTime := by
  constructor
  · intro h
    rcases next_cases hzone nanos with ⟨hleast, hhorizon⟩ | ⟨hzero, -⟩
    · exact ⟨_, hleast, hhorizon, h.notZero⟩
    · exact absurd hzero h.notZero
  · rintro ⟨t, hleast, hhorizon, hne⟩
    rcases next_cases hzone nanos with ⟨hnext, -⟩ | ⟨-, hall⟩
    · have hsame : t = s.Next zone nanos := hleast.unique hnext
      exact ⟨fun _ => hnext, hsame ▸ hne⟩
    · have hle := hall t hleast.1
      omega

/-- A zone whose wall clock shows UTC. -/
def utc : Zone where
  offset _ := 0

theorem wholeMinutes_utc : utc.WholeMinutes :=
  fun _ => Int.dvd_zero 60

/-- A schedule that is accepted and matches every minute. -/
theorem next_is_least_iff_example : ∃ s, ParseCronExpression "* * * * *" = .ok s ∧
    s.NextIsLeast utc 1000000001 := by
  have hparse : ∃ s, ParseCronExpression "* * * * *" = .ok s ∧ s.hasSecs = false ∧
      s.Next utc 1000000001 = 60 ∧ 60 < s.horizon utc 1000000001 :=
    ⟨_, rfl, rfl, by decide +kernel, by decide +kernel⟩
  rcases hparse with ⟨s, hparse, hsecs, hnext, hhorizon⟩
  refine ⟨s, hparse, (next_is_least_iff s utc wholeMinutes_utc _).mpr ⟨60, ?_, hhorizon, by decide⟩⟩
  rcases next_cases wholeMinutes_utc 1000000001 with ⟨hleast, -⟩ | ⟨hzero, -⟩
  · exact hnext ▸ hleast
  · rw [hnext] at hzero
    exact absurd hzero (by decide)

/-- A schedule of the thirtieth of February, or of the weekday 7. -/
def thirtiethOfFebruary : Schedule where
  seconds := .exactMatcher 0
  minutes := .exactMatcher 0
  hours := .exactMatcher 0
  days := .exactMatcher 30
  months := .exactMatcher 2
  weekdays := .exactMatcher 7
  hasSecs := false

/-- February has no thirtieth day, and the days of the week end with the sixth. -/
theorem thirtiethOfFebruary_matches (t : Instant) : thirtiethOfFebruary.matches t = false := by
  rw [Bool.eq_false_iff]
  intro h
  simp only [Schedule.matches, thirtiethOfFebruary, FieldMatcher.matches, Bool.and_eq_true,
    Bool.or_eq_true, beq_iff_eq] at h
  rcases h with ⟨⟨-, hmonth⟩, hday | hweekday⟩
  · have hlast := t.day_mem.2
    rw [hmonth, daysIn, if_pos rfl] at hlast
    split at hlast <;> omega
  · have hlast := t.weekday_mem.2
    omega

/-- It is accepted, and its next run is always the zero time. -/
theorem next_is_not_least : ParseCronExpression "0 0 30 2 7" = .ok thirtiethOfFebruary ∧
    ∀ nanos, ¬thirtiethOfFebruary.NextIsLeast utc nanos := by
  refine ⟨by decide +kernel, fun nanos h => ?_⟩
  rcases @next_cases thirtiethOfFebruary utc wholeMinutes_utc nanos with
    ⟨hleast, -⟩ | ⟨hzero, -⟩
  · have hmatches := hleast.1.matching
    rw [thirtiethOfFebruary_matches] at hmatches
    cases hmatches
  · exact h.notZero hzero

end Schedule

end Scheduler
end MemosNote
