import Mathlib.Data.List.TakeWhile
import Mathlib.Data.Int.Notation
import Mathlib.Tactic.Ring
import MemosNote.Filter.Engine
import MemosNote.Store.MigrationFiles

/-!
# Cron schedules

A schedule is parsed from five or six fields, each of which is a wildcard, a step, a list, a
range or a value, and is matched against the calendar fields of an instant.  The format is
defined on its own by the values that the text of a field denotes and by the rule that
combines the two day fields.

Main results:

- Theorem {lit}`parseField_matches`: the matcher of an accepted field matches the values that
  its text denotes.
- Theorem {lit}`ParseCronExpression_ok`: the fields of an accepted expression.
- Theorem {lit}`matches_iff`: the instants at which a parsed schedule runs.
- Theorem {lit}`schedule_meets_format_iff`: the instants on which a parsed schedule agrees with
  the format.
-/

namespace MemosNote
namespace Scheduler

open MemosNote.Filter (isSpace)
open Store (atoi splitAll splitSign)

/-! ## Field matchers -/

/-- A condition on the value of a calendar field. -/
inductive FieldMatcher
  | wildcardMatcher
  | exactMatcher (value : ℤ)
  | rangeMatcher (start stop : ℤ)
  | listMatcher (values : List ℤ)
  | stepMatcher (step min max : ℤ)
deriving DecidableEq, Repr

/-- Whether a value matches. -/
def FieldMatcher.matches : FieldMatcher → ℤ → Bool
  | wildcardMatcher, _ => true
  | exactMatcher expected, value => value == expected
  | rangeMatcher start stop, value => start ≤ value && value ≤ stop
  | listMatcher values, value => values.any (· == value)
  | stepMatcher step min max, value =>
      if value < min ∨ max < value then false else (value - min).tmod step == 0

/-- A text without the white space around it. -/
def TrimSpace (text : List Char) : List Char :=
  ((text.dropWhile isSpace).reverse.dropWhile isSpace).reverse

/-- The values of a list field. -/
def parseValues (min max : ℤ) : List (List Char) → Except String (List ℤ)
  | [] => pure []
  | p :: parts => do
      match atoi (TrimSpace p) with
      | .ok val =>
          if val < min ∨ max < val then throw ("invalid list value: " ++ String.ofList p)
          else
            let values ← parseValues min max parts
            pure (val :: values)
      | .error _ => throw ("invalid list value: " ++ String.ofList p)

/-- Parse one field whose values lie between two bounds. -/
def parseField (field : List Char) (min max : ℤ) : Except String FieldMatcher := do
  if field = ['*'] then pure .wildcardMatcher
  else if ['*', '/'].isPrefixOf field then
    match atoi (field.drop 2) with
    | .ok step =>
        if step < 1 ∨ max < step then throw ("invalid step value: " ++ String.ofList field)
        else pure (.stepMatcher step min max)
    | .error _ => throw ("invalid step value: " ++ String.ofList field)
  else if ',' ∈ field then
    let values ← parseValues min max (splitAll ',' field)
    pure (.listMatcher values)
  else if '-' ∈ field then
    match splitAll '-' field with
    | [first, second] =>
        match atoi (TrimSpace first), atoi (TrimSpace second) with
        | .ok start, .ok stop =>
            if start < min ∨ max < stop ∨ stop < start then
              throw ("invalid range: " ++ String.ofList field)
            else pure (.rangeMatcher start stop)
        | _, _ => throw ("invalid range: " ++ String.ofList field)
    | _ => throw ("invalid range: " ++ String.ofList field)
  else
    match atoi field with
    | .ok val =>
        if val < min ∨ max < val then
          throw ("invalid value: " ++ String.ofList field ++ " (must be between " ++
            toString min ++ " and " ++ toString max ++ ")")
        else pure (.exactMatcher val)
    | .error _ =>
        throw ("invalid value: " ++ String.ofList field ++ " (must be between " ++
          toString min ++ " and " ++ toString max ++ ")")

/-! ## Schedules -/

/-- A parsed cron expression. -/
structure Schedule where
  seconds : FieldMatcher
  minutes : FieldMatcher
  hours : FieldMatcher
  days : FieldMatcher
  months : FieldMatcher
  weekdays : FieldMatcher
  hasSecs : Bool
deriving DecidableEq, Repr

/-- The pieces of a text between the characters that satisfy a predicate. -/
def splitWhere (separates : Char → Bool) : List Char → List (List Char)
  | [] => [[]]
  | c :: cs =>
      if separates c then [] :: splitWhere separates cs
      else match splitWhere separates cs with
        | part :: parts => (c :: part) :: parts
        | [] => [[c]]

/-- The words of a text, which white space separates. -/
def Fields (text : String) : List (List Char) :=
  (splitWhere isSpace text.toList).filter (· ≠ [])

/-- Parse the field with the given name. -/
def parseNamedField (name : String) (field : List Char) (min max : ℤ) :
    Except String FieldMatcher :=
  (parseField field min max).mapError (("invalid " ++ name ++ " field: ") ++ ·)

/-- Parse the five fields that follow the seconds. -/
def parseCalendarFields (seconds : FieldMatcher) (hasSecs : Bool)
    (minute hour day month weekday : List Char) : Except String Schedule := do
  let minutes ← parseNamedField "minutes" minute 0 59
  let hours ← parseNamedField "hours" hour 0 23
  let days ← parseNamedField "days" day 1 31
  let months ← parseNamedField "months" month 1 12
  let weekdays ← parseNamedField "weekdays" weekday 0 7
  pure { seconds, minutes, hours, days, months, weekdays, hasSecs }

/-- Parse a cron expression. -/
def ParseCronExpression (expr : String) : Except String Schedule := do
  if expr = "" then throw "empty cron expression"
  else
    match Fields expr with
    | [minute, hour, day, month, weekday] =>
        parseCalendarFields (.exactMatcher 0) false minute hour day month weekday
    | [second, minute, hour, day, month, weekday] => do
        let seconds ← parseNamedField "seconds" second 0 59
        parseCalendarFields seconds true minute hour day month weekday
    | fields =>
        throw ("invalid cron expression: expected 5 or 6 fields, got " ++
          toString fields.length)

/-! ## Calendar instants -/

/-- The number of days of a month. -/
def daysIn (year month : ℤ) : ℤ :=
  if month = 2 then
    if year % 4 = 0 ∧ (year % 100 ≠ 0 ∨ year % 400 = 0) then 29 else 28
  else if month = 4 ∨ month = 6 ∨ month = 9 ∨ month = 11 then 30
  else 31

/-- An instant on the wall clock of a time zone. -/
structure Instant where
  Year : ℤ
  Month : ℤ
  Day : ℤ
  Hour : ℤ
  Minute : ℤ
  Second : ℤ
  month_mem : 1 ≤ Month ∧ Month ≤ 12
  day_mem : 1 ≤ Day ∧ Day ≤ daysIn Year Month
  hour_mem : 0 ≤ Hour ∧ Hour ≤ 23
  minute_mem : 0 ≤ Minute ∧ Minute ≤ 59
  second_mem : 0 ≤ Second ∧ Second ≤ 59

namespace Instant

/-- The number of days from the first of January 1970, counted in years that start in
March. -/
def dayNumber (t : Instant) : ℤ :=
  let year := if t.Month ≤ 2 then t.Year - 1 else t.Year
  let month := if t.Month ≤ 2 then t.Month + 9 else t.Month - 3
  365 * year + year / 4 - year / 100 + year / 400 + (153 * month + 2) / 5 + t.Day - 719469

/-- The day of the week, where Sunday is 0.  The first of January 1970 was a Thursday. -/
def Weekday (t : Instant) : ℤ :=
  (t.dayNumber + 4) % 7

/-- A weekday is one of seven. -/
theorem weekday_mem (t : Instant) : 0 ≤ t.Weekday ∧ t.Weekday ≤ 6 := by
  unfold Weekday
  omega

/-- A month has at most 31 days. -/
theorem day_le (t : Instant) : t.Day ≤ 31 := by
  have hday := t.day_mem.2
  unfold daysIn at hday
  split_ifs at hday <;> omega

end Instant

/-- Whether a schedule runs at an instant. -/
def Schedule.matches (s : Schedule) (t : Instant) : Bool :=
  s.seconds.matches t.Second &&
    s.minutes.matches t.Minute &&
    s.hours.matches t.Hour &&
    s.months.matches t.Month &&
    (s.days.matches t.Day || s.weekdays.matches t.Weekday)

/-! ## The format -/

/-- A text that writes a number. -/
def Writes (text : List Char) (n : ℤ) : Prop :=
  atoi (TrimSpace text) = .ok n

instance (text : List Char) (n : ℤ) : Decidable (Writes text n) :=
  inferInstanceAs (Decidable (atoi (TrimSpace text) = .ok n))

/-- The values that the text of a field denotes: every value, every {lit}`n`-th value from
the least one, the values of a list, the values of a range, or one value. -/
inductive Denotes (min max : ℤ) : List Char → ℤ → Prop
  | any {v : ℤ} : min ≤ v → v ≤ max → Denotes min max ['*'] v
  | step {text : List Char} {n v : ℤ} :
      atoi text = .ok n → min ≤ v → v ≤ max → n ∣ v - min →
        Denotes min max ('*' :: '/' :: text) v
  | list {field part : List Char} {v : ℤ} :
      ',' ∈ field → part ∈ splitAll ',' field → Writes part v → Denotes min max field v
  | range {field first second : List Char} {start stop v : ℤ} :
      splitAll '-' field = [first, second] → Writes first start → Writes second stop →
        start ≤ v → v ≤ stop → Denotes min max field v
  | value {field : List Char} {v : ℤ} : '-' ∉ field → Writes field v → Denotes min max field v

/-- The texts of the fields after the seconds. -/
structure CalendarFields where
  minute : List Char
  hour : List Char
  day : List Char
  month : List Char
  weekday : List Char
deriving DecidableEq, Repr

/-- The texts of the fields of an expression; the seconds may be left out. -/
def expressionFields (expr : String) : Option (Option (List Char) × CalendarFields) :=
  match Fields expr with
  | [minute, hour, day, month, weekday] => some (none, { minute, hour, day, month, weekday })
  | [second, minute, hour, day, month, weekday] =>
      some (some second, { minute, hour, day, month, weekday })
  | _ => none

/-- The second, minute, hour and month of an instant are denoted by their fields. -/
def TimeOfDay (second : Option (List Char)) (fields : CalendarFields) (t : Instant) : Prop :=
  (second.elim (t.Second = 0) fun field => Denotes 0 59 field t.Second) ∧
    Denotes 0 59 fields.minute t.Minute ∧
    Denotes 0 23 fields.hour t.Hour ∧
    Denotes 1 12 fields.month t.Month

/-- The day of the month of an instant is denoted by its field. -/
def DayOfMonth (fields : CalendarFields) (t : Instant) : Prop :=
  Denotes 1 31 fields.day t.Day

/-- The day of the week of an instant is denoted by its field, where both 0 and 7 are
Sunday. -/
def DayOfWeek (fields : CalendarFields) (t : Instant) : Prop :=
  Denotes 0 7 fields.weekday t.Weekday ∨ t.Weekday = 0 ∧ Denotes 0 7 fields.weekday 7

/-- The day rule: two restricted day fields are alternatives, and a day field that is not
restricted leaves the decision to the other one. -/
def DayRule (fields : CalendarFields) (t : Instant) : Prop :=
  if fields.day = ['*'] then DayOfWeek fields t
  else if fields.weekday = ['*'] then DayOfMonth fields t
  else DayOfMonth fields t ∨ DayOfWeek fields t

/-- The instants that an expression stands for. -/
def Fires (expr : String) (t : Instant) : Prop :=
  ∃ second fields, expressionFields expr = some (second, fields) ∧
    TimeOfDay second fields t ∧ DayRule fields t

/-- The instants on which a schedule departs from its expression.  The day of one of them is
excluded by the only restricted day field, or it is a Sunday that the expression writes as 7
only. -/
def Departs (expr : String) (t : Instant) : Prop :=
  ∃ second fields, expressionFields expr = some (second, fields) ∧ TimeOfDay second fields t ∧
    (fields.day = ['*'] ∧ ¬ DayOfWeek fields t ∨
      fields.weekday = ['*'] ∧ ¬ DayOfMonth fields t ∨
      fields.day ≠ ['*'] ∧ fields.weekday ≠ ['*'] ∧ ¬ DayOfMonth fields t ∧
        t.Weekday = 0 ∧ Denotes 0 7 fields.weekday 7 ∧ ¬ Denotes 0 7 fields.weekday 0)

/-! ## Numbers in a field -/

private theorem splitSign_mem {text : List Char} {c : Char} (h : c ∈ text) :
    c = '-' ∨ c = '+' ∨ c ∈ (splitSign text).2 := by
  unfold splitSign
  split
  · rcases List.mem_cons.1 h with rfl | hcs
    · exact Or.inl rfl
    · exact Or.inr (Or.inr hcs)
  · rcases List.mem_cons.1 h with rfl | hcs
    · exact Or.inr (Or.inl rfl)
    · exact Or.inr (Or.inr hcs)
  · exact Or.inr (Or.inr h)

/-- The characters of a number. -/
theorem atoi_chars {text : List Char} {n : ℤ} (h : atoi text = .ok n) :
    ∀ c ∈ text, c.isDigit ∨ c = '-' ∨ c = '+' := by
  intro c hc
  have hdigits : (splitSign text).2.all Char.isDigit := by
    by_contra hnot
    unfold atoi at h
    simp only [hnot, not_false_eq_true, or_true, if_true] at h
    cases h
  rcases splitSign_mem hc with hminus | hplus | hmem
  · exact Or.inr (Or.inl hminus)
  · exact Or.inr (Or.inr hplus)
  · exact Or.inl (List.all_eq_true.1 hdigits c hmem)

private theorem isSpace_of_digit {c : Char} (h : c.isDigit) : isSpace c = false := by
  have hrange : 48 ≤ c.toNat ∧ c.toNat ≤ 57 := by
    simpa [Char.isDigit, UInt32.le_iff_toNat_le] using h
  have hmem : c.toNat ∉ [0x09, 0x0a, 0x0b, 0x0c, 0x0d, 0x20, 0x85, 0xa0, 0x1680, 0x2028, 0x2029,
      0x202f, 0x205f, 0x3000] := by
    simp only [List.mem_cons, List.not_mem_nil, or_false]
    omega
  have hwide : ¬ 0x2000 ≤ c.toNat := by omega
  unfold isSpace
  simp [hmem, hwide]

/-- A number is not surrounded by white space. -/
theorem not_isSpace_of_atoi {text : List Char} {n : ℤ} (h : atoi text = .ok n) :
    ∀ c ∈ text, isSpace c = false := by
  intro c hc
  rcases atoi_chars h c hc with hdigit | rfl | rfl
  · exact isSpace_of_digit hdigit
  · decide
  · decide

/-- A text without space has none to drop. -/
theorem dropWhile_isSpace {text : List Char} (h : ∀ c ∈ text, isSpace c = false) :
    text.dropWhile isSpace = text := by
  cases text with
  | nil => rfl
  | cons c cs => simp [h c (by simp)]

/-- What is read as a number is written as one. -/
theorem writes_of_atoi {text : List Char} {n : ℤ} (h : atoi text = .ok n) : Writes text n := by
  have hspace := not_isSpace_of_atoi h
  have htrim : TrimSpace text = text := by
    unfold TrimSpace
    rw [dropWhile_isSpace hspace,
      dropWhile_isSpace fun c hc => hspace c (List.mem_reverse.1 hc), List.reverse_reverse]
  unfold Writes
  rw [htrim]
  exact h

theorem mem_dropWhile {text : List Char} {c : Char} (hc : c ∈ text) (hspace : isSpace c = false) :
    c ∈ text.dropWhile isSpace := by
  have hsplit := List.takeWhile_append_dropWhile (p := isSpace) (l := text)
  rw [← hsplit] at hc
  rcases List.mem_append.1 hc with htake | hdrop
  · have := List.mem_takeWhile_imp htake
    simp [hspace] at this
  · exact hdrop

/-- A text that writes a number holds digits, signs and white space only. -/
theorem not_writes_of_mem {text : List Char} {c : Char} {n : ℤ} (hc : c ∈ text)
    (hspace : isSpace c = false) (hdigit : c.isDigit = false) (hminus : c ≠ '-') (hplus : c ≠ '+') :
    ¬ Writes text n := by
  intro h
  have htrim : c ∈ TrimSpace text := by
    unfold TrimSpace
    apply List.mem_reverse.2
    apply mem_dropWhile _ hspace
    apply List.mem_reverse.2
    exact mem_dropWhile hc hspace
  rcases atoi_chars h c htrim with h' | h' | h'
  · rw [hdigit] at h'
    cases h'
  · exact hminus h'
  · exact hplus h'

/-- A text writes at most one number. -/
theorem writes_unique {text : List Char} {m n : ℤ} (hm : Writes text m) (hn : Writes text n) :
    m = n := by
  unfold Writes at hm hn
  rw [hm] at hn
  cases hn
  rfl

/-- A character other than the separator stays in one of the parts. -/
theorem mem_splitAll {separator c : Char} {text : List Char} (hc : c ∈ text)
    (hne : c ≠ separator) : ∃ part ∈ splitAll separator text, c ∈ part := by
  induction text with
  | nil => cases hc
  | cons d text ih =>
      unfold splitAll
      by_cases hd : d = separator
      · rw [if_pos hd]
        have hmem : c ∈ text := by
          rcases List.mem_cons.1 hc with rfl | hmem
          · exact absurd hd hne
          · exact hmem
        rcases ih hmem with ⟨part, hpart, hcpart⟩
        exact ⟨part, List.mem_cons_of_mem _ hpart, hcpart⟩
      · rw [if_neg hd]
        cases hparts : splitAll separator text with
        | nil => exact absurd hparts (Store.splitAll_ne_nil separator text)
        | cons first rest =>
            rcases List.mem_cons.1 hc with rfl | hmem
            · exact ⟨c :: first, by simp, by simp⟩
            · rcases ih hmem with ⟨part, hpart, hcpart⟩
              rw [hparts] at hpart
              rcases List.mem_cons.1 hpart with rfl | hrest
              · exact ⟨d :: part, by simp, List.mem_cons_of_mem _ hcpart⟩
              · exact ⟨part, List.mem_cons_of_mem _ hrest, hcpart⟩

/-! ## Accepted fields -/

/-- The values of an accepted list are the numbers of its parts, within the bounds. -/
theorem parseValues_ok {min max : ℤ} {parts : List (List Char)} {values : List ℤ}
    (h : parseValues min max parts = .ok values) (v : ℤ) :
    v ∈ values ↔ ∃ part ∈ parts, Writes part v := by
  induction parts generalizing values with
  | nil =>
      cases h
      simp
  | cons p parts ih =>
      unfold parseValues at h
      cases hp : atoi (TrimSpace p) with
      | error e =>
          simp only [hp] at h
          cases h
      | ok val =>
          simp only [hp] at h
          split_ifs at h with hbound
          cases hrest : parseValues min max parts with
          | error e =>
              rw [hrest] at h
              cases h
          | ok rest =>
              rw [hrest] at h
              cases h
              have hwrites : Writes p val := hp
              rw [List.mem_cons, ih hrest]
              constructor
              · intro hv
                rcases hv with rfl | ⟨part, hpart, hv⟩
                · exact ⟨p, by simp, hwrites⟩
                · exact ⟨part, List.mem_cons_of_mem _ hpart, hv⟩
              · intro hv
                rcases hv with ⟨part, hpart, hv⟩
                rcases List.mem_cons.1 hpart with rfl | hpart
                · exact Or.inl (writes_unique hv hwrites)
                · exact Or.inr ⟨part, hpart, hv⟩

/-- A matcher matches the values that a text denotes, among the values between the bounds. -/
def Agrees (matcher : FieldMatcher) (field : List Char) (min max : ℤ) : Prop :=
  ∀ v, min ≤ v → v ≤ max → (matcher.matches v ↔ Denotes min max field v)

private theorem agrees_wildcard (min max : ℤ) : Agrees .wildcardMatcher ['*'] min max := by
  intro v hmin hmax
  simp only [FieldMatcher.matches, true_iff]
  exact Denotes.any hmin hmax

/-- No number is written with a star. -/
theorem star_not_written {text : List Char} {n : ℤ} (h : '*' ∈ text) : ¬ Writes text n :=
  not_writes_of_mem h (by decide) (by decide) (by decide) (by decide)

/-- No number is written with a comma. -/
theorem comma_not_written {text : List Char} {n : ℤ} (h : ',' ∈ text) : ¬ Writes text n :=
  not_writes_of_mem h (by decide) (by decide) (by decide) (by decide)

/-- The bounds of a range hold digits, signs and white space only. -/
theorem range_chars {field first second : List Char} {start stop : ℤ} {c : Char}
    (hsplit : splitAll '-' field = [first, second]) (hfirst : Writes first start)
    (hsecond : Writes second stop) (hne : c ≠ '-')
    (hc : ∀ (text : List Char) (n : ℤ), c ∈ text → ¬ Writes text n) : c ∉ field := by
  intro hmem
  rcases mem_splitAll hmem hne with ⟨part, hpart, hcpart⟩
  rw [hsplit] at hpart
  rcases List.mem_cons.1 hpart with rfl | hpart
  · exact hc _ _ hcpart hfirst
  · rw [List.mem_singleton.1 hpart] at hcpart
    exact hc _ _ hcpart hsecond

private theorem agrees_step {text : List Char} {step : ℤ} (min max : ℤ)
    (hstep : atoi text = .ok step) :
    Agrees (.stepMatcher step min max) ('*' :: '/' :: text) min max := by
  intro v hmin hmax
  have hcomma : ',' ∉ '*' :: '/' :: text := by
    intro hmem
    have htext : ',' ∈ text := by simpa using hmem
    exact comma_not_written htext (writes_of_atoi hstep)
  have hbounds : ¬ (v < min ∨ max < v) := by omega
  simp only [FieldMatcher.matches, hbounds, if_false, beq_iff_eq]
  rw [Int.tmod_eq_emod_of_nonneg (by omega), ← Int.dvd_iff_emod_eq_zero]
  constructor
  · intro hdvd
    exact Denotes.step hstep hmin hmax hdvd
  · intro h
    cases h with
    | step hn _ _ hdvd =>
        rw [hstep] at hn
        cases hn
        exact hdvd
    | list hmem _ _ => exact absurd hmem hcomma
    | range hsplit hfirst hsecond _ _ =>
        have := range_chars hsplit hfirst hsecond (by decide)
          (fun text n h => @star_not_written text n h)
        simp at this
    | value _ hv => exact absurd hv (star_not_written (by simp))

private theorem agrees_list {field : List Char} {min max : ℤ} {values : List ℤ}
    (hcomma : ',' ∈ field)
    (hvalues : parseValues min max (splitAll ',' field) = .ok values) :
    Agrees (.listMatcher values) field min max := by
  intro v hmin hmax
  have hmem : (FieldMatcher.listMatcher values).matches v ↔ v ∈ values := by
    simp [FieldMatcher.matches]
  rw [hmem, parseValues_ok hvalues]
  constructor
  · intro h
    rcases h with ⟨part, hpart, hv⟩
    exact Denotes.list hcomma hpart hv
  · intro h
    cases h with
    | any _ _ => simp at hcomma
    | step hn _ _ _ =>
        exact absurd (writes_of_atoi hn) (comma_not_written (by simpa using hcomma))
    | list _ hpart hv => exact ⟨_, hpart, hv⟩
    | range hsplit hfirst hsecond _ _ =>
        exact absurd hcomma (range_chars hsplit hfirst hsecond (by decide)
          fun _ _ => comma_not_written)
    | value _ hv => exact absurd hv (comma_not_written hcomma)

private theorem agrees_range {field first second : List Char} {min max start stop : ℤ}
    (hcomma : ',' ∉ field) (hminus : '-' ∈ field) (hsplit : splitAll '-' field = [first, second])
    (hfirst : Writes first start) (hsecond : Writes second stop) :
    Agrees (.rangeMatcher start stop) field min max := by
  intro v hmin hmax
  have hrange : (FieldMatcher.rangeMatcher start stop).matches v ↔ start ≤ v ∧ v ≤ stop := by
    simp [FieldMatcher.matches]
  rw [hrange]
  constructor
  · intro h
    exact Denotes.range hsplit hfirst hsecond h.1 h.2
  · intro h
    have hstar : '*' ∉ field :=
      range_chars hsplit hfirst hsecond (by decide) fun _ _ => star_not_written
    cases h with
    | any _ _ => simp at hstar
    | step _ _ _ _ => simp at hstar
    | list hmem _ _ => exact absurd hmem hcomma
    | range hsplit' hfirst' hsecond' hstart hstop =>
        rw [hsplit] at hsplit'
        cases hsplit'
        rw [writes_unique hfirst hfirst', writes_unique hsecond hsecond']
        exact ⟨hstart, hstop⟩
    | value hno _ => exact absurd hminus hno

private theorem agrees_exact {field : List Char} {min max val : ℤ} (hcomma : ',' ∉ field)
    (hminus : '-' ∉ field) (hval : atoi field = .ok val) :
    Agrees (.exactMatcher val) field min max := by
  intro v hmin hmax
  have hwrites := writes_of_atoi hval
  simp only [FieldMatcher.matches, beq_iff_eq]
  constructor
  · rintro rfl
    exact Denotes.value hminus hwrites
  · intro h
    cases h with
    | any _ _ => exact absurd hwrites (star_not_written (by simp))
    | step _ _ _ _ => exact absurd hwrites (star_not_written (by simp))
    | list hmem _ _ => exact absurd hmem hcomma
    | range hsplit _ _ _ _ =>
        rw [Store.splitAll_flat hminus] at hsplit
        cases hsplit
    | value _ hv => exact writes_unique hv hwrites

/-- The matcher of an accepted field matches the values that its text denotes. -/
theorem parseField_matches {field : List Char} {min max : ℤ} {matcher : FieldMatcher}
    (h : parseField field min max = .ok matcher) : Agrees matcher field min max := by
  unfold parseField at h
  split_ifs at h with hstar hstart hcomma hminus
  · cases h
    rw [hstar]
    exact agrees_wildcard min max
  · rcases List.isPrefixOf_iff_prefix.1 hstart with ⟨text, rfl⟩
    cases hstep : atoi text with
    | error e =>
        simp [hstep] at h
    | ok step =>
        simp only [List.cons_append, List.nil_append, List.drop_succ_cons, List.drop_zero,
          hstep] at h
        split_ifs at h
        cases h
        exact agrees_step min max hstep
  · cases hvalues : parseValues min max (splitAll ',' field) with
    | error e =>
        rw [hvalues] at h
        cases h
    | ok values =>
        rw [hvalues] at h
        cases h
        exact agrees_list hcomma hvalues
  · split at h
    · next first second hsplit =>
        split at h
        · next start stop hfirst hsecond =>
            split_ifs at h
            cases h
            exact agrees_range hcomma hminus hsplit hfirst hsecond
        · cases h
    · cases h
  · split at h
    · next val hval =>
        split_ifs at h
        cases h
        exact agrees_exact hcomma hminus hval
    · cases h

/-! ## Accepted expressions -/

/-- The fields of an expression and the schedule that they are parsed to. -/
structure Parsed (second : Option (List Char)) (fields : CalendarFields) (s : Schedule) : Prop where
  seconds : second.elim (s.seconds = .exactMatcher 0) fun field => Agrees s.seconds field 0 59
  minutes : Agrees s.minutes fields.minute 0 59
  hours : Agrees s.hours fields.hour 0 23
  days : Agrees s.days fields.day 1 31
  months : Agrees s.months fields.month 1 12
  weekdays : Agrees s.weekdays fields.weekday 0 7

/-- A schedule that parses has each of its fields parsed. -/
theorem parseNamedField_ok {name : String} {field : List Char} {min max : ℤ} {α : Type}
    {next : FieldMatcher → Except String α} {result : α}
    (h : (parseNamedField name field min max >>= next) = .ok result) :
    ∃ matcher, Agrees matcher field min max ∧ next matcher = .ok result := by
  unfold parseNamedField at h
  cases hfield : parseField field min max with
  | error e =>
      rw [hfield] at h
      cases h
  | ok matcher =>
      rw [hfield] at h
      exact ⟨matcher, parseField_matches hfield, h⟩

/-- The fields of a schedule that parses. -/
theorem parseCalendarFields_ok {second : Option (List Char)} {seconds : FieldMatcher}
    {hasSecs : Bool} {minute hour day month weekday : List Char} {s : Schedule}
    (hseconds : second.elim (seconds = .exactMatcher 0) fun field => Agrees seconds field 0 59)
    (h : parseCalendarFields seconds hasSecs minute hour day month weekday = .ok s) :
    Parsed second { minute, hour, day, month, weekday } s := by
  unfold parseCalendarFields at h
  rcases parseNamedField_ok h with ⟨minutes, hminutes, h⟩
  rcases parseNamedField_ok h with ⟨hours, hhours, h⟩
  rcases parseNamedField_ok h with ⟨days, hdays, h⟩
  rcases parseNamedField_ok h with ⟨months, hmonths, h⟩
  rcases parseNamedField_ok h with ⟨weekdays, hweekdays, h⟩
  cases h
  exact ⟨hseconds, hminutes, hhours, hdays, hmonths, hweekdays⟩

/-- An accepted expression has five or six fields, and each of them is accepted. -/
theorem ParseCronExpression_ok {expr : String} {s : Schedule}
    (h : ParseCronExpression expr = .ok s) :
    ∃ second fields, expressionFields expr = some (second, fields) ∧ Parsed second fields s := by
  unfold ParseCronExpression at h
  split_ifs at h
  unfold expressionFields
  split at h
  · next minute hour day month weekday hfields =>
      exact ⟨none, _, rfl, parseCalendarFields_ok rfl h⟩
  · next second minute hour day month weekday hfields =>
      rcases parseNamedField_ok h with ⟨seconds, hseconds, h⟩
      exact ⟨some second, _, rfl, parseCalendarFields_ok hseconds h⟩
  · cases h

/-- The instants at which a parsed schedule runs: either day field may decide. -/
theorem matches_iff {second : Option (List Char)} {fields : CalendarFields} {s : Schedule}
    (h : Parsed second fields s) (t : Instant) :
    s.matches t ↔ TimeOfDay second fields t ∧
      (DayOfMonth fields t ∨ Denotes 0 7 fields.weekday t.Weekday) := by
  have hsecond : s.seconds.matches t.Second ↔
      second.elim (t.Second = 0) fun field => Denotes 0 59 field t.Second := by
    have hseconds := h.seconds
    cases second with
    | none =>
        rw [show s.seconds = .exactMatcher 0 from hseconds]
        simp [FieldMatcher.matches]
    | some field => exact hseconds t.Second t.second_mem.1 t.second_mem.2
  have hminute := h.minutes t.Minute t.minute_mem.1 t.minute_mem.2
  have hhour := h.hours t.Hour t.hour_mem.1 t.hour_mem.2
  have hday := h.days t.Day t.day_mem.1 t.day_le
  have hmonth := h.months t.Month t.month_mem.1 t.month_mem.2
  have hweekday := h.weekdays t.Weekday t.weekday_mem.1 (by have := t.weekday_mem.2; omega)
  simp only [Schedule.matches, Bool.and_eq_true, Bool.or_eq_true, hsecond, hminute, hhour, hday,
    hmonth, hweekday, TimeOfDay, DayOfMonth, and_assoc]

private theorem dayOfMonth_of_star {fields : CalendarFields} (h : fields.day = ['*']) (t : Instant)
    :
    DayOfMonth fields t := by
  unfold DayOfMonth
  rw [h]
  exact Denotes.any t.day_mem.1 t.day_le

private theorem weekday_of_star {fields : CalendarFields} (h : fields.weekday = ['*']) (t : Instant)
    :
    Denotes 0 7 fields.weekday t.Weekday := by
  have hmax : t.Weekday ≤ 7 := by
    have := t.weekday_mem.2
    omega
  rw [h]
  exact Denotes.any t.weekday_mem.1 hmax

/-- An expression splits into fields in one way. -/
theorem expressionFields_unique {expr : String} {second : Option (List Char)}
    {fields : CalendarFields} (h : expressionFields expr = some (second, fields))
    (P : Option (List Char) → CalendarFields → Prop) :
    (∃ second fields, expressionFields expr = some (second, fields) ∧ P second fields) ↔
      P second fields := by
  constructor
  · intro hex
    rcases hex with ⟨second', fields', h', hp⟩
    rw [h] at h'
    cases h'
    exact hp
  · intro hp
    exact ⟨second, fields, h, hp⟩

/-- A schedule agrees with its expression on an instant exactly when the instant is not one
of those on which it departs. -/
theorem schedule_meets_format_iff (expr : String) (s : Schedule) (t : Instant)
    (hparse : ParseCronExpression expr = .ok s) :
    (s.matches t ↔ Fires expr t) ↔ ¬ Departs expr t := by
  rcases ParseCronExpression_ok hparse with ⟨second, fields, hfields, hparsed⟩
  have hfires : Fires expr t ↔ TimeOfDay second fields t ∧ DayRule fields t :=
    expressionFields_unique hfields fun second fields =>
      TimeOfDay second fields t ∧ DayRule fields t
  have hdeparts := expressionFields_unique hfields fun second fields =>
    TimeOfDay second fields t ∧
      (fields.day = ['*'] ∧ ¬ DayOfWeek fields t ∨
        fields.weekday = ['*'] ∧ ¬ DayOfMonth fields t ∨
        fields.day ≠ ['*'] ∧ fields.weekday ≠ ['*'] ∧ ¬ DayOfMonth fields t ∧
          t.Weekday = 0 ∧ Denotes 0 7 fields.weekday 7 ∧ ¬ Denotes 0 7 fields.weekday 0)
  unfold Departs
  rw [hdeparts, matches_iff hparsed, hfires]
  by_cases htime : TimeOfDay second fields t
  · by_cases hday : fields.day = ['*']
    · -- The matcher of a wildcard accepts every day, so the other field has no say.
      have hmonth := dayOfMonth_of_star hday t
      simp [htime, hday, hmonth, DayRule]
    · by_cases hweekday : fields.weekday = ['*']
      · have hany := weekday_of_star hweekday t
        rw [hweekday] at hany
        by_cases hmonth : DayOfMonth fields t <;>
          simp [htime, hday, hweekday, hany, hmonth, DayRule]
      · by_cases hsunday : t.Weekday = 0
        · by_cases hmonth : DayOfMonth fields t <;>
            simp [htime, hday, hweekday, hmonth, hsunday, DayRule, DayOfWeek]
        · simp [htime, hday, hweekday, hsunday, DayRule, DayOfWeek]
  · simp [htime]

/-- Midnight of a day of January 2025. -/
def january (day : ℤ) (h : 1 ≤ day ∧ day ≤ 31) : Instant where
  Year := 2025
  Month := 1
  Day := day
  Hour := 0
  Minute := 0
  Second := 0
  month_mem := by decide
  day_mem := h
  hour_mem := by decide
  minute_mem := by decide
  second_mem := by decide

/-- The schedule of {lit}`0 0 * * 0`, midnight of every Sunday. -/
def everySunday : Schedule where
  seconds := .exactMatcher 0
  minutes := .exactMatcher 0
  hours := .exactMatcher 0
  days := .wildcardMatcher
  months := .wildcardMatcher
  weekdays := .exactMatcher 0
  hasSecs := false

theorem schedule_meets_format_example :
    (everySunday.matches (january 5 (by decide)) ↔ Fires "0 0 * * 0" (january 5 (by decide))) ↔
      ¬ Departs "0 0 * * 0" (january 5 (by decide)) :=
  schedule_meets_format_iff "0 0 * * 0" everySunday (january 5 (by decide)) (by decide +kernel)

/-- The expression for the first day of every month runs on the second day of January, and a
Sunday that is written as 7 beside a day of the month is skipped. -/
theorem schedule_departs_from_format :
    ((ParseCronExpression "0 0 1 * *").map (·.matches (january 2 (by decide))) = .ok true ∧
        ¬ Fires "0 0 1 * *" (january 2 (by decide))) ∧
      ((ParseCronExpression "0 0 1 * 7").map (·.matches (january 5 (by decide))) = .ok false ∧
        Fires "0 0 1 * 7" (january 5 (by decide))) := by
  have hone : Agrees (.exactMatcher 1) ['1'] 1 31 := parseField_matches (by decide +kernel)
  have hzero : ∀ max, max ≤ 59 → 0 ≤ max → Denotes 0 max ['0'] 0 := by
    intro max _ _
    exact Denotes.value (by decide) (by decide +kernel)
  refine ⟨⟨by decide +kernel, ?_⟩, by decide +kernel, ?_⟩
  · intro h
    have hfields : expressionFields "0 0 1 * *" =
        some (none, ⟨['0'], ['0'], ['1'], ['*'], ['*']⟩) := by decide +kernel
    rcases h with ⟨second, fields, hsome, _, hday⟩
    rw [hfields] at hsome
    cases hsome
    have hmonth := (hone 2 (by decide) (by decide)).2 hday
    exact absurd hmonth (by decide)
  · have hfields : expressionFields "0 0 1 * 7" =
        some (none, ⟨['0'], ['0'], ['1'], ['*'], ['7']⟩) := by decide +kernel
    refine ⟨none, _, hfields, ⟨rfl, hzero 59 (by decide) (by decide),
      hzero 23 (by decide) (by decide), Denotes.any (by decide) (by decide)⟩, ?_⟩
    exact Or.inr (Or.inr ⟨by decide, Denotes.value (by decide) (by decide +kernel)⟩)

end Scheduler
end MemosNote
