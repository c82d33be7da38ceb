/-
The proleptic Gregorian calendar: dates that are valid by construction, the day
after a date, day numbers and back, and the civil time of a count of seconds.
Day 0 and second 0 are those of 1970-01-01.
-/
import Mathlib.Data.Nat.Find
import Mathlib.Logic.Function.Iterate
import Mathlib.Order.Monotone.Basic

namespace Calendar

def IsLeapYear (y : Int) : Prop :=
  y % 4 = 0 ∧ (y % 100 ≠ 0 ∨ y % 400 = 0)

instance decidableIsLeapYear (y : Int) : Decidable (IsLeapYear y) :=
  inferInstanceAs (Decidable (_ ∧ _))

def daysInMonth (y : Int) (m : Nat) : Nat :=
  if m = 2 then
    if IsLeapYear y then 29 else 28
  else if m = 4 ∨ m = 6 ∨ m = 9 ∨ m = 11 then 30
  else 31

def daysInYear (y : Int) : Nat :=
  if IsLeapYear y then 366 else 365

structure Date where
  year : Int
  month : Nat
  day : Nat
  month_pos : 1 ≤ month
  month_le : month ≤ 12
  day_pos : 1 ≤ day
  day_le : day ≤ daysInMonth year month
deriving DecidableEq

theorem daysInMonth_pos (y : Int) (m : Nat) : 1 ≤ daysInMonth y m := by
  unfold daysInMonth
  split
  · split <;> omega
  · split <;> omega

theorem daysInMonth_le (y : Int) (m : Nat) : daysInMonth y m ≤ 31 := by
  unfold daysInMonth
  split
  · split <;> omega
  · split <;> omega

namespace Date

def epoch : Date :=
  ⟨1970, 1, 1, by decide, by decide, by decide, by decide⟩

/-- The day after. -/
def next (d : Date) : Date :=
  if hday : d.day < daysInMonth d.year d.month then
    { d with
      day := d.day + 1
      day_pos := Nat.succ_pos _
      day_le := hday }
  else if hmonth : d.month < 12 then
    { year := d.year
      month := d.month + 1
      day := 1
      month_pos := Nat.succ_pos _
      month_le := hmonth
      day_pos := Nat.le_refl _
      day_le := daysInMonth_pos _ _ }
  else
    { year := d.year + 1
      month := 1
      day := 1
      month_pos := Nat.le_refl _
      month_le := by omega
      day_pos := Nat.le_refl _
      day_le := daysInMonth_pos _ _ }

end Date

/-- The days of the months before month `m`. -/
def daysBeforeMonth (y : Int) : Nat → Nat
  | 0 => 0
  | 1 => 0
  | m + 2 => daysBeforeMonth y (m + 1) + daysInMonth y (m + 1)

def leapYearsBefore (y : Int) : Int :=
  (y - 1) / 4 - (y - 1) / 100 + (y - 1) / 400

/-- The number of the first day of a year. -/
def daysBeforeYear (y : Int) : Int :=
  365 * (y - 1970) + (leapYearsBefore y - leapYearsBefore 1970)

theorem daysBeforeMonth_succ (y : Int) {m : Nat} (hm : 1 ≤ m) :
    daysBeforeMonth y (m + 1) = daysBeforeMonth y m + daysInMonth y m := by
  obtain ⟨k, rfl⟩ := Nat.exists_eq_add_of_le' hm
  rfl

theorem daysBeforeMonth_mono (y : Int) : Monotone (daysBeforeMonth y) := by
  apply monotone_nat_of_le_succ
  intro m
  cases m with
  | zero => exact Nat.le_refl _
  | succ m => exact Nat.le_add_right _ _

/-- The twelve months make up the year. -/
theorem daysBeforeMonth_end (y : Int) : daysBeforeMonth y 13 = daysInYear y := by
  by_cases hleap : IsLeapYear y <;>
    simp [daysBeforeMonth, daysInMonth, daysInYear, hleap]

theorem daysBeforeYear_succ (y : Int) :
    daysBeforeYear (y + 1) = daysBeforeYear y + daysInYear y := by
  by_cases hleap : IsLeapYear y
  · simp only [daysBeforeYear, leapYearsBefore, daysInYear, hleap, if_true]
    unfold IsLeapYear at hleap
    omega
  · simp only [daysBeforeYear, leapYearsBefore, daysInYear, hleap, if_false]
    unfold IsLeapYear at hleap
    omega

theorem daysBeforeYear_mono {y z : Int} (h : y ≤ z) :
    daysBeforeYear y ≤ daysBeforeYear z := by
  unfold daysBeforeYear leapYearsBefore
  omega

namespace Date

/-- How many days of its year lie before a date. -/
def yearDay (d : Date) : Nat :=
  daysBeforeMonth d.year d.month + (d.day - 1)

/-- The days from the epoch to a date. -/
def dayNumber (d : Date) : Int :=
  daysBeforeYear d.year + d.yearDay

theorem yearDay_lt_month (d : Date) :
    d.yearDay < daysBeforeMonth d.year (d.month + 1) := by
  have hpos := d.day_pos
  have hle := d.day_le
  rw [daysBeforeMonth_succ _ d.month_pos, yearDay]
  omega

theorem yearDay_lt (d : Date) : d.yearDay < daysInYear d.year := by
  rw [← daysBeforeMonth_end]
  exact Nat.lt_of_lt_of_le d.yearDay_lt_month
    (daysBeforeMonth_mono _ (Nat.succ_le_succ d.month_le))

theorem dayNumber_epoch : epoch.dayNumber = 0 := by
  decide

theorem dayNumber_next (d : Date) : d.next.dayNumber = d.dayNumber + 1 := by
  have hpos := d.day_pos
  have hle := d.day_le
  unfold next
  split
  · simp only [dayNumber, yearDay]
    omega
  · split
    · simp only [dayNumber, yearDay, daysBeforeMonth_succ _ d.month_pos]
      omega
    · have hlast : d.month = 12 := by
        have := d.month_le
        omega
      have hend := daysBeforeMonth_end d.year
      rw [daysBeforeMonth_succ d.year (m := 12) (by omega), ← hlast] at hend
      have hfirst : daysBeforeMonth (d.year + 1) 1 = 0 := rfl
      simp only [dayNumber, yearDay, daysBeforeYear_succ, hfirst]
      omega

/-- The year of a date can be read off its number. -/
theorem year_lt_iff (d : Date) (y : Int) :
    d.year < y ↔ d.dayNumber < daysBeforeYear y := by
  have hlt := d.yearDay_lt
  have hsucc := daysBeforeYear_succ d.year
  constructor
  · intro h
    have hmono := daysBeforeYear_mono (Int.add_one_le_of_lt h)
    rw [dayNumber]
    omega
  · intro h
    by_contra hle
    have hmono := daysBeforeYear_mono (Int.not_lt.mp hle)
    rw [dayNumber] at h
    omega

theorem month_lt_iff (d : Date) (m : Nat) :
    d.month < m ↔ d.yearDay < daysBeforeMonth d.year m := by
  constructor
  · intro h
    exact Nat.lt_of_lt_of_le d.yearDay_lt_month (daysBeforeMonth_mono _ h)
  · intro h
    by_contra hle
    have hmono := daysBeforeMonth_mono d.year (Nat.not_lt.mp hle)
    rw [yearDay] at h
    omega

/-- No two dates have one number. -/
theorem dayNumber_injective : Function.Injective dayNumber := by
  intro d e heq
  have hyear : d.year = e.year := by
    apply eq_of_forall_gt_iff
    intro y
    rw [year_lt_iff, year_lt_iff, heq]
  have hyearDay : d.yearDay = e.yearDay := by
    rw [dayNumber, dayNumber, hyear] at heq
    omega
  have hmonth : d.month = e.month := by
    apply eq_of_forall_gt_iff
    intro m
    rw [month_lt_iff, month_lt_iff, hyear, hyearDay]
  have hday : d.day = e.day := by
    have hd := d.day_pos
    have he := e.day_pos
    rw [yearDay, yearDay, hyear, hmonth] at hyearDay
    omega
  obtain ⟨year, month, day⟩ := d
  obtain ⟨year', month', day'⟩ := e
  simp only at hyear hmonth hday
  subst hyear hmonth hday
  rfl

end Date

/-- The first day of a year in terms of its cycle of 400 years, its century, its
cycle of four years and its place in there. -/
theorem daysBeforeYear_eq {cycle century quad year : Int} (hcentury : 0 ≤ century)
    (hcentury' : century ≤ 3) (hquad : 0 ≤ quad) (hquad' : quad ≤ 24)
    (hyear : 0 ≤ year) (hyear' : year ≤ 3) :
    daysBeforeYear (1 + 400 * cycle + 100 * century + 4 * quad + year) =
      146097 * cycle + 36524 * century + 1461 * quad + 365 * year - 719162 := by
  unfold daysBeforeYear leapYearsBefore
  omega

theorem daysInYear_eq {cycle century quad year : Int} (hcentury : 0 ≤ century)
    (hcentury' : century ≤ 3) (hquad : 0 ≤ quad) (hquad' : quad ≤ 24)
    (hyear : 0 ≤ year) (hyear' : year ≤ 3) :
    (daysInYear (1 + 400 * cycle + 100 * century + 4 * quad + year) : Int) =
      if year = 3 ∧ (quad < 24 ∨ century = 3) then 366 else 365 := by
  have hleap : IsLeapYear (1 + 400 * cycle + 100 * century + 4 * quad + year) ↔
      year = 3 ∧ (quad < 24 ∨ century = 3) := by
    unfold IsLeapYear
    omega
  simp only [daysInYear, hleap]
  split <;> rfl

/-- The year of a day: whole cycles of 400 years, then centuries, then cycles of
four years.  The last part of each may be longer by a day than the others. -/
def yearOfDay (n : Int) : Int :=
  let day := n + 719162
  let cycle := day / 146097
  let dayOfCycle := day % 146097
  let century := min (dayOfCycle / 36524) 3
  let dayOfCentury := dayOfCycle - century * 36524
  let quad := dayOfCentury / 1461
  let dayOfQuad := dayOfCentury % 1461
  let year := min (dayOfQuad / 365) 3
  1 + 400 * cycle + 100 * century + 4 * quad + year

theorem yearOfDay_spec (n : Int) :
    daysBeforeYear (yearOfDay n) ≤ n ∧ n < daysBeforeYear (yearOfDay n + 1) := by
  obtain ⟨cycle, century, quad, year, hn, hc, hc', hq, hq', hy, hy', hfrom, hto⟩ :
      ∃ cycle century quad year : Int,
        yearOfDay n = 1 + 400 * cycle + 100 * century + 4 * quad + year ∧
        0 ≤ century ∧ century ≤ 3 ∧ 0 ≤ quad ∧ quad ≤ 24 ∧ 0 ≤ year ∧ year ≤ 3 ∧
        146097 * cycle + 36524 * century + 1461 * quad + 365 * year - 719162 ≤ n ∧
        n < 146097 * cycle + 36524 * century + 1461 * quad + 365 * year - 719162 +
          if year = 3 ∧ (quad < 24 ∨ century = 3) then 366 else 365 := by
    refine ⟨_, _, _, _, rfl, ?_⟩
    omega
  rw [daysBeforeYear_succ, hn, daysBeforeYear_eq hc hc' hq hq' hy hy',
    daysInYear_eq hc hc' hq hq' hy hy']
  exact ⟨hfrom, hto⟩

/-- The month of a day of the year. -/
def monthOfYearDay (y : Int) (n : Nat) : Nat :=
  Nat.findGreatest (fun m => daysBeforeMonth y m ≤ n) 12

theorem monthOfYearDay_spec {y : Int} {n : Nat} (hn : n < daysInYear y) :
    1 ≤ monthOfYearDay y n ∧ monthOfYearDay y n ≤ 12 ∧
      daysBeforeMonth y (monthOfYearDay y n) ≤ n ∧
      n < daysBeforeMonth y (monthOfYearDay y n + 1) := by
  have hfirst : daysBeforeMonth y 1 ≤ n := Nat.zero_le n
  have hle : monthOfYearDay y n ≤ 12 := Nat.findGreatest_le 12
  refine ⟨Nat.le_findGreatest (by omega) hfirst, hle,
    Nat.findGreatest_spec (P := fun m => daysBeforeMonth y m ≤ n) (m := 1)
      (by omega) hfirst, ?_⟩
  by_cases hlast : monthOfYearDay y n = 12
  · rw [hlast, daysBeforeMonth_end]
    exact hn
  · have hnot := Nat.findGreatest_is_greatest
      (Nat.lt_succ_self (monthOfYearDay y n)) (by omega)
    exact Nat.lt_of_not_le hnot

namespace Date

/-- The date with a given number. -/
def ofDay (n : Int) : Date :=
  let year := yearOfDay n
  let yearDay := (n - daysBeforeYear year).toNat
  have hyear : daysBeforeYear year ≤ n ∧ n < daysBeforeYear (year + 1) :=
    yearOfDay_spec n
  have hyearDay : yearDay < daysInYear year := by
    have hsucc := daysBeforeYear_succ year
    omega
  have hmonth := monthOfYearDay_spec hyearDay
  { year := year
    month := monthOfYearDay year yearDay
    day := yearDay - daysBeforeMonth year (monthOfYearDay year yearDay) + 1
    month_pos := hmonth.1
    month_le := hmonth.2.1
    day_pos := Nat.succ_pos _
    day_le := by
      have hsucc := daysBeforeMonth_succ year hmonth.1
      omega }

theorem dayNumber_ofDay (n : Int) : (ofDay n).dayNumber = n := by
  have hyear := yearOfDay_spec n
  have hsucc := daysBeforeYear_succ (yearOfDay n)
  have hmonth := monthOfYearDay_spec (y := yearOfDay n)
    (n := (n - daysBeforeYear (yearOfDay n)).toNat) (by omega)
  simp only [dayNumber, yearDay, ofDay]
  omega

theorem ofDay_dayNumber (d : Date) : ofDay d.dayNumber = d :=
  dayNumber_injective (dayNumber_ofDay d.dayNumber)

theorem ofDay_zero : ofDay 0 = epoch := by
  rw [← dayNumber_epoch, ofDay_dayNumber]

theorem ofDay_succ (n : Int) : ofDay (n + 1) = (ofDay n).next := by
  apply dayNumber_injective
  rw [dayNumber_next, dayNumber_ofDay, dayNumber_ofDay]

/-- Day numbers count the days from the epoch. -/
theorem ofDay_eq_iterate (n : Nat) : ofDay n = next^[n] epoch := by
  induction n with
  | zero => exact ofDay_zero
  | succ n ih =>
      rw [Function.iterate_succ_apply', ← ih]
      exact ofDay_succ n

theorem year_le_next (d : Date) : d.year ≤ d.next.year := by
  unfold next
  split
  · exact Int.le_refl _
  · split
    · exact Int.le_refl _
    · exact Int.le_add_one (Int.le_refl _)

theorem year_le_iterate (d : Date) (n : Nat) : d.year ≤ (next^[n] d).year := by
  induction n with
  | zero => exact Int.le_refl _
  | succ n ih =>
      rw [Function.iterate_succ_apply']
      exact Int.le_trans ih (year_le_next _)

end Date

/-- A date and a time of that day. -/
structure CivilTime where
  date : Date
  hour : Nat
  minute : Nat
  second : Nat
  hour_lt : hour < 24
  minute_lt : minute < 60
  second_lt : second < 60
deriving DecidableEq

namespace CivilTime

/-- Seconds since the epoch, of which every day has as many. -/
def toSeconds (t : CivilTime) : Int :=
  86400 * t.date.dayNumber + (3600 * t.hour + 60 * t.minute + t.second : Nat)

def ofSeconds (n : Int) : CivilTime :=
  let daySecond := (n % 86400).toNat
  { date := .ofDay (n / 86400)
    hour := daySecond / 3600
    minute := daySecond / 60 % 60
    second := daySecond % 60
    hour_lt := by omega
    minute_lt := by omega
    second_lt := by omega }

theorem toSeconds_ofSeconds (n : Int) : (ofSeconds n).toSeconds = n := by
  simp only [toSeconds, ofSeconds, Date.dayNumber_ofDay]
  omega

/-- No two civil times are the same second. -/
theorem toSeconds_injective : Function.Injective toSeconds := by
  intro t u heq
  have ht := t.hour_lt
  have hu := u.hour_lt
  have ht' := t.minute_lt
  have hu' := u.minute_lt
  have ht'' := t.second_lt
  have hu'' := u.second_lt
  unfold toSeconds at heq
  have hdate : t.date = u.date := Date.dayNumber_injective (by omega)
  have hhour : t.hour = u.hour := by rw [hdate] at heq; omega
  have hminute : t.minute = u.minute := by rw [hdate] at heq; omega
  have hsecond : t.second = u.second := by rw [hdate] at heq; omega
  obtain ⟨date, hour, minute, second⟩ := t
  obtain ⟨date', hour', minute', second'⟩ := u
  simp only at hdate hhour hminute hsecond
  subst hdate hhour hminute hsecond
  rfl

theorem hour_ofSeconds_lt_iff (n : Int) (k : Nat) :
    (ofSeconds n).hour < k ↔ n % 86400 < 3600 * k := by
  simp only [ofSeconds]
  omega

/-- Within the day, hours are added to the hour. -/
theorem ofSeconds_add_hours {n : Int} {k : Nat}
    (hday : (ofSeconds n).hour + k < 24) :
    ofSeconds (n + 3600 * k) =
      { ofSeconds n with hour := (ofSeconds n).hour + k, hour_lt := hday } := by
  apply toSeconds_injective
  rw [toSeconds_ofSeconds]
  have hn := toSeconds_ofSeconds n
  unfold toSeconds at hn ⊢
  simp only
  omega

/-- The date of a second is as many days behind the epoch as have passed. -/
theorem date_ofSeconds (n : Nat) :
    (ofSeconds n).date = Date.next^[n / 86400] Date.epoch :=
  Date.ofDay_eq_iterate (n / 86400)

/-- From the epoch on, years count up from 1970. -/
theorem epoch_year_le {n : Int} (hn : 0 ≤ n) :
    Date.epoch.year ≤ (ofSeconds n).date.year := by
  obtain ⟨n, rfl⟩ := Int.eq_ofNat_of_zero_le hn
  rw [date_ofSeconds]
  exact Date.epoch.year_le_iterate _

end CivilTime

end Calendar
