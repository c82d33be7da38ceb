/-
`utils/DateTime`: instants in microseconds, and their text.  `ToString` means the
civil time of UTC+8.
-/
import Jerry.Calendar
import Jerry.Printf

namespace Jerry

open Calendar CString Printf

/-- Microseconds since the epoch, `DateTime::us_since_epoch`. -/
abbrev DateTime := Int

/-- `struct tm`, with the years since 1900 and the months since January. -/
structure Tm where
  tmYear : Int
  tmMon : Int
  tmMday : Int
  tmHour : Int
  tmMin : Int
  tmSec : Int
deriving DecidableEq, Repr

/-- `gmtime_r`: the civil time of UTC. -/
def gmtime (secs : Int) : Tm :=
  let t := CivilTime.ofSeconds secs
  { tmYear := t.date.year - 1900
    tmMon := t.date.month - 1
    tmMday := t.date.day
    tmHour := t.hour
    tmMin := t.minute
    tmSec := t.second }

namespace DateTime

def kMicroSecondsPerSecond : Int := 1000000

/-- `"%4u-%02u-%02u %02u:%02u:%02u."`. -/
def formatSeconds (year month day hour minute second : Nat) : List UInt8 :=
  field space 4 year ++ bytes "-" ++ field zero 2 month ++ bytes "-" ++
    field zero 2 day ++ bytes " " ++ field zero 2 hour ++ bytes ":" ++
    field zero 2 minute ++ bytes ":" ++ field zero 2 second ++ bytes "."

/-- That format with the arguments that are passed to it. -/
def secondsText (tm : Tm) : List UInt8 :=
  formatSeconds (unsigned (tm.tmYear + 1900)) (unsigned (tm.tmMon + 1))
    (unsigned tm.tmMday) (unsigned (tm.tmHour + 8)) (unsigned tm.tmMin)
    (unsigned tm.tmSec)

def toString (us_since_epoch : DateTime) : List UInt8 :=
  let secs := us_since_epoch.tdiv kMicroSecondsPerSecond
  let us := us_since_epoch.tmod kMicroSecondsPerSecond
  let buf := snprintf (List.replicate 27 0) 27
    (secondsText (gmtime secs) ++ field zero 6 (unsigned us))
  cStr buf

/-- What the text of a civil time is to be. -/
def calendarText (t : CivilTime) (us : Nat) : List UInt8 :=
  formatSeconds t.date.year.toNat t.date.month t.date.day t.hour t.minute
    t.second ++ field zero 6 us

theorem formatSeconds_length {year month day hour minute second : Nat}
    (hyear : year < 10000) (hmonth : month < 100) (hday : day < 100)
    (hhour : hour < 100) (hminute : minute < 100) (hsecond : second < 100) :
    (formatSeconds year month day hour minute second).length = 20 := by
  have htwo {n : Nat} (hn : n < 100) : (field zero 2 n).length = 2 :=
    field_length zero (by decide) hn
  have hfour : (field space 4 year).length = 4 :=
    field_length space (by decide) hyear
  simp only [formatSeconds, List.length_append, hfour, htwo hmonth, htwo hday,
    htwo hhour, htwo hminute, htwo hsecond]
  rfl

theorem zero_not_mem_formatSeconds (year month day hour minute second : Nat) :
    0 ∉ formatSeconds year month day hour minute second := by
  have hzero (n : Nat) : 0 ∉ field zero 2 n :=
    zero_not_mem_field (by decide) 2 n
  have hspace : 0 ∉ field space 4 year := zero_not_mem_field (by decide) 4 year
  simp only [formatSeconds, List.mem_append, hzero, hspace, or_false, false_or]
  decide

theorem zero_not_mem_secondsText (tm : Tm) : 0 ∉ secondsText tm :=
  zero_not_mem_formatSeconds _ _ _ _ _ _

/-- The hour can be read off the text. -/
theorem formatSeconds_hour {year month day hour minute second : Nat}
    {year' month' day' hour' minute' second' : Nat} {us us' : List UInt8}
    (hhour : hour < 100) (hhour' : hour' < 100) (hminute : minute < 100)
    (hminute' : minute' < 100) (hsecond : second < 100) (hsecond' : second' < 100)
    (hus : us.length = us'.length)
    (heq : formatSeconds year month day hour minute second ++ us =
      formatSeconds year' month' day' hour' minute' second' ++ us') :
    hour = hour' := by
  have htwo {n : Nat} (hn : n < 100) : (field zero 2 n).length = 2 :=
    field_length zero (by decide) hn
  have hsplit (y mo d h mi s : Nat) (u : List UInt8) :
      formatSeconds y mo d h mi s ++ u =
        (field space 4 y ++ bytes "-" ++ field zero 2 mo ++ bytes "-" ++
          field zero 2 d ++ bytes " " ++ field zero 2 h) ++
        (bytes ":" ++ field zero 2 mi ++ bytes ":" ++ field zero 2 s ++
          bytes "." ++ u) := by
    simp only [formatSeconds, List.append_assoc]
  rw [hsplit, hsplit] at heq
  have hfront := (List.append_inj' heq (by
    simp only [List.length_append, htwo hminute, htwo hminute', htwo hsecond,
      htwo hsecond', hus])).1
  exact field_injective 2 (List.append_inj' hfront (by
    rw [htwo hhour, htwo hhour'])).2

section Epoch

/-- The arguments that reach `snprintf` from the epoch to the year 9999. -/
theorem secondsText_gmtime {secs : Int} (hepoch : 0 ≤ secs)
    (hyear : (CivilTime.ofSeconds secs).date.year ≤ 9999) :
    let t := CivilTime.ofSeconds secs
    secondsText (gmtime secs) = formatSeconds t.date.year.toNat t.date.month
      t.date.day (t.hour + 8) t.minute t.second := by
  intro t
  have hfirst : 1970 ≤ t.date.year := CivilTime.epoch_year_le hepoch
  have hlast : t.date.year ≤ 9999 := hyear
  have hmonth := t.date.month_le
  have hday := t.date.day_le.trans (daysInMonth_le _ _)
  have hhour := t.hour_lt
  have hminute := t.minute_lt
  have hsecond := t.second_lt
  have hyear' : unsigned (t.date.year - 1900 + 1900) = t.date.year.toNat := by
    unfold unsigned
    omega
  have hmonth' : unsigned ((t.date.month : Int) - 1 + 1) = t.date.month := by
    rw [Int.sub_add_cancel]
    exact unsigned_of_lt (by omega)
  have hhour' : unsigned ((t.hour : Int) + 8) = t.hour + 8 :=
    unsigned_of_lt (n := t.hour + 8) (by omega)
  simp only [secondsText, gmtime]
  rw [hyear', hmonth', hhour', unsigned_of_lt (by omega : t.date.day < 2 ^ 32),
    unsigned_of_lt (by omega : t.minute < 2 ^ 32),
    unsigned_of_lt (by omega : t.second < 2 ^ 32)]

theorem secondsText_length {secs : Int} (hepoch : 0 ≤ secs)
    (hyear : (CivilTime.ofSeconds secs).date.year ≤ 9999) :
    (secondsText (gmtime secs)).length = 20 := by
  have hmonth := (CivilTime.ofSeconds secs).date.month_le
  have hday := (CivilTime.ofSeconds secs).date.day_le.trans (daysInMonth_le _ _)
  have hhour := (CivilTime.ofSeconds secs).hour_lt
  have hminute := (CivilTime.ofSeconds secs).minute_lt
  have hsecond := (CivilTime.ofSeconds secs).second_lt
  rw [secondsText_gmtime hepoch hyear]
  apply formatSeconds_length <;> omega

variable {us : DateTime}

/-- Both parts of the text fit into the buffer. -/
theorem toString_eq (hepoch : 0 ≤ us)
    (hyear : (CivilTime.ofSeconds (us / 1000000)).date.year ≤ 9999) :
    toString us = secondsText (gmtime (us / 1000000)) ++
      field zero 6 (us % 1000000).toNat := by
  have hsecs : us.tdiv kMicroSecondsPerSecond = us / 1000000 :=
    Int.tdiv_eq_ediv_of_nonneg hepoch
  have hus : us.tmod kMicroSecondsPerSecond = us % 1000000 :=
    Int.tmod_eq_emod_of_nonneg hepoch
  have hfraction : unsigned (us % 1000000) = (us % 1000000).toNat := by
    unfold unsigned
    omega
  have hlength : (secondsText (gmtime (us / 1000000)) ++
      field zero 6 (us % 1000000).toNat).length = 26 := by
    rw [List.length_append, secondsText_length
      (Int.ediv_nonneg hepoch (by decide)) hyear, field_length] <;> omega
  simp only [toString, hsecs, hus, hfraction]
  rw [cStr_snprintf (by decide) (by simp), List.take_of_length_le (Nat.le_of_eq hlength)]
  intro hmem
  rcases List.mem_append.mp hmem with hmem | hmem
  · exact zero_not_mem_secondsText _ hmem
  · exact zero_not_mem_field (by decide) _ _ hmem

/-- `ToString` is the text of UTC+8 exactly in the first sixteen hours of a UTC
day. -/
theorem toString_calendar_iff (hepoch : 0 ≤ us)
    (hyear : (CivilTime.ofSeconds (us / 1000000)).date.year ≤ 9999) :
    toString us =
        calendarText (CivilTime.ofSeconds (us / 1000000 + 8 * 3600))
          (us % 1000000).toNat ↔
      us / 1000000 % 86400 < 16 * 3600 := by
  rw [toString_eq hepoch hyear,
    secondsText_gmtime (Int.ediv_nonneg hepoch (by decide)) hyear, calendarText]
  have hhour := CivilTime.hour_ofSeconds_lt_iff (us / 1000000) 16
  generalize us / 1000000 = secs at *
  constructor
  · intro heq
    have ht := (CivilTime.ofSeconds secs).hour_lt
    have hlocal := (CivilTime.ofSeconds (secs + 8 * 3600)).hour_lt
    have hsame : (CivilTime.ofSeconds secs).hour + 8 =
        (CivilTime.ofSeconds (secs + 8 * 3600)).hour :=
      formatSeconds_hour (by omega) (by omega)
        ((CivilTime.minute_lt _).trans (by decide))
        ((CivilTime.minute_lt _).trans (by decide))
        ((CivilTime.second_lt _).trans (by decide))
        ((CivilTime.second_lt _).trans (by decide)) rfl heq
    exact hhour.mp (by omega)
  · intro hearly
    have hlocal := CivilTime.ofSeconds_add_hours (k := 8)
      (Nat.add_lt_add_right (hhour.mpr hearly) 8)
    rw [show secs + 8 * 3600 = secs + 3600 * (8 : Nat) from rfl, hlocal]

/-- The instant that the comment on `ToString` shows. -/
theorem toString_calendar_iff_afternoon :
    toString 1632039625944865 = bytes "2021-09-19 16:20:25.944865" ∧
    toString 1632039625944865 =
      calendarText (CivilTime.ofSeconds (1632039625 + 8 * 3600)) 944865 :=
  ⟨by decide +kernel,
    (toString_calendar_iff (by decide) (by decide +kernel)).mpr (by decide)⟩

/-- New year in UTC+8 is shown as hour 24 of the old one. -/
theorem toString_calendar_iff_midnight :
    toString 1640966400000000 = bytes "2021-12-31 24:00:00.000000" ∧
    calendarText (CivilTime.ofSeconds (1640966400 + 8 * 3600)) 0 =
      bytes "2022-01-01 00:00:00.000000" ∧
    ¬ ∀ us : DateTime, 0 ≤ us →
        (CivilTime.ofSeconds (us / 1000000)).date.year ≤ 9999 →
        toString us =
          calendarText (CivilTime.ofSeconds (us / 1000000 + 8 * 3600))
            (us % 1000000).toNat := by
  refine ⟨by decide +kernel, by decide +kernel, fun h => ?_⟩
  exact absurd (h 1640966400000000 (by decide) (by decide +kernel))
    (by decide +kernel)

end Epoch

end DateTime

end Jerry
