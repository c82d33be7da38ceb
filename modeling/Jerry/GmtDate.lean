/-
`DateTime::ToGmtString`, which the `Date` header of every response is from: until
the year 9999 its text just fits into the buffer, and it tells every two seconds
apart.
-/
import Jerry.DateTime
import Jerry.HttpGrammar

namespace Jerry

open Calendar CString Printf HttpReqDecoder

namespace DateTime

def dayNames : List (List UInt8) :=
  ["Sun", "Mon", "Tue", "Wed", "Thu", "Fri", "Sat"].map bytes

def monthNames : List (List UInt8) :=
  ["Jan", "Feb", "Mar", "Apr", "May", "Jun", "Jul", "Aug", "Sep", "Oct", "Nov",
    "Dec"].map bytes

/-- `tm_wday` of `gmtime`: the epoch is a Thursday. -/
def gmtimeWday (secs : Int) : Int :=
  (secs / 86400 + 4) % 7

/-- `"%a, %d %b %Y %T GMT"` in the C locale. -/
def gmtFormat (tm : Tm) (tmWday : Int) : List UInt8 :=
  dayNames.getD tmWday.toNat [] ++ bytes ", " ++ field zero 2 tm.tmMday.toNat ++
    bytes " " ++ monthNames.getD tm.tmMon.toNat [] ++ bytes " " ++
    toDecimal (tm.tmYear + 1900).toNat ++ bytes " " ++
    field zero 2 tm.tmHour.toNat ++ bytes ":" ++ field zero 2 tm.tmMin.toNat ++
    bytes ":" ++ field zero 2 tm.tmSec.toNat ++ bytes " GMT"

/-- What `strftime` leaves in memory, if the text and the NUL fit. -/
def strftime (memory : List UInt8) (size : Nat) (text : List UInt8) :
    Option (List UInt8) :=
  if text.length < size then some (Window.overwrite memory 0 (text ++ [0]))
  else none

/-- `none` where C leaves the buffer unspecified. -/
def toGmtString (us_since_epoch : DateTime) : Option (List UInt8) :=
  let secs := us_since_epoch.tdiv kMicroSecondsPerSecond
  let buf := strftime (List.replicate 30 0) 30 (gmtFormat (gmtime secs)
    (gmtimeWday secs))
  buf.map cStr

/-- The day of the week, which goes on with every day. -/
def weekday : Nat → Nat
  | 0 => 4
  | n + 1 => (weekday n + 1) % 7

/-- What the text of a civil time is to be. -/
def gmtText (t : CivilTime) : List UInt8 :=
  dayNames.getD (weekday t.date.dayNumber.toNat) [] ++ bytes ", " ++
    field zero 2 t.date.day ++ bytes " " ++ monthNames.getD (t.date.month - 1) [] ++
    bytes " " ++ toDecimal t.date.year.toNat ++ bytes " " ++ field zero 2 t.hour ++
    bytes ":" ++ field zero 2 t.minute ++ bytes ":" ++ field zero 2 t.second ++
    bytes " GMT"

section Names

theorem weekday_eq (n : Nat) : weekday n = (n + 4) % 7 := by
  induction n with
  | zero => rfl
  | succ n ih =>
      rw [weekday, ih]
      omega

/-- No control characters. -/
def Printable (text : List UInt8) : Prop :=
  ∀ c ∈ text, 32 ≤ c

instance (text : List UInt8) : Decidable (Printable text) :=
  List.decidableBAll _ _

theorem Printable.clean {text : List UInt8} (h : Printable text) :
    0 ∉ text ∧ Clean text := by
  refine ⟨fun hzero => absurd (h 0 hzero) (by decide), fun c hc => ⟨?_, ?_⟩⟩
  · rintro rfl
    exact absurd (h cr hc) (by decide)
  · rintro rfl
    exact absurd (h lf hc) (by decide)

theorem toDecimal_printable (n : Nat) : Printable (toDecimal n) := by
  intro c hc
  have hrange := toDecimal_digit hc
  rw [UInt8.le_iff_toNat_le]
  exact le_trans (by decide) hrange.1

theorem field_printable (width n : Nat) : Printable (field zero width n) := by
  intro c hc
  rcases List.mem_append.mp hc with hpad | hdigit
  · rw [List.eq_of_mem_replicate hpad]
    decide
  · exact toDecimal_printable n c hdigit

theorem dayNames_spec : ∀ i < 7, (dayNames.getD i []).length = 3 ∧
    Printable (dayNames.getD i []) := by
  decide +kernel

theorem monthNames_spec : ∀ i < 12, (monthNames.getD i []).length = 3 ∧
    Printable (monthNames.getD i []) := by
  decide +kernel

theorem monthNames_injective : ∀ i < 12, ∀ j < 12,
    monthNames.getD i [] = monthNames.getD j [] → i = j := by
  decide +kernel

end Names

section Text

variable (t : CivilTime)

theorem weekday_lt (n : Nat) : weekday n < 7 := by
  rw [weekday_eq]
  exact Nat.mod_lt _ (by decide)

theorem month_lt : t.date.month - 1 < 12 := by
  have hmonth := t.date.month_le
  have hpos := t.date.month_pos
  omega

theorem gmtText_printable : Printable (gmtText t) := by
  have hday := (dayNames_spec _ (weekday_lt t.date.dayNumber.toNat)).2
  have hmonth := (monthNames_spec _ (month_lt t)).2
  have htwo (n : Nat) := field_printable 2 n
  have hyear := toDecimal_printable t.date.year.toNat
  have happend {xs ys : List UInt8} (hxs : Printable xs) (hys : Printable ys) :
      Printable (xs ++ ys) :=
    List.forall_mem_append.mpr ⟨hxs, hys⟩
  have hcomma : Printable (bytes ", ") := by decide
  have hspace : Printable (bytes " ") := by decide
  have hcolon : Printable (bytes ":") := by decide
  have hgmt : Printable (bytes " GMT") := by decide
  rw [gmtText]
  exact happend (happend (happend (happend (happend (happend (happend (happend
    (happend (happend (happend (happend (happend hday hcomma) (htwo _)) hspace)
      hmonth) hspace) hyear) hspace) (htwo _)) hcolon) (htwo _)) hcolon) (htwo _))
    hgmt

theorem toDecimal_length {k n : Nat} (hk : 0 < k) (hfrom : 10 ^ k ≤ n)
    (hto : n < 10 ^ (k + 1)) : (toDecimal n).length = k + 1 := by
  apply Nat.le_antisymm (toDecimal_length_le (Nat.succ_pos k) hto)
  rw [toDecimal, List.length_map]
  apply Nat.lt_of_not_le
  intro hshort
  exact Nat.not_le.mpr ((Nat.length_toDigits_le_iff (by decide) hk).mp hshort) hfrom

/-- The lengths of the parts. -/
structure Widths (t : CivilTime) : Prop where
  weekday : (dayNames.getD (weekday t.date.dayNumber.toNat) []).length = 3
  day : (field zero 2 t.date.day).length = 2
  month : (monthNames.getD (t.date.month - 1) []).length = 3
  year : (toDecimal t.date.year.toNat).length = 4
  hour : (field zero 2 t.hour).length = 2
  minute : (field zero 2 t.minute).length = 2
  second : (field zero 2 t.second).length = 2

variable {t} in
theorem widths (hfrom : 1000 ≤ t.date.year) (hto : t.date.year ≤ 9999) :
    Widths t := by
  have hday := t.date.day_le.trans (daysInMonth_le _ _)
  have hhour := t.hour_lt
  have hminute := t.minute_lt
  have hsecond := t.second_lt
  have htwo {n : Nat} (hn : n < 100) : (field zero 2 n).length = 2 :=
    field_length zero (by decide) hn
  exact
    { weekday := (dayNames_spec _ (weekday_lt _)).1
      day := htwo (by omega)
      month := (monthNames_spec _ (month_lt t)).1
      year := toDecimal_length (k := 3) (by decide) (by omega) (by omega)
      hour := htwo (by omega)
      minute := htwo (by omega)
      second := htwo (by omega) }

variable {t} in
theorem Widths.length (h : Widths t) : (gmtText t).length = 29 := by
  simp only [gmtText, List.length_append, h.weekday, h.day, h.month, h.year, h.hour,
    h.minute, h.second]
  rfl

theorem date_eq {d e : Date} (hyear : d.year = e.year) (hmonth : d.month = e.month)
    (hday : d.day = e.day) : d = e := by
  apply Date.dayNumber_injective
  rw [Date.dayNumber, Date.dayNumber, Date.yearDay, Date.yearDay, hyear, hmonth, hday]

variable {t} in
/-- From the end to the beginning, every part can be read off. -/
theorem gmtText_inj {u : CivilTime} (ht : Widths t) (hu : Widths u)
    (hyear : 0 ≤ t.date.year) (hyear' : 0 ≤ u.date.year)
    (heq : gmtText t = gmtText u) : t = u := by
  rw [gmtText, gmtText] at heq
  have drop {xs ys zs : List UInt8} (h : xs ++ zs = ys ++ zs) : xs = ys :=
    List.append_cancel_right h
  obtain ⟨heq, hsecond⟩ := List.append_inj' (drop heq)
    (ht.second.trans hu.second.symm)
  obtain ⟨heq, hminute⟩ := List.append_inj' (drop heq)
    (ht.minute.trans hu.minute.symm)
  obtain ⟨heq, hhour⟩ := List.append_inj' (drop heq) (ht.hour.trans hu.hour.symm)
  obtain ⟨heq, hyears⟩ := List.append_inj' (drop heq) (ht.year.trans hu.year.symm)
  obtain ⟨heq, hmonths⟩ := List.append_inj' (drop heq)
    (ht.month.trans hu.month.symm)
  obtain ⟨-, hdays⟩ := List.append_inj' (drop heq) (ht.day.trans hu.day.symm)
  have hday : t.date.day = u.date.day := field_injective 2 hdays
  have hmonth : t.date.month = u.date.month := by
    have hsame := monthNames_injective _ (month_lt t) _ (month_lt u) hmonths
    have hpos := t.date.month_pos
    have hpos' := u.date.month_pos
    omega
  have hyear : t.date.year = u.date.year := by
    have hsame := congrArg value hyears
    rw [value_toDecimal, value_toDecimal] at hsame
    omega
  apply CivilTime.toSeconds_injective
  have hdate : t.date = u.date := date_eq hyear hmonth hday
  rw [CivilTime.toSeconds, CivilTime.toSeconds, hdate, field_injective 2 hhour,
    field_injective 2 hminute, field_injective 2 hsecond]

end Text

section Epoch

/-- The arguments that reach `strftime` from the epoch on. -/
theorem gmtFormat_gmtime {secs : Int} (hepoch : 0 ≤ secs) :
    gmtFormat (gmtime secs) (gmtimeWday secs) = gmtText (CivilTime.ofSeconds secs) := by
  have hpos := (CivilTime.ofSeconds secs).date.month_pos
  have hmonth : (((CivilTime.ofSeconds secs).date.month : Int) - 1).toNat =
      (CivilTime.ofSeconds secs).date.month - 1 := by
    omega
  have hweekday : (gmtimeWday secs).toNat =
      weekday (CivilTime.ofSeconds secs).date.dayNumber.toNat := by
    have hday : (CivilTime.ofSeconds secs).date.dayNumber = secs / 86400 :=
      Date.dayNumber_ofDay _
    rw [hday, weekday_eq, gmtimeWday]
    omega
  simp only [gmtFormat, gmtime, hweekday, hmonth, Int.sub_add_cancel, Int.toNat_natCast]
  rfl

/-- From the epoch to the year 9999, the text is the civil time of UTC, fills the
buffer up to the NUL and is printable. -/
theorem toGmtString_eq {us : DateTime} (hepoch : 0 ≤ us)
    (hyear : (CivilTime.ofSeconds (us / 1000000)).date.year ≤ 9999) :
    toGmtString us = some (gmtText (CivilTime.ofSeconds (us / 1000000))) := by
  have hsecs : us.tdiv kMicroSecondsPerSecond = us / 1000000 :=
    Int.tdiv_eq_ediv_of_nonneg hepoch
  have hsecs' : 0 ≤ us / 1000000 := Int.ediv_nonneg hepoch (by decide)
  have hfirst : 1970 ≤ (CivilTime.ofSeconds (us / 1000000)).date.year :=
    CivilTime.epoch_year_le hsecs'
  have hlength := (widths (by omega) hyear).length
  have hzero := (gmtText_printable (CivilTime.ofSeconds (us / 1000000))).clean.1
  simp only [toGmtString, hsecs, gmtFormat_gmtime hsecs', strftime]
  rw [if_pos (by rw [hlength]; decide), Option.map_some,
    Window.overwrite_eq (by simp [hlength]), List.take_zero, List.nil_append, List.append_assoc]
  exact congrArg some (cStr_of_not_mem hzero _)

/-- Until the year 9999 an instant has a date of 29 printable characters, which
tells it from the instants of all other seconds. -/
theorem toGmtString_spec {us us' : DateTime} (hepoch : 0 ≤ us)
    (hyear : (CivilTime.ofSeconds (us / 1000000)).date.year ≤ 9999)
    (hepoch' : 0 ≤ us')
    (hyear' : (CivilTime.ofSeconds (us' / 1000000)).date.year ≤ 9999) :
    (∃ text, toGmtString us = some text ∧
      text = gmtText (CivilTime.ofSeconds (us / 1000000)) ∧ text.length = 29 ∧
      Printable text) ∧
    (toGmtString us = toGmtString us' ↔ us / 1000000 = us' / 1000000) := by
  have hfirst {us : DateTime} (h : 0 ≤ us) :
      1970 ≤ (CivilTime.ofSeconds (us / 1000000)).date.year :=
    CivilTime.epoch_year_le (Int.ediv_nonneg h (by decide))
  have hyear₀ := hfirst hepoch
  have hyear₀' := hfirst hepoch'
  have hwidths := widths (t := CivilTime.ofSeconds (us / 1000000)) (by omega) hyear
  have hwidths' := widths (t := CivilTime.ofSeconds (us' / 1000000)) (by omega) hyear'
  rw [toGmtString_eq hepoch hyear, toGmtString_eq hepoch' hyear', Option.some_inj]
  refine ⟨⟨_, rfl, rfl, hwidths.length, gmtText_printable _⟩, fun heq => ?_, ?_⟩
  · have hsame := gmtText_inj hwidths hwidths' (by omega) (by omega) heq
    have hseconds := congrArg CivilTime.toSeconds hsame
    rwa [CivilTime.toSeconds_ofSeconds, CivilTime.toSeconds_ofSeconds] at hseconds
  · intro heq
    rw [heq]

/-- The last second of a leap day, and the first one behind it. -/
theorem toGmtString_spec_leapDay :
    toGmtString 1709251199000000 = some (bytes "Thu, 29 Feb 2024 23:59:59 GMT") ∧
    toGmtString 1709251200000000 = some (bytes "Fri, 01 Mar 2024 00:00:00 GMT") ∧
    toGmtString 1709251199000000 ≠ toGmtString 1709251200000000 := by
  refine ⟨by decide +kernel, by decide +kernel, fun heq => ?_⟩
  have hsame := (toGmtString_spec (by decide) (by decide +kernel) (by decide)
    (by decide +kernel)).2.mp heq
  exact absurd hsame (by decide)

end Epoch

end DateTime

end Jerry
