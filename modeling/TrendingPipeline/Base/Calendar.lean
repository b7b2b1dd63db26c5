/- Unit: TrendingPipeline/Base/Calendar
   source: none (Go's time package)
   digest: Instants, the proleptic Gregorian date of an instant, RFC 3339 text. -/

import TrendingPipeline.Base.Decimal

set_option autoImplicit false
set_option relaxedAutoImplicit false

namespace TrendingPipeline.Base.Calendar

open TrendingPipeline.Base.Decimal (append_sep_inj digitsValue isDigit_of_mem_padded joinFields
  mem_yearText padded padded_injective yearText yearText_injective)

/-- An instant: whole seconds since 0001-01-01T00:00:00Z and nanoseconds within
the second. The default value is Go's zero Time. -/
@[ext] structure Time where
  sec : Int64 := 0
  nsec : Nat := 0
  nsec_lt : nsec < 1000000000 := by decide
  deriving DecidableEq

def Time.zero : Time := {}

def Time.isZero (t : Time) : Bool := t.sec = 0 && t.nsec = 0

/-- `t.Add` of a whole number of seconds: a sum out of range is replaced by the
nearest bound. -/
def Time.addSeconds (t : Time) (n : Int) : Time :=
  let sum := t.sec.toInt + n
  { t with
    sec := Int64.ofInt
      (if 2 ^ 63 ≤ sum then 2 ^ 63 - 1 else if sum < -2 ^ 63 then -(2 ^ 63 - 1) else sum) }

/-- Seconds between 0001-01-01 and 1970-01-01. -/
def unixToInternal : Int64 := 62135596800

/-- `time.Unix(seconds, nanos)`: nanoseconds outside a second are carried, and
the sum wraps around. -/
def Time.unix (seconds : Int64) (nanos : Int) : Time where
  sec := seconds + Int64.ofInt (nanos / 1000000000) + unixToInternal
  nsec := (nanos % 1000000000).toNat
  nsec_lt := by omega

/-- A day of a year: `yday` counts from 0. -/
structure YearDay where
  year : Int
  yday : Nat
  leap : Bool
  deriving DecidableEq

/-- The year and day of the year of a day counted from 0001-01-01, by cycles of
400, 100, 4 and 1 years. -/
def yearDay (days : Int) : YearDay :=
  let n400 := days / 146097
  let d := days % 146097
  let n100 := min (d / 36524) 3
  let d := d - 36524 * n100
  let n4 := d / 1461
  let d := d % 1461
  let n1 := min (d / 365) 3
  { year := 1 + 400 * n400 + 100 * n100 + 4 * n4 + n1
    yday := (d - 365 * n1).toNat
    leap := n1 = 3 ∧ (n4 ≠ 24 ∨ n100 = 3) }

def daysBefore : List Nat := [0, 31, 59, 90, 120, 151, 181, 212, 243, 273, 304, 334]

/-- Month and day of the month, both from 1. February 29 is taken out first. -/
def monthDay (leap : Bool) (yday : Nat) : Nat × Nat :=
  if leap ∧ yday = 59 then (2, 29)
  else
    let d := if leap ∧ 59 < yday then yday - 1 else yday
    let before := daysBefore.takeWhile (· ≤ d)
    (before.length, d - before.getLastD 0 + 1)

private theorem yearDay_bounds (days : Int) : (yearDay days).yday < 366 := by
  simp only [yearDay]
  omega

/-- The cycles of a day: counts within their ranges, and the year and the day
they add up to. -/
structure Cycles (days n400 n100 n4 n1 : Int) : Prop where
  centuries : 0 ≤ n100 ∧ n100 ≤ 3
  quads : 0 ≤ n4 ∧ n4 ≤ 24
  years : 0 ≤ n1 ∧ n1 ≤ 3
  year : (yearDay days).year = 1 + 400 * n400 + 100 * n100 + 4 * n4 + n1
  total : days = 146097 * n400 + 36524 * n100 + 1461 * n4 + 365 * n1 + (yearDay days).yday
  leap : (yearDay days).leap = true ↔ n1 = 3 ∧ (n4 ≠ 24 ∨ n100 = 3)
  common : ¬ (n1 = 3 ∧ (n4 ≠ 24 ∨ n100 = 3)) → (yearDay days).yday ≠ 365

private theorem yearDay_cycles (days : Int) : ∃ n400 n100 n4 n1, Cycles days n400 n100 n4 n1 := by
  let d := days % 146097
  let n100 := min (d / 36524) 3
  let e := d - 36524 * n100
  refine ⟨days / 146097, n100, e / 1461, min (e % 1461 / 365) 3, ?_, ?_, ?_, rfl, ?_, ?_, ?_⟩
  all_goals simp only [n100, e, d, yearDay, decide_eq_true_eq]
  all_goals omega

theorem Cycles.unique {m n a b c d a' b' c' d' : Int} (h : Cycles m a b c d)
    (h' : Cycles n a' b' c' d') (hyear : (yearDay m).year = (yearDay n).year) :
    a = a' ∧ b = b' ∧ c = c' ∧ d = d' := by
  have hdigits := h.year.symm.trans (hyear.trans h'.year)
  obtain ⟨hb, hb'⟩ := And.intro h.centuries h'.centuries
  obtain ⟨hc, hc'⟩ := And.intro h.quads h'.quads
  obtain ⟨hd, hd'⟩ := And.intro h.years h'.years
  have ha : a = a' := by omega
  have hbb : b = b' := by omega
  have hcc : c = c' := by omega
  exact ⟨ha, hbb, hcc, by omega⟩

private theorem yearDay_injective {m n : Int} (hyear : (yearDay m).year = (yearDay n).year)
    (hyday : (yearDay m).yday = (yearDay n).yday) : m = n := by
  obtain ⟨a, b, c, d, hm⟩ := yearDay_cycles m
  obtain ⟨a', b', c', d', hn⟩ := yearDay_cycles n
  obtain ⟨rfl, rfl, rfl, rfl⟩ := hm.unique hn hyear
  have hsum := hm.total
  rw [hyday] at hsum
  exact hsum.trans hn.total.symm

private theorem leap_of_year {m n : Int} (hyear : (yearDay m).year = (yearDay n).year) :
    (yearDay m).leap = (yearDay n).leap := by
  obtain ⟨a, b, c, d, hm⟩ := yearDay_cycles m
  obtain ⟨a', b', c', d', hn⟩ := yearDay_cycles n
  obtain ⟨rfl, rfl, rfl, rfl⟩ := hm.unique hn hyear
  exact Bool.eq_iff_iff.mpr (hm.leap.trans hn.leap.symm)

private theorem yday_of_common {days : Int} (h : (yearDay days).leap = false) :
    (yearDay days).yday < 365 := by
  obtain ⟨a, b, c, d, hcycles⟩ := yearDay_cycles days
  have hne := hcycles.common fun hleap => by simp [hcycles.leap.mpr hleap] at h
  have hlt := yearDay_bounds days
  omega

/-- The day of the year a month and a day of it stand for. -/
def yearDayOf (leap : Bool) (month day : Nat) : Nat :=
  daysBefore.getD (month - 1) 0 + (day - 1) + (if leap ∧ 2 < month then 1 else 0)

set_option maxRecDepth 8000 in
private theorem yearDayOf_monthDay_leap : ∀ d < 366,
    yearDayOf true (monthDay true d).1 (monthDay true d).2 = d := by
  decide

set_option maxRecDepth 8000 in
private theorem yearDayOf_monthDay_common : ∀ d < 365,
    yearDayOf false (monthDay false d).1 (monthDay false d).2 = d := by
  decide

private theorem date_injective {m n : Int} (hyear : (yearDay m).year = (yearDay n).year)
    (hdate : monthDay (yearDay m).leap (yearDay m).yday =
      monthDay (yearDay n).leap (yearDay n).yday) : m = n := by
  have hleap := leap_of_year hyear
  refine yearDay_injective hyear ?_
  cases hm : (yearDay m).leap with
  | true =>
      have hn := hleap.symm.trans hm
      rw [hm, hn] at hdate
      rw [← yearDayOf_monthDay_leap _ (yearDay_bounds m), hdate,
        yearDayOf_monthDay_leap _ (yearDay_bounds n)]
  | false =>
      have hn := hleap.symm.trans hm
      rw [hm, hn] at hdate
      rw [← yearDayOf_monthDay_common _ (yday_of_common hm), hdate,
        yearDayOf_monthDay_common _ (yday_of_common hn)]

/-- Seconds between the start of the absolute count, in the year -292277022400,
and 0001-01-01; whole days. -/
def internalToAbsolute : Int := 9223371966606163200

/-- The seconds of the absolute count, which wraps around at 64 bits. -/
def Time.absolute (t : Time) : Int := (t.sec.toInt + internalToAbsolute) % 2 ^ 64

def Time.days (t : Time) : Int := t.absolute / 86400 - internalToAbsolute / 86400
def Time.hour (t : Time) : Nat := (t.absolute % 86400 / 3600).toNat
def Time.minute (t : Time) : Nat := (t.absolute % 3600 / 60).toNat
def Time.second (t : Time) : Nat := (t.absolute % 60).toNat

private theorem Time.absolute_eq (t : Time) :
    t.absolute = 86400 * (t.days + internalToAbsolute / 86400) + 3600 * t.hour +
      60 * t.minute + t.second := by
  simp only [Time.days, Time.hour, Time.minute, Time.second]
  omega

private theorem Time.sec_of_absolute {t t' : Time} (h : t.absolute = t'.absolute) :
    t.sec = t'.sec := by
  have hmin := t.sec.le_toInt
  have hmax := t.sec.toInt_lt
  have hmin' := t'.sec.le_toInt
  have hmax' := t'.sec.toInt_lt
  simp only [Time.absolute, internalToAbsolute] at h
  exact Int64.toInt_inj.mp (by omega)

/-- The date and the hour, up to the first colon. -/
def dateHour (t : Time) : List Char :=
  let date := yearDay t.days
  let md := monthDay date.leap date.yday
  ((yearText date.year ++ '-' :: padded 2 md.1) ++ '-' :: padded 2 md.2) ++ 'T' :: padded 2 t.hour

def secondZone (t : Time) : List Char := padded 2 t.second ++ ['Z']

/-- `t.Format(time.RFC3339)` of an instant in UTC: fractions of a second are not
written. -/
def formatRFC3339 (t : Time) : List Char :=
  joinFields ':' (dateHour t) [padded 2 t.minute, secondZone t]

theorem not_mem_padded {width n : Nat} {c : Char} (hc : c.isDigit = false) :
    c ∉ padded width n := by
  intro h
  rw [isDigit_of_mem_padded h] at hc
  cases hc

theorem colon_not_mem_dateHour (t : Time) : ':' ∉ dateHour t := by
  intro h
  simp only [dateHour, List.mem_append, List.mem_cons] at h
  have hyear : ':' ∉ yearText (yearDay t.days).year := by
    intro hy
    rcases mem_yearText hy with hd | hm
    · cases hd
    · cases hm
  have hpad : ∀ n, ':' ∉ padded 2 n := fun n => not_mem_padded (by decide)
  simp [hyear, hpad] at h

theorem colon_not_mem_secondZone (t : Time) : ':' ∉ secondZone t := by
  have hpad : ':' ∉ padded 2 t.second := not_mem_padded (by decide)
  simp [secondZone, hpad]

private theorem dateHour_injective {t t' : Time} (h : dateHour t = dateHour t') :
    t.days = t'.days ∧ t.hour = t'.hour := by
  have hpad : ∀ (c : Char) (n : Nat), c.isDigit = false → c ∉ padded 2 n :=
    fun c n hc => not_mem_padded hc
  obtain ⟨hdate, hhour⟩ := append_sep_inj (hpad 'T' _ (by decide)) (hpad 'T' _ (by decide)) h
  obtain ⟨hym, hday⟩ := append_sep_inj (hpad '-' _ (by decide)) (hpad '-' _ (by decide)) hdate
  obtain ⟨hyear, hmonth⟩ := append_sep_inj (hpad '-' _ (by decide)) (hpad '-' _ (by decide)) hym
  have hmd := Prod.ext (padded_injective hmonth) (padded_injective hday)
  exact ⟨date_injective (yearText_injective hyear) hmd, padded_injective hhour⟩

theorem sec_of_fields {t t' : Time} (hdate : dateHour t = dateHour t')
    (hmin : padded 2 t.minute = padded 2 t'.minute) (hsec : secondZone t = secondZone t') :
    t.sec = t'.sec := by
  obtain ⟨hdays, hhour⟩ := dateHour_injective hdate
  have hminute := padded_injective hmin
  have hsecond := padded_injective (List.append_cancel_right hsec)
  refine Time.sec_of_absolute ?_
  rw [t.absolute_eq, t'.absolute_eq, hdays, hhour, hminute, hsecond]

theorem formatRFC3339_of_sec {t t' : Time} (h : t.sec = t'.sec) :
    formatRFC3339 t = formatRFC3339 t' := by
  have habsolute : t.absolute = t'.absolute := by
    rw [Time.absolute, h, Time.absolute]
  simp only [formatRFC3339, dateHour, secondZone, Time.days, Time.hour, Time.minute, Time.second,
    habsolute]

/-- Days from 0001-01-01 to a date. -/
def dayNumber (year : Int) (month day : Nat) : Int :=
  let y := year - 1
  let leap : Bool := year % 4 = 0 ∧ (year % 100 ≠ 0 ∨ year % 400 = 0)
  365 * y + y / 4 - y / 100 + y / 400 + yearDayOf leap month day

def daysIn (year : Int) (month : Nat) : Nat :=
  if month = 2 then (if year % 4 = 0 ∧ (year % 100 ≠ 0 ∨ year % 400 = 0) then 29 else 28)
  else if month = 4 ∨ month = 6 ∨ month = 9 ∨ month = 11 then 30
  else 31

/-- Exactly `n` digits at the front. -/
def takeDigits (n : Nat) (cs : List Char) : Option (Nat × List Char) :=
  if cs.length < n then none else (digitsValue (cs.take n)).map fun v => (v, cs.drop n)

/-- Two digits, or one that no digit follows. -/
def takeHour (cs : List Char) : Option (Nat × List Char) :=
  (takeDigits 2 cs).orElse fun _ => takeDigits 1 cs

def expect (c : Char) : List Char → Option (List Char)
  | d :: cs => if d = c then some cs else none
  | [] => none

/-- An optional fraction of a second; digits past the ninth are dropped. -/
def takeFraction (cs : List Char) : Nat × List Char :=
  match cs with
  | p :: d :: cs =>
      if (p = '.' ∨ p = ',') ∧ d.isDigit then
        let digits := (d :: cs).takeWhile Char.isDigit
        let kept := digits.take 9
        (Nat.ofDigitChars 10 kept 0 * 10 ^ (9 - kept.length), (d :: cs).dropWhile Char.isDigit)
      else (0, p :: d :: cs)
  | cs => (0, cs)

/-- The zone, as seconds east of UTC. -/
def takeZone : List Char → Option (Int × List Char)
  | 'Z' :: cs => some (0, cs)
  | sign :: cs => do
      let (h, cs) ← takeDigits 2 cs
      let cs ← expect ':' cs
      let (m, cs) ← takeDigits 2 cs
      if 24 < h ∨ 60 < m then none
      else if sign = '+' then some (3600 * h + 60 * m, cs)
      else if sign = '-' then some (-(3600 * h + 60 * m), cs)
      else none
  | [] => none

/-- `time.Parse(time.RFC3339, s)`; `none` is the error, on which the value is the
zero Time. -/
def parseRFC3339 (s : String) : Option Time := do
  let (year, cs) ← takeDigits 4 s.toList
  let cs ← expect '-' cs
  let (month, cs) ← takeDigits 2 cs
  let cs ← expect '-' cs
  let (day, cs) ← takeDigits 2 cs
  let cs ← expect 'T' cs
  let (hour, cs) ← takeHour cs
  let cs ← expect ':' cs
  let (minute, cs) ← takeDigits 2 cs
  let cs ← expect ':' cs
  let (second, cs) ← takeDigits 2 cs
  let (nsec, cs) := takeFraction cs
  let (offset, cs) ← takeZone cs
  if ¬ cs.isEmpty then none
  else if month < 1 ∨ 12 < month ∨ day < 1 ∨ daysIn year month < day then none
  else if 23 < hour ∨ 59 < minute ∨ 59 < second then none
  else if h : nsec < 1000000000 then
    some
      { sec := Int64.ofInt
          (86400 * dayNumber year month day + 3600 * hour + 60 * minute + second - offset)
        nsec := nsec
        nsec_lt := h }
  else none

end TrendingPipeline.Base.Calendar
