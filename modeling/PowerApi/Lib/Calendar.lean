import Mathlib.Algebra.Group.Int.Defs
import Mathlib.Data.Int.Order.Basic
import Mathlib.Tactic.Common

namespace Calendar

/-- `struct tm`, with the fields that `mktime` reads. -/
structure Tm where
  tm_sec : Int
  tm_min : Int
  tm_hour : Int
  tm_mday : Int
  tm_mon : Int
  tm_year : Int
  tm_isdst : Int
  deriving DecidableEq, Repr

/-- The fields are those of a time of day, and of a date with a month up to the given one. -/
structure Tm.InRange (last : Int) (tm : Tm) : Prop where
  sec : 0 ≤ tm.tm_sec ∧ tm.tm_sec ≤ 60
  min : 0 ≤ tm.tm_min ∧ tm.tm_min ≤ 59
  hour : 0 ≤ tm.tm_hour ∧ tm.tm_hour ≤ 23
  mday : 1 ≤ tm.tm_mday ∧ tm.tm_mday ≤ 31
  mon : 0 ≤ tm.tm_mon ∧ tm.tm_mon ≤ last
  year : -2 ^ 31 ≤ tm.tm_year ∧ tm.tm_year < 2 ^ 31

/-- The local time of some time zone: `localtime_r`, which fails where the year does not fit,
and `mktime`, which fails where the time cannot be represented. -/
structure Zone where
  localtime_r : Int → Option Tm
  mktime : Tm → Option Int
  /-- A time is broken down into a date and a time of day. -/
  inRange : ∀ t tm, localtime_r t = some tm → tm.InRange 11
  /-- The Epoch is the beginning of 1970, within the zone's offset. -/
  epoch : ∀ tm, localtime_r (-1) = some tm → tm.tm_year = 69 ∨ tm.tm_year = 70
  mktime_localtime_r : ∀ t tm, localtime_r t = some tm → mktime tm = some t
  /-- The dates of a year, even with one month too many, lie before those of the next year but one. -/
  mktime_lt : ∀ tm tm' t t', tm.InRange 12 → tm'.InRange 12 → tm.tm_year + 2 ≤ tm'.tm_year →
    mktime tm = some t → mktime tm' = some t' → t < t'
  /-- Only a year at the end of the range may fail to be represented. -/
  mktime_isSome : ∀ tm, tm.InRange 12 → -2 ^ 31 + 2 ≤ tm.tm_year → tm.tm_year < 2 ^ 31 - 2 → (mktime tm).isSome

section Days

/-- The days before a year that begins with March. -/
def days_before (year : Int) : Int := 365 * year + year / 4 - year / 100 + year / 400

/-- The days before a month, counted from March. -/
def days_of_months (month : Int) : Int := (153 * month + 2) / 5

/-- A year that begins with March, and its day, in a cycle of 400 years: centuries, blocks of
four years, and years. The last one of each is longer than the others. -/
def year_of_cycle (day : Int) : Int × Int :=
  let century := min (day / 36524) 3
  let day := day - 36524 * century
  let block := day / 1461
  let day := day - 1461 * block
  let year := min (day / 365) 3
  (100 * century + 4 * block + year, day - 365 * year)

theorem days_before_cycle {century block year : Int} (hc : 0 ≤ century ∧ century ≤ 3) (hb : 0 ≤ block ∧ block ≤ 24)
    (hy : 0 ≤ year ∧ year ≤ 3) :
    days_before (100 * century + 4 * block + year) = 36524 * century + 1461 * block + 365 * year := by
  have hfour : (100 * century + 4 * block + year) / 4 = 25 * century + block := by omega
  have hhundred : (100 * century + 4 * block + year) / 100 = century := by omega
  have hcycle : (100 * century + 4 * block + year) / 400 = 0 := by omega
  rw [days_before, hfour, hhundred, hcycle]
  omega

theorem year_of_cycle_spec {day : Int} (hpos : 0 ≤ day) (hlt : day < 146097) :
    0 ≤ (year_of_cycle day).1 ∧ (year_of_cycle day).1 < 400 ∧ 0 ≤ (year_of_cycle day).2 ∧ (year_of_cycle day).2 ≤ 365 ∧
      days_before (year_of_cycle day).1 + (year_of_cycle day).2 = day := by
  unfold year_of_cycle
  dsimp only
  have hc : 0 ≤ min (day / 36524) 3 ∧ min (day / 36524) 3 ≤ 3 := by omega
  have hcday : 0 ≤ day - 36524 * min (day / 36524) 3 ∧ day - 36524 * min (day / 36524) 3 ≤ 36524 := by omega
  generalize min (day / 36524) 3 = century at hc hcday
  generalize hd : day - 36524 * century = cday at hcday
  have hb : 0 ≤ cday / 1461 ∧ cday / 1461 ≤ 24 := by omega
  have hbday : 0 ≤ cday - 1461 * (cday / 1461) ∧ cday - 1461 * (cday / 1461) ≤ 1460 := by omega
  generalize cday / 1461 = block at hb hbday
  generalize hbd : cday - 1461 * block = bday at hbday
  have hy : 0 ≤ min (bday / 365) 3 ∧ min (bday / 365) 3 ≤ 3 := by omega
  have hyday : 0 ≤ bday - 365 * min (bday / 365) 3 ∧ bday - 365 * min (bday / 365) 3 ≤ 365 := by omega
  generalize min (bday / 365) 3 = year at hy hyday
  rw [days_before_cycle hc hb hy]
  omega

/-- A cycle of 400 years has 146097 days. -/
theorem days_before_add_cycles (era year : Int) :
    days_before (400 * era + year) = 146097 * era + days_before year := by
  have hfour : (400 * era + year) / 4 = 100 * era + year / 4 := by omega
  have hhundred : (400 * era + year) / 100 = 4 * era + year / 100 := by omega
  have hcycle : (400 * era + year) / 400 = era + year / 400 := by omega
  rw [days_before, days_before, hfour, hhundred, hcycle]
  omega

/-- A year has at least 365 days. -/
theorem days_before_le {year later : Int} (h : year ≤ later) :
    days_before year + 365 * (later - year) ≤ days_before later := by
  have hleap (y : Int) : y / 4 - y / 100 = 24 * (y / 100) + y % 100 / 4 := by omega
  have hmono : year / 4 - year / 100 ≤ later / 4 - later / 100 := by
    rw [hleap, hleap]
    rcases (show year / 100 < later / 100 ∨ year / 100 = later / 100 by omega) with hlt | heq
    · omega
    · omega
  have hcycle : year / 400 ≤ later / 400 := by omega
  rw [days_before, days_before]
  omega

end Days

section Utc

/-- The months since March of the year 0, of a month since January 1900. -/
def months_of (tm : Tm) : Int := 12 * tm.tm_year + tm.tm_mon + 22798

/-- The day since the Epoch. -/
def day_of (tm : Tm) : Int :=
  days_before (months_of tm / 12) + days_of_months (months_of tm % 12) + (tm.tm_mday - 1) - 719468

/-- `mktime` in UTC. -/
def timegm (tm : Tm) : Int := 86400 * day_of tm + 3600 * tm.tm_hour + 60 * tm.tm_min + tm.tm_sec

/-- `localtime_r` in UTC. -/
def gmtime (t : Int) : Tm :=
  let day := t / 86400 + 719468
  match year_of_cycle (day % 146097) with
  | (year, rest) =>
    let month := (5 * rest + 2) / 153
    let months := 12 * (400 * (day / 146097) + year) + month - 22798
    { tm_sec := t % 60
      tm_min := t % 3600 / 60
      tm_hour := t % 86400 / 3600
      tm_mday := rest - days_of_months month + 1
      tm_mon := months % 12
      tm_year := months / 12
      tm_isdst := 0 }

/-- The month of a day of a year that begins with March. -/
theorem month_of_day {rest : Int} (hpos : 0 ≤ rest) (hle : rest ≤ 365) :
    0 ≤ (5 * rest + 2) / 153 ∧ (5 * rest + 2) / 153 ≤ 11 ∧ 0 ≤ rest - days_of_months ((5 * rest + 2) / 153) ∧
      rest - days_of_months ((5 * rest + 2) / 153) ≤ 30 := by
  unfold days_of_months
  omega

theorem timegm_gmtime (t : Int) : timegm (gmtime t) = t := by
  obtain ⟨_, _, hrest, hle, hday⟩ :=
    @year_of_cycle_spec ((t / 86400 + 719468) % 146097) (by omega) (by omega)
  unfold gmtime timegm day_of months_of
  dsimp only
  generalize year_of_cycle ((t / 86400 + 719468) % 146097) = cycle at hrest hle hday ⊢
  obtain ⟨year, rest⟩ := cycle
  dsimp only at hrest hle hday ⊢
  obtain ⟨hmonth, hlast, _, _⟩ := month_of_day hrest hle
  generalize (5 * rest + 2) / 153 = month at hmonth hlast
  have hcycles := days_before_add_cycles ((t / 86400 + 719468) / 146097) year
  generalize 400 * ((t / 86400 + 719468) / 146097) + year = years at hcycles
  have hmonths : 12 * ((12 * years + month - 22798) / 12) + (12 * years + month - 22798) % 12 + 22798 =
      12 * years + month := by omega
  rw [hmonths]
  have hyears : (12 * years + month) / 12 = years := by omega
  have hmonth' : (12 * years + month) % 12 = month := by omega
  rw [hyears, hmonth', hcycles]
  omega

/-- The fields are in range, where the year fits. -/
theorem gmtime_inRange {t : Int} (hyear : -2 ^ 31 ≤ (gmtime t).tm_year ∧ (gmtime t).tm_year < 2 ^ 31) :
    (gmtime t).InRange 11 := by
  obtain ⟨_, _, hrest, hle, _⟩ := @year_of_cycle_spec ((t / 86400 + 719468) % 146097) (by omega) (by omega)
  obtain ⟨_, _, hmday, hmday'⟩ := month_of_day hrest hle
  refine ⟨?_, ?_, ?_, ?_, ?_, hyear⟩
  all_goals
    unfold gmtime
    dsimp only
    omega

/-- The days of a year lie close to its beginning. -/
theorem day_of_bounds {tm : Tm} (h : tm.InRange 12) :
    days_before (tm.tm_year + 1899) + 306 - 719468 ≤ day_of tm ∧
      day_of tm ≤ days_before (tm.tm_year + 1900) + 336 - 719468 := by
  obtain ⟨_, _, _, hmday, hmon, _⟩ := h
  have hstep := days_before_le (show tm.tm_year + 1899 ≤ tm.tm_year + 1900 by omega)
  have hmonths : months_of tm = 12 * (tm.tm_year + 1899) + (tm.tm_mon + 10) := by
    rw [months_of]
    omega
  rw [day_of, hmonths]
  by_cases hearly : tm.tm_mon ≤ 1
  · have hyear : (12 * (tm.tm_year + 1899) + (tm.tm_mon + 10)) / 12 = tm.tm_year + 1899 := by omega
    have hmonth : (12 * (tm.tm_year + 1899) + (tm.tm_mon + 10)) % 12 = tm.tm_mon + 10 := by omega
    rw [hyear, hmonth, days_of_months]
    omega
  · have hyear : (12 * (tm.tm_year + 1899) + (tm.tm_mon + 10)) / 12 = tm.tm_year + 1900 := by omega
    have hmonth : (12 * (tm.tm_year + 1899) + (tm.tm_mon + 10)) % 12 = tm.tm_mon - 2 := by omega
    rw [hyear, hmonth, days_of_months]
    omega

theorem timegm_lt {tm tm' : Tm} (h : tm.InRange 12) (h' : tm'.InRange 12) (hyears : tm.tm_year + 2 ≤ tm'.tm_year) :
    timegm tm < timegm tm' := by
  have hstep := days_before_le (show tm.tm_year + 1900 ≤ tm'.tm_year + 1899 by omega)
  have hday : day_of tm + 2 ≤ day_of tm' := by
    have hle := (day_of_bounds h).2
    have hge := (day_of_bounds h').1
    omega
  obtain ⟨hsec, hmin, hhour, _⟩ := h
  obtain ⟨hsec', hmin', hhour', _⟩ := h'
  rw [timegm, timegm]
  omega

/-- Universal time. -/
def utc : Zone where
  localtime_r t := if -2 ^ 31 ≤ (gmtime t).tm_year ∧ (gmtime t).tm_year < 2 ^ 31 then some (gmtime t) else none
  mktime tm :=
    if -2 ^ 31 ≤ tm.tm_year + tm.tm_mon / 12 ∧ tm.tm_year + tm.tm_mon / 12 < 2 ^ 31 then some (timegm tm) else none
  inRange t tm h := by
    split_ifs at h with hyear
    obtain rfl := Option.some.inj h
    exact gmtime_inRange hyear
  epoch tm h := by
    split_ifs at h with hyear
    obtain rfl := Option.some.inj h
    exact Or.inl (by decide)
  mktime_localtime_r t tm h := by
    split_ifs at h with hyear
    obtain rfl := Option.some.inj h
    have hmon := (gmtime_inRange hyear).mon
    rw [timegm_gmtime, if_pos (by omega)]
  mktime_lt tm tm' t t' hrange hrange' hyears ht ht' := by
    split_ifs at ht ht' with hyear hyear'
    obtain rfl := Option.some.inj ht
    obtain rfl := Option.some.inj ht'
    exact timegm_lt hrange hrange' hyears
  mktime_isSome tm hrange hlow hhigh := by
    have hmon := hrange.mon
    rw [if_pos (by omega)]
    rfl

end Utc

end Calendar
