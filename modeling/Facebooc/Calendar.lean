import Mathlib.Algebra.Ring.Int.Defs

set_option autoImplicit false

namespace Calendar

-- The proleptic Gregorian calendar. Years run through all integers, months
-- from 1 to 12.
structure Date where
  year : Int
  month : Int
  day : Int
deriving DecidableEq, Repr

structure Clock where
  hour : Int
  minute : Int
  second : Int
deriving DecidableEq, Repr

def Leap (year : Int) : Prop := year % 4 = 0 ∧ (year % 100 ≠ 0 ∨ year % 400 = 0)

instance (year : Int) : Decidable (Leap year) := inferInstanceAs (Decidable (_ ∧ _))

def monthLength (year month : Int) : Int :=
  if month = 2 then if Leap year then 29 else 28
  else if month = 4 ∨ month = 6 ∨ month = 9 ∨ month = 11 then 30
  else 31

structure ValidDate (date : Date) : Prop where
  month : 1 ≤ date.month ∧ date.month ≤ 12
  day : 1 ≤ date.day ∧ date.day ≤ monthLength date.year date.month

structure ValidClock (clock : Clock) : Prop where
  hour : 0 ≤ clock.hour ∧ clock.hour < 24
  minute : 0 ≤ clock.minute ∧ clock.minute < 60
  second : 0 ≤ clock.second ∧ clock.second < 60

-- The days from the first of January of year 1 to that of a year, and from
-- there to the first of a month.
def yearDays (year : Int) : Int := 365 * (year - 1) + (year - 1) / 4 - (year - 1) / 100 + (year - 1) / 400

def monthDays (year month : Int) : Int := ((List.range (month - 1).toNat).map fun k : Nat => monthLength year (k + 1)).sum

-- Days are counted from the first of January 1970, a Thursday; weekdays from
-- Sunday.
def dayNumber (date : Date) : Int := yearDays date.year + monthDays date.year date.month + (date.day - 1) - 719162

def weekday (days : Int) : Int := (days + 4) % 7

def instant (date : Date) (clock : Clock) : Int :=
  86400 * dayNumber date + 3600 * clock.hour + 60 * clock.minute + clock.second

-- The date of a day of a year that begins in March.
def marchDate (year day : Int) : Date :=
  let month := (5 * day + 2) / 153
  ⟨year + (if month < 10 then 0 else 1), if month < 10 then month + 3 else month - 9, day - (153 * month + 2) / 5 + 1⟩

-- The date of a day number, by eras of 400 years.
def dateOf (days : Int) : Date :=
  let era := (days + 719468) / 146097
  let dayOfEra := (days + 719468) % 146097
  let yearOfEra := (dayOfEra - dayOfEra / 1460 + dayOfEra / 36524 - dayOfEra / 146096) / 365
  marchDate (yearOfEra + era * 400) (dayOfEra - (365 * yearOfEra + yearOfEra / 4 - yearOfEra / 100))

def clockOf (seconds : Int) : Clock := ⟨seconds / 3600, seconds / 60 % 60, seconds % 60⟩

theorem clock_of_valid (seconds : Int) (inside : 0 ≤ seconds ∧ seconds < 86400) : ValidClock (clockOf seconds) := by
  refine ⟨?_, ?_, ?_⟩ <;> simp only [clockOf] <;> omega

theorem clock_of_seconds (seconds : Int) :
    3600 * (clockOf seconds).hour + 60 * (clockOf seconds).minute + (clockOf seconds).second = seconds := by
  simp only [clockOf]
  omega

theorem year_days_next (year : Int) : yearDays (year + 1) = yearDays year + (if Leap year then 366 else 365) := by
  have leap : (if Leap year then (366 : Int) else 365) =
    if year % 4 = 0 ∧ (year % 100 ≠ 0 ∨ year % 400 = 0) then 366 else 365 := rfl
  rw [leap, yearDays, yearDays]
  split <;> omega

theorem march_first (year : Int) :
    yearDays year + monthDays year 3 = 365 * year + year / 4 - year / 100 + year / 400 - 306 := by
  have months : monthDays year 3 = 31 + ((if Leap year then 29 else 28) + 0) := rfl
  have leap : (if Leap year then (29 : Int) else 28) = if year % 4 = 0 ∧ (year % 100 ≠ 0 ∨ year % 400 = 0) then 29 else 28 := rfl
  rw [months, leap, yearDays]
  split <;> omega

theorem month_days_next (year month : Int) (inside : 1 ≤ month) :
    monthDays year (month + 1) = monthDays year month + monthLength year month := by
  obtain ⟨before, count⟩ : ∃ before : Nat, (month - 1).toNat = before ∧ month = before + 1 := ⟨_, rfl, by omega⟩
  have next : (month + 1 - 1).toNat = before + 1 := by omega
  rw [monthDays, monthDays, next, count.1, List.range_succ, List.map_append, List.sum_append, List.map_singleton,
    List.sum_singleton, ← count.2]

theorem month_length_bound (year month : Int) : monthLength year month ≤ 31 := by
  rw [monthLength]
  split
  · split <;> omega
  · split <;> omega

theorem month_days_bounds (year : Int) (count : Nat) :
    0 ≤ monthDays year (count + 1) ∧ monthDays year (count + 1) ≤ 31 * count := by
  induction count with
  | zero => exact ⟨Int.le_refl 0, Int.le_refl 0⟩
  | succ count ih =>
      have next := month_days_next year (count + 1) (by omega)
      have length := month_length_bound year (count + 1)
      have positive : 0 ≤ monthLength year (count + 1) := by
        rw [monthLength]
        split
        · split <;> decide
        · split <;> decide
      rw [Int.natCast_succ, next]
      omega

-- From March to December the lengths of the months follow a line, and so do
-- their first days.
theorem month_from_march (year month : Int) (inside : 0 ≤ month ∧ month < 10) :
    monthLength year (month + 3) = (153 * (month + 1) + 2) / 5 - (153 * month + 2) / 5 := by
  have each : month = 0 ∨ month = 1 ∨ month = 2 ∨ month = 3 ∨ month = 4 ∨ month = 5 ∨ month = 6 ∨ month = 7 ∨
    month = 8 ∨ month = 9 := by
    omega
  rcases each with same | same | same | same | same | same | same | same | same | same <;> subst same <;> rfl

theorem month_days_march (year : Int) (month : Nat) (inside : month ≤ 10) :
    monthDays year (month + 3) = monthDays year 3 + (153 * (month : Int) + 2) / 5 := by
  induction month with
  | zero => exact (Int.add_zero _).symm
  | succ month ih =>
      have next := month_days_next year (month + 3) (by omega)
      have before := ih (by omega)
      have length := month_from_march year month (by omega)
      have shift : ((month + 1 : Nat) : Int) + 3 = month + 3 + 1 := by omega
      rw [shift, next, before, length]
      omega

-- Day d of an era lies in century c, cycle q of four years, year z of it, and
-- is day w of a year that begins in March.
structure EraDay (d c q z w : Int) : Prop where
  century : 0 ≤ c ∧ c ≤ 3
  cycle : 0 ≤ q ∧ q ≤ 24
  year : 0 ≤ z ∧ z ≤ 3
  low : 0 ≤ w
  high : w ≤ 364 ∨ w = 365 ∧ z = 3 ∧ (q ≤ 23 ∨ c = 3)
  day : d = 36524 * c + 1461 * q + 365 * z + w

theorem era_day (d : Int) (inside : 0 ≤ d ∧ d < 146097) : ∃ c q z w, EraDay d c q z w := by
  by_cases whole : d / 36524 ≤ 3
  · by_cases plain : d % 36524 % 1461 / 365 ≤ 3
    · exact ⟨d / 36524, d % 36524 / 1461, d % 36524 % 1461 / 365, d % 36524 % 1461 % 365, by omega, by omega, by omega, by omega,
        by omega, by omega⟩
    · exact ⟨d / 36524, d % 36524 / 1461, 3, 365, by omega, by omega, by omega, by omega, by omega, by omega⟩
  · exact ⟨3, 24, 3, 365, by omega, by omega, by omega, by omega, by omega, by omega⟩

theorem year_of_era (d c q z w : Int) (at_day : EraDay d c q z w) :
    (d - d / 1460 + d / 36524 - d / 146096) / 365 = 100 * c + 4 * q + z := by
  obtain ⟨century, cycle, year, low, high, day⟩ := at_day
  by_cases last : d = 146096
  · rw [last]
    omega
  · have centuries : d / 36524 = c := by omega
    have eras : d / 146096 = 0 := by omega
    rw [centuries, eras]
    by_cases early : 24 * c + q + 365 * z + w < 1460
    · have cycles : d / 1460 = 25 * c + q := by omega
      rw [cycles]
      omega
    · have cycles : d / 1460 = 25 * c + q + 1 := by omega
      rw [cycles]
      omega

theorem march_date_early (year day : Int) (early : 0 ≤ day ∧ day < 306) :
    ValidDate (marchDate year day) ∧
      dayNumber (marchDate year day) = yearDays year + monthDays year 3 + day - 719162 := by
  obtain ⟨month, count⟩ : ∃ month : Nat, (5 * day + 2) / 153 = month := ⟨((5 * day + 2) / 153).toNat, by omega⟩
  have date : marchDate year day = ⟨year + 0, month + 3, day - (153 * month + 2) / 5 + 1⟩ := by
    rw [marchDate, count, if_pos (by omega), if_pos (by omega)]
  have length := month_from_march year month (by omega)
  have first := month_days_march year month (by omega)
  rw [date, Int.add_zero]
  refine ⟨⟨by simp only; omega, ?_⟩, ?_⟩
  · simp only [length]
    omega
  · simp only [dayNumber, first]
    omega

-- A year and two months behind the first of January are 306 days behind March.
theorem january_first (year : Int) : yearDays (year + 1) = yearDays year + monthDays year 3 + 306 := by
  have next := year_days_next year
  have march : monthDays year 3 = 31 + ((if Leap year then 29 else 28) + 0) := rfl
  rw [next, march]
  split <;> omega

theorem march_date_late (year day : Int) (late : 306 ≤ day ∧ (day ≤ 364 ∨ day = 365 ∧ Leap (year + 1))) :
    ValidDate (marchDate year day) ∧
      dayNumber (marchDate year day) = yearDays year + monthDays year 3 + day - 719162 := by
  have first := january_first year
  have month : (5 * day + 2) / 153 = 10 ∨ (5 * day + 2) / 153 = 11 := by omega
  rcases month with january | february
  · have date : marchDate year day = ⟨year + 1, 1, day - 306 + 1⟩ := by
      rw [marchDate, january]
      rfl
    have length : monthLength (year + 1) 1 = 31 := rfl
    have days : monthDays (year + 1) 1 = 0 := rfl
    rw [date]
    refine ⟨⟨by simp only; omega, by simp only [length]; omega⟩, ?_⟩
    simp only [dayNumber, days]
    omega
  · have date : marchDate year day = ⟨year + 1, 2, day - 337 + 1⟩ := by
      rw [marchDate, february]
      rfl
    have days : monthDays (year + 1) 2 = 31 := rfl
    have length : day - 336 ≤ monthLength (year + 1) 2 := by
      have feb : monthLength (year + 1) 2 = if Leap (year + 1) then 29 else 28 := rfl
      rw [feb]
      by_cases leap : Leap (year + 1)
      · rw [if_pos leap]
        omega
      · rw [if_neg leap]
        have short : day ≤ 364 := late.2.elim id fun last => absurd last.2 leap
        omega
    rw [date]
    refine ⟨⟨by simp only; omega, by simp only; omega⟩, ?_⟩
    simp only [dayNumber, days]
    omega

theorem cycle_quotients (c q z : Int) (cycle : 0 ≤ q ∧ q ≤ 24) (year : 0 ≤ z ∧ z ≤ 3) :
    (100 * c + 4 * q + z) / 4 = 25 * c + q ∧ (100 * c + 4 * q + z) / 100 = c := by
  constructor <;> omega

theorem era_year_start (c q z era : Int) (century : 0 ≤ c ∧ c ≤ 3) (cycle : 0 ≤ q ∧ q ≤ 24) (year : 0 ≤ z ∧ z ≤ 3) :
    yearDays (100 * c + 4 * q + z + era * 400) + monthDays (100 * c + 4 * q + z + era * 400) 3 =
      146097 * era + (36524 * c + 1461 * q + 365 * z) - 306 := by
  have quotients := cycle_quotients (c + era * 4) q z cycle year
  have shift : 100 * (c + era * 4) + 4 * q + z = 100 * c + 4 * q + z + era * 400 := by omega
  rw [shift] at quotients
  have eras : (100 * c + 4 * q + z + era * 400) / 400 = era := by omega
  rw [march_first, quotients.1, quotients.2, eras]
  omega

theorem date_of_era_day (days c q z w : Int) (at_day : EraDay ((days + 719468) % 146097) c q z w) :
    dateOf days = marchDate (100 * c + 4 * q + z + (days + 719468) / 146097 * 400) w := by
  have year := year_of_era _ c q z w at_day
  have quotients := cycle_quotients c q z at_day.cycle at_day.year
  have behind : (days + 719468) % 146097 - (365 * (100 * c + 4 * q + z) + (25 * c + q) - c) = w := by
    rw [at_day.day]
    omega
  simp only [dateOf, year, quotients.1, quotients.2, behind]

theorem march_date_day (year day : Int) (inside : 0 ≤ day ∧ (day ≤ 364 ∨ day = 365 ∧ Leap (year + 1))) :
    ValidDate (marchDate year day) ∧
      dayNumber (marchDate year day) = yearDays year + monthDays year 3 + day - 719162 := by
  by_cases early : day < 306
  · exact march_date_early year day ⟨inside.1, early⟩
  · exact march_date_late year day ⟨Int.not_lt.mp early, inside.2⟩

theorem date_of_day (days : Int) : ValidDate (dateOf days) ∧ dayNumber (dateOf days) = days := by
  obtain ⟨c, q, z, w, at_day⟩ := era_day ((days + 719468) % 146097) (by omega)
  have date := date_of_era_day days c q z w at_day
  have start := era_year_start c q z ((days + 719468) / 146097) at_day.century at_day.cycle at_day.year
  have parts := Int.mul_ediv_add_emod (days + 719468) 146097
  rw [at_day.day] at parts
  have number : yearDays (100 * c + 4 * q + z + (days + 719468) / 146097 * 400) +
      monthDays (100 * c + 4 * q + z + (days + 719468) / 146097 * 400) 3 + w - 719162 = days := by
    rw [start]
    omega
  have leap : w ≤ 364 ∨ w = 365 ∧ Leap (100 * c + 4 * q + z + (days + 719468) / 146097 * 400 + 1) := by
    obtain ⟨century, cycle, year, low, high, day⟩ := at_day
    clear day start parts number
    rcases high with short | last
    · exact .inl short
    · refine .inr ⟨last.1, ?_, ?_⟩ <;> omega
  have found := march_date_day (100 * c + 4 * q + z + (days + 719468) / 146097 * 400) w ⟨at_day.low, leap⟩
  rw [number] at found
  rwa [date]

theorem instant_of (t : Int) : instant (dateOf (t / 86400)) (clockOf (t % 86400)) = t := by
  have day := (date_of_day (t / 86400)).2
  have seconds := clock_of_seconds (t % 86400)
  rw [instant, day]
  omega

end Calendar
