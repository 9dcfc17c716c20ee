import Facebooc.Calendar
import Facebooc.RouteIds

set_option autoImplicit false

namespace Facebooc

open CMemory Calendar

def tmDate (tm : Tm) : Date := ⟨tm.year + 1900, tm.mon + 1, tm.mday⟩

def tmClock (tm : Tm) : Clock := ⟨tm.hour, tm.min, tm.sec⟩

structure ValidTm (tm : Tm) : Prop where
  date : ValidDate (tmDate tm)
  clock : ValidClock (tmClock tm)
  wday : tm.wday = weekday (dayNumber (tmDate tm))

-- A text is that of a date and time in a zone that is ahead of UTC by an offset.
def Denotes (text zone : List UInt8) (offset t : Int) : Prop :=
  ∃ tm, ValidTm tm ∧ text = strftimeC tm ++ zone ∧ instant (tmDate tm) (tmClock tm) = t + offset

-- Fields that fill their columns of the text.
structure Columns (tm : Tm) : Prop where
  wday : 0 ≤ tm.wday ∧ tm.wday < 7
  mon : 0 ≤ tm.mon ∧ tm.mon < 12
  mday : 0 ≤ tm.mday ∧ tm.mday < 100
  hour : 0 ≤ tm.hour ∧ tm.hour < 100
  min : 0 ≤ tm.min ∧ tm.min < 100
  sec : 0 ≤ tm.sec ∧ tm.sec < 100

structure TimesAgree (createdAt : Int) : Prop where
  dashboard : Denotes (pageBytes (dashboardTime createdAt)) (ascii " GMT+8") (8 * 3600) createdAt
  profile : Denotes (pageBytes (profileTime createdAt)) (ascii " GMT") 0 createdAt

theorem gmtime_date (t : Int) : tmDate (gmtime t) = dateOf (t / 86400) := by
  simp only [tmDate, gmtime, dateOf, marchDate, Date.mk.injEq]
  refine ⟨by omega, ?_, trivial⟩
  split <;> omega

theorem gmtime_clock (t : Int) : tmClock (gmtime t) = clockOf (t % 86400) := rfl

theorem gmtime_valid (t : Int) : ValidTm (gmtime t) := by
  obtain ⟨valid, number⟩ := date_of_day (t / 86400)
  have date := gmtime_date t
  rw [← date] at valid number
  refine ⟨valid, ?_, ?_⟩
  · rw [gmtime_clock]
    exact clock_of_valid _ (by omega)
  · rw [number]
    rfl

theorem gmtime_instant (t : Int) : instant (tmDate (gmtime t)) (tmClock (gmtime t)) = t := by
  rw [gmtime_date, gmtime_clock]
  exact instant_of t

theorem profile_time_denotes (t : Int) : Denotes (pageBytes (profileTime t)) (ascii " GMT") 0 t := by
  refine ⟨gmtime t, gmtime_valid t, ?_, by rw [gmtime_instant, Int.add_zero]⟩
  exact List.append_nil _

-- An hour that stays on the day is later by eight.
theorem dashboard_time_denotes (t : Int) (early : t % 86400 < 16 * 3600) :
    Denotes (pageBytes (dashboardTime t)) (ascii " GMT+8") (8 * 3600) t := by
  obtain ⟨date, clock, wday⟩ := gmtime_valid t
  have at_t := gmtime_instant t
  have hour : (gmtime t).hour = t % 86400 / 3600 := rfl
  refine ⟨{ gmtime t with hour := (gmtime t).hour + 8 }, ⟨date, ⟨?_, clock.minute, clock.second⟩, wday⟩, ?_, ?_⟩
  · have inside := clock.hour
    simp only [tmClock] at inside ⊢
    omega
  · exact List.append_nil _
  · simp only [instant, tmClock] at at_t ⊢
    change 86400 * dayNumber (tmDate (gmtime t)) + _ + _ + _ = _
    omega

theorem valid_tm_columns (tm : Tm) (valid : ValidTm tm) : Columns tm := by
  obtain ⟨⟨month, day⟩, ⟨hour, minute, second⟩, wday⟩ := valid
  have length := month_length_bound (tmDate tm).year (tmDate tm).month
  rw [weekday] at wday
  simp only [tmDate, tmClock] at month day length hour minute second
  exact ⟨by omega, by omega, by omega, by omega, by omega, by omega⟩

theorem name_columns : (∀ n < 7, (nameAt dayNames (n : Nat)).length = 3) ∧
    ∀ n < 12, (nameAt monthNames (n : Nat)).length = 3 := by
  decide

theorem name_injective : (∀ n < 7, ∀ m < 7, nameAt dayNames (n : Nat) = nameAt dayNames (m : Nat) → n = m) ∧
    ∀ n < 12, ∀ m < 12, nameAt monthNames (n : Nat) = nameAt monthNames (m : Nat) → n = m := by
  decide +kernel

theorem decimal_value (i : Int) (inside : 0 ≤ i ∧ i < 2 ^ 31) : digitsValue (decimal i) = i.toNat := by
  have kept : i.bmod (2 ^ 32) = i := Int.bmod_eq_of_le (by omega) (by omega)
  have plain : ∀ (n : Nat) (c : Char), c ∈ Nat.toDigits 10 i.natAbs →
    10 * n + ((chr c).toNat - 48) = 10 * n + (c.toNat - '0'.toNat) := by
    intro n c member
    have digit := Nat.isDigit_of_mem_toDigits (by decide) (by decide) member
    simp only [Char.isDigit, Bool.and_eq_true, decide_eq_true_eq] at digit
    have high : c.toNat ≤ 57 := digit.2
    have byte : (chr c).toNat = c.toNat := by
      rw [chr]
      exact Nat.mod_eq_of_lt (by omega)
    rw [byte]
    rfl
  have value := Nat.ofDigitChars_ten_toDigits (n := i.natAbs)
  rw [Nat.ofDigitChars_eq_foldl, ← List.foldl_ext _ _ 0 plain] at value
  rw [decimal, kept, if_neg (by omega), digitsValue, List.foldl_map, value]
  omega

theorem decimal_columns (i : Int) (inside : 0 ≤ i ∧ i < 100) : (decimal i).length = if i < 10 then 1 else 2 := by
  have kept : i.bmod (2 ^ 32) = i := Int.bmod_eq_of_le (by omega) (by omega)
  have single := Nat.length_toDigits_le_iff (n := i.natAbs) (b := 10) (k := 1) (by decide) (by decide)
  have double := Nat.length_toDigits_le_iff (n := i.natAbs) (b := 10) (k := 2) (by decide) (by decide)
  have some_digit := Nat.length_toDigits_pos (n := i.natAbs) (b := 10)
  rw [decimal, kept, if_neg (by omega), List.length_map]
  split <;> omega

-- Both paddings are read as zero.
theorem two_columns_read (pad : Char) (padding : pad ∈ ['0', ' ']) (i : Int) (inside : 0 ≤ i ∧ i < 100) :
    (twoColumns pad i).length = 2 ∧ digitsValue (twoColumns pad i) = i.toNat := by
  have zero : (chr pad).toNat - 48 = 0 := by
    simp only [List.mem_cons, List.not_mem_nil, or_false] at padding
    rcases padding with same | same <;> rw [same] <;> rfl
  have columns := decimal_columns i inside
  have value := decimal_value i (by omega)
  rw [twoColumns]
  by_cases short : i < 10
  · rw [if_pos ⟨inside.1, short⟩, List.length_cons, columns, if_pos short]
    refine ⟨rfl, ?_⟩
    rw [digitsValue, List.foldl_cons, zero]
    exact value
  · rw [if_neg fun both => short both.2, columns, if_neg short]
    exact ⟨rfl, value⟩

theorem two_columns_injective (pad : Char) (padding : pad ∈ ['0', ' ']) (i j : Int) (left : 0 ≤ i ∧ i < 100)
    (right : 0 ≤ j ∧ j < 100) (same : twoColumns pad i = twoColumns pad j) : i = j := by
  have value := congrArg digitsValue same
  rw [(two_columns_read pad padding i left).2, (two_columns_read pad padding j right).2] at value
  omega

theorem two_columns_part (pad : Char) (padding : pad ∈ ['0', ' ']) (i j : Int) (left : 0 ≤ i ∧ i < 100)
    (right : 0 ≤ j ∧ j < 100)
    (rest more : List UInt8) (same : twoColumns pad i ++ rest = twoColumns pad j ++ more) : i = j ∧ rest = more := by
  obtain ⟨columns, rest⟩ := List.append_inj same
    ((two_columns_read pad padding i left).1.trans (two_columns_read pad padding j right).1.symm)
  exact ⟨two_columns_injective pad padding i j left right columns, rest⟩

theorem name_part (names : List String) (count : Nat) (width : ∀ n < count, (nameAt names (n : Nat)).length = 3)
    (apart : ∀ n < count, ∀ m < count, nameAt names (n : Nat) = nameAt names (m : Nat) → n = m) (i j : Int)
    (left : 0 ≤ i ∧ i < count) (right : 0 ≤ j ∧ j < count) (rest more : List UInt8)
    (same : nameAt names i ++ rest = nameAt names j ++ more) : i = j ∧ rest = more := by
  obtain ⟨n, rfl⟩ := Int.eq_ofNat_of_zero_le left.1
  obtain ⟨m, rfl⟩ := Int.eq_ofNat_of_zero_le right.1
  have low : n < count := by omega
  have high : m < count := by omega
  obtain ⟨name, rest⟩ := List.append_inj same (by rw [width n low, width m high])
  exact ⟨by rw [apart n low m high name], rest⟩

-- The text tells the fields, up to how the year is printed.
theorem strftime_c_fields (tm other : Tm) (columns : Columns tm) (filled : Columns other) (zone : List UInt8)
    (same : strftimeC tm ++ zone = strftimeC other ++ zone) :
    (tm.wday = other.wday ∧ tm.mon = other.mon ∧ tm.mday = other.mday) ∧
      (tm.hour = other.hour ∧ tm.min = other.min ∧ tm.sec = other.sec) ∧
      decimal (tm.year + 1900) = decimal (other.year + 1900) := by
  have text := List.append_cancel_right same
  simp only [strftimeC, clock, List.append_assoc] at text
  obtain ⟨wday, text⟩ := name_part dayNames 7 name_columns.1 name_injective.1 _ _ columns.wday filled.wday _ _ text
  have text := List.append_cancel_left text
  obtain ⟨mon, text⟩ := name_part monthNames 12 name_columns.2 name_injective.2 _ _ columns.mon filled.mon _ _ text
  have text := List.append_cancel_left text
  obtain ⟨mday, text⟩ := two_columns_part ' ' (by decide) _ _ columns.mday filled.mday _ _ text
  have text := List.append_cancel_left text
  obtain ⟨hour, text⟩ := two_columns_part '0' (by decide) _ _ columns.hour filled.hour _ _ text
  have text := List.append_cancel_left text
  obtain ⟨min, text⟩ := two_columns_part '0' (by decide) _ _ columns.min filled.min _ _ text
  have text := List.append_cancel_left text
  obtain ⟨sec, text⟩ := two_columns_part '0' (by decide) _ _ columns.sec filled.sec _ _ text
  exact ⟨⟨wday, mon, mday⟩, ⟨hour, min, sec⟩, List.append_cancel_left text⟩

theorem valid_tm_year (tm : Tm) (valid : ValidTm tm) (t : Int) (at_t : instant (tmDate tm) (tmClock tm) = t)
    (inside : 0 ≤ t ∧ t < 2 ^ 32) : 0 ≤ tm.year + 1900 ∧ tm.year + 1900 < 2 ^ 31 := by
  obtain ⟨⟨month, day⟩, ⟨hour, minute, second⟩, wday⟩ := valid
  have length := month_length_bound (tmDate tm).year (tmDate tm).month
  have months := month_days_bounds (tm.year + 1900) tm.mon.toNat
  simp only [tmDate] at month day length
  have count : (tm.mon.toNat : Int) = tm.mon := by omega
  rw [count] at months
  simp only [instant, tmDate, tmClock, dayNumber, yearDays] at at_t hour minute second
  omega

-- A text stands for no second instant that an int can hold.
theorem denotes_unique (text zone : List UInt8) (offset t u : Int) (ahead : 0 ≤ offset ∧ offset < 2 ^ 31)
    (first : 0 ≤ t ∧ t < 2 ^ 31) (second : 0 ≤ u ∧ u < 2 ^ 31) (left : Denotes text zone offset t)
    (right : Denotes text zone offset u) : t = u := by
  obtain ⟨tm, valid, shown, at_t⟩ := left
  obtain ⟨other, filled, again, at_u⟩ := right
  have year := valid_tm_year tm valid _ at_t (by omega)
  have otherYear := valid_tm_year other filled _ at_u (by omega)
  obtain ⟨⟨_, mon, mday⟩, ⟨hour, min, sec⟩, printed⟩ :=
    strftime_c_fields tm other (valid_tm_columns tm valid) (valid_tm_columns other filled) zone (shown.symm.trans again)
  have years := congrArg digitsValue printed
  rw [decimal_value _ year, decimal_value _ otherYear] at years
  have sameYear : tm.year = other.year := by omega
  have date : tmDate tm = tmDate other := by rw [tmDate, tmDate, sameYear, mon, mday]
  have time : tmClock tm = tmClock other := by rw [tmClock, tmClock, hour, min, sec]
  rw [date, time] at at_t
  omega

theorem dashboard_time_hour (t u : Int) (shown : Denotes (pageBytes (dashboardTime t)) (ascii " GMT+8") (8 * 3600) u) :
    t % 86400 < 16 * 3600 := by
  obtain ⟨tm, valid, text, _⟩ := shown
  have printed : pageBytes (dashboardTime t) = strftimeC { gmtime t with hour := (gmtime t).hour + 8 } ++ ascii " GMT+8" :=
    List.append_nil _
  have columns := valid_tm_columns (gmtime t) (gmtime_valid t)
  have moved : Columns { gmtime t with hour := (gmtime t).hour + 8 } := by
    have hour := (gmtime_valid t).clock.hour
    simp only [tmClock] at hour
    exact ⟨columns.wday, columns.mon, columns.mday, by simp only; omega, columns.min, columns.sec⟩
  have fields := strftime_c_fields _ tm moved (valid_tm_columns tm valid) _ (printed.symm.trans text)
  have same := fields.2.1.1
  have limit := valid.clock.hour.2
  have hour : (gmtime t).hour = t % 86400 / 3600 := rfl
  simp only [tmClock] at same limit
  omega

-- From 16 o'clock on the hour is printed as 24 to 31. Either text stands for no
-- other instant of an int.
theorem times_agree_iff (createdAt : Int) : (TimesAgree createdAt ↔ createdAt % 86400 < 16 * 3600) ∧
    (TimesAgree createdAt → 0 ≤ createdAt ∧ createdAt < 2 ^ 31 → ∀ u, 0 ≤ u ∧ u < 2 ^ 31 →
      Denotes (pageBytes (dashboardTime createdAt)) (ascii " GMT+8") (8 * 3600) u ∨
        Denotes (pageBytes (profileTime createdAt)) (ascii " GMT") 0 u → u = createdAt) := by
  refine ⟨⟨fun agree => dashboard_time_hour createdAt createdAt agree.dashboard, fun early => ?_⟩, ?_⟩
  · exact ⟨dashboard_time_denotes createdAt early, profile_time_denotes createdAt⟩
  · rintro agree stored u int (dashboard | profile)
    · exact denotes_unique _ _ _ u createdAt (by decide) int stored dashboard agree.dashboard
    · exact denotes_unique _ _ _ u createdAt (by decide) int stored profile agree.profile

theorem times_agree_fails : ¬ ∀ createdAt : Int, 0 ≤ createdAt → TimesAgree createdAt := by
  intro all
  have agree := all 57600 (by decide)
  exact absurd (dashboard_time_hour 57600 57600 agree.dashboard) (by decide)

example : pageBytes (dashboardTime 57600) = ascii "Thu Jan  1 24:00:00 1970 GMT+8" := by decide +kernel

end Facebooc
