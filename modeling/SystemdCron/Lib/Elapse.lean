import SystemdCron.Lib.OnCalendar

/-!
# When a calendar event elapses

The meaning of a calendar event expression over any calendar: a day matches by the conjunction of the
weekdays, the months and the days, and a second of it by that of the hours, the minutes and the second.
Times are counted in seconds of local time. An expression that has one time of the day is, moved by hours and
minutes that stay in the day, the expression with that time (`Expr.elapses_atTime`).
-/

namespace OnCalendar

open Bytes

/-- A day of a calendar. -/
structure Date where
  weekday : Weekday
  month : Nat
  day : Nat
  /-- How many days the month has. -/
  last : Nat
  deriving DecidableEq, Repr

def Element.Matches : Element → Nat → Prop
  | any, _ => True
  | value n, x => x = n
  | every start step, x => start ≤ x ∧ step ∣ x - start

instance : (e : Element) → (x : Nat) → Decidable (e.Matches x)
  | .any, _ => .isTrue trivial
  | .value n, x => inferInstanceAs (Decidable (x = n))
  | .every start step, x => inferInstanceAs (Decidable (start ≤ x ∧ step ∣ x - start))

/-- The day that is counted from the end of a month of `last` days, the last one as the first. -/
def Element.mirror (last : Nat) : Element → Element
  | any => any
  | value n => value (last + 1 - n)
  | every start step => every (last + 1 - start) step

namespace Expr

def MatchesDate (e : Expr) (d : Date) : Prop :=
  (e.weekdays = [] ∨ d.weekday ∈ e.weekdays) ∧ (∃ x ∈ e.months, x.Matches d.month) ∧
    ∃ x ∈ e.days, (if e.fromEnd then x.mirror d.last else x).Matches d.day

def MatchesTime (e : Expr) (hour minute second : Nat) : Prop :=
  (∃ x ∈ e.hours, x.Matches hour) ∧ (∃ x ∈ e.minutes, x.Matches minute) ∧ second = e.second

instance (e : Expr) (d : Date) : Decidable (e.MatchesDate d) := inferInstanceAs (Decidable (_ ∧ _ ∧ _))

instance (e : Expr) (h m s : Nat) : Decidable (e.MatchesTime h m s) :=
  inferInstanceAs (Decidable (_ ∧ _ ∧ _))

/-- The event elapses `t` seconds after the start of the day zero. -/
def Elapses (cal : ℤ → Date) (e : Expr) (t : ℤ) : Prop :=
  e.MatchesDate (cal (t / 86400)) ∧
    e.MatchesTime (t % 86400 / 3600).toNat (t % 3600 / 60).toNat (t % 60).toNat

/-- The expression at one time of the day. -/
def atTime (e : Expr) (hour minute : Nat) : Expr :=
  { e with hours := [.value hour], minutes := [.value minute], second := 0 }

/-- The expression at one minute of every hour. -/
def atMinute (e : Expr) (minute : Nat) : Expr :=
  { e with hours := [.any], minutes := [.value minute], second := 0 }

variable {e : Expr} {cal : ℤ → Date}

theorem elapses_atTime_iff {hour minute : Nat} (hm : minute ≤ 59) (t : ℤ) :
    (e.atTime hour minute).Elapses cal t ↔
      e.MatchesDate (cal (t / 86400)) ∧ t % 86400 = 3600 * hour + 60 * minute := by
  refine and_congr_right' ?_
  simp only [MatchesTime, atTime, List.mem_singleton, exists_eq_left, Element.Matches]
  omega

/-- An event with one time of the day is the one at midnight, moved later. -/
theorem elapses_atTime {hour minute : Nat} (hh : hour ≤ 23) (hm : minute ≤ 59) (t : ℤ) :
    (e.atTime hour minute).Elapses cal t ↔
      (e.atTime 0 0).Elapses cal (t - (3600 * hour + 60 * minute)) := by
  rw [elapses_atTime_iff hm, elapses_atTime_iff (by omega)]
  constructor
  · rintro ⟨hd, ht⟩
    rw [show (t - (3600 * hour + 60 * minute)) / 86400 = t / 86400 by omega]
    exact ⟨hd, by omega⟩
  · rintro ⟨hd, ht⟩
    rw [show (t - (3600 * hour + 60 * minute)) / 86400 = t / 86400 by omega] at hd
    exact ⟨hd, by omega⟩

theorem elapses_atMinute_iff (hdate : ∀ d, e.MatchesDate d) {minute : Nat} (hm : minute ≤ 59) (t : ℤ) :
    (e.atMinute minute).Elapses cal t ↔ t % 3600 = 60 * minute := by
  have h : (e.atMinute minute).MatchesDate (cal (t / 86400)) := hdate _
  unfold Elapses
  rw [and_iff_right h]
  simp only [MatchesTime, atMinute, List.mem_singleton, exists_eq_left, Element.Matches, true_and]
  omega

/-- An event of every hour is the one of the first minute, moved later. -/
theorem elapses_atMinute (hdate : ∀ d, e.MatchesDate d) {minute : Nat} (hm : minute ≤ 59) (t : ℤ) :
    (e.atMinute minute).Elapses cal t ↔ (e.atMinute 0).Elapses cal (t - 60 * minute) := by
  rw [elapses_atMinute_iff hdate hm, elapses_atMinute_iff hdate (by omega)]
  omega

end Expr

/-! ### Keywords -/

/-- Every minute of every day. -/
def everyMinute : Expr where
  weekdays := []
  months := [.any]
  fromEnd := false
  days := [.any]
  hours := [.any]
  minutes := [.any]
  second := 0

theorem matchesDate_everyMinute (d : Date) : everyMinute.MatchesDate d :=
  ⟨.inl rfl, ⟨.any, List.mem_singleton_self _, trivial⟩, .any, List.mem_singleton_self _, trivial⟩

theorem elapses_everyMinute {cal : ℤ → Date} (t : ℤ) : everyMinute.Elapses cal t ↔ t % 60 = 0 := by
  unfold Expr.Elapses
  rw [and_iff_right (matchesDate_everyMinute _)]
  simp only [Expr.MatchesTime, everyMinute, List.mem_singleton, exists_eq_left, Element.Matches, true_and]
  omega

/-- Midnight of days of months. -/
def midnights (weekdays : List Weekday) (months days : List Element) : Expr :=
  { everyMinute.atTime 0 0 with weekdays, months, days }

/-- The keywords, and the expressions that they stand for. -/
def shorthands : List (Bytes × Expr) :=
  let halves := midnights [] [.value 1, .value 7] [.value 1]
  let years := midnights [] [.value 1] [.value 1]
  [(lit "minutely", everyMinute), (lit "hourly", everyMinute.atMinute 0),
   (lit "daily", midnights [] [.any] [.any]), (lit "weekly", midnights [.mon] [.any] [.any]),
   (lit "monthly", midnights [] [.any] [.value 1]),
   (lit "quarterly", midnights [] [.value 1, .value 4, .value 7, .value 10] [.value 1]),
   (lit "semiannually", halves), (lit "semi-annually", halves), (lit "biannually", halves),
   (lit "bi-annually", halves), (lit "yearly", years), (lit "annually", years), (lit "anually", years)]

theorem keys_shorthands : shorthands.map Prod.fst = keywords := rfl

instance (e : Expr) : Decidable e.WF :=
  decidable_of_iff (((e.months ≠ [] ∧ e.days ≠ []) ∧ e.hours ≠ [] ∧ e.minutes ≠ []) ∧
      ((∀ x ∈ e.months, x.WF 1 12) ∧ ∀ x ∈ e.days, x.WF 1 31) ∧ (∀ x ∈ e.hours, x.WF 0 23) ∧
        ∀ x ∈ e.minutes, x.WF 0 59)
    ⟨fun ⟨⟨⟨h1, h2⟩, h3, h4⟩, ⟨h5, h6⟩, h7, h8⟩ => ⟨⟨h1, h2, h3, h4⟩, h5, h6, h7, h8⟩,
      fun ⟨⟨h1, h2, h3, h4⟩, h5, h6, h7, h8⟩ => ⟨⟨⟨h1, h2⟩, h3, h4⟩, ⟨h5, h6⟩, h7, h8⟩⟩

theorem wf_shorthands : ∀ p ∈ shorthands, p.2.WF := by decide

/-- The expression that a text stands for. -/
def meaning (s : Bytes) : Option Expr := (shorthands.lookup s).or (parse s)

theorem meaning_render {e : Expr} (h : e.Nonempty) {second : Bytes}
    (hs : parseDecimal second = some e.second) :
    meaning (e.render second) = some e := by
  have hnone : shorthands.lookup (e.render second) = none := by
    rw [List.lookup_eq_none_iff]
    intro p hp
    have hspace : ∀ k ∈ keywords, SPACE ∉ k := by decide
    refine bne_iff_ne.2 fun heq => hspace p.1 ?_ (heq ▸ e.space_mem_render second)
    rw [← keys_shorthands]
    exact List.mem_map_of_mem hp
  rw [meaning, hnone, Expr.parse_render h hs]
  rfl

end OnCalendar
