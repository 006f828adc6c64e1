import SystemdCron.Line
import SystemdCron.Lib.Binary32

/-!
# Schedules

`generate_schedule_from_period` and `generate_schedule_from_timespec`: the calendar expression of a
job, and beside it the text that goes into the hash of a persistent job, with the fields that use `~`
as they stand in the line.
-/

namespace SystemdCron

open Bytes

/-! ### Periods -/

/-- `replacements` of `generate_schedule_from_period`, sorted by their keys. -/
def replacements : List (Bytes × Bytes) :=
  [(lit "1", lit "daily"), (lit "30", lit "monthly"), (lit "31", lit "monthly"),
   (lit "365", lit "yearly"), (lit "7", lit "weekly"), (lit "annually", lit "yearly"),
   (lit "anually", lit "yearly"), (lit "bi-annually", lit "semi-annually"),
   (lit "biannually", lit "semi-annually"), (lit "boot", lit "reboot"),
   (lit "semiannually", lit "semi-annually")]

/-- `TIME_UNITS_SET`. -/
def TIME_UNITS_SET : List Bytes :=
  [lit "daily", lit "monthly", lit "quarterly", lit "semi-annually", lit "weekly", lit "yearly"]

/-- The period without its leading `@`s, in lower case, and replaced if it is an alias. -/
def normalPeriod (period : Bytes) : Bytes :=
  let p := (period.dropWhile (· == AT)).map toLower
  (replacements.lookup p).getD p

/-- `"%zu:%zu:0"`. -/
def hourDelay (hour delay : Nat) : Bytes := decimal hour ++ [COLON] ++ decimal delay ++ lit ":0"

/-- The date part of the calendar expression of a keyword that has an hour. -/
def periodDate (period : Bytes) : Option Bytes :=
  if period = lit "daily" then some (lit "*-*-* ")
  else if period = lit "weekly" then some (lit "Mon *-*-* ")
  else if period = lit "monthly" then some (lit "*-*-1 ")
  else if period = lit "quarterly" then some (lit "*-1,4,7,10-1 ")
  else if period = lit "semi-annually" then some (lit "*-1,7-1 ")
  else if period = lit "yearly" then some (lit "*-1-1 ")
  else none

/-- The date part for a period of `prd` days: beyond a month it counts months. -/
def daysDate (prd : Nat) : Bytes :=
  if 31 < prd then
    lit "*-1/" ++ decimal (Binary32.roundDiv (Binary32.ofNat prd) 30) ++ lit "-1 "
  else lit "*-*-1/" ++ decimal prd ++ [SPACE]

namespace Job

/-- `generate_schedule_from_period`. -/
def generateScheduleFromPeriod (j : Job) : Job :=
  let j := { j with period := normalPeriod j.period }
  let hour := j.startHour
  -- A persistent job hashes its schedule; the branch of an unknown period returns before that.
  let hashed (j : Job) : Job := if j.persistent then { j with scheduleRaw := j.schedule } else j
  if j.period = lit "reboot" then
    hashed { j with bootDelay := max j.bootDelay 1, schedule := j.period, persistent := false }
  else if j.period = lit "minutely" then
    hashed { j with schedule := j.period, persistent := false }
  else if j.period = lit "hourly" ∧ j.bootDelay = 0 then
    hashed { j with schedule := lit "hourly" }
  else if j.period = lit "hourly" then
    hashed { j with schedule := lit "*-*-* *:" ++ decimal j.bootDelay ++ lit ":0", bootDelay := 0 }
  else if j.period = lit "midnight" ∧ j.bootDelay = 0 then
    hashed { j with schedule := lit "daily" }
  else if j.period = lit "midnight" then
    hashed { j with schedule := lit "*-*-* 0:" ++ decimal j.bootDelay ++ lit ":0" }
  else if j.period ∈ TIME_UNITS_SET ∧ hour = 0 ∧ j.bootDelay = 0 then
    hashed { j with schedule := j.period }
  else
    match periodDate j.period with
    | some date => hashed { j with schedule := date ++ hourDelay hour j.bootDelay }
    | none =>
      let prd := intMap j.period false false
      if prd.2 then { j.error (lit "unknown schedule") with schedule := j.period }
      else hashed { j with schedule := daysDate prd.1 ++ hourDelay hour j.bootDelay }

/-! ### Time fields -/

/-- A value as `timespec_comma` writes it. -/
def timespecValue (f : Nat) : Bytes := if f = TIMESPEC_ASTERISK then [STAR] else decimal f

/-- What `timespec_comma` appends to the schedule. -/
def timespecComma (field : Std.TreeSet Nat) : Bytes :=
  [COMMA].intercalate (field.toList.map timespecValue)

/-- The part of `DOWS_SET` the weekdays are looked up in: it has one Sunday, in front or at the end. -/
def dowSpan (sundayIsSeven : Bool) : List Bytes :=
  if sundayIsSeven then DOWS_SET.drop 1 else DOWS_SET.dropLast

/-- The weekday part of the schedule. -/
def timespecDows (j : Job) : Bytes :=
  if j.timespecDow.toList = [[STAR]] then []
  else
    [COMMA].intercalate ((dowSpan j.sundayIsSeven).filter fun dow => j.timespecDow.contains dow) ++
      [SPACE]

/-- Whether one of the sets that the schedule needs is empty. -/
def lacksValues (j : Job) : Bool :=
  j.timespecMonth.isEmpty || j.timespecDom.isEmpty || j.timespecHour.isEmpty ||
    j.timespecMinute.isEmpty

/-- `generate_schedule_from_timespec`. -/
def generateScheduleFromTimespec (j : Job) : Job :=
  let j := { j with
    timespecMonth := j.timespecMonth.erase 0
    timespecDom := j.timespecDom.erase 0 }
  if j.lacksValues then { j with valid := false }
  else
    let dows := j.timespecDows ++ lit "*-"
    let month := timespecComma j.timespecMonth
    let dom := timespecComma j.timespecDom
    let hour := timespecComma j.timespecHour
    let minute := timespecComma j.timespecMinute
    let sep := if j.lastDow || j.lastDom then [TILDE] else [DASH]
    let step := if j.lastDow then lit "/1" else []
    let schedule :=
      dows ++ month ++ sep ++ dom ++ step ++ [SPACE] ++ hour ++ [COLON] ++ minute ++ lit ":00"
    let dowsRaw := match j.timespecDowRaw with
      | some raw => raw ++ lit "*-"
      | none => dows
    let scheduleRaw :=
      dowsRaw ++ j.timespecMonthRaw.getD month ++ sep ++ j.timespecDomRaw.getD dom ++ step ++
        [SPACE] ++ j.timespecHourRaw.getD hour ++ [COLON] ++ j.timespecMinuteRaw.getD minute ++
        lit ":00"
    { j with
      schedule
      scheduleRaw := if j.persistent then scheduleRaw else j.scheduleRaw }

/-- `generate_schedule`. -/
def generateSchedule (j : Job) : Job :=
  if j.period ≠ [] then j.generateScheduleFromPeriod else j.generateScheduleFromTimespec

end Job

/-! ### What the schedule leaves alone -/

/-- `b` is `a` but for its schedule, and only a persistent job has a raw schedule of its own. -/
structure Job.Scheduled (a b : Job) : Prop where
  filename : b.filename = a.filename
  line : b.line = a.line
  environment : b.environment = a.environment
  shell : b.shell = a.shell
  timezone : b.timezone = a.timezone
  cronUniqueUnits : b.cronUniqueUnits = a.cronUniqueUnits
  cronBatchLoadavgBelow : b.cronBatchLoadavgBelow = a.cronBatchLoadavgBelow
  cronBatchThrottleGroup : b.cronBatchThrottleGroup = a.cronBatchThrottleGroup
  jobid : b.jobid = a.jobid
  user : b.user = a.user
  userHome : b.userHome = a.userHome
  command : b.command = a.command
  execstart : b.execstart = a.execstart
  inputData : b.inputData = a.inputData
  cronMailSuccess : b.cronMailSuccess = a.cronMailSuccess
  cronMailFormat : b.cronMailFormat = a.cronMailFormat
  persistent : b.persistent → a.persistent
  valid : b.valid → a.valid
  scheduleRaw : b.persistent = false → b.scheduleRaw = a.scheduleRaw

namespace Job.Scheduled

theorem ite {a b b' : Job} {c : Prop} [Decidable c] (h : a.Scheduled b) (h' : a.Scheduled b') :
    a.Scheduled (if c then b else b') := by
  split
  · exact h
  · exact h'

/-- The last step of a period: a persistent job takes its schedule for the raw one. -/
theorem hashed {a b : Job} (h : a.Scheduled b) :
    a.Scheduled (if b.persistent then { b with scheduleRaw := b.schedule } else b) := by
  split
  case isTrue hp => exact { h with scheduleRaw := fun hf => by simp_all }
  case isFalse => exact h

end Job.Scheduled

namespace Job

theorem generateScheduleFromPeriod_scheduled (j : Job) :
    j.Scheduled j.generateScheduleFromPeriod := by
  have field : ∀ {b : Job}, (∃ period boot schedule, b = { j with
      period, bootDelay := boot, schedule }) → j.Scheduled b := by
    rintro _ ⟨period, boot, schedule, rfl⟩
    constructor <;> first | rfl | exact fun _ => rfl | exact id
  have never : ∀ {b : Job}, (∃ period boot schedule, b = { j with
      period, bootDelay := boot, schedule, persistent := false }) → j.Scheduled b := by
    rintro _ ⟨period, boot, schedule, rfl⟩
    constructor <;> first | rfl | exact fun _ => rfl | exact id | nofun
  unfold generateScheduleFromPeriod
  extract_lets j1 hour hashed
  have hashed' : ∀ {b : Job}, j.Scheduled b → j.Scheduled (hashed b) := fun h => h.hashed
  refine .ite (hashed' <| never ⟨_, _, _, rfl⟩) <| .ite (hashed' <| never ⟨_, _, _, rfl⟩) <|
    .ite (hashed' <| field ⟨_, _, _, rfl⟩) <| .ite (hashed' <| field ⟨_, _, _, rfl⟩) <|
    .ite (hashed' <| field ⟨_, _, _, rfl⟩) <| .ite (hashed' <| field ⟨_, _, _, rfl⟩) <|
    .ite (hashed' <| field ⟨_, _, _, rfl⟩) ?_
  split
  · exact hashed' <| field ⟨_, _, _, rfl⟩
  · refine .ite ?_ (hashed' <| field ⟨_, _, _, rfl⟩)
    constructor <;> first | rfl | exact fun _ => rfl | exact id

theorem generateScheduleFromTimespec_scheduled (j : Job) :
    j.Scheduled j.generateScheduleFromTimespec := by
  unfold generateScheduleFromTimespec
  extract_lets j1
  refine .ite ?_ ?_
  · constructor <;> first | rfl | exact fun _ => rfl | exact id | nofun
  · extract_lets
    constructor <;> first | rfl | exact id | skip
    exact fun h => if_neg (by simp [show j1.persistent = false from h])

/-- `generate_schedule` changes the schedule only. -/
theorem generateSchedule_scheduled (j : Job) : j.Scheduled j.generateSchedule :=
  .ite j.generateScheduleFromPeriod_scheduled j.generateScheduleFromTimespec_scheduled

/-- The two outcomes of `generate_schedule_from_timespec`, in terms of the job it leaves. -/
theorem generateScheduleFromTimespec_cases {p j : Job} (h : j = p.generateScheduleFromTimespec) :
    (j.lacksValues ∧ j.valid = false ∧ j.schedule = p.schedule) ∨
    (j.lacksValues = false ∧ j.valid = p.valid ∧ j.schedule = j.timespecDows ++ lit "*-" ++
      timespecComma j.timespecMonth ++ (if j.lastDow || j.lastDom then [TILDE] else [DASH]) ++
      timespecComma j.timespecDom ++ (if j.lastDow then lit "/1" else []) ++ [SPACE] ++
      timespecComma j.timespecHour ++ [COLON] ++ timespecComma j.timespecMinute ++ lit ":00") := by
  subst h
  unfold generateScheduleFromTimespec
  extract_lets q
  by_cases hl : q.lacksValues
  · rw [if_pos hl]
    exact .inl ⟨hl, rfl, rfl⟩
  · rw [if_neg hl]
    exact .inr ⟨Bool.eq_false_iff.2 hl, rfl, rfl⟩

theorem lacksValues_of_valid {p : Job} (hv : p.generateScheduleFromTimespec.valid) :
    p.generateScheduleFromTimespec.lacksValues = false := by
  rcases generateScheduleFromTimespec_cases (p := p) rfl with ⟨-, hfalse, -⟩ | ⟨hl, -, -⟩
  · rw [hfalse] at hv
    cases hv
  · exact hl

end Job

end SystemdCron
