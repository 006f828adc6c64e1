import SystemdCron.Host
import SystemdCron.TimeField

/-!
# Jobs

`struct Job` of `systemd-crontab-generator.cpp` with its constructor, its view of the command, and the
decoding of the control variables of a crontab (`decode_environment`). The cached description of the
line is left out (`describeLine` computes it), and what `Job::log` writes is kept in the job.
-/

namespace SystemdCron

open Bytes

inductive WithUser where
  | fromCmd0
  | fromBasename
  | initial
  deriving DecidableEq, Repr

inductive CronMailSuccess where
  | never
  | always
  | nonempty
  deriving DecidableEq, Repr

inductive CronMailFormat where
  | normal
  | nometadata
  deriving DecidableEq, Repr

def CronMailSuccess.dflt : CronMailSuccess := .nonempty
def CronMailFormat.dflt : CronMailFormat := .normal

/-- The levels `Job::log` is called with. -/
inductive Log where
  | ERR
  | WARNING
  deriving DecidableEq, Repr

/-- A call of `Job::log`: the level, the text the format asks for, and whether it went through the
buffer of the formatting overload. -/
structure LogEntry where
  priority : Log
  message : Bytes
  formatted : Bool
  deriving DecidableEq, Repr

/-- Environment variables, in the order of their names. -/
abbrev Env := Std.TreeMap Bytes Bytes

/-! ### The command of a job -/

/-- `Job::command`: a span of the words of the line, and a replacement for the first of them that
is no longer part of the span. -/
structure Command where
  command : List Bytes
  command0 : Option Bytes
  nopercent : Bool
  deriving DecidableEq, Repr

/-- `command_iter`: the words not yet loaded, and the loaded one. -/
structure CommandIter where
  command : List Bytes
  command0 : Option Bytes
  deriving DecidableEq, Repr

namespace CommandIter

/-- `operator++`. -/
def next (it : CommandIter) : CommandIter :=
  match it.command with
  | w :: ws => { command := ws, command0 := some w }
  | [] => { it with command0 := none }

/-- `operator*`: loads a word if there is none. -/
def deref (it : CommandIter) : CommandIter × Bytes :=
  let it := if it.command0.isNone then it.next else it
  (it, it.command0.getD [])

/-- The rounds of a range-for up to `end()`, where the span is used up and no word is loaded. -/
def collect : Nat → CommandIter → List Bytes
  | 0, _ => []
  | fuel + 1, it =>
    if it = { command := [], command0 := none } then []
    else it.deref.2 :: collect fuel it.deref.1.next

end CommandIter

namespace Command

def size (c : Command) : Nat := c.command.length + (if c.command0.isSome then 1 else 0)

/-- The words a range-for over the command visits. -/
def hunks (c : Command) : List Bytes :=
  CommandIter.collect (c.size + 1) { command := c.command, command0 := c.command0 }

/-- `operator[]`. -/
def get (c : Command) (i : Nat) : Bytes :=
  match c.command0 with
  | some w => if i = 0 then w else c.command.getD (i - 1) []
  | none => c.command.getD i []

end Command

theorem CommandIter.collect_none {n : Nat} {ws : List Bytes} (h : ws.length < n) :
    CommandIter.collect n { command := ws, command0 := none } = ws := by
  induction n generalizing ws with
  | zero => omega
  | succ n ih =>
    rcases ws with - | ⟨w, ws⟩
    · simp [collect]
    -- Once loaded, the word is passed by the increment; the rest is visited as from the start.
    suffices hs : ∀ {m : Nat} {us : List Bytes} {u : Bytes}, us.length < m →
        collect m (CommandIter.next { command := us, command0 := some u }) = us by
      simpa [collect, deref, next] using @hs _ _ w (by simpa using h)
    clear ih h n w ws
    intro m us u hm
    induction m generalizing us u with
    | zero => omega
    | succ m ih =>
      rcases us with - | ⟨v, us⟩
      · simp [collect, next]
      · simpa [collect, deref, next] using @ih us v (by simpa using hm)

/-- A range-for over a command visits the replacement word, if any, and then the span. -/
@[simp] theorem Command.hunks_eq (c : Command) : c.hunks = c.command0.toList ++ c.command := by
  obtain ⟨ws, - | w, np⟩ := c
  · exact CommandIter.collect_none (by simp [size])
  · have := @CommandIter.collect_none (ws.length + 2) (w :: ws) (by simp)
    simpa [hunks, size, CommandIter.collect, CommandIter.deref, CommandIter.next] using this

/-! ### The job record -/

structure Job where
  filename : Bytes
  basename : Bytes
  line : Bytes
  parts : List Bytes
  environment : Env
  environmentPATHStorage : Bytes
  shell : Bytes
  randomDelay : Nat
  period : Bytes
  timezone : Option Bytes
  timespecMinute : Std.TreeSet Nat
  timespecHour : Std.TreeSet Nat
  timespecDom : Std.TreeSet Nat
  timespecDow : Std.TreeSet Bytes
  timespecMonth : Std.TreeSet Nat
  timespecMinuteRaw : Option Bytes
  timespecHourRaw : Option Bytes
  timespecDomRaw : Option Bytes
  timespecDowRaw : Option Bytes
  timespecMonthRaw : Option Bytes
  sundayIsSeven : Bool
  lastDom : Bool
  lastDow : Bool
  schedule : Bytes
  scheduleRaw : Bytes
  bootDelay : Nat
  startHour : Nat
  persistent : Bool
  cronUniqueUnits : Bool
  batch : Bool
  cronBatchLoadavgBelow : Bytes
  cronBatchThrottleGroup : Bytes
  jobid : Bytes
  unitName : Bytes
  user : Bytes
  userHome : Option Bytes
  userUid : Nat
  userGid : Nat
  cronLogNamespace : Bytes
  cronMailSuccess : CronMailSuccess
  cronMailFormat : CronMailFormat
  command : Command
  execstart : Bytes
  inputData : Bytes
  valid : Bool
  log : List LogEntry

/-- `vore::basename`: what follows the last slash. -/
def voreBasename (str : Bytes) : Bytes := (str.reverse.takeWhile (· != SLASH)).reverse

/-- `Job::Job`. -/
def Job.new (filename line : Bytes) : Job where
  filename
  basename := voreBasename filename
  line
  parts := softTokenise isFieldDelim line
  environment := {}
  environmentPATHStorage := []
  shell := lit "/bin/sh"
  randomDelay := 0
  period := []
  timezone := none
  timespecMinute := {}
  timespecHour := {}
  timespecDom := {}
  timespecDow := {}
  timespecMonth := {}
  timespecMinuteRaw := none
  timespecHourRaw := none
  timespecDomRaw := none
  timespecDowRaw := none
  timespecMonthRaw := none
  sundayIsSeven := false
  lastDom := false
  lastDow := false
  schedule := []
  scheduleRaw := []
  bootDelay := 0
  startHour := 0
  persistent := false
  cronUniqueUnits := false
  batch := false
  cronBatchLoadavgBelow := []
  cronBatchThrottleGroup := []
  jobid := []
  unitName := []
  user := lit "root"
  userHome := none
  userUid := 0
  userGid := 0
  cronLogNamespace := []
  cronMailSuccess := .dflt
  cronMailFormat := .dflt
  command := { command := [], command0 := none, nopercent := false }
  execstart := []
  inputData := []
  valid := true
  log := []

/-- `Job::log(priority, message)`. -/
def Job.warn (j : Job) (message : Bytes) : Job :=
  { j with log := j.log ++ [{ priority := .WARNING, message, formatted := false }] }

/-- `Job::log(Log::ERR, message)`. -/
def Job.error (j : Job) (message : Bytes) : Job :=
  { j with log := j.log ++ [{ priority := .ERR, message, formatted := false }] }

/-- `Job::log(Log::ERR, fmt, args...)`. -/
def Job.errorf (j : Job) (message : Bytes) : Job :=
  { j with log := j.log ++ [{ priority := .ERR, message, formatted := true }] }

/-! ### Control variables -/

/-- `!strncasecmp(string.data(), word, string.size())`: the text is an initial part of the word, in
any case. -/
def strncaseeq (string word : Bytes) : Bool :=
  (cstr string).map toLower == word.take string.length

def systemdBool (string : Bytes) : Bool :=
  strncaseeq string (lit "1") || strncaseeq string (lit "yes") || strncaseeq string (lit "true")

def systemdBoolFalse (string : Bytes) : Bool :=
  strncaseeq string (lit "0") || strncaseeq string (lit "no") || strncaseeq string (lit "false")

/-- `CRON_MAIL_SUCCESS`. -/
def Job.decodeMailSuccess (j : Job) (v : Bytes) (dflt : CronMailSuccess) : Job :=
  if v = lit "never" ∨ systemdBoolFalse v then { j with cronMailSuccess := .never }
  else if v = lit "always" ∨ systemdBool v then { j with cronMailSuccess := .always }
  else if v = lit "nonempty" ∨ v = lit "non-empty" then { j with cronMailSuccess := .nonempty }
  else if v = lit "inherit" then { j with cronMailSuccess := dflt }
  else j.warn (lit "unknown CRON_MAIL_SUCCESS value")

/-- `CRON_MAIL_FORMAT`. -/
def Job.decodeMailFormat (j : Job) (v : Bytes) (dflt : CronMailFormat) : Job :=
  if v = lit "normal" then { j with cronMailFormat := .normal }
  else if v = lit "nometadata" ∨ v = lit "no-metadata" then { j with cronMailFormat := .nometadata }
  else if v = lit "inherit" then { j with cronMailFormat := dflt }
  else j.warn (lit "unknown CRON_MAIL_FORMAT value")

/-- `TZ` and `CRON_TZ`: a zone that is not installed leaves the setting as it was. -/
def Job.decodeTimezone (host : Host) (j : Job) (v : Bytes) : Job :=
  let tz := if v.head? = some COLON then v.tail else v
  if tz = [] then { j with timezone := none }
  else if host.exists' (cstr (lit "/usr/share/zoneinfo/" ++ tz)) then { j with timezone := some tz }
  else j

/-- A variable that is passed on to the job. -/
def Job.decodeVariable (host : Host) (j : Job) (k v : Bytes) : Job :=
  let j := if k = lit "SHELL" then { j with shell := v } else j
  let j := if k = lit "TZ" ∨ k = lit "CRON_TZ" then j.decodeTimezone host v else j
  let j :=
    if k = lit "MAILTO" ∧ v ≠ [] ∧ !host.hasSendmail then
      j.warn (lit "a MTA is not installed, but MAILTO is set")
    else j
  { j with environment := j.environment.insertIfNew k v }

/-- The round of `decode_environment` for one variable. -/
def Job.decodeEntry (host : Host) (dfltSuccess : CronMailSuccess) (dfltFormat : CronMailFormat)
    (j : Job) (k v : Bytes) : Job :=
  if k = lit "PERSISTENT" then { j with persistent := systemdBool v }
  else if k = lit "CRON_UNIQUE_UNITS" then { j with cronUniqueUnits := systemdBool v }
  else if k = lit "RANDOM_DELAY" then
    let r := intMap v false false
    let j := { j with randomDelay := r.1 }
    if r.2 then j.warn (lit "invalid RANDOM_DELAY") else j
  else if k = lit "START_HOURS_RANGE" then
    match splitFirst DASH v with
    | none => j.warn (lit "invalid START_HOURS_RANGE")
    | some (start, _) =>
      let r := intMap start false false
      let j := { j with startHour := r.1 }
      if r.2 then j.warn (lit "invalid START_HOURS_RANGE") else j
  else if k = lit "DELAY" then
    let r := intMap v false false
    let j := { j with bootDelay := r.1 }
    if r.2 then j.warn (lit "invalid DELAY") else j
  else if k = lit "BATCH" then { j with batch := systemdBool v }
  else if k = lit "CRON_BATCH_LOADAVG_BELOW" then { j with cronBatchLoadavgBelow := v }
  else if k = lit "CRON_BATCH_THROTTLE_GROUP" then { j with cronBatchThrottleGroup := v }
  else if k = lit "CRON_LOG_NAMESPACE" then { j with cronLogNamespace := v }
  else if k = lit "CRON_MAIL_SUCCESS" then j.decodeMailSuccess v dfltSuccess
  else if k = lit "CRON_MAIL_FORMAT" then j.decodeMailFormat v dfltFormat
  else j.decodeVariable host k v

/-- `decode_environment`. -/
def Job.decodeEnvironment (host : Host) (j : Job) (environment : Env) (dfltPersistent : Bool)
    (dfltSuccess : CronMailSuccess) (dfltFormat : CronMailFormat) : Job :=
  let j := { j with
    persistent := dfltPersistent
    cronMailSuccess := dfltSuccess
    cronMailFormat := dfltFormat }
  environment.foldl (fun j k v => j.decodeEntry host dfltSuccess dfltFormat k v) j

/-! ### What the decoding leaves alone -/

/-- `b` has the line of `a`, and everything that is parsed from it or built of it. -/
structure Job.SameLine (a b : Job) : Prop where
  filename : b.filename = a.filename
  basename : b.basename = a.basename
  line : b.line = a.line
  parts : b.parts = a.parts
  environmentPATHStorage : b.environmentPATHStorage = a.environmentPATHStorage
  period : b.period = a.period
  timespecMinute : b.timespecMinute = a.timespecMinute
  timespecHour : b.timespecHour = a.timespecHour
  timespecDom : b.timespecDom = a.timespecDom
  timespecDow : b.timespecDow = a.timespecDow
  timespecMonth : b.timespecMonth = a.timespecMonth
  schedule : b.schedule = a.schedule
  scheduleRaw : b.scheduleRaw = a.scheduleRaw
  jobid : b.jobid = a.jobid
  user : b.user = a.user
  userHome : b.userHome = a.userHome
  command : b.command = a.command
  execstart : b.execstart = a.execstart
  inputData : b.inputData = a.inputData
  valid : b.valid = a.valid

namespace Job.SameLine

theorem rfl' {a : Job} : a.SameLine a := by constructor <;> rfl

theorem trans {a b c : Job} (h : a.SameLine b) (h' : b.SameLine c) : a.SameLine c := by
  obtain ⟨h1, h2, h3, h4, h5, h6, h7, h8, h9, h10, h11, h12, h13, h14, h15, h16, h17, h18, h19, h20⟩ := h
  obtain ⟨k1, k2, k3, k4, k5, k6, k7, k8, k9, k10, k11, k12, k13, k14, k15, k16, k17, k18, k19, k20⟩ := h'
  exact ⟨k1.trans h1, k2.trans h2, k3.trans h3, k4.trans h4, k5.trans h5, k6.trans h6, k7.trans h7,
    k8.trans h8, k9.trans h9, k10.trans h10, k11.trans h11, k12.trans h12, k13.trans h13,
    k14.trans h14, k15.trans h15, k16.trans h16, k17.trans h17, k18.trans h18, k19.trans h19, k20.trans h20⟩

theorem ite {a b b' : Job} {c : Prop} [Decidable c] (h : a.SameLine b) (h' : a.SameLine b') :
    a.SameLine (if c then b else b') := by
  split
  · exact h
  · exact h'

end Job.SameLine

namespace Job

variable {host : Host} {j : Job} {k v : Bytes} {ds : CronMailSuccess} {df : CronMailFormat}

theorem warn_sameLine (m : Bytes) : j.SameLine (j.warn m) := by constructor <;> rfl

theorem decodeMailSuccess_sameLine : j.SameLine (j.decodeMailSuccess v ds) :=
  .ite (by constructor <;> rfl) <| .ite (by constructor <;> rfl) <| .ite (by constructor <;> rfl) <|
    .ite (by constructor <;> rfl) (warn_sameLine _)

theorem decodeMailFormat_sameLine : j.SameLine (j.decodeMailFormat v df) :=
  .ite (by constructor <;> rfl) <| .ite (by constructor <;> rfl) <| .ite (by constructor <;> rfl)
    (warn_sameLine _)

theorem decodeTimezone_sameLine : j.SameLine (j.decodeTimezone host v) :=
  .ite (by constructor <;> rfl) <| .ite (by constructor <;> rfl) .rfl'

theorem decodeVariable_sameLine : j.SameLine (j.decodeVariable host k v) := by
  unfold decodeVariable
  extract_lets j1 j2 j3
  have h1 : j.SameLine j1 := .ite (by constructor <;> rfl) .rfl'
  have h2 : j1.SameLine j2 := .ite decodeTimezone_sameLine .rfl'
  have h3 : j2.SameLine j3 := .ite (warn_sameLine _) .rfl'
  exact (h1.trans h2).trans (h3.trans (by constructor <;> rfl))

theorem decodeEntry_sameLine : j.SameLine (j.decodeEntry host ds df k v) := by
  -- A number is stored before its text is complained about.
  have hwarn : ∀ {j' : Job} {b : Bool} {m : Bytes}, j.SameLine j' →
      j.SameLine (if b then j'.warn m else j') := fun h => .ite (h.trans (warn_sameLine _)) h
  unfold decodeEntry
  refine .ite (by constructor <;> rfl) <| .ite (by constructor <;> rfl) <|
    .ite (hwarn (by constructor <;> rfl)) <| .ite ?_ <| .ite (hwarn (by constructor <;> rfl)) <|
    .ite (by constructor <;> rfl) <| .ite (by constructor <;> rfl) <| .ite (by constructor <;> rfl) <|
    .ite (by constructor <;> rfl) <| .ite decodeMailSuccess_sameLine <|
    .ite decodeMailFormat_sameLine decodeVariable_sameLine
  split
  · exact warn_sameLine _
  · exact hwarn (by constructor <;> rfl)

/-- `decode_environment` sets nothing that comes from the line. -/
theorem decodeEnvironment_sameLine {env : Env} {b : Bool} :
    j.SameLine (j.decodeEnvironment host env b ds df) := by
  unfold decodeEnvironment
  extract_lets j0
  rw [Std.TreeMap.foldl_eq_foldl_toList]
  have h : ∀ (l : List (Bytes × Bytes)) {j' : Job}, j.SameLine j' →
      j.SameLine (l.foldl (fun j kv => j.decodeEntry host ds df kv.1 kv.2) j') := by
    intro l
    induction l with
    | nil => exact id
    | cons kv l ih => exact fun h => ih (h.trans decodeEntry_sameLine)
  exact h _ (by constructor <;> rfl)

end Job

end SystemdCron
