import SystemdCron.Unit

/-!
# Crontab files

`parse_crontab`: the lines of a file in order, an environment that the settings among them change, and
a job for every other line (`parseJob`). The callbacks of the source only look at the jobs, so the
model returns them in order.
-/

namespace SystemdCron

open Bytes

/-! ### Environment settings -/

/-- A character of `[A-Za-z_0-9]`. -/
def isNameChar (c : UInt8) : Bool := isAlnum c || c == UNDERSCORE

/-- `ENVVAR_RE`, `^([A-Za-z_0-9]+)[[:space:]]*=[[:space:]]*(.*)$` on a line: the name and the value.
The dot matches every octet but NUL (and newline, which a line does not have). -/
def matchEnvvar (line : Bytes) : Option (Bytes × Bytes) :=
  let key := line.takeWhile isNameChar
  match (line.dropWhile isNameChar).dropWhile isSpace with
  | EQUALS :: r =>
    let value := r.dropWhile isSpace
    if key ≠ [] ∧ NUL ∉ value ∧ LF ∉ value then some (key, value) else none
  | _ => none

/-- Whether a value starts and ends with the same quote. -/
def isQuoted (value : Bytes) : Bool :=
  2 ≤ value.length &&
    ((value.head? == some SQUOTE && value.getLast? == some SQUOTE) ||
      (value.head? == some DQUOTE && value.getLast? == some DQUOTE))

/-- The removal of pairs of quotes, as long as there are any. -/
def dequote : Nat → Bytes → Bytes
  | 0, value => value
  | fuel + 1, value => if isQuoted value then dequote fuel (value.drop 1).dropLast else value

/-- What a setting does to the environment and to `CRON_INHERIT_VARIABLES`. -/
def applySetting (environment : Env) (inherit' key value : Bytes) : Env × Bytes :=
  if key = lit "PERSISTENT" ∧ value = lit "auto" then (environment.erase (lit "PERSISTENT"), inherit')
  else if key = lit "CRON_INHERIT_VARIABLES" then (environment, value)
  else (environment.insert key value, inherit')

/-! ### Lines -/

/-- The lines of a file that are not blank and no comments, without the blanks at their ends. -/
def crontabLines (content : Bytes) : List Bytes :=
  (softTokenise (· == LF) content).filterMap fun line =>
    let line := line.dropWhile isSpace
    if line = [] ∨ line.head? = some HASH then none else some (line.rdropWhile isSpace)

/-- What the callers of `parse_crontab` choose. -/
structure CrontabKind where
  filename : Bytes
  withuser : WithUser
  anacrontab : Bool
  dfltSuccess : CronMailSuccess
  dfltFormat : CronMailFormat

/-- How `/etc/crontab` is parsed. -/
def systemKind : CrontabKind where
  filename := lit "/etc/crontab"
  withuser := .fromCmd0
  anacrontab := false
  dfltSuccess := .dflt
  dfltFormat := .dflt

/-- The job of a line, with the control variables of the environment decoded. -/
def newJob (host : Host) (kind : CrontabKind) (environment : Env) (line : Bytes) : Job :=
  (Job.new kind.filename line).decodeEnvironment host environment
    (kind.anacrontab || line.head? == some AT) kind.dfltSuccess kind.dfltFormat

/-- A job line as its parser takes it apart. -/
def parseLine (host : Host) (kind : CrontabKind) (environment : Env) (line : Bytes) (rng : Rng) :
    Except Fault (Job × Rng) :=
  let j := newJob host kind environment line
  if kind.anacrontab then .ok (j.parseAnacrontab, rng)
  else if line.head? = some AT then .ok (j.parseCrontabAt kind.withuser, rng)
  else j.parseCrontabTimespec kind.withuser rng

/-- A job line under the environment that holds at it. -/
def parseJob (host : Host) (kind : CrontabKind) (environment : Env) (line : Bytes) (rng : Rng) :
    Except Fault (Job × Rng) := do
  let (j, rng) ← parseLine host kind environment line rng
  return ((j.decode host).generateSchedule, rng)

/-- The state of the loop over the lines: the environment, the variables to inherit, the jobs so
far. -/
structure CrontabState where
  environment : Env
  cronInheritVariables : Bytes
  jobs : List Job
  rng : Rng

/-- The round of the loop for one line. -/
def crontabStep (host : Host) (kind : CrontabKind) (s : CrontabState) (line : Bytes) :
    Except Fault CrontabState :=
  match matchEnvvar line with
  | some (key, value) =>
    let r := applySetting s.environment s.cronInheritVariables key (dequote value.length value)
    .ok { s with environment := r.1, cronInheritVariables := r.2 }
  | none =>
    match parseJob host kind s.environment line s.rng with
    | .error f => .error f
    | .ok (j, rng) => .ok { s with jobs := s.jobs ++ [j], rng }

def crontabLoop (host : Host) (kind : CrontabKind) :
    CrontabState → List Bytes → Except Fault CrontabState
  | s, [] => .ok s
  | s, line :: lines =>
    match crontabStep host kind s line with
    | .error f => .error f
    | .ok s => crontabLoop host kind s lines

/-- What `parse_crontab` returns: whether it succeeded, the jobs, and, if the loop ran, what the
preview of the environment is given. -/
structure Crontab where
  ok : Bool
  jobs : List Job
  preview : Option (Bytes × Env)
  rng : Rng

/-- `parse_crontab` on a file with a content, or on a file that does not exist. -/
def parseCrontab (host : Host) (kind : CrontabKind) (environment : Env) (content : Option Bytes)
    (rng : Rng) : Except Fault Crontab :=
  match content with
  | none => .ok { ok := kind.withuser ≠ .initial, jobs := [], preview := none, rng }
  | some content =>
    if content = [] then .ok { ok := true, jobs := [], preview := none, rng }
    else
      let s := { environment, cronInheritVariables := [], jobs := [], rng }
      match crontabLoop host kind s (crontabLines content) with
      | .error f => .error f
      | .ok s =>
        .ok {
          ok := true
          jobs := s.jobs
          preview := some (s.cronInheritVariables, s.environment)
          rng := s.rng }

/-! ### The jobs of a file -/

/-- The jobs the callback of `parse_crontab` sees. -/
def crontabJobs (host : Host) (kind : CrontabKind) (environment : Env) (content : Bytes) (rng : Rng) :
    List Job :=
  match parseCrontab host kind environment (some content) rng with
  | .ok r => r.jobs
  | .error _ => []

/-- The jobs of `/etc/crontab` with some content, on a bare host. -/
abbrev systemJobs (content : Bytes) : List Job :=
  crontabJobs .bare systemKind {} content fun _ => 0

theorem LF_notMem_crontabLines {content line : Bytes} (h : line ∈ crontabLines content) : LF ∉ line := by
  simp only [crontabLines, softTokenise_eq, List.mem_filterMap] at h
  obtain ⟨raw, hraw, h⟩ := h
  split at h
  · cases h
  · cases h
    intro hc
    have hc := (List.dropWhile_sublist _).subset ((List.rdropWhile_prefix _ _).subset hc)
    exact absurd (no_delim_of_mem_tokens hraw _ hc) (by decide)

theorem parseJob_ok {host : Host} {kind : CrontabKind} {environment : Env} {line : Bytes}
    {rng rng' : Rng} {j : Job} (h : parseJob host kind environment line rng = .ok (j, rng')) :
    ∃ p, parseLine host kind environment line rng = .ok (p, rng') ∧
      j = (p.decode host).generateSchedule := by
  simp only [parseJob, bind, Except.bind] at h
  split at h
  · cases h
  next r hr =>
    simp only [pure, Except.pure, Except.ok.injEq, Prod.mk.injEq] at h
    exact ⟨r.1, by rw [hr, ← h.2], h.1.symm⟩

theorem mem_jobs_crontabLoop {host : Host} {kind : CrontabKind} {lines : List Bytes}
    {s s' : CrontabState} (h : crontabLoop host kind s lines = .ok s') {j : Job} (hj : j ∈ s'.jobs) :
    j ∈ s.jobs ∨ ∃ line ∈ lines, ∃ environment rng rng', matchEnvvar line = none ∧
      parseJob host kind environment line rng = .ok (j, rng') := by
  induction lines generalizing s with
  | nil => cases h; exact .inl hj
  | cons line lines ih =>
    simp only [crontabLoop] at h
    split at h
    · cases h
    next s1 hs1 =>
    rcases ih h with hj | ⟨l, hl, rest⟩
    · simp only [crontabStep] at hs1
      split at hs1
      · cases hs1; exact .inl hj
      next hm =>
        split at hs1
        · cases hs1
        next j1 rng1 hp =>
          cases hs1
          rcases List.mem_append.1 hj with hj | hj
          · exact .inl hj
          · obtain rfl := List.mem_singleton.1 hj
            exact .inr ⟨line, by simp, _, _, _, hm, hp⟩
    · exact .inr ⟨l, by simp [hl], rest⟩

/-- Every job of a file is the job of one of its lines. -/
theorem mem_jobs_parseCrontab {host : Host} {kind : CrontabKind} {environment : Env}
    {content : Option Bytes} {rng : Rng} {r : Crontab}
    (h : parseCrontab host kind environment content rng = .ok r) {j : Job} (hj : j ∈ r.jobs) :
    ∃ text, content = some text ∧ ∃ line ∈ crontabLines text, ∃ environment rng rng',
      matchEnvvar line = none ∧ parseJob host kind environment line rng = .ok (j, rng') := by
  simp only [parseCrontab] at h
  split at h
  · cases h; cases hj
  · split at h
    · cases h; cases hj
    · split at h
      · cases h
      next s hs =>
        cases h
        rcases mem_jobs_crontabLoop hs hj with h0 | h0
        · cases h0
        · exact ⟨_, rfl, h0⟩

theorem mem_crontabJobs {host : Host} {kind : CrontabKind} {environment : Env} {content : Bytes}
    {rng : Rng} {j : Job} (hj : j ∈ crontabJobs host kind environment content rng) :
    ∃ r, parseCrontab host kind environment (some content) rng = .ok r ∧ j ∈ r.jobs := by
  unfold crontabJobs at hj
  split at hj
  next r hr => exact ⟨r, hr, hj⟩
  next => cases hj

theorem newJob_sameLine (host : Host) (kind : CrontabKind) (environment : Env) (line : Bytes) :
    (Job.new kind.filename line).SameLine (newJob host kind environment line) :=
  Job.decodeEnvironment_sameLine

theorem newJob_parts (host : Host) (kind : CrontabKind) (environment : Env) (line : Bytes) :
    (newJob host kind environment line).parts = tokens isFieldDelim line :=
  (newJob_sameLine ..).parts.trans (softTokenise_eq _ _)

/-- `b` has what the environment sets and nothing of `a` that is set after parsing. -/
structure Job.SameSettings (a b : Job) : Prop where
  filename : b.filename = a.filename
  line : b.line = a.line
  environment : b.environment = a.environment
  environmentPATHStorage : b.environmentPATHStorage = a.environmentPATHStorage
  shell : b.shell = a.shell
  randomDelay : b.randomDelay = a.randomDelay
  timezone : b.timezone = a.timezone
  schedule : b.schedule = a.schedule
  scheduleRaw : b.scheduleRaw = a.scheduleRaw
  startHour : b.startHour = a.startHour
  persistent : b.persistent = a.persistent
  cronUniqueUnits : b.cronUniqueUnits = a.cronUniqueUnits
  batch : b.batch = a.batch
  cronBatchLoadavgBelow : b.cronBatchLoadavgBelow = a.cronBatchLoadavgBelow
  cronBatchThrottleGroup : b.cronBatchThrottleGroup = a.cronBatchThrottleGroup
  cronMailSuccess : b.cronMailSuccess = a.cronMailSuccess
  cronMailFormat : b.cronMailFormat = a.cronMailFormat
  userHome : b.userHome = a.userHome
  command0 : b.command.command0 = a.command.command0
  execstart : b.execstart = a.execstart

theorem Job.parseCrontabTimespec_ok {j p : Job} {withuser : WithUser} {rng rng' : Rng}
    (h : j.parseCrontabTimespec withuser rng = .ok (p, rng')) :
    (j.parts.length < 6 + (if withuser = .fromCmd0 then 1 else 0) ∧
      ∃ log, p = { j with valid := false, log }) ∨
      ∃ f, j.parseFields (j.parts.getD 0 []) (j.parts.getD 1 []) (j.parts.getD 2 [])
        (j.parts.getD 3 []) (j.parts.getD 4 []) rng = .ok (f, rng') ∧
        6 + (if withuser = .fromCmd0 then 1 else 0) ≤ j.parts.length ∧
        p = f.parseUserCommand withuser 5 := by
  unfold parseCrontabTimespec at h
  extract_lets need user message at h
  split at h
  next hlen => cases h; exact .inl ⟨hlen, _, rfl⟩
  next hlen =>
    simp only [bind, Except.bind] at h
    split at h
    · cases h
    next r hr =>
      simp only [pure, Except.pure, Except.ok.injEq, Prod.mk.injEq] at h
      exact .inr ⟨r.1, by rw [hr, ← h.2], not_lt.1 hlen, h.1.symm⟩

theorem parseLine_sameSettings {host : Host} {kind : CrontabKind} {environment : Env} {line : Bytes}
    {rng rng' : Rng} {p : Job} (h : parseLine host kind environment line rng = .ok (p, rng')) :
    (newJob host kind environment line).SameSettings p := by
  simp only [parseLine] at h
  generalize newJob host kind environment line = j at h ⊢
  split at h
  · cases h
    obtain ⟨_, _, _, _, _, _, _, hp⟩ := Job.parseAnacrontab_eq j
    rw [hp]
    constructor <;> rfl
  · split at h
    · cases h
      obtain ⟨_, _, _, _, _, _, _, hp⟩ := Job.parseCrontabAt_eq j kind.withuser
      rw [hp]
      constructor <;> rfl
    · rcases Job.parseCrontabTimespec_ok h with ⟨-, log, rfl⟩ | ⟨f, hf, -, rfl⟩
      · constructor <;> rfl
      · obtain ⟨user, ws, id, input, hp⟩ := Job.parseUserCommand_eq f kind.withuser 5
        obtain ⟨_, _, _, _, _, _, _, _, _, _, _, _, rfl⟩ := Job.parseFields_ok hf
        rw [hp]
        constructor <;> rfl

theorem parseJob_line {host : Host} {kind : CrontabKind} {environment : Env} {line : Bytes}
    {rng rng' : Rng} {j : Job} (h : parseJob host kind environment line rng = .ok (j, rng')) :
    j.line = line := by
  obtain ⟨p, hp, rfl⟩ := parseJob_ok h
  obtain ⟨_, _, _, _, _, _, _, hdecode⟩ :=
    Job.decodeCommand_eq host { p with jobid := p.jobid.filter isAsciiAlnum }
  rw [(p.decode host).generateSchedule_scheduled.line, Job.decode, hdecode]
  exact (parseLine_sameSettings hp).line.trans (newJob_sameLine host kind environment line).line

/-! ### `crontab -T` -/

/-- `valid_periods` of `check`. -/
def validPeriods : List Bytes :=
  [lit "annually", lit "bi-annually", lit "biannually", lit "daily", lit "hourly", lit "midnight",
   lit "minutely", lit "monthly", lit "quarterly", lit "reboot", lit "semi-annually",
   lit "semiannually", lit "weekly", lit "yearly"]

/-- Whether the callback of `check` sets its error flag. -/
def checkRejects (j : Job) : Bool :=
  if !j.valid then true
  else if j.period ≠ [] then decide (j.period ∉ validPeriods)
  else j.timespecMonth.contains 0 || j.timespecDom.contains 0

/-- How `check` parses its file. -/
def checkKind (cronFile : Bytes) : CrontabKind where
  filename := cronFile
  withuser := .initial
  anacrontab := false
  dfltSuccess := .dflt
  dfltFormat := .dflt

/-- `check`: the exit status is failure if this is true. -/
def check (host : Host) (cronFile : Bytes) (content : Option Bytes) (rng : Rng) :
    Except Fault Bool :=
  match parseCrontab host (checkKind cronFile) {} content rng with
  | .error f => .error f
  | .ok r => .ok (!r.ok || r.jobs.any checkRejects)

end SystemdCron
