import SystemdCron.Crontab

/-!
# The generator

`generate_unit_name`, `generate_timer_unit` with its counters, and `realmain`: `/etc/crontab`, the files
of `/etc/cron.d`, those of `/etc/cron.*` if run-parts is not used, `/etc/anacrontab` and the crontabs of
the users, in this order. The result of a run is the list of the jobs it writes units for.
-/

namespace SystemdCron

open Bytes

/-- `MD5Init`, `MD5Update` and `MD5End` of libmd: the hexadecimal digest of what is fed. -/
structure Md5 where
  hex : Bytes → Bytes
  /-- `MD5End` writes 32 lower-case hexadecimal digits. -/
  length_hex : ∀ b, (hex b).length = 32
  hex_digit : ∀ b, ∀ c ∈ hex b, isDigit c ∨ 97 ≤ c ∧ c ≤ 102

namespace Job

/-- What `generate_unit_name` feeds to MD5: the raw schedule, and every nonempty word of the command
with a NUL before it. -/
def hashInput (j : Job) : Bytes :=
  j.scheduleRaw ++ (j.command.hunks.filter (· ≠ [])).flatMap (NUL :: ·)

/-- What `generate_unit_name` puts before the number or the digest. -/
def stem (j : Job) : Bytes := lit "cron-" ++ j.jobid ++ [DASH]

/-- Whether the name ends in a number. -/
def sequential (j : Job) : Bool := !(j.persistent || j.cronUniqueUnits)

/-- `generate_unit_name`, with the counter of the identifier. -/
def generateUnitName (md5 : Md5) (seq : Nat) (j : Job) : Job × Nat :=
  if j.sequential then
    ({ j with unitName := j.stem ++ decimal seq }, (seq + 1) % 2 ^ 64)
  else ({ j with unitName := j.stem ++ md5.hex j.hashInput }, seq)

/-- `is_active`. -/
def isActive (host : Host) (j : Job) : Bool :=
  !(j.schedule = lit "reboot" && host.exists' REBOOT_FILE)

end Job

/-- The state of a run: the counters `seqs`, the jobs that got units, the start hours found in
`/etc/crontab`, the draws left. -/
structure GenState where
  seqs : Std.TreeMap Bytes Nat
  units : List Job
  distroStartHour : Std.TreeMap Bytes Nat
  rng : Rng

/-- `generate_timer_unit`. -/
def generateTimerUnit (host : Host) (md5 : Md5) (s : GenState) (job : Job) : GenState :=
  if job.valid && job.isActive host then
    let r := job.generateUnitName md5 (s.seqs.getD job.jobid 0)
    { s with seqs := s.seqs.insert job.jobid r.2, units := s.units ++ [r.1] }
  else s

/-! ### Sources -/

/-- The files a run reads, each directory in the order it is enumerated in. -/
structure Sources where
  crontab : Option Bytes
  cronD : List (Bytes × Bytes)
  runParts : Bytes → List Bytes
  anacrontab : Option Bytes
  spool : Option (List (Bytes × Bytes))

/-- `is_masked`. -/
def isMasked (host : Host) (name : Bytes) (mapping : List (Bytes × Bytes)) : Bool :=
  let native (root : Bytes) := root ++ lit "/systemd/system/" ++ name ++ lit ".timer"
  [lit "/lib", lit "/etc", lit "/run"].any (fun root => host.exists' (cstr (native root))) ||
    host.exists' (cstr (lit "/lib/systemd/system/" ++ (mapping.lookup name).getD name ++ lit ".timer"))

/-- `is_backup`. -/
def isBackup (cfg : Config) (name : Bytes) : Bool :=
  if name = lit ".placeholder" then true
  else
    name == lit "0anacron" || name == lit "anacron" ||
      if cfg.USE_DEBIAN_BASENAME_FILTER then !name.all isAsciiAlnum
      else
        (lit ".").isPrefixOf name || (lit "~").isSuffixOf name || Bytes.contains name (lit ".dpkg-") ||
          Bytes.contains name (lit ".rpm")

/-- What `/etc/crontab` leaves to the other files. -/
structure Toplevel where
  fallbackMailto : Option Bytes := none
  inheritVariables : Env := {}
  cronMailSuccess : CronMailSuccess := .dflt
  cronMailFormat : CronMailFormat := .dflt

/-- The preview callbacks of `/etc/crontab`. -/
def toplevelOf (host : Host) (preview : Option (Bytes × Env)) : Toplevel :=
  match preview with
  | none => {}
  | some (cronInheritVariables, environment) =>
    let envjob := (Job.new (lit "/etc/crontab") []).decodeEnvironment host environment false .dflt .dflt
    { fallbackMailto := envjob.environment[lit "MAILTO"]?
      inheritVariables :=
        (softTokenise (fun c => c == SPACE || c == HT) cronInheritVariables).foldl
          (fun env var =>
            match environment[var]? with
            | some v => env.insertIfNew var v
            | none => env) {}
      cronMailSuccess := envjob.cronMailSuccess
      cronMailFormat := envjob.cronMailFormat }

/-- The callback for a job of `/etc/crontab`. -/
def crontabJob (host : Host) (md5 : Md5) (s : GenState) (job : Job) : Except Fault GenState :=
  if !job.valid then .ok s
  else if Bytes.contains job.line (lit "/etc/cron.hourly") then .ok s
  else
    match [lit "daily", lit "weekly", lit "monthly"].find?
      (fun dir => Bytes.contains job.line (lit "/etc/cron." ++ dir)) with
    | some dir =>
      match job.timespecHour.toList with
      | [] => .error .outOfBounds
      | hour :: _ =>
        .ok (if hour = TIMESPEC_ASTERISK then s
          else { s with distroStartHour := s.distroStartHour.insert dir hour })
    | none => .ok (generateTimerUnit host md5 s job)

/-- The `MAILTO` of `/etc/crontab` for a job that has none. -/
def withFallbackMailto (top : Toplevel) (job : Job) : Job :=
  match top.fallbackMailto with
  | some v => { job with environment := job.environment.insertIfNew (lit "MAILTO") v }
  | none => job

/-- The callback for a job of `/etc/cron.d`. -/
def cronDJob (host : Host) (md5 : Md5) (top : Toplevel) (s : GenState) (job : Job) : GenState :=
  if !job.valid then s else generateTimerUnit host md5 s (withFallbackMailto top job)

/-- The callback for a job of `/etc/anacrontab`. -/
def anacrontabJob (host : Host) (md5 : Md5) (s : GenState) (job : Job) : GenState :=
  if !job.valid then s else generateTimerUnit host md5 s job

/-- The job of an executable in `/etc/cron.{period}`, the `i`-th of the periods. -/
def runPartsJob (host : Host) (top : Toplevel) (s : GenState) (period name : Bytes) (i : Nat) : Job :=
  let filename := lit "/etc/cron." ++ period ++ [SLASH] ++ name
  let j := (Job.new filename filename).decodeEnvironment host top.inheritVariables true
    top.cronMailSuccess top.cronMailFormat
  let j := { j with
    period
    startHour := s.distroStartHour.getD period 0
    bootDelay := i * 5
    command := { command := [filename], command0 := none, nopercent := true }
    jobid := period ++ [DASH] ++ name }
  let j := withFallbackMailto top (j.decode host).generateSchedule
  { j with unitName := lit "cron-" ++ j.jobid }

/-- The round for one file of `/etc/cron.{period}`. -/
def runPartsStep (cfg : Config) (host : Host) (top : Toplevel) (period : Bytes) (i : Nat)
    (s : GenState) (name : Bytes) : GenState :=
  if isMasked host name cfg.PART2TIMER || isBackup cfg name ||
      !host.isExecutable (cstr (lit "/etc/cron." ++ period ++ [SLASH] ++ name)) then s
  else { s with units := s.units ++ [runPartsJob host top s period name i] }

/-- The periods of `/etc/cron.*`, with their numbers. -/
def runPartsPeriods : List (Bytes × Nat) :=
  [(lit "hourly", 1), (lit "daily", 2), (lit "weekly", 3), (lit "monthly", 4), (lit "yearly", 5)]

/-- The round for one file of `/etc/cron.d`. -/
def cronDStep (cfg : Config) (host : Host) (md5 : Md5) (top : Toplevel) (s : GenState)
    (file : Bytes × Bytes) : Except Fault GenState := do
  if isMasked host file.1 cfg.CROND2TIMER || isBackup cfg file.1 then return s
  let kind : CrontabKind := {
    filename := lit "/etc/cron.d/" ++ file.1
    withuser := .fromCmd0
    anacrontab := false
    dfltSuccess := top.cronMailSuccess
    dfltFormat := top.cronMailFormat }
  let r ← parseCrontab host kind top.inheritVariables (some file.2) s.rng
  return r.jobs.foldl (cronDJob host md5 top) { s with rng := r.rng }

/-- The round for one file of the spool. -/
def spoolStep (cfg : Config) (host : Host) (md5 : Md5) (top : Toplevel) (s : GenState)
    (file : Bytes × Bytes) : Except Fault GenState := do
  if 46 ∈ file.1 then return s
  let kind : CrontabKind := {
    filename := cfg.STATEDIR ++ [SLASH] ++ file.1
    withuser := .fromBasename
    anacrontab := false
    dfltSuccess := top.cronMailSuccess
    dfltFormat := top.cronMailFormat }
  let r ← parseCrontab host kind top.inheritVariables (some file.2) s.rng
  return r.jobs.foldl (generateTimerUnit host md5) { s with rng := r.rng }

/-- `realmain`. -/
def realmain (cfg : Config) (host : Host) (md5 : Md5) (sources : Sources) (rng : Rng) :
    Except Fault GenState := do
  let s : GenState := { seqs := {}, units := [], distroStartHour := {}, rng }
  let r ← parseCrontab host systemKind {} sources.crontab s.rng
  let s ← r.jobs.foldlM (crontabJob host md5) { s with rng := r.rng }
  let top := toplevelOf host r.preview
  let s ← sources.cronD.foldlM (cronDStep cfg host md5 top) s
  let s :=
    if cfg.USE_RUNPARTS then s
    else
      runPartsPeriods.foldl (fun s p =>
        (sources.runParts p.1).foldl (runPartsStep cfg host top p.1 p.2) s) s
  let kind : CrontabKind := {
    filename := lit "/etc/anacrontab"
    withuser := .fromBasename
    anacrontab := true
    dfltSuccess := top.cronMailSuccess
    dfltFormat := top.cronMailFormat }
  let r ← parseCrontab host kind {} sources.anacrontab s.rng
  let s := r.jobs.foldl (anacrontabJob host md5) { s with rng := r.rng }
  (sources.spool.getD []).foldlM (spoolStep cfg host md5 top) s

end SystemdCron
