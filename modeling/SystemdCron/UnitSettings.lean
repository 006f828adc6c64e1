import SystemdCron.InputData
import SystemdCron.Lib.UnitSyntax

/-!
# The settings of the units

The lines of the timer and of the service of a job, taken apart into headers, names and values
(`generateTimer_eq`, `generateService_eq`), and which names those are. What the lines are is said by `generateTimer`
and `generateService` alone: the entries here are for proofs about how they are read.
-/

namespace SystemdCron

open Bytes UnitSyntax

namespace Job

/-! ### Entries -/

/-- The settings of `generate_unit_header`. -/
def unitEntries (j : Job) (tp : Bytes) : List Entry :=
  [.setting (lit "Description")
     (lit "[" ++ tp ++ lit "] " ++ j.lineQuote ++ describeLine j.line ++ j.lineQuote),
   .setting (lit "Documentation") (lit "man:systemd-crontab-generator(8)")] ++
  (if j.filename = lit "-" then [] else [.setting (lit "SourcePath") (cstr j.filename)])

/-- The setting of `format_on_failure` for `OnSuccess`. -/
def successEntry (cfg : Config) (j : Job) (nonempty : Bool) : Entry :=
  if cfg.HAVE_ONSUCCESS then .setting (lit "OnSuccess") (j.mailUnit (lit "Success") nonempty)
  else .setting (lit "Before") (j.mailUnit (lit "Success") nonempty)

/-- The shim for a systemd without `OnSuccess`. -/
def shimEntries (cfg : Config) (j : Job) (nonempty : Bool) : List Entry :=
  if cfg.HAVE_ONSUCCESS then []
  else
    [.setting (lit "ExecStart")
      (lit "-+/usr/bin/systemctl start --no-block " ++ j.mailUnit (lit "Success") nonempty)]

/-- The settings about mail, and the shim. -/
def mailEntries (cfg : Config) (host : Host) (j : Job) : List Entry × List Entry :=
  if j.environment[lit "MAILTO"]? = some [] then ([], [])
  else if !host.hasSendmail then ([], [])
  else
    let failure := .setting (lit "OnFailure") (j.mailUnit (lit "Failure") false)
    match j.cronMailSuccess with
    | .never => ([failure], [])
    | .always => ([failure, j.successEntry cfg false], j.shimEntries cfg false)
    | .nonempty => ([failure, j.successEntry cfg true], j.shimEntries cfg true)

/-- The dependencies of a job that is not for root, or is from the spool. -/
def dependencyEntries (cfg : Config) (j : Job) : List Entry :=
  if j.user ≠ lit "root" ∨ Bytes.contains j.filename cfg.STATEDIR then
    .setting (lit "Requires") (lit "systemd-user-sessions.service") ::
      j.userHome.toList.map fun home => .setting (lit "RequiresMountsFor") (cstr home)
  else []

/-- The field of the journal that has the line. -/
def logEntry (j : Job) : Entry :=
  .setting (lit "LogExtraFields")
    (lit "CRON_JOB=\"" ++ quoteDescription j.lineQuote ++ quoteDescription (describeLine j.line) ++
      quoteDescription j.lineQuote ++ lit "\"")

/-- The settings of every service. -/
def fixedEntries (cfg : Config) : List Entry :=
  [if cfg.PAMNAME ≠ [] then .setting (lit "PAMName") cfg.PAMNAME
   else .setting (lit "KillMode") (lit "process"),
   .setting (lit "WorkingDirectory") (lit "-~"),
   .setting (lit "Type") (lit "oneshot"),
   .setting (lit "IgnoreSIGPIPE") (lit "false"),
   .setting (lit "SyslogFacility") (lit "cron")]

def namespaceEntries (j : Job) : List Entry :=
  if j.cronLogNamespace ≠ [] then [.setting (lit "LogNamespace") (cstr j.cronLogNamespace)] else []

def levelEntries (cfg : Config) : List Entry :=
  if cfg.USE_LOGLEVELMAX ≠ lit "no" then [.setting (lit "LogLevelMax") cfg.USE_LOGLEVELMAX] else []

/-- The command that waits for the boot delay. -/
def bootDelayEntries (cfg : Config) (host : Host) (j : Job) : List Entry :=
  if j.schedule ≠ [] ∧ j.bootDelay ≠ 0 ∧ host.uptime.all (· < j.bootDelay) then
    [.setting (lit "ExecStartPre") (lit "-" ++ cfg.BOOT_DELAY ++ [SPACE] ++ decimal j.bootDelay)]
  else []

/-- The command of the throttling helpers. -/
def helperCommand (cfg : Config) (j : Job) : Option Bytes :=
  if j.cronBatchThrottleGroup ≠ [] then
    some (lit "!" ++ cfg.THROTTLE_GROUP ++ [SPACE] ++ cstr j.cronBatchThrottleGroup ++
      (if j.cronBatchLoadavgBelow ≠ [] then [SPACE] else []) ++ cstr j.cronBatchLoadavgBelow)
  else if j.cronBatchLoadavgBelow ≠ [] then
    some (lit "!" ++ cfg.LOADAVG_DAM ++ [SPACE] ++ cstr j.cronBatchLoadavgBelow)
  else none

def helperEntries (cfg : Config) (j : Job) : List Entry :=
  (j.helperCommand cfg).toList.map (.setting (lit "ExecStartPre"))

/-- A command that waits is not to be stopped. -/
def timeoutEntries (cfg : Config) (host : Host) (j : Job) : List Entry :=
  if (j.bootDelayLine cfg host).isSome || (j.helperLine cfg).isSome then
    [.setting (lit "TimeoutStartSec") (lit "infinity")]
  else []

def environmentEntries (j : Job) : List Entry :=
  if j.environment.isEmpty then [] else [.setting (lit "Environment") (environmentWrite j.environment)]

def inputEntries (j : Job) : List Entry :=
  if j.inputData = [] then []
  else
    [.setting (lit "StandardInput") (lit "data"),
     .setting (lit "StandardInputData") (j.inputChunks.foldl B64.feed {}).finish]

def batchEntries (j : Job) : List Entry :=
  if j.batch then
    [.setting (lit "CPUSchedulingPolicy") (lit "idle"), .setting (lit "IOSchedulingClass") (lit "idle")]
  else []

/-- The settings of the first section of a service. -/
def serviceUnitEntries (cfg : Config) (host : Host) (j : Job) : List Entry :=
  j.unitEntries (lit "Cron") ++ (j.mailEntries cfg host).1 ++ j.dependencyEntries cfg

/-- The settings of a service below its user. -/
def commandEntries (cfg : Config) (host : Host) (j : Job) : List Entry :=
  fixedEntries cfg ++ j.namespaceEntries ++ levelEntries cfg ++ j.bootDelayEntries cfg host ++ j.helperEntries cfg ++
    j.timeoutEntries cfg host ++ [.setting (lit "ExecStart") (cstr j.execstart)] ++ (j.mailEntries cfg host).2 ++
    j.environmentEntries ++ j.inputEntries ++ j.batchEntries

/-- The lines of a service, below its first header. -/
def serviceEntries (cfg : Config) (host : Host) (j : Job) : List Entry :=
  j.serviceUnitEntries cfg host ++ .blank :: .header (lit "Service") :: ([] ++ j.logEntry ::
    .setting (lit "User") (cstr j.user) :: j.commandEntries cfg host)

/-- When the timer elapses. -/
def onCalendar (j : Job) : Bytes := cstr j.schedule ++ j.timezone.elim [] fun tz => SPACE :: cstr tz

def triggerEntry (j : Job) : Entry :=
  if j.schedule = lit "reboot" then .setting (lit "OnBootSec") (decimal j.bootDelay ++ lit "m")
  else .setting (lit "OnCalendar") j.onCalendar

def randomDelayEntries (j : Job) : List Entry :=
  if j.randomDelay ≠ 0 then [.setting (lit "RandomizedDelaySec") (decimal j.randomDelay ++ lit "m")] else []

def persistentEntries (j : Job) : List Entry :=
  if j.persistent then [.setting (lit "Persistent") (lit "true")] else []

def timerUnitEntries (j : Job) : List Entry :=
  j.unitEntries (lit "Timer") ++ [.setting (lit "PartOf") (lit "cron.target")]

/-- The lines of a timer, below its first header. -/
def timerEntries (j : Job) : List Entry :=
  j.timerUnitEntries ++ .blank :: .header (lit "Timer") ::
    (j.triggerEntry :: (j.randomDelayEntries ++ j.persistentEntries))

/-! ### The lines are the entries -/

theorem unlines_eq_text (is : List Entry) : unlines (is.map Entry.line) = text is := by
  rw [unlines, text, List.flatMap_map]

/-- A value after a literal that ends in the equals sign. -/
theorem setting_line {s key : Bytes} (h : s = key ++ [EQUALS]) (value : Bytes) :
    s ++ value = (Entry.setting key value).line := by
  rw [h, List.append_assoc]
  rfl

theorem generateUnitHeader_eq (j : Job) (tp : Bytes) :
    j.generateUnitHeader tp = (Entry.header (lit "Unit") :: j.unitEntries tp).map Entry.line := by
  have hheader : lit "[Unit]" = (Entry.header (lit "Unit")).line := by decide
  have hdescription : lit "Description=[" = lit "Description" ++ [EQUALS] ++ lit "[" := by decide
  have hdocumentation : lit "Documentation=man:systemd-crontab-generator(8)" =
      (Entry.setting (lit "Documentation") (lit "man:systemd-crontab-generator(8)")).line := by decide
  have hdesc : lit "Description=[" ++ tp ++ lit "] " ++ j.lineQuote ++ describeLine j.line ++ j.lineQuote =
      (Entry.setting (lit "Description")
        (lit "[" ++ tp ++ lit "] " ++ j.lineQuote ++ describeLine j.line ++ j.lineQuote)).line := by
    rw [hdescription]
    simp only [List.append_assoc]
    rfl
  unfold generateUnitHeader unitEntries
  rw [hheader, hdesc, hdocumentation]
  split
  · rfl
  · rw [show lit "SourcePath=" ++ cstr j.filename = (Entry.setting (lit "SourcePath") (cstr j.filename)).line from
      setting_line (by decide) _]
    rfl

theorem successEntry_line (cfg : Config) (j : Job) (nonempty : Bool) :
    (j.successEntry cfg nonempty).line = (j.formatOnSuccess cfg nonempty).1 ∧
      (j.shimEntries cfg nonempty).map Entry.line = (j.formatOnSuccess cfg nonempty).2.toList := by
  have hshim : lit "ExecStart=-+/usr/bin/systemctl start --no-block " =
      lit "ExecStart" ++ [EQUALS] ++ lit "-+/usr/bin/systemctl start --no-block " := by decide
  unfold successEntry shimEntries formatOnSuccess
  dsimp only
  split
  · exact ⟨(setting_line (by decide) _).symm, rfl⟩
  · refine ⟨(setting_line (by decide) _).symm, ?_⟩
    rw [hshim, List.append_assoc, List.append_assoc]
    rfl

theorem mailLines_eq (cfg : Config) (host : Host) (j : Job) :
    (j.mailLines cfg host).1 = (j.mailEntries cfg host).1.map Entry.line ∧
      (j.mailLines cfg host).2.toList = (j.mailEntries cfg host).2.map Entry.line := by
  have hfailure : lit "OnFailure=" ++ j.mailUnit (lit "Failure") false =
      (Entry.setting (lit "OnFailure") (j.mailUnit (lit "Failure") false)).line :=
    setting_line (by decide) _
  unfold mailLines mailEntries
  split
  · exact ⟨rfl, rfl⟩
  split
  · exact ⟨rfl, rfl⟩
  dsimp only
  rw [hfailure]
  cases j.cronMailSuccess with
  | never => exact ⟨rfl, rfl⟩
  | always =>
    obtain ⟨h1, h2⟩ := successEntry_line cfg j false
    exact ⟨by dsimp only; rw [← h1]; rfl, h2.symm⟩
  | nonempty =>
    obtain ⟨h1, h2⟩ := successEntry_line cfg j true
    exact ⟨by dsimp only; rw [← h1]; rfl, h2.symm⟩

theorem dependencyEntries_line (cfg : Config) (j : Job) : (j.dependencyEntries cfg).map Entry.line =
    if j.user ≠ lit "root" ∨ Bytes.contains j.filename cfg.STATEDIR then
      lit "Requires=systemd-user-sessions.service" ::
        j.userHome.toList.map fun home => lit "RequiresMountsFor=" ++ cstr home
    else [] := by
  have hrequires : lit "Requires=systemd-user-sessions.service" =
      (Entry.setting (lit "Requires") (lit "systemd-user-sessions.service")).line := by decide
  have hmounts : ∀ home, lit "RequiresMountsFor=" ++ cstr home =
      (Entry.setting (lit "RequiresMountsFor") (cstr home)).line := fun home =>
    setting_line (by decide) _
  rw [hrequires, funext hmounts, dependencyEntries]
  split
  · rw [List.map_cons, List.map_map]
    rfl
  · rfl

theorem bootDelayEntries_line (cfg : Config) (host : Host) (j : Job) :
    (j.bootDelayLine cfg host).toList = (j.bootDelayEntries cfg host).map Entry.line := by
  have hkey : lit "ExecStartPre=-" = lit "ExecStartPre" ++ [EQUALS] ++ lit "-" := by decide
  unfold bootDelayLine bootDelayEntries
  split
  · rw [hkey]
    simp only [List.append_assoc]
    rfl
  · rfl

theorem helperEntries_line (cfg : Config) (j : Job) :
    (j.helperLine cfg).toList = (j.helperEntries cfg).map Entry.line := by
  have hkey : lit "ExecStartPre=!" = lit "ExecStartPre" ++ [EQUALS] ++ lit "!" := by decide
  unfold helperLine helperEntries helperCommand
  split
  · rw [hkey]
    simp only [List.append_assoc]
    rfl
  · split
    · rw [hkey]
      simp only [List.append_assoc]
      rfl
    · rfl

theorem logEntry_line (j : Job) :
    lit "LogExtraFields=CRON_JOB=\"" ++ quoteDescription j.lineQuote ++ quoteDescription (describeLine j.line) ++
      quoteDescription j.lineQuote ++ lit "\"" = j.logEntry.line := by
  have hkey : lit "LogExtraFields=CRON_JOB=\"" = lit "LogExtraFields" ++ [EQUALS] ++ lit "CRON_JOB=\"" := by
    decide
  rw [hkey]
  unfold logEntry
  simp only [List.append_assoc]
  rfl

theorem fixedEntries_line (cfg : Config) :
    [if cfg.PAMNAME ≠ [] then lit "PAMName=" ++ cfg.PAMNAME else lit "KillMode=process",
      lit "WorkingDirectory=-~", lit "Type=oneshot", lit "IgnoreSIGPIPE=false", lit "SyslogFacility=cron"] =
      (fixedEntries cfg).map Entry.line := by
  have hpam : lit "PAMName=" ++ cfg.PAMNAME = (Entry.setting (lit "PAMName") cfg.PAMNAME).line :=
    setting_line (by decide) _
  have hkill : lit "KillMode=process" = (Entry.setting (lit "KillMode") (lit "process")).line := by decide
  have hrest : [lit "WorkingDirectory=-~", lit "Type=oneshot", lit "IgnoreSIGPIPE=false",
      lit "SyslogFacility=cron"] =
      [Entry.setting (lit "WorkingDirectory") (lit "-~"), .setting (lit "Type") (lit "oneshot"),
        .setting (lit "IgnoreSIGPIPE") (lit "false"), .setting (lit "SyslogFacility") (lit "cron")].map
          Entry.line := by decide
  rw [hpam, hkill, hrest, fixedEntries, List.map_cons]
  split <;> rfl

theorem generateService_eq (cfg : Config) (host : Host) (j : Job) :
    j.generateService cfg host = (Entry.header (lit "Unit") :: j.serviceEntries cfg host).map Entry.line := by
  have hservice : lit "[Service]" = (Entry.header (lit "Service")).line := by decide
  have huser : lit "User=" ++ cstr j.user = (Entry.setting (lit "User") (cstr j.user)).line :=
    setting_line (by decide) _
  have hnamespace : (if j.cronLogNamespace ≠ [] then [lit "LogNamespace=" ++ cstr j.cronLogNamespace] else []) =
      j.namespaceEntries.map Entry.line := by
    rw [@setting_line (lit "LogNamespace=") (lit "LogNamespace") (by decide), namespaceEntries]
    split <;> rfl
  have hlevel : (if cfg.USE_LOGLEVELMAX ≠ lit "no" then [lit "LogLevelMax=" ++ cfg.USE_LOGLEVELMAX] else []) =
      (levelEntries cfg).map Entry.line := by
    rw [@setting_line (lit "LogLevelMax=") (lit "LogLevelMax") (by decide), levelEntries]
    split <;> rfl
  have htimeout : (if (j.bootDelayLine cfg host).isSome || (j.helperLine cfg).isSome then
      [lit "TimeoutStartSec=infinity"] else []) = (j.timeoutEntries cfg host).map Entry.line := by
    rw [show lit "TimeoutStartSec=infinity" = (Entry.setting (lit "TimeoutStartSec") (lit "infinity")).line by
      decide, timeoutEntries]
    split <;> rfl
  have hexec : lit "ExecStart=" ++ cstr j.execstart = (Entry.setting (lit "ExecStart") (cstr j.execstart)).line :=
    setting_line (by decide) _
  have henv : (if j.environment.isEmpty then [] else [lit "Environment=" ++ environmentWrite j.environment]) =
      j.environmentEntries.map Entry.line := by
    rw [@setting_line (lit "Environment=") (lit "Environment") (by decide), environmentEntries]
    split <;> rfl
  have hinput : (if j.inputData = [] then [] else [lit "StandardInput=data",
      lit "StandardInputData=" ++ (j.inputChunks.foldl B64.feed {}).finish]) = j.inputEntries.map Entry.line := by
    rw [@setting_line (lit "StandardInputData=") (lit "StandardInputData") (by decide),
      show lit "StandardInput=data" = (Entry.setting (lit "StandardInput") (lit "data")).line by decide,
      inputEntries]
    split <;> rfl
  have hbatch : (if j.batch then [lit "CPUSchedulingPolicy=idle", lit "IOSchedulingClass=idle"] else []) =
      j.batchEntries.map Entry.line := by
    rw [show lit "CPUSchedulingPolicy=idle" = (Entry.setting (lit "CPUSchedulingPolicy") (lit "idle")).line by
        decide,
      show lit "IOSchedulingClass=idle" = (Entry.setting (lit "IOSchedulingClass") (lit "idle")).line by
        decide, batchEntries]
    split <;> rfl
  obtain ⟨hmail, hshim⟩ := mailLines_eq cfg host j
  unfold generateService
  extract_lets mail boot helper
  rw [generateUnitHeader_eq, hmail, hservice, logEntry_line, huser, hnamespace, hlevel,
    bootDelayEntries_line, helperEntries_line, htimeout, hexec, hshim, henv, hinput, hbatch]
  unfold serviceEntries serviceUnitEntries commandEntries
  simp only [List.map_append, List.map_cons, ← fixedEntries_line, dependencyEntries_line, List.cons_append,
    List.append_assoc, List.nil_append]
  generalize j.userHome = home
  cases home <;> rfl

theorem generateTimer_eq (j : Job) :
    j.generateTimer = (Entry.header (lit "Unit") :: j.timerEntries).map Entry.line := by
  have hpart : lit "PartOf=cron.target" = (Entry.setting (lit "PartOf") (lit "cron.target")).line := by
    decide
  have htimer : lit "[Timer]" = (Entry.header (lit "Timer")).line := by decide
  have htrigger : j.triggerEntry.line =
      if j.schedule = lit "reboot" then lit "OnBootSec=" ++ decimal j.bootDelay ++ lit "m"
      else lit "OnCalendar=" ++ cstr j.schedule ++ j.timezone.elim [] fun tz => SPACE :: cstr tz := by
    rw [List.append_assoc, List.append_assoc,
      @setting_line (lit "OnBootSec=") (lit "OnBootSec") (by decide),
      @setting_line (lit "OnCalendar=") (lit "OnCalendar") (by decide), triggerEntry]
    split <;> rfl
  have hdelay : (if j.randomDelay ≠ 0 then [lit "RandomizedDelaySec=" ++ decimal j.randomDelay ++ lit "m"]
      else []) = j.randomDelayEntries.map Entry.line := by
    rw [List.append_assoc,
      @setting_line (lit "RandomizedDelaySec=") (lit "RandomizedDelaySec") (by decide),
      randomDelayEntries]
    split <;> rfl
  have hpersistent : (if j.persistent then [lit "Persistent=true"] else []) = j.persistentEntries.map Entry.line := by
    rw [show lit "Persistent=true" = (Entry.setting (lit "Persistent") (lit "true")).line by decide,
      persistentEntries]
    split <;> rfl
  unfold generateTimer timerEntries timerUnitEntries
  rw [generateUnitHeader_eq, hpart, htimer, hdelay, hpersistent]
  simp only [List.map_append, List.map_cons, htrigger, List.cons_append, List.append_assoc, List.nil_append]
  generalize j.timezone = timezone
  cases timezone <;> rfl

/-! ### Names -/

def unitKeys : List Bytes :=
  [lit "Description", lit "Documentation", lit "SourcePath", lit "OnFailure", lit "OnSuccess", lit "Before",
   lit "Requires", lit "RequiresMountsFor", lit "PartOf"]

def serviceKeys : List Bytes :=
  [lit "LogExtraFields", lit "PAMName", lit "KillMode", lit "WorkingDirectory", lit "Type", lit "IgnoreSIGPIPE",
   lit "SyslogFacility", lit "LogNamespace", lit "LogLevelMax", lit "ExecStartPre", lit "TimeoutStartSec",
   lit "ExecStart", lit "Environment", lit "StandardInput", lit "StandardInputData", lit "CPUSchedulingPolicy",
   lit "IOSchedulingClass"]

def timerKeys : List Bytes :=
  [lit "OnBootSec", lit "OnCalendar", lit "RandomizedDelaySec", lit "Persistent"]

theorem keys_unitKeys : Keys unitKeys := keys_of_all (by decide)

theorem keys_serviceKeys : Keys serviceKeys := keys_of_all (by decide)

theorem keys_timerKeys : Keys timerKeys := keys_of_all (by decide)

theorem unitEntries_keyed (j : Job) (tp : Bytes) : ∀ i ∈ j.unitEntries tp, i.Keyed unitKeys :=
  keyed_append (keyed_cons (by simp [unitKeys]) <| keyed_cons (by simp [unitKeys]) keyed_nil) <|
    keyed_ite keyed_nil <| keyed_cons (by simp [unitKeys]) keyed_nil

theorem successEntry_keyed (cfg : Config) (j : Job) (b : Bool) : (j.successEntry cfg b).Keyed unitKeys := by
  have hkeys : lit "OnSuccess" ∈ unitKeys ∧ lit "Before" ∈ unitKeys := by simp [unitKeys]
  unfold successEntry
  split
  · exact hkeys.1
  · exact hkeys.2

theorem shimEntries_keyed (cfg : Config) (j : Job) (b : Bool) : ∀ i ∈ j.shimEntries cfg b, i.Keyed serviceKeys :=
  keyed_ite keyed_nil <| keyed_cons (by simp [serviceKeys]) keyed_nil

theorem mailEntries_keyed (cfg : Config) (host : Host) (j : Job) :
    (∀ i ∈ (j.mailEntries cfg host).1, i.Keyed unitKeys) ∧
      ∀ i ∈ (j.mailEntries cfg host).2, i.Keyed serviceKeys := by
  have hfailure : lit "OnFailure" ∈ unitKeys := by simp [unitKeys]
  have hsuccess (b : Bool) : ∀ i ∈ [Entry.setting (lit "OnFailure") (j.mailUnit (lit "Failure") false),
      j.successEntry cfg b], i.Keyed unitKeys :=
    keyed_cons hfailure (List.forall_mem_singleton.2 (successEntry_keyed cfg j b))
  unfold mailEntries
  split
  · exact ⟨keyed_nil, keyed_nil⟩
  split
  · exact ⟨keyed_nil, keyed_nil⟩
  cases j.cronMailSuccess with
  | never => exact ⟨keyed_cons hfailure keyed_nil, keyed_nil⟩
  | always => exact ⟨hsuccess false, shimEntries_keyed cfg j false⟩
  | nonempty => exact ⟨hsuccess true, shimEntries_keyed cfg j true⟩

theorem serviceUnitEntries_keyed (cfg : Config) (host : Host) (j : Job) :
    ∀ i ∈ j.serviceUnitEntries cfg host, i.Keyed unitKeys := by
  have hmounts : lit "RequiresMountsFor" ∈ unitKeys := by simp [unitKeys]
  refine keyed_append (keyed_append (unitEntries_keyed j _) (mailEntries_keyed cfg host j).1) ?_
  refine keyed_ite (keyed_cons (by simp [unitKeys]) fun i hi => ?_) keyed_nil
  obtain ⟨home, -, rfl⟩ := List.mem_map.1 hi
  exact hmounts

theorem commandEntries_keyed (cfg : Config) (host : Host) (j : Job) :
    ∀ i ∈ j.commandEntries cfg host, i.Keyed serviceKeys := by
  have hpam : lit "PAMName" ∈ serviceKeys ∧ lit "KillMode" ∈ serviceKeys := by simp [serviceKeys]
  have hpre : lit "ExecStartPre" ∈ serviceKeys := by simp [serviceKeys]
  have hfixed : ∀ i ∈ fixedEntries cfg, i.Keyed serviceKeys := by
    refine List.forall_mem_cons.2 ⟨?_, ?_⟩
    · split
      · exact hpam.1
      · exact hpam.2
    · exact keyed_cons (by simp [serviceKeys]) <| keyed_cons (by simp [serviceKeys]) <|
        keyed_cons (by simp [serviceKeys]) <| keyed_cons (by simp [serviceKeys]) keyed_nil
  have hhelper : ∀ i ∈ j.helperEntries cfg, i.Keyed serviceKeys := fun i hi => by
    obtain ⟨v, -, rfl⟩ := List.mem_map.1 hi
    exact hpre
  have hone {key : Bytes} (h : key ∈ serviceKeys) (value : Bytes) :
      ∀ i ∈ [Entry.setting key value], i.Keyed serviceKeys := keyed_cons h keyed_nil
  refine keyed_append (keyed_append (keyed_append (keyed_append (keyed_append (keyed_append (keyed_append
    (keyed_append (keyed_append (keyed_append hfixed ?_) ?_) ?_) hhelper) ?_) ?_) (mailEntries_keyed cfg host j).2) ?_)
    ?_) ?_
  · exact keyed_ite (hone (by simp [serviceKeys]) _) keyed_nil
  · exact keyed_ite (hone (by simp [serviceKeys]) _) keyed_nil
  · exact keyed_ite (hone hpre _) keyed_nil
  · exact keyed_ite (hone (by simp [serviceKeys]) _) keyed_nil
  · exact hone (by simp [serviceKeys]) _
  · exact keyed_ite keyed_nil (hone (by simp [serviceKeys]) _)
  · exact keyed_ite keyed_nil (keyed_cons (by simp [serviceKeys]) (hone (by simp [serviceKeys]) _))
  · exact keyed_ite (keyed_cons (by simp [serviceKeys]) (hone (by simp [serviceKeys]) _)) keyed_nil

theorem timerUnitEntries_keyed (j : Job) : ∀ i ∈ j.timerUnitEntries, i.Keyed unitKeys :=
  keyed_append (unitEntries_keyed j _) (keyed_cons (by simp [unitKeys]) keyed_nil)

theorem triggerEntries_keyed (j : Job) :
    ∀ i ∈ j.triggerEntry :: (j.randomDelayEntries ++ j.persistentEntries), i.Keyed timerKeys := by
  have hkeys : lit "OnBootSec" ∈ timerKeys ∧ lit "OnCalendar" ∈ timerKeys := by simp [timerKeys]
  refine List.forall_mem_cons.2 ⟨?_, keyed_append ?_ ?_⟩
  · unfold triggerEntry
    split
    · exact hkeys.1
    · exact hkeys.2
  · exact keyed_ite (keyed_cons (by simp [timerKeys]) keyed_nil) keyed_nil
  · exact keyed_ite (keyed_cons (by simp [timerKeys]) keyed_nil) keyed_nil

end Job

end SystemdCron
