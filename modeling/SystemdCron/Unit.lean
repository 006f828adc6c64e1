import SystemdCron.Schedule

/-!
# Unit files

The texts of the `.timer`, `.service` and `.sh` files of a job (`generate_timer`,
`generate_service`, `generate_scriptlet`), with the `b64` writer of `util.hpp`. A unit is a list of
lines. The files are taken to be written without errors.
-/

namespace SystemdCron

open Bytes

/-- Every line with its newline. -/
def unlines (ls : List Bytes) : Bytes := ls.flatMap (· ++ [LF])

/-! ### `b64` -/

/-- `b64`: a 16-bit accumulator, the number of bits in it, and what was written. -/
structure B64 where
  acc : Nat := 0
  accsz : Nat := 0
  into : Bytes := []
  deriving DecidableEq, Repr

namespace B64

def alphabet : Bytes := lit "ABCDEFGHIJKLMNOPQRSTUVWXYZabcdefghijklmnopqrstuvwxyz0123456789-_"

/-- Write the six top bits of the accumulator and shift them out. -/
def put (b : B64) : B64 where
  acc := b.acc * 2 ^ 6 % 2 ^ 16
  accsz := b.accsz - 6
  into := b.into ++ [alphabet.getD (b.acc / 2 ^ 10) 0]

/-- The rounds of `feed` that take no octet. -/
def drain : Nat → B64 → B64
  | 0, b => b
  | n + 1, b => if b.accsz < 6 then b else drain n b.put

/-- The rounds of `feed` from the taking of one octet to the next: at most two characters come of
it. -/
def feedByte (b : B64) (c : UInt8) : B64 :=
  drain 2 { b with acc := b.acc ||| c.toNat * 2 ^ (8 - b.accsz), accsz := b.accsz + 8 }

def feed (b : B64) (data : Bytes) : B64 := data.foldl feedByte b

def finish (b : B64) : Bytes :=
  if b.accsz = 0 then b.into
  else
    b.into ++ [alphabet.getD (b.acc / 2 ^ 10) 0] ++ (if b.accsz ≤ 4 then [EQUALS] else []) ++
      (if b.accsz = 2 then [EQUALS] else [])

end B64

/-! ### Percent signs of the command -/

/-- Split at the first `\%`, which belongs to neither half. -/
def findBackpct : Bytes → Option (Bytes × Bytes)
  | BACKSLASH :: PERCENT :: r => some ([], r)
  | c :: r => (findBackpct r).map fun p => (c :: p.1, p.2)
  | [] => none

/-- The loop of `debackslashpercentise`. -/
def backslashpercentSegments : Nat → Bytes → List (Bytes × Bool)
  | 0, _ => []
  | fuel + 1, cmd =>
    if cmd = [] then []
    else
      match findBackpct cmd with
      | none => [(cmd, true)]
      | some (a, b) => (a, true) :: ([PERCENT], false) :: backslashpercentSegments fuel b

/-- The octets of `\xXX`. -/
def hexEscape (byte : UInt8) : Bytes :=
  let digit (n : Nat) : UInt8 := (if n < 10 then 48 + n else 87 + n).toUInt8
  [BACKSLASH, 120, digit (byte.toNat / 16), digit (byte.toNat % 16)]

/-! ### The description -/

/-- What `mbrlen` returns in the `C.UTF-8` locale from the initial state. -/
inductive Mbrlen where
  | invalid
  | incomplete
  | nul
  | length (n : Nat)
  deriving DecidableEq, Repr

/-- The continuation octets of a character: the first is within bounds, the others are any. -/
def mbrlenRest (lo hi : UInt8) (n : Nat) (s : Bytes) : Mbrlen :=
  match s with
  | [] => .incomplete
  | c :: r =>
    if c < lo ∨ hi < c then .invalid
    else
      let others := r.take (n - 1)
      if others.any (fun d => d < 0x80 || 0xBF < d) then .invalid
      else if others.length < n - 1 then .incomplete
      else .length (n + 1)

def mbrlen (s : Bytes) : Mbrlen :=
  match s with
  | [] => .incomplete
  | c :: r =>
    if c = 0 then .nul
    else if c < 0x80 then .length 1
    else if c < 0xC2 then .invalid
    else if c < 0xE0 then mbrlenRest 0x80 0xBF 1 r
    else if c < 0xF0 then
      mbrlenRest (if c = 0xE0 then 0xA0 else 0x80) (if c = 0xED then 0x9F else 0xBF) 2 r
    else if c < 0xF5 then
      mbrlenRest (if c = 0xF0 then 0x90 else 0x80) (if c = 0xF4 then 0x8F else 0xBF) 3 r
    else .invalid

/-- The loop of `describe_line` over the rest of the line; the copy is begun at the first octet that
has to be written in another way. -/
def describeLoop (line : Bytes) : Nat → Bytes → Option Bytes → Option Bytes
  | 0, _, escaped => escaped
  | fuel + 1, desc, escaped =>
    if desc = [] then escaped
    else
      let begun := escaped.getD (line.take (line.length - desc.length))
      let hex (conv : Nat) : Option Bytes :=
        describeLoop line fuel (desc.drop conv) (some (begun ++ (desc.take conv).flatMap hexEscape))
      match mbrlen desc with
      | .invalid | .nul => hex 1
      | .incomplete => hex desc.length
      | .length conv =>
        if desc.head? = some PERCENT then
          describeLoop line fuel (desc.drop conv) (some (begun ++ [PERCENT, PERCENT]))
        else describeLoop line fuel (desc.drop conv) (escaped.map (· ++ desc.take conv))

/-- `line_description` after `describe_line`. -/
def describeLine (line : Bytes) : Bytes := (describeLoop line line.length line none).getD line

/-- The description with a backslash before every quote and backslash, as the inner loop of
`generate_service` writes it. -/
def quoteDescription (desc : Bytes) : Bytes :=
  desc.flatMap fun c => if c = DQUOTE ∨ c = BACKSLASH then [BACKSLASH, c] else [c]

/-- `environment_write`. -/
def environmentWrite (env : Env) : Bytes :=
  joinWords <| env.toList.map fun (k, v) =>
    let quote := if SPACE ∈ v then [DQUOTE] else []
    quote ++ k ++ [EQUALS] ++ v ++ quote

namespace Job

/-- `debackslashpercentise`: the segments passed to `append`, each with `replace_percent`. -/
def debackslashpercentise (j : Job) (cmd : Bytes) : List (Bytes × Bool) :=
  if j.command.nopercent then [(cmd, false)] else backslashpercentSegments cmd.length cmd

/-- The quote around the description of a line that is not a path. -/
def lineQuote (j : Job) : Bytes := if j.line.head? = some SLASH then [] else [DQUOTE]

/-- `generate_unit_header`. -/
def generateUnitHeader (j : Job) (tp : Bytes) : List Bytes :=
  [lit "[Unit]",
   lit "Description=[" ++ tp ++ lit "] " ++ j.lineQuote ++ describeLine j.line ++ j.lineQuote,
   lit "Documentation=man:systemd-crontab-generator(8)"] ++
  (if j.filename = lit "-" then [] else [lit "SourcePath=" ++ cstr j.filename])

/-- The instance of `cron-mail@` for an outcome. -/
def mailUnit (j : Job) (state : Bytes) (nonempty : Bool) : Bytes :=
  lit "cron-mail@%n:" ++ state ++ (if nonempty then lit ":nonempty" else []) ++
    (if j.cronMailFormat = .nometadata then lit ":nometadata" else []) ++ lit ".service"

/-- `format_on_failure` for `OnSuccess`: the line written, and the shim for a systemd that has no
such key. -/
def formatOnSuccess (cfg : Config) (j : Job) (nonempty : Bool) : Bytes × Option Bytes :=
  let unit := j.mailUnit (lit "Success") nonempty
  if cfg.HAVE_ONSUCCESS then (lit "OnSuccess=" ++ unit, none)
  else
    (lit "Before=" ++ unit,
     some (lit "ExecStart=-+/usr/bin/systemctl start --no-block " ++ unit))

/-- The lines about mail, and the shim. -/
def mailLines (cfg : Config) (host : Host) (j : Job) : List Bytes × Option Bytes :=
  if j.environment[lit "MAILTO"]? = some [] then ([], none)
  else if !host.hasSendmail then ([], none)
  else
    let failure := lit "OnFailure=" ++ j.mailUnit (lit "Failure") false
    match j.cronMailSuccess with
    | .never => ([failure], none)
    | .always => let r := j.formatOnSuccess cfg false; ([failure, r.1], r.2)
    | .nonempty => let r := j.formatOnSuccess cfg true; ([failure, r.1], r.2)

/-- The `ExecStartPre=` line that waits for the boot delay. -/
def bootDelayLine (cfg : Config) (host : Host) (j : Job) : Option Bytes :=
  if j.schedule ≠ [] ∧ j.bootDelay ≠ 0 ∧ host.uptime.all (· < j.bootDelay) then
    some (lit "ExecStartPre=-" ++ cfg.BOOT_DELAY ++ [SPACE] ++ decimal j.bootDelay)
  else none

/-- The `ExecStartPre=` line of the throttling helpers, run with full privileges. -/
def helperLine (cfg : Config) (j : Job) : Option Bytes :=
  if j.cronBatchThrottleGroup ≠ [] then
    some (lit "ExecStartPre=!" ++ cfg.THROTTLE_GROUP ++ [SPACE] ++ cstr j.cronBatchThrottleGroup ++
      (if j.cronBatchLoadavgBelow ≠ [] then [SPACE] else []) ++ cstr j.cronBatchLoadavgBelow)
  else if j.cronBatchLoadavgBelow ≠ [] then
    some (lit "ExecStartPre=!" ++ cfg.LOADAVG_DAM ++ [SPACE] ++ cstr j.cronBatchLoadavgBelow)
  else none

/-- A segment of the input as it is fed to the encoder: in a segment that is not an escaped percent
sign, the loop feeds what is before a percent sign and then a newline. -/
def feedSegment (segment : Bytes) (replacePercent : Bool) : List Bytes :=
  if replacePercent then ((segment.splitOn PERCENT).intersperse [LF]) else [segment]

/-- The texts `generate_service` feeds to `b64`, in order. -/
def inputChunks (j : Job) : List Bytes :=
  (j.debackslashpercentise j.inputData).flatMap fun s => feedSegment s.1 s.2

/-- `generate_service`. -/
def generateService (cfg : Config) (host : Host) (j : Job) : List Bytes :=
  let mail := j.mailLines cfg host
  let boot := j.bootDelayLine cfg host
  let helper := j.helperLine cfg
  j.generateUnitHeader (lit "Cron") ++ mail.1 ++
  (if j.user ≠ lit "root" ∨ Bytes.contains j.filename cfg.STATEDIR then
    lit "Requires=systemd-user-sessions.service" ::
      (match j.userHome with
       | some home => [lit "RequiresMountsFor=" ++ cstr home]
       | none => [])
   else []) ++
  [[],
   lit "[Service]",
   lit "LogExtraFields=CRON_JOB=\"" ++ quoteDescription j.lineQuote ++
     quoteDescription (describeLine j.line) ++ quoteDescription j.lineQuote ++ lit "\"",
   lit "User=" ++ cstr j.user,
   if cfg.PAMNAME ≠ [] then lit "PAMName=" ++ cfg.PAMNAME else lit "KillMode=process",
   lit "WorkingDirectory=-~",
   lit "Type=oneshot",
   lit "IgnoreSIGPIPE=false",
   lit "SyslogFacility=cron"] ++
  (if j.cronLogNamespace ≠ [] then [lit "LogNamespace=" ++ cstr j.cronLogNamespace] else []) ++
  (if cfg.USE_LOGLEVELMAX ≠ lit "no" then [lit "LogLevelMax=" ++ cfg.USE_LOGLEVELMAX] else []) ++
  boot.toList ++ helper.toList ++
  (if boot.isSome || helper.isSome then [lit "TimeoutStartSec=infinity"] else []) ++
  [lit "ExecStart=" ++ cstr j.execstart] ++ mail.2.toList ++
  (if j.environment.isEmpty then [] else [lit "Environment=" ++ environmentWrite j.environment]) ++
  (if j.inputData = [] then []
   else
    [lit "StandardInput=data",
     lit "StandardInputData=" ++ (j.inputChunks.foldl B64.feed {}).finish]) ++
  (if j.batch then [lit "CPUSchedulingPolicy=idle", lit "IOSchedulingClass=idle"] else [])

/-- `generate_timer`. -/
def generateTimer (j : Job) : List Bytes :=
  j.generateUnitHeader (lit "Timer") ++
  [lit "PartOf=cron.target", [], lit "[Timer]",
   if j.schedule = lit "reboot" then lit "OnBootSec=" ++ decimal j.bootDelay ++ lit "m"
   else
    lit "OnCalendar=" ++ cstr j.schedule ++
      (match j.timezone with
       | some tz => SPACE :: cstr tz
       | none => [])] ++
  (if j.randomDelay ≠ 0 then [lit "RandomizedDelaySec=" ++ decimal j.randomDelay ++ lit "m"] else []) ++
  (if j.persistent then [lit "Persistent=true"] else [])

/-! ### The scriptlet -/

/-- A text with its `\%` undone, as the scriptlet and `ExecStart=` have it. -/
def unescaped (j : Job) (hunk : Bytes) : Bytes := (j.debackslashpercentise hunk).flatMap (·.1)

/-- What `output` writes to the scriptlet. -/
def scriptletText (j : Job) : Bytes :=
  let hunks := j.command.hunks.filter (· ≠ [])
  if hunks = [] then [] else joinWords (hunks.map j.unescaped) ++ [LF]

/-- `generate_scriptlet`: no scriptlet if the command is one word that names a regular file. -/
def generateScriptlet (host : Host) (targetDir : Bytes) (j : Job) : Job × Option Bytes :=
  let scriptlet := targetDir ++ [SLASH] ++ j.unitName ++ lit ".sh"
  let wrapped (j : Job) : Job := { j with execstart := j.shell ++ [SPACE] ++ scriptlet }
  if j.command.size = 1 then
    let j := j.pullUser host
    if j.userHome.isSome then
      let j := { j with execstart := j.execstart ++ j.unescaped (j.command.get 0) }
      if host.isRegular j.userUid j.userGid (cstr j.execstart) then (j, none)
      else (wrapped j, some scriptlet)
    else (wrapped j, some scriptlet)
  else (wrapped j, some scriptlet)

/-- `generate_scriptlet` sets the home, the ids and the command to run, and names the scriptlet after
the unit. -/
theorem generateScriptlet_eq (host : Host) (targetDir : Bytes) (j : Job) :
    (∃ home uid gid exec, (j.generateScriptlet host targetDir).1 =
      { j with userHome := home, userUid := uid, userGid := gid, execstart := exec }) ∧
    ∀ p, (j.generateScriptlet host targetDir).2 = some p →
      p = targetDir ++ [SLASH] ++ j.unitName ++ lit ".sh" := by
  obtain ⟨home, uid, gid, hp⟩ := j.pullUser_eq host
  unfold generateScriptlet
  rw [hp]
  extract_lets scriptlet wrapped j1 j2
  have hsome : ∀ p, some scriptlet = some p → p = scriptlet := fun p h => (Option.some.inj h).symm
  split
  · split
    · split
      · exact ⟨⟨_, _, _, _, rfl⟩, nofun⟩
      · exact ⟨⟨_, _, _, _, rfl⟩, hsome⟩
    · exact ⟨⟨_, _, _, _, rfl⟩, hsome⟩
  · exact ⟨⟨_, _, _, _, rfl⟩, hsome⟩

/-- A file of the target directory. -/
structure UnitFile where
  path : Bytes
  content : Bytes
  deriving DecidableEq, Repr

/-- `output`: the files written, in order. The timer is also linked into `TIMERS_DIR`. -/
def output (cfg : Config) (host : Host) (targetDir : Bytes) (j : Job) : List UnitFile :=
  let r := j.generateScriptlet host targetDir
  let j := r.1
  (match r.2 with
   | some scriptlet => [{ path := scriptlet, content := j.scriptletText }]
   | none => []) ++
  [{ path := targetDir ++ [SLASH] ++ j.unitName ++ lit ".timer", content := unlines j.generateTimer },
   { path := targetDir ++ [SLASH] ++ j.unitName ++ lit ".service",
     content := unlines (j.generateService cfg host) }]

/-- The paths of a job's files, by their last octets. -/
theorem mem_output {cfg : Config} {host : Host} {targetDir : Bytes} {j : Job} {f : UnitFile}
    (h : f ∈ j.output cfg host targetDir) :
    ∃ ext ∈ [lit ".sh", lit ".timer", lit ".service"],
      f.path = targetDir ++ [SLASH] ++ j.unitName ++ ext := by
  obtain ⟨⟨home, uid, gid, exec, heq⟩, hpath⟩ := j.generateScriptlet_eq host targetDir
  unfold output at h
  extract_lets r j1 at h
  rcases List.mem_append.1 h with h | h
  · split at h
    next p hp =>
      obtain rfl := List.mem_singleton.1 h
      exact ⟨_, by simp, hpath p hp⟩
    · cases h
  · simp only [List.mem_cons, List.not_mem_nil, or_false] at h
    rcases h with rfl | rfl
    · exact ⟨lit ".timer", by simp, by simp only [j1, r, heq]⟩
    · exact ⟨lit ".service", by simp, by simp only [j1, r, heq]⟩

end Job

end SystemdCron
