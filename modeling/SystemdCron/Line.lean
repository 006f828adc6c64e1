import SystemdCron.Job

/-!
# Parsing a job line

`parse_anacrontab`, `parse_crontab_at`, `parse_crontab_timespec`, `parse_percent`, `decode` and
`decode_command` of `struct Job`. The views of the source point into the line: where `parse_percent`
takes everything from a `%` to the end of the line, the model takes the rest of the word and what the
line has after it (`dropFields`).
-/

namespace SystemdCron

open Bytes

/-- The line after its first `n` fields. -/
def dropFields : Nat → Bytes → Bytes
  | 0, s => s
  | n + 1, s => dropFields n ((s.dropWhile isFieldDelim).dropWhile fun c => !isFieldDelim c)

@[simp] theorem dropFields_zero (s : Bytes) : dropFields 0 s = s := rfl

@[simp] theorem dropFields_nil (n : Nat) : dropFields n [] = [] := by
  induction n with
  | zero => rfl
  | succ n ih => simpa [dropFields] using ih

theorem dropFields_add (m n : Nat) (s : Bytes) : dropFields (m + n) s = dropFields n (dropFields m s) := by
  induction m generalizing s with
  | zero => simp
  | succ m ih => rw [Nat.succ_add]; exact ih _

theorem dropFields_cons_delim {c : UInt8} (hc : isFieldDelim c) (n : Nat) (b : Bytes) :
    dropFields (n + 1) (c :: b) = dropFields (n + 1) b := by
  simp [dropFields, hc]

theorem dropFields_word {w : Bytes} (hne : w ≠ []) (hw : ∀ x ∈ w, isFieldDelim x = false)
    {c : UInt8} (hc : isFieldDelim c) (n : Nat) (b : Bytes) :
    dropFields (n + 1) (w ++ c :: b) = dropFields n (c :: b) := by
  have h0 : (w ++ c :: b).dropWhile isFieldDelim = w ++ c :: b := by
    obtain ⟨x, r, rfl⟩ := List.exists_cons_of_ne_nil hne
    simp [hw x (by simp)]
  have hw' : ∀ x ∈ w, (!isFieldDelim x) = true := fun x hx => by simp [hw x hx]
  rw [dropFields, h0, List.dropWhile_append_of_pos hw', List.dropWhile_cons]
  simp [hc]

theorem dropFields_last {w : Bytes} (hne : w ≠ []) (hw : ∀ x ∈ w, isFieldDelim x = false) (n : Nat) :
    dropFields (n + 1) w = [] := by
  have h0 : w.dropWhile isFieldDelim = w := by
    obtain ⟨x, r, rfl⟩ := List.exists_cons_of_ne_nil hne
    simp [hw x (by simp)]
  have h1 : w.dropWhile (fun c => !isFieldDelim c) = [] := by
    rw [List.dropWhile_eq_nil_iff]; exact fun x hx => by simp [hw x hx]
  rw [dropFields, h0, h1, dropFields_nil]

/-- The fields of what is left of a line are the fields that are left. -/
theorem tokens_dropFields (n : Nat) (s : Bytes) :
    tokens isFieldDelim (dropFields n s) = (tokens isFieldDelim s).drop n := by
  induction s using tokens_induction (p := isFieldDelim) generalizing n with
  | nil => simp
  | delimiter c b hc ih =>
    cases n with
    | zero => simp
    | succ n => rw [dropFields_cons_delim hc, tokens_cons_delim b hc]; exact ih _
  | last w hne hw =>
    cases n with
    | zero => simp
    | succ n => simp [dropFields_last hne hw, tokens_of_no_delim hw hne]
  | word w c b hne hw hc ih =>
    cases n with
    | zero => simp
    | succ n =>
      rw [dropFields_word hne hw hc, tokens_append_word b hw hne hc, List.drop_succ_cons]
      cases n with
      | zero => simpa using tokens_cons_delim b hc
      | succ n => rw [dropFields_cons_delim hc]; exact ih _

/-! ### The command -/

/-- Split a word at its first `%` that is its first octet or has no backslash before it. -/
def cutPercent (prev : Option UInt8) : Bytes → Option (Bytes × Bytes)
  | [] => none
  | c :: r =>
    if c = PERCENT ∧ prev ≠ some BACKSLASH then some ([], r)
    else (cutPercent (some c) r).map fun p => (c :: p.1, p.2)

/-- The words up to the first that has an unescaped `%`, that word cut there, what the word has after
the `%`, and the place of the word among the fields of the line, of which `i` come before these. -/
def percentWord : List Bytes → Nat → Option (List Bytes × Bytes × Nat)
  | [], _ => none
  | w :: ws, i =>
    match cutPercent none w with
    | some (a, b) => some ([a], b, i)
    | none => (percentWord ws (i + 1)).map fun p => (w :: p.1, p.2)

namespace Job

/-- `parse_percent`, for a command that starts after `skip` fields of the line. -/
def parsePercent (j : Job) (skip : Nat) : Job :=
  match percentWord j.command.command skip with
  | none => j
  | some (ws, after, i) =>
    { j with
      command := { j.command with command := ws }
      inputData := after ++ dropFields (i + 1) j.line }

/-- `parse_anacrontab`. -/
def parseAnacrontab (j : Job) : Job :=
  match j.parts with
  | period :: delay :: ident :: c :: cs =>
    let r := intMap delay false false
    let j := { j with
      period
      jobid := lit "anacron-" ++ ident
      bootDelay := r.1 }
    let j := if r.2 then j.warn (lit "invalid DELAY") else j
    { j with command := { j.command with command := c :: cs, nopercent := true } }
  | _ => { j with valid := false }

/-- `"have %zu field%s, need ≥%d (…%s program)"`. -/
def fieldCountMessage (have' need : Nat) (what user : Bytes) : Bytes :=
  lit "have " ++ decimal have' ++ lit " field" ++ (if have' = 1 then [] else lit "s") ++
    lit ", need ≥" ++ decimal need ++ lit " (" ++ what ++ user ++ lit " program)"

/-- The last part of `parse_crontab_at` and `parse_crontab_timespec`: the user, the command, which
starts after `skip` fields or one later if the next field is the user, and the identifier. -/
def parseUserCommand (j : Job) (withuser : WithUser) (skip : Nat) : Job :=
  let r : Bytes × Nat := match withuser with
    | .fromCmd0 => (j.parts.getD skip [], skip + 1)
    | .fromBasename => (j.basename, skip)
    | .initial => (j.user, skip)
  let j := { j with
    user := r.1
    command := { j.command with command := j.parts.drop r.2 }
    jobid := j.basename ++ [DASH] ++ r.1 }
  j.parsePercent r.2

/-- `parse_crontab_at`: `@daily (user) do something`. -/
def parseCrontabAt (j : Job) (withuser : WithUser) : Job :=
  let need := 2 + (if withuser = .fromCmd0 then 1 else 0)
  let user := if withuser = .fromCmd0 then lit " user" else []
  if j.parts.length < need then
    { j.errorf (fieldCountMessage j.parts.length need (lit "@timespec") user) with valid := false }
  else
    let j := { j with period := j.parts.getD 0 [] }
    j.parseUserCommand withuser 1

/-- What the loop of `parse_time_unit` logs about an item it refuses. The texts are taken to have less than `2 ^ 31`
octets, which is what `FORMAT_SV` makes an `int` of. -/
def timeUnitMessage {T : Type} (F : TimeField T) (value subval : Bytes) : PeriodError → Bytes
  | .message text =>
    lit "field " ++ F.field ++ [EQUALS] ++ cstr value ++ lit " (" ++ cstr subval ++ lit "): " ++ text
  | .range =>
    let subval := subval.takeWhile (· != SLASH)
    lit "field " ++ F.field ++ [EQUALS] ++ cstr value ++ lit " (" ++ cstr subval ++
      lit "), may be * or " ++ F.range

/-- `Job::parse_time_unit`: the values of a field, the text to hash instead of them, and the job with
the diagnostics. -/
def parseTimeUnit {T : Type} [Ord T] (j : Job) (F : TimeField T) (value : Bytes) (rng : Rng) :
    Except Fault ((Std.TreeSet T × Option Bytes) × Job × Rng) :=
  match SystemdCron.parseTimeUnit F value rng with
  | .error f => .error f
  | .ok u =>
    match u.error with
    | some (subval, e) =>
      .ok (({}, none), { j.errorf (timeUnitMessage F value subval e) with valid := false }, u.rng)
    | none => .ok ((u.set, if u.raw ∧ j.persistent then some value else none), j, u.rng)

/-- The test for a day-of-week text that ends in Sunday. -/
def endsInSunday (dows : Bytes) : Bool :=
  dows.getLast? == some 55 ||
    (3 ≤ dows.length && (dows.drop (dows.length - 3)).map toLower == lit "sun")

/-- The five fields of a line as `parse_crontab_timespec` parses them: `L` as the day of the month
stands for the first day from the end, and `L` after a day of the week for that day among the last
seven. -/
def parseFields (j : Job) (minutes hours days months dows : Bytes) (rng : Rng) :
    Except Fault (Job × Rng) := do
  let (m, j, rng) ← j.parseTimeUnit minuteField minutes rng
  let j := { j with timespecMinute := m.1, timespecMinuteRaw := m.2 }
  let (h, j, rng) ← j.parseTimeUnit hourField hours rng
  let j := { j with timespecHour := h.1, timespecHourRaw := h.2 }
  let lastDom := days == lit "L"
  let lastDow := dows.length == 2 && dows.getLast? == some 76
  let days := if lastDom then lit "1" else if lastDow then lit "7/1" else days
  let dows := if !lastDom && lastDow then dows.take 1 else dows
  let j := { j with lastDom, lastDow }
  let (d, j, rng) ← j.parseTimeUnit dayField days rng
  let j := { j with timespecDom := d.1, timespecDomRaw := d.2 }
  let (w, j, rng) ← j.parseTimeUnit dowField dows rng
  let j := { j with timespecDow := w.1, timespecDowRaw := w.2 }
  let (n, j, rng) ← j.parseTimeUnit monthField months rng
  let j := { j with timespecMonth := n.1, timespecMonthRaw := n.2 }
  return ({ j with sundayIsSeven := endsInSunday dows }, rng)

/-- `parse_crontab_timespec`: `6 2 * * * (user) do something`. -/
def parseCrontabTimespec (j : Job) (withuser : WithUser) (rng : Rng) : Except Fault (Job × Rng) :=
  let need := 6 + (if withuser = .fromCmd0 then 1 else 0)
  let user := if withuser = .fromCmd0 then lit " user" else []
  if j.parts.length < need then
    let message := fieldCountMessage j.parts.length need (lit "minute hour day dow month") user
    .ok ({ j.errorf message with valid := false }, rng)
  else do
    let (j, rng) ← j.parseFields (j.parts.getD 0 []) (j.parts.getD 1 []) (j.parts.getD 2 [])
      (j.parts.getD 3 []) (j.parts.getD 4 []) rng
    return (j.parseUserCommand withuser 5, rng)

/-! ### What parsing changes -/

theorem parsePercent_eq (j : Job) (skip : Nat) : ∃ ws input,
    j.parsePercent skip =
      { j with command := { j.command with command := ws }, inputData := input } := by
  unfold parsePercent
  split
  · exact ⟨_, _, rfl⟩
  · exact ⟨_, _, rfl⟩

theorem parseUserCommand_eq (j : Job) (withuser : WithUser) (skip : Nat) : ∃ user ws id input,
    j.parseUserCommand withuser skip =
      { j with user, command := { j.command with command := ws }, jobid := id, inputData := input } := by
  unfold parseUserCommand
  extract_lets r c j'
  obtain ⟨ws, input, h⟩ := parsePercent_eq j' r.2
  exact ⟨_, _, _, _, h⟩

theorem parseAnacrontab_eq (j : Job) : ∃ period id boot ws np valid log,
    j.parseAnacrontab = { j with
      period, jobid := id, bootDelay := boot
      command := { j.command with command := ws, nopercent := np }
      valid, log } := by
  unfold parseAnacrontab
  split
  · extract_lets r j1 j2
    obtain ⟨log, h⟩ : ∃ log, j2 = { j1 with log } := by
      simp only [j2]
      split
      · exact ⟨_, rfl⟩
      · exact ⟨_, rfl⟩
    clear_value j2
    subst h
    exact ⟨_, _, _, _, _, _, _, rfl⟩
  · exact ⟨_, _, _, _, _, _, _, rfl⟩

theorem parseCrontabAt_eq (j : Job) (withuser : WithUser) : ∃ period user ws id input valid log,
    j.parseCrontabAt withuser = { j with
      period, user, command := { j.command with command := ws }, jobid := id, inputData := input
      valid, log } := by
  unfold parseCrontabAt
  extract_lets need user _ j1
  split
  · exact ⟨_, _, _, _, _, _, _, rfl⟩
  · obtain ⟨user, ws, id, input, hp⟩ := parseUserCommand_eq j1 withuser 1
    rw [hp]
    exact ⟨_, _, _, _, _, _, _, rfl⟩

/-- The text that is noted for the hash: that of a field with a draw in a persistent job. -/
def fieldRaw {T : Type} [Ord T] (persistent : Bool) (value : Bytes) (u : TimeUnit T) : Option Bytes :=
  if u.error = none ∧ u.raw ∧ persistent then some value else none

/-- A parsed field: its values are noted, and an error makes the job invalid. -/
theorem parseTimeUnit_ok {T : Type} [Ord T] {F : TimeField T} {value : Bytes} {rng : Rng}
    {j j' : Job} {r : Std.TreeSet T × Option Bytes} {rng' : Rng}
    (h : j.parseTimeUnit F value rng = .ok (r, j', rng')) :
    ∃ u, SystemdCron.parseTimeUnit F value rng = .ok u ∧ r = (u.set, fieldRaw j.persistent value u) ∧
      rng' = u.rng ∧ ∃ log, j' = { j with valid := j.valid && u.error.isNone, log } := by
  simp only [Job.parseTimeUnit] at h
  split at h
  · cases h
  next u hu =>
    refine ⟨u, hu, ?_⟩
    split at h
    next e he =>
      cases h
      refine ⟨?_, rfl, _, by simp only [he, Option.isNone_some, Bool.and_false]; rfl⟩
      rw [parseTimeUnit_set_of_error hu he, fieldRaw, if_neg (by simp [he])]
    next he =>
      cases h
      refine ⟨?_, rfl, j.log, by simp [he]⟩
      simp only [fieldRaw, he, true_and]

/-- The five fields are parsed one after the other, and the job is valid if all of them are. -/
theorem parseFields_ok {j j' : Job} {minutes hours days months dows : Bytes} {rng rng' : Rng}
    (h : j.parseFields minutes hours days months dows rng = .ok (j', rng')) :
    let lastDom := days == lit "L"
    let lastDow := dows.length == 2 && dows.getLast? == some 76
    let days := if lastDom then lit "1" else if lastDow then lit "7/1" else days
    let dows := if !lastDom && lastDow then dows.take 1 else dows
    ∃ m h d w n, SystemdCron.parseTimeUnit minuteField minutes rng = .ok m ∧
      SystemdCron.parseTimeUnit hourField hours m.rng = .ok h ∧
      SystemdCron.parseTimeUnit dayField days h.rng = .ok d ∧
      SystemdCron.parseTimeUnit dowField dows d.rng = .ok w ∧
      SystemdCron.parseTimeUnit monthField months w.rng = .ok n ∧ rng' = n.rng ∧
      ∃ log, j' = { j with
        timespecMinute := m.set, timespecHour := h.set, timespecDom := d.set
        timespecDow := w.set, timespecMonth := n.set
        timespecMinuteRaw := fieldRaw j.persistent minutes m
        timespecHourRaw := fieldRaw j.persistent hours h
        timespecDomRaw := fieldRaw j.persistent days d
        timespecDowRaw := fieldRaw j.persistent dows w
        timespecMonthRaw := fieldRaw j.persistent months n
        lastDom, lastDow, sundayIsSeven := endsInSunday dows
        valid := j.valid && m.error.isNone && h.error.isNone && d.error.isNone &&
          w.error.isNone && n.error.isNone
        log } := by
  intro lastDom lastDow days' dows'
  simp only [parseFields, bind, Except.bind] at h
  split at h
  · cases h
  next r1 h1 =>
  obtain ⟨s1, j1, rng1⟩ := r1
  obtain ⟨m, hm, rfl, rfl, log1, rfl⟩ := parseTimeUnit_ok h1
  simp only at h
  split at h
  · cases h
  next r2 h2 =>
  obtain ⟨s2, j2, rng2⟩ := r2
  obtain ⟨hh, hh', rfl, rfl, log2, rfl⟩ := parseTimeUnit_ok h2
  simp only at h
  split at h
  · cases h
  next r3 h3 =>
  obtain ⟨s3, j3, rng3⟩ := r3
  obtain ⟨d, hd, rfl, rfl, log3, rfl⟩ := parseTimeUnit_ok h3
  simp only at h
  split at h
  · cases h
  next r4 h4 =>
  obtain ⟨s4, j4, rng4⟩ := r4
  obtain ⟨w, hw, rfl, rfl, log4, rfl⟩ := parseTimeUnit_ok h4
  simp only at h
  split at h
  · cases h
  next r5 h5 =>
  obtain ⟨s5, j5, rng5⟩ := r5
  obtain ⟨n, hn, rfl, rfl, log5, rfl⟩ := parseTimeUnit_ok h5
  simp only [pure, Except.pure, Except.ok.injEq, Prod.mk.injEq] at h
  obtain ⟨rfl, rfl⟩ := h
  exact ⟨m, hh, d, w, n, hm, hh', hd, hw, hn, rfl, log5, rfl⟩

end Job

/-! ### Decoding -/

/-- `ASCII_ALNUM`, which is sorted, so that a binary search finds its members. -/
def ASCII_ALNUM : Bytes :=
  lit "-0123456789ABCDEFGHIJKLMNOPQRSTUVWXYZ_abcdefghijklmnopqrstuvwxyz"

def isAsciiAlnum (c : UInt8) : Bool := decide (c ∈ ASCII_ALNUM)

namespace Job

/-- `pull_user`. -/
def pullUser (host : Host) (j : Job) : Job :=
  if j.userHome.isSome then j
  else
    match host.getpwnam (cstr j.user) with
    | some ent => { j with userHome := some ent.dir, userUid := ent.uid, userGid := ent.gid }
    | none => j

/-- The elements of `PATH` as `decode_command` writes them, each with a colon after it. -/
def expandPath (home path : Bytes) : Bytes :=
  (softTokenise (· == COLON) path).flatMap fun p =>
    (if (lit "~/").isPrefixOf p then home ++ p.drop 1 else p) ++ [COLON]

/-- The part of `decode_command` for a command that starts in the home. -/
def expandCommand (home : Bytes) (j : Job) : Job :=
  if (lit "~/").isPrefixOf (j.command.get 0) then
    { j with command := { j.command with
        command0 := some (home ++ (j.command.get 0).drop 1)
        command := j.command.command.drop 1 } }
  else j

/-- The part of `decode_command` for a `PATH` with elements in the home. -/
def expandPathVariable (home : Bytes) (j : Job) : Job :=
  match j.environment[lit "PATH"]? with
  | none => j
  | some path =>
    if (lit "~/").isPrefixOf path || contains path (lit ":~/") then
      let storage := (j.environmentPATHStorage ++ expandPath home path).dropLast
      { j with
        environmentPATHStorage := storage
        environment := j.environment.insert (lit "PATH") storage }
    else j

/-- `decode_command`. -/
def decodeCommand (host : Host) (j : Job) : Job :=
  if j.command.size = 0 then j
  else
    let j := j.pullUser host
    match j.userHome with
    | none => j
    | some home => (j.expandCommand home).expandPathVariable home

/-- `decode`. -/
def decode (host : Host) (j : Job) : Job :=
  { j with jobid := j.jobid.filter isAsciiAlnum }.decodeCommand host

/-! ### What decoding changes -/

/-- `pull_user` sets the home and the ids. -/
theorem pullUser_eq (host : Host) (j : Job) : ∃ home uid gid,
    j.pullUser host = { j with userHome := home, userUid := uid, userGid := gid } := by
  unfold pullUser
  split
  · exact ⟨_, _, _, rfl⟩
  · split
    · exact ⟨_, _, _, rfl⟩
    · exact ⟨_, _, _, rfl⟩

theorem expandCommand_eq (home : Bytes) (j : Job) : ∃ c0 ws,
    j.expandCommand home =
      { j with command := { j.command with command0 := c0, command := ws } } := by
  unfold expandCommand
  split
  · exact ⟨_, _, rfl⟩
  · exact ⟨_, _, rfl⟩

theorem expandPathVariable_eq (home : Bytes) (j : Job) : ∃ env storage,
    j.expandPathVariable home =
      { j with environment := env, environmentPATHStorage := storage } := by
  unfold expandPathVariable
  split
  · exact ⟨_, _, rfl⟩
  · split
    · exact ⟨_, _, rfl⟩
    · exact ⟨_, _, rfl⟩

/-- `decode_command` sets the home and the ids, the words of the command and the environment. -/
theorem decodeCommand_eq (host : Host) (j : Job) : ∃ home uid gid c0 ws env storage,
    j.decodeCommand host = { j with
      userHome := home, userUid := uid, userGid := gid
      command := { j.command with command0 := c0, command := ws }
      environment := env, environmentPATHStorage := storage } := by
  unfold decodeCommand
  split
  · exact ⟨_, _, _, _, _, _, _, rfl⟩
  obtain ⟨home, uid, gid, h⟩ := pullUser_eq host j
  rw [h]
  extract_lets j'
  split
  · exact ⟨_, _, _, _, _, _, _, rfl⟩
  next home' _ =>
    obtain ⟨c0, ws, h1⟩ := expandCommand_eq home' j'
    obtain ⟨env, storage, h2⟩ := expandPathVariable_eq home' (j'.expandCommand home')
    rw [h2, h1]
    exact ⟨_, _, _, _, _, _, _, rfl⟩

/-- The words of a command with the home written out in the first. -/
def expandTilde (home : Option Bytes) : List Bytes → List Bytes
  | w :: ws =>
    match home with
    | some home => (if (lit "~/").isPrefixOf w then home ++ w.drop 1 else w) :: ws
    | none => w :: ws
  | [] => []

@[simp] theorem expandPathVariable_command (home : Bytes) (j : Job) :
    (j.expandPathVariable home).command = j.command := by
  obtain ⟨_, _, h⟩ := expandPathVariable_eq home j
  rw [h]

@[simp] theorem expandPathVariable_userHome (home : Bytes) (j : Job) :
    (j.expandPathVariable home).userHome = j.userHome := by
  obtain ⟨_, _, h⟩ := expandPathVariable_eq home j
  rw [h]

@[simp] theorem expandCommand_userHome (home : Bytes) (j : Job) :
    (j.expandCommand home).userHome = j.userHome := by
  obtain ⟨_, _, h⟩ := expandCommand_eq home j
  rw [h]

theorem expandCommand_hunks (home : Bytes) {j : Job} (h : j.command.command0 = none) {w : Bytes}
    {ws : List Bytes} (hw : j.command.command = w :: ws) :
    (j.expandCommand home).command.hunks = expandTilde (some home) (w :: ws) := by
  have hget : j.command.get 0 = w := by simp [Command.get, h, hw]
  simp only [expandTilde, expandCommand, hget]
  split
  · simp [hw]
  · simp [h, hw]

@[simp] theorem pullUser_command (host : Host) (j : Job) : (j.pullUser host).command = j.command := by
  obtain ⟨_, _, _, h⟩ := pullUser_eq host j
  rw [h]

/-- The words of a job that has no replacement word yet, after `decode_command`. -/
theorem decodeCommand_hunks (host : Host) {j : Job} (h : j.command.command0 = none) :
    (j.decodeCommand host).command.hunks =
      expandTilde (j.decodeCommand host).userHome j.command.command := by
  rcases hw : j.command.command with - | ⟨w, ws⟩
  · simp [decodeCommand, Command.size, h, hw, expandTilde]
  have hsize : j.command.size ≠ 0 := by simp [Command.size, hw]
  simp only [decodeCommand, hsize, if_false]
  split
  next hu => simp only [hu, pullUser_command, Command.hunks_eq, h, hw, expandTilde]; rfl
  next home hu =>
    rw [expandPathVariable_command, expandPathVariable_userHome, expandCommand_userHome, hu,
      expandCommand_hunks home (by simpa using h) (by simpa using hw)]

end Job

/-! ### What the time fields do not reach -/

namespace Job

/-- A job without what its time fields were parsed to. -/
def withoutFields (j : Job) : Job :=
  { j with
    timespecMinute := {}, timespecHour := {}, timespecDom := {}, timespecDow := {}
    timespecMonth := {}
    timespecMinuteRaw := none, timespecHourRaw := none, timespecDomRaw := none
    timespecDowRaw := none, timespecMonthRaw := none
    sundayIsSeven := false, lastDom := false, lastDow := false, valid := true, log := [] }

theorem withoutFields_parsePercent (j : Job) (skip : Nat) :
    (j.parsePercent skip).withoutFields = j.withoutFields.parsePercent skip := by
  have h : j.withoutFields.command = j.command := rfl
  unfold parsePercent
  rw [h]
  cases percentWord j.command.command skip with
  | none => rfl
  | some p => rfl

theorem withoutFields_parseUserCommand (j : Job) (withuser : WithUser) (skip : Nat) :
    (j.parseUserCommand withuser skip).withoutFields =
      j.withoutFields.parseUserCommand withuser skip := by
  cases withuser <;> exact withoutFields_parsePercent _ _

theorem withoutFields_pullUser (host : Host) (j : Job) :
    (j.pullUser host).withoutFields = j.withoutFields.pullUser host := by
  have h : j.withoutFields.userHome = j.userHome := rfl
  have h' : j.withoutFields.user = j.user := rfl
  unfold pullUser
  rw [h, h']
  split
  · rfl
  · split <;> rfl

theorem withoutFields_expandCommand (home : Bytes) (j : Job) :
    (j.expandCommand home).withoutFields = j.withoutFields.expandCommand home := by
  have h : j.withoutFields.command = j.command := rfl
  unfold expandCommand
  rw [h]
  split <;> rfl

theorem withoutFields_expandPathVariable (home : Bytes) (j : Job) :
    (j.expandPathVariable home).withoutFields = j.withoutFields.expandPathVariable home := by
  have h : j.withoutFields.environment = j.environment := rfl
  unfold expandPathVariable
  rw [h]
  split
  · rfl
  · split <;> rfl

theorem withoutFields_decodeCommand (host : Host) (j : Job) :
    (j.decodeCommand host).withoutFields = j.withoutFields.decodeCommand host := by
  have h : j.withoutFields.command.size = j.command.size := rfl
  have h' : (j.withoutFields.pullUser host).userHome = (j.pullUser host).userHome := by
    rw [← withoutFields_pullUser]
    rfl
  unfold decodeCommand
  rw [h]
  split
  · rfl
  · dsimp only
    rw [h']
    split
    · exact withoutFields_pullUser host j
    · rw [withoutFields_expandPathVariable, withoutFields_expandCommand, withoutFields_pullUser]

theorem withoutFields_decode (host : Host) (j : Job) :
    (j.decode host).withoutFields = j.withoutFields.decode host :=
  withoutFields_decodeCommand host _

end Job

end SystemdCron
