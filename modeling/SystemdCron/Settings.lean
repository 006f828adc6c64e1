import SystemdCron.Crontab

/-!
# The settings of a job

What the control variables of a crontab leave in a job, for the settings that its units are written from:
the load threshold, the throttle group, the start hour and the delay. `decode_environment` goes through
the variables in order; a setting that one variable makes has the value of this variable.
-/

namespace SystemdCron

open Bytes

section
variable {β : Type} {f : Job → β} {g : Bytes → β → β} {key : Bytes} {step : Job → Bytes → Bytes → Job}

theorem foldl_without_setting (hstep : ∀ j k v, f (step j k v) = if k = key then g v (f j) else f j)
    {l : List (Bytes × Bytes)} (hl : ∀ kv ∈ l, kv.1 ≠ key) (j : Job) :
    f (l.foldl (fun j kv => step j kv.1 kv.2) j) = f j := by
  induction l generalizing j with
  | nil => rfl
  | cons kv l ih =>
    rw [List.foldl_cons, ih fun kv' h => hl kv' (List.mem_cons_of_mem _ h), hstep,
      if_neg (hl kv (by simp))]

/-- A field that one variable sets is what the value of this variable makes of it. -/
theorem foldl_setting (hstep : ∀ j k v, f (step j k v) = if k = key then g v (f j) else f j)
    (environment : Env) (j : Job) :
    f (environment.foldl step j) = (environment[key]?).elim (f j) fun v => g v (f j) := by
  rw [Std.TreeMap.foldl_eq_foldl_toList]
  cases hv : environment[key]? with
  | none =>
    refine foldl_without_setting hstep (fun kv hkv hk => ?_) j
    have : environment[kv.1]? = some kv.2 := Std.TreeMap.mem_toList_iff_getElem?_eq_some.1 hkv
    rw [hk, hv] at this
    cases this
  | some v =>
    have hmem := Std.TreeMap.mem_toList_iff_getElem?_eq_some.2 hv
    have hdistinct := Std.TreeMap.distinct_keys_toList (t := environment)
    generalize environment.toList = l at hmem hdistinct
    induction l generalizing j with
    | nil => cases hmem
    | cons kv l ih =>
      obtain ⟨hkv, hl⟩ := List.pairwise_cons.1 hdistinct
      rcases List.mem_cons.1 hmem with rfl | hmem
      · have hne : ∀ kv ∈ l, kv.1 ≠ key := fun kv h hk =>
          hkv kv h (Std.LawfulEqCmp.compare_eq_iff_eq.2 hk.symm)
        rw [List.foldl_cons, foldl_without_setting hstep hne, hstep, if_pos rfl]
        rfl
      · have hne : kv.1 ≠ key := fun hk =>
          hkv _ hmem (Std.LawfulEqCmp.compare_eq_iff_eq.2 hk)
        rw [List.foldl_cons, ih _ hmem hl, hstep, if_neg hne]

end

/-- The settings are the same in both jobs. -/
structure Job.SameControls (a b : Job) : Prop where
  cronBatchLoadavgBelow : b.cronBatchLoadavgBelow = a.cronBatchLoadavgBelow
  cronBatchThrottleGroup : b.cronBatchThrottleGroup = a.cronBatchThrottleGroup
  startHour : b.startHour = a.startHour
  bootDelay : b.bootDelay = a.bootDelay

namespace Job

variable {host : Host} {ds : CronMailSuccess} {df : CronMailFormat}

namespace SameControls

theorem rfl' {a : Job} : a.SameControls a := ⟨rfl, rfl, rfl, rfl⟩

theorem ite {a b b' : Job} {c : Prop} [Decidable c] (h : a.SameControls b) (h' : a.SameControls b') :
    a.SameControls (if c then b else b') := by
  split
  · exact h
  · exact h'

end SameControls

theorem decodeVariable_sameControls (j : Job) (k v : Bytes) :
    j.SameControls (j.decodeVariable host k v) := by
  unfold decodeVariable
  extract_lets j1 j2 j3
  have h1 : j.SameControls j1 := .ite ⟨rfl, rfl, rfl, rfl⟩ .rfl'
  have h2 : j1.SameControls j2 := by
    refine .ite ?_ .rfl'
    unfold decodeTimezone
    exact .ite ⟨rfl, rfl, rfl, rfl⟩ (.ite ⟨rfl, rfl, rfl, rfl⟩ .rfl')
  have h3 : j2.SameControls j3 := .ite ⟨rfl, rfl, rfl, rfl⟩ .rfl'
  obtain ⟨a1, b1, c1, d1⟩ := h1
  obtain ⟨a2, b2, c2, d2⟩ := h2
  obtain ⟨a3, b3, c3, d3⟩ := h3
  exact ⟨a3.trans (a2.trans a1), b3.trans (b2.trans b1), c3.trans (c2.trans c1), d3.trans (d2.trans d1)⟩

/-- A variable other than the four leaves the settings alone. -/
theorem decodeEntry_sameControls (j : Job) {k v : Bytes} (hl : k ≠ lit "CRON_BATCH_LOADAVG_BELOW")
    (hg : k ≠ lit "CRON_BATCH_THROTTLE_GROUP") (hh : k ≠ lit "START_HOURS_RANGE")
    (hd : k ≠ lit "DELAY") : j.SameControls (j.decodeEntry host ds df k v) := by
  unfold decodeEntry
  rw [if_neg hl, if_neg hg, if_neg hh, if_neg hd]
  refine .ite ⟨rfl, rfl, rfl, rfl⟩ <| .ite ⟨rfl, rfl, rfl, rfl⟩ <|
    .ite (.ite ⟨rfl, rfl, rfl, rfl⟩ ⟨rfl, rfl, rfl, rfl⟩) <| .ite ⟨rfl, rfl, rfl, rfl⟩ <|
    .ite ⟨rfl, rfl, rfl, rfl⟩ <| .ite ?_ <| .ite ?_ (j.decodeVariable_sameControls k v)
  · unfold decodeMailSuccess
    exact .ite ⟨rfl, rfl, rfl, rfl⟩ <| .ite ⟨rfl, rfl, rfl, rfl⟩ <| .ite ⟨rfl, rfl, rfl, rfl⟩ <|
      .ite ⟨rfl, rfl, rfl, rfl⟩ ⟨rfl, rfl, rfl, rfl⟩
  · unfold decodeMailFormat
    exact .ite ⟨rfl, rfl, rfl, rfl⟩ <| .ite ⟨rfl, rfl, rfl, rfl⟩ <|
      .ite ⟨rfl, rfl, rfl, rfl⟩ ⟨rfl, rfl, rfl, rfl⟩

/-- The start of a range of hours. -/
def startOfRange (v : Bytes) (startHour : Nat) : Nat :=
  match splitFirst DASH v with
  | none => startHour
  | some (start, _) => (intMap start false false).1

theorem decodeEntry_startHoursRange (j : Job) (v : Bytes) :
    let b := j.decodeEntry host ds df (lit "START_HOURS_RANGE") v
    b.cronBatchLoadavgBelow = j.cronBatchLoadavgBelow ∧
      b.cronBatchThrottleGroup = j.cronBatchThrottleGroup ∧
      b.startHour = startOfRange v j.startHour ∧ b.bootDelay = j.bootDelay := by
  intro b
  unfold b decodeEntry
  rw [if_neg (by decide), if_neg (by decide), if_neg (by decide), if_pos rfl]
  unfold startOfRange
  cases splitFirst DASH v with
  | none => exact ⟨rfl, rfl, rfl, rfl⟩
  | some range =>
    by_cases hr : (intMap range.1 false false).2 = true
    · simp only [hr, if_true]
      exact ⟨rfl, rfl, rfl, rfl⟩
    · simp only [hr]
      exact ⟨rfl, rfl, rfl, rfl⟩

theorem decodeEntry_delay (j : Job) (v : Bytes) :
    let b := j.decodeEntry host ds df (lit "DELAY") v
    b.cronBatchLoadavgBelow = j.cronBatchLoadavgBelow ∧
      b.cronBatchThrottleGroup = j.cronBatchThrottleGroup ∧
      b.startHour = j.startHour ∧ b.bootDelay = (intMap v false false).1 := by
  intro b
  unfold b decodeEntry
  rw [if_neg (by decide), if_neg (by decide), if_neg (by decide), if_neg (by decide), if_pos rfl]
  by_cases hr : (intMap v false false).2 = true
  · simp only [hr, if_true]
    exact ⟨rfl, rfl, rfl, rfl⟩
  · simp only [hr]
    exact ⟨rfl, rfl, rfl, rfl⟩

/-- What a variable does to the settings. -/
theorem decodeEntry_controls (j : Job) (k v : Bytes) :
    let b := j.decodeEntry host ds df k v
    b.cronBatchLoadavgBelow =
      (if k = lit "CRON_BATCH_LOADAVG_BELOW" then v else j.cronBatchLoadavgBelow) ∧
    b.cronBatchThrottleGroup =
      (if k = lit "CRON_BATCH_THROTTLE_GROUP" then v else j.cronBatchThrottleGroup) ∧
    b.startHour = (if k = lit "START_HOURS_RANGE" then startOfRange v j.startHour else j.startHour) ∧
    b.bootDelay = (if k = lit "DELAY" then (intMap v false false).1 else j.bootDelay) := by
  by_cases hl : k = lit "CRON_BATCH_LOADAVG_BELOW"
  · subst hl
    exact ⟨rfl, rfl, rfl, rfl⟩
  by_cases hg : k = lit "CRON_BATCH_THROTTLE_GROUP"
  · subst hg
    exact ⟨rfl, rfl, rfl, rfl⟩
  by_cases hh : k = lit "START_HOURS_RANGE"
  · subst hh
    exact j.decodeEntry_startHoursRange v
  by_cases hd : k = lit "DELAY"
  · subst hd
    exact j.decodeEntry_delay v
  · obtain ⟨h1, h2, h3, h4⟩ := @decodeEntry_sameControls host ds df j k v hl hg hh hd
    rw [if_neg hl, if_neg hg, if_neg hh, if_neg hd]
    exact ⟨h1, h2, h3, h4⟩

end Job

/-- The load threshold of a crontab, empty if it sets none. -/
def loadavgBelow (environment : Env) : Bytes :=
  (environment[lit "CRON_BATCH_LOADAVG_BELOW"]?).getD []

/-- The throttle group of a crontab, empty if it sets none. -/
def throttleGroup (environment : Env) : Bytes :=
  (environment[lit "CRON_BATCH_THROTTLE_GROUP"]?).getD []

/-- The hour that a crontab starts its periods at. -/
def startHourOf (environment : Env) : Nat :=
  (environment[lit "START_HOURS_RANGE"]?).elim 0 fun v => Job.startOfRange v 0

/-- The delay of a crontab, in minutes. -/
def delayOf (environment : Env) : Nat :=
  (environment[lit "DELAY"]?).elim 0 fun v => (intMap v false false).1

theorem newJob_controls (host : Host) (kind : CrontabKind) (environment : Env) (line : Bytes) :
    (newJob host kind environment line).cronBatchLoadavgBelow = loadavgBelow environment ∧
    (newJob host kind environment line).cronBatchThrottleGroup = throttleGroup environment ∧
    (newJob host kind environment line).startHour = startHourOf environment ∧
    (newJob host kind environment line).bootDelay = delayOf environment := by
  refine ⟨?_, ?_, ?_, ?_⟩
  · exact (foldl_setting (f := Job.cronBatchLoadavgBelow) (g := fun v _ => v)
      (fun j k v => (j.decodeEntry_controls k v).1) _ _).trans (by
        cases h : environment[lit "CRON_BATCH_LOADAVG_BELOW"]? <;> simp [loadavgBelow, h, Job.new])
  · exact (foldl_setting (f := Job.cronBatchThrottleGroup) (g := fun v _ => v)
      (fun j k v => (j.decodeEntry_controls k v).2.1) _ _).trans (by
        cases h : environment[lit "CRON_BATCH_THROTTLE_GROUP"]? <;> simp [throttleGroup, h, Job.new])
  · exact foldl_setting (f := Job.startHour) (g := Job.startOfRange)
      (fun j k v => (j.decodeEntry_controls k v).2.2.1) _ _
  · exact foldl_setting (f := Job.bootDelay) (g := fun v _ => (intMap v false false).1)
      (fun j k v => (j.decodeEntry_controls k v).2.2.2) _ _

/-- The job of a line has the values that hold at the line. -/
theorem parseJob_batch {host : Host} {kind : CrontabKind} {environment : Env} {line : Bytes}
    {rng rng' : Rng} {j : Job} (h : parseJob host kind environment line rng = .ok (j, rng')) :
    j.cronBatchLoadavgBelow = loadavgBelow environment ∧
      j.cronBatchThrottleGroup = throttleGroup environment := by
  obtain ⟨p, hp, rfl⟩ := parseJob_ok h
  obtain ⟨_, _, _, _, _, _, _, hdecode⟩ :=
    Job.decodeCommand_eq host { p with jobid := p.jobid.filter isAsciiAlnum }
  have hgen := (p.decode host).generateSchedule_scheduled
  rw [hgen.cronBatchLoadavgBelow, hgen.cronBatchThrottleGroup, Job.decode, hdecode]
  have hsame := parseLine_sameSettings hp
  obtain ⟨hl, hg, -, -⟩ := newJob_controls host kind environment line
  exact ⟨hsame.cronBatchLoadavgBelow.trans hl, hsame.cronBatchThrottleGroup.trans hg⟩

/-! ### The shell and the log namespace -/

/-- The shell that an environment asks for. -/
def shellOf (environment : Env) : Bytes := (environment[lit "SHELL"]?).getD (lit "/bin/sh")

def logNamespaceOf (environment : Env) : Bytes := (environment[lit "CRON_LOG_NAMESPACE"]?).getD []

namespace Job

variable {host : Host} {ds : CronMailSuccess} {df : CronMailFormat}

/-- `b` has the shell and the log namespace of `a`. -/
structure SameShell (a b : Job) : Prop where
  shell : b.shell = a.shell
  cronLogNamespace : b.cronLogNamespace = a.cronLogNamespace

theorem SameShell.ite {a b b' : Job} {c : Prop} [Decidable c] (h : a.SameShell b) (h' : a.SameShell b') :
    a.SameShell (if c then b else b') := by
  split
  · exact h
  · exact h'

theorem SameShell.trans {a b c : Job} (h : a.SameShell b) (h' : b.SameShell c) : a.SameShell c :=
  ⟨h'.shell.trans h.shell, h'.cronLogNamespace.trans h.cronLogNamespace⟩

/-- A variable other than `SHELL` that is passed on. -/
theorem decodeVariable_sameShell (j : Job) {k : Bytes} (hs : k ≠ lit "SHELL") (v : Bytes) :
    j.SameShell (j.decodeVariable host k v) := by
  unfold decodeVariable
  rw [if_neg hs]
  extract_lets j1 j2 j3
  have h2 : j1.SameShell j2 := by
    refine .ite ?_ ⟨rfl, rfl⟩
    unfold decodeTimezone
    exact .ite ⟨rfl, rfl⟩ (.ite ⟨rfl, rfl⟩ ⟨rfl, rfl⟩)
  have h3 : j2.SameShell j3 := .ite ⟨rfl, rfl⟩ ⟨rfl, rfl⟩
  obtain ⟨hshell, hnamespace⟩ := h2.trans h3
  exact ⟨hshell, hnamespace⟩

/-- A variable other than the two. -/
theorem decodeEntry_sameShell (j : Job) {k v : Bytes} (hs : k ≠ lit "SHELL")
    (hn : k ≠ lit "CRON_LOG_NAMESPACE") : j.SameShell (j.decodeEntry host ds df k v) := by
  unfold decodeEntry
  rw [if_neg hn]
  refine .ite ⟨rfl, rfl⟩ <| .ite ⟨rfl, rfl⟩ <| .ite (.ite ⟨rfl, rfl⟩ ⟨rfl, rfl⟩) <| .ite ?_ <|
    .ite (.ite ⟨rfl, rfl⟩ ⟨rfl, rfl⟩) <| .ite ⟨rfl, rfl⟩ <| .ite ⟨rfl, rfl⟩ <| .ite ⟨rfl, rfl⟩ <| .ite ?_ <|
    .ite ?_ (j.decodeVariable_sameShell hs v)
  · split
    · exact ⟨rfl, rfl⟩
    · exact .ite ⟨rfl, rfl⟩ ⟨rfl, rfl⟩
  · unfold decodeMailSuccess
    exact .ite ⟨rfl, rfl⟩ <| .ite ⟨rfl, rfl⟩ <| .ite ⟨rfl, rfl⟩ <| .ite ⟨rfl, rfl⟩ ⟨rfl, rfl⟩
  · unfold decodeMailFormat
    exact .ite ⟨rfl, rfl⟩ <| .ite ⟨rfl, rfl⟩ <| .ite ⟨rfl, rfl⟩ ⟨rfl, rfl⟩

/-- What a variable does to the shell and to the log namespace. -/
theorem decodeEntry_shell (j : Job) (k v : Bytes) :
    (j.decodeEntry host ds df k v).shell = (if k = lit "SHELL" then v else j.shell) ∧
      (j.decodeEntry host ds df k v).cronLogNamespace =
        (if k = lit "CRON_LOG_NAMESPACE" then v else j.cronLogNamespace) := by
  by_cases hs : k = lit "SHELL"
  · subst hs
    exact ⟨rfl, rfl⟩
  by_cases hn : k = lit "CRON_LOG_NAMESPACE"
  · subst hn
    exact ⟨rfl, rfl⟩
  · rw [if_neg hs, if_neg hn]
    obtain ⟨h1, h2⟩ := @decodeEntry_sameShell host ds df j k v hs hn
    exact ⟨h1, h2⟩

end Job

theorem newJob_shell (host : Host) (kind : CrontabKind) (environment : Env) (line : Bytes) :
    (newJob host kind environment line).shell = shellOf environment ∧
      (newJob host kind environment line).cronLogNamespace = logNamespaceOf environment := by
  refine ⟨?_, ?_⟩
  · refine (foldl_setting (f := Job.shell) (g := fun v _ => v) (fun j k v => (j.decodeEntry_shell k v).1) _ _).trans ?_
    rw [shellOf]
    cases environment[lit "SHELL"]? <;> rfl
  · refine (foldl_setting (f := Job.cronLogNamespace) (g := fun v _ => v)
      (fun j k v => (j.decodeEntry_shell k v).2) _ _).trans ?_
    rw [logNamespaceOf]
    cases environment[lit "CRON_LOG_NAMESPACE"]? <;> rfl

end SystemdCron
