import SystemdCron.CheckAgreement
import SystemdCron.ControlVariables
import SystemdCron.TildePath

/-!
# Inheritance across crontabs

The variables, the control settings and the mail modes that the jobs of the other files take over from
`/etc/crontab`. The law is stated by the settings of the two files alone (`settingInEffect`, `inheritedValue`), and
`inheritance` reads it off every unit of a run.
-/

namespace SystemdCron

open Bytes

/-! ### The law -/

/-- The value of a name at the end of `/etc/crontab`. -/
def finalValue (top : List Bytes) (k : Bytes) : Option Bytes :=
  if k = lit "CRON_INHERIT_VARIABLES" then none else (lastSetting top k).bind (settingValue k)

/-- The value that other files inherit: that of a name in the last list of variables to inherit. -/
def inheritedValue (top : List Bytes) (k : Bytes) : Option Bytes :=
  if k ∈ tokens (fun c => c == SPACE || c == HT)
      ((lastSetting top (lit "CRON_INHERIT_VARIABLES")).getD []) then finalValue top k
  else none

/-- The setting of a name at a line: what its last setting above the line leaves, and what was inherited if
there is none. -/
def settingInEffect (inherited : Bytes → Option Bytes) (above : List Bytes) (k : Bytes) : Option Bytes :=
  if k = lit "CRON_INHERIT_VARIABLES" then none else (lastSetting above k).elim (inherited k) (settingValue k)

/-- The modes in effect at the end of `/etc/crontab`. -/
def topMailSuccess (top : List Bytes) : CronMailSuccess :=
  ((finalValue top (lit "CRON_MAIL_SUCCESS")).bind mailSuccess).getD .dflt

def topMailFormat (top : List Bytes) : CronMailFormat :=
  ((finalValue top (lit "CRON_MAIL_FORMAT")).bind mailFormat).getD .dflt

/-- `PATH` with the home written out in the elements that begin with `~/`. If there is one, the empty elements are
lost. -/
def homePath (home : Option Bytes) (path : Bytes) : Bytes :=
  match home with
  | none => path
  | some home =>
    if ∃ p ∈ pathElements path, lit "~/" <+: p then
      [COLON].intercalate (((pathElements path).filter (· ≠ [])).map (expandElement home))
    else path

/-- A period that is never caught up. -/
def isTransient (period : Bytes) : Bool := period == lit "reboot" || period == lit "minutely"

/-- The delay that a line has by its settings. In `/etc/anacrontab` it is the second field. -/
def delaySetting (anacrontab : Bool) (settings : Bytes → Option Bytes) (line : Bytes) : Nat :=
  if anacrontab ∧ 4 ≤ (tokens isFieldDelim line).length then
    (intMap ((tokens isFieldDelim line).getD 1 []) false false).1
  else (settings (lit "DELAY")).elim 0 fun v => (intMap v false false).1

/-- The delay that is left to the job of a period: an hour takes it into its schedule, and after a boot there is at
least a minute. -/
def delayLeft (period : Bytes) (delay : Nat) : Nat :=
  if period = lit "reboot" then max delay 1 else if period = lit "hourly" then 0 else delay

/-- What the control variables among some settings make of a job. -/
structure Controlled (anacrontab : Bool) (settings : Bytes → Option Bytes) (j : Job) : Prop where
  persistent : j.persistent = ((settings (lit "PERSISTENT")).elim (anacrontab || j.line.head? == some AT) systemdBool &&
    !isTransient j.period)
  cronUniqueUnits : j.cronUniqueUnits = (settings (lit "CRON_UNIQUE_UNITS")).elim false systemdBool
  randomDelay : j.randomDelay = (settings (lit "RANDOM_DELAY")).elim 0 fun v => (intMap v false false).1
  startHour : j.startHour = (settings (lit "START_HOURS_RANGE")).elim 0 fun v => Job.startOfRange v 0
  bootDelay : j.bootDelay = delayLeft j.period (delaySetting anacrontab settings j.line)
  hourly : j.period = lit "hourly" → delaySetting anacrontab settings j.line ≠ 0 →
    j.schedule = lit "*-*-* *:" ++ decimal (delaySetting anacrontab settings j.line) ++ lit ":0"
  batch : j.batch = (settings (lit "BATCH")).elim false systemdBool
  cronBatchLoadavgBelow : j.cronBatchLoadavgBelow = (settings (lit "CRON_BATCH_LOADAVG_BELOW")).getD []
  cronBatchThrottleGroup : j.cronBatchThrottleGroup = (settings (lit "CRON_BATCH_THROTTLE_GROUP")).getD []
  cronLogNamespace : j.cronLogNamespace = (settings (lit "CRON_LOG_NAMESPACE")).getD []

/-- A job runs with some settings, under `/etc/crontab` with the lines `top`. -/
structure RunsWith (top : List Bytes) (mailto : Option Bytes) (anacrontab : Bool)
    (settings : Bytes → Option Bytes) (j : Job) : Prop where
  environment : ∀ k, k ∉ controlVariables → k ≠ lit "PATH" →
    j.environment[k]? = (settings k).or (if k = lit "MAILTO" then mailto else none)
  path : j.environment[lit "PATH"]? = (settings (lit "PATH")).map (homePath j.userHome)
  notPassed : ∀ k ∈ controlVariables, j.environment[k]? = none
  controls : Controlled anacrontab settings j
  cronMailSuccess : j.cronMailSuccess =
    ((settings (lit "CRON_MAIL_SUCCESS")).bind mailSuccess).getD (topMailSuccess top)
  cronMailFormat : j.cronMailFormat =
    ((settings (lit "CRON_MAIL_FORMAT")).bind mailFormat).getD (topMailFormat top)

/-- A unit is a job with a name. -/
def IsUnit (j u : Job) : Prop := ∃ unitName, u = { j with unitName }

/-- Units of a file: one for every line that is no setting and whose job is valid and active, and each runs
with the settings in effect at its line. -/
def UnitsOf (host : Host) (top : List Bytes) (mailto : Option Bytes) (anacrontab : Bool)
    (inherited : Bytes → Option Bytes) (lines : List Bytes) (us : List Job) : Prop :=
  ∃ js, List.Forall₂
      (fun p j => j.line = p.2 ∧ RunsWith top mailto anacrontab (settingInEffect inherited p.1) j)
      (jobLines lines) js ∧
    List.Forall₂ IsUnit (js.filter fun j => j.valid && j.isActive host) us

/-! ### What `/etc/crontab` leaves -/

theorem environmentBelow_empty (top : List Bytes) (k : Bytes) :
    (environmentBelow {} top)[k]? = finalValue top k := by
  unfold finalValue
  split
  next hk => rw [hk, environmentBelow_inherit, Std.TreeMap.getElem?_emptyc]
  next hk =>
    rw [environmentBelow_getElem? _ _ _ hk, Std.TreeMap.getElem?_emptyc]
    cases lastSetting top k <;> rfl

theorem environmentBelow_eq {environment : Env} (lines : List Bytes) (k : Bytes)
    (h : environment[lit "CRON_INHERIT_VARIABLES"]? = none) :
    (environmentBelow environment lines)[k]? = settingInEffect (fun k => environment[k]?) lines k := by
  unfold settingInEffect
  split
  next hk => rw [hk, environmentBelow_inherit, h]
  next hk => rw [environmentBelow_getElem? _ _ _ hk]

/-- The variables to inherit are looked up one after the other. -/
theorem foldl_inherit (environment : Env) (names : List Bytes) (env : Env) (k : Bytes) :
    (names.foldl
      (fun env var =>
        match environment[var]? with
        | some v => env.insertIfNew var v
        | none => env) env)[k]? = env[k]?.or (if k ∈ names then environment[k]? else none) := by
  induction names generalizing env with
  | nil => simp
  | cons name names ih =>
    rw [List.foldl_cons, ih]
    by_cases hk : name = k
    · subst hk
      rw [if_pos List.mem_cons_self]
      rcases hv : environment[name]? with - | v
      · rw [ite_self]
      · dsimp only
        rw [Env.getElem?_insertIfNew, if_pos rfl]
        cases env[name]? <;> simp
    · have hmem : k ∈ name :: names ↔ k ∈ names := List.mem_cons.trans (or_iff_right (Ne.symm hk))
      simp only [hmem]
      rcases environment[name]? with - | v
      · rfl
      · dsimp only
        rw [Env.getElem?_insertIfNew, if_neg hk, Option.or_none]

/-- What `/etc/crontab` leaves, by its lines. -/
structure TopOf (top : List Bytes) (t : Toplevel) : Prop where
  fallbackMailto : t.fallbackMailto = finalValue top (lit "MAILTO")
  inheritVariables : ∀ k, t.inheritVariables[k]? = inheritedValue top k
  cronMailSuccess : t.cronMailSuccess = topMailSuccess top
  cronMailFormat : t.cronMailFormat = topMailFormat top

theorem toplevelOf_spec {host : Host} {content : Option Bytes} {rng : Rng} {r : Crontab}
    (h : parseCrontab host systemKind {} content rng = .ok r) :
    TopOf (crontabLines (content.getD [])) (toplevelOf host r.preview) := by
  obtain ⟨-, hpreview⟩ := parseCrontab_jobs h
  generalize r.preview = preview at hpreview ⊢
  rcases preview with - | ⟨names, environment⟩
  · dsimp only at hpreview
    rw [hpreview]
    refine ⟨rfl, fun k => ?_, rfl, rfl⟩
    rw [show (toplevelOf host none).inheritVariables = {} from rfl, Std.TreeMap.getElem?_emptyc]
    exact (if_neg List.not_mem_nil).symm
  · obtain ⟨hnames, henv⟩ := hpreview
    dsimp only at hnames henv
    generalize crontabLines (content.getD []) = top at hnames henv
    have hvalue : ∀ k : Bytes, environment[k]? = finalValue top k := fun k => by
      rw [henv, environmentBelow_empty]
    obtain ⟨h1, h2⟩ := Job.decodeEnvironment_modes host (Job.new (lit "/etc/crontab") []) .dflt .dflt
      environment false
    refine ⟨?_, fun k => ?_, ?_, ?_⟩
    · refine (Job.decodeEnvironment_environment host (Job.new (lit "/etc/crontab") []) .dflt .dflt
        environment false (lit "MAILTO")).trans ?_
      rw [if_neg (by decide), hvalue]
      exact Option.none_or
    · refine (foldl_inherit environment _ {} k).trans ?_
      rw [Std.TreeMap.getElem?_emptyc, Option.none_or, hvalue, softTokenise_eq, hnames]
      rfl
    · rw [topMailSuccess, ← hvalue]
      exact h1
    · rw [topMailFormat, ← hvalue]
      exact h2

/-! ### The settings of a job -/

namespace Job

/-- The settings that `generate_schedule` leaves alone. -/
theorem generateSchedule_settings (j : Job) : j.generateSchedule.randomDelay = j.randomDelay ∧
    j.generateSchedule.startHour = j.startHour ∧ j.generateSchedule.batch = j.batch ∧
    j.generateSchedule.cronLogNamespace = j.cronLogNamespace := by
  unfold generateSchedule
  split
  · obtain ⟨_, _, _, _, _, h⟩ := j.generateScheduleFromPeriod_eq
    rw [h]
    exact ⟨rfl, rfl, rfl, rfl⟩
  · unfold generateScheduleFromTimespec
    extract_lets j1
    split <;> exact ⟨rfl, rfl, rfl, rfl⟩

end Job

/-- A job of `/etc/cron.d` gets the `MAILTO` of `/etc/crontab` if it has none. -/
theorem RunsWith.withFallbackMailto {top : List Bytes} {t : Toplevel} (ht : TopOf top t) {anacrontab : Bool}
    {settings : Bytes → Option Bytes} {j : Job} (h : RunsWith top none anacrontab settings j) :
    RunsWith top (finalValue top (lit "MAILTO")) anacrontab settings (withFallbackMailto t j) := by
  unfold SystemdCron.withFallbackMailto
  rw [ht.fallbackMailto]
  rcases finalValue top (lit "MAILTO") with - | v
  · exact h
  · have hvariable (k : Bytes) : (j.environment.insertIfNew (lit "MAILTO") v)[k]? =
        j.environment[k]?.or (if k = lit "MAILTO" then some v else none) := by
      rw [Env.getElem?_insertIfNew]
      simp only [eq_comm]
    obtain ⟨henv, hpath, hnone, hcontrols, hsuccess, hformat⟩ := h
    refine ⟨fun k hk hp => ?_, ?_, fun k hk => ?_, ⟨?_, ?_, ?_, ?_, ?_, ?_, ?_, ?_, ?_, ?_⟩, hsuccess, hformat⟩
    · refine (hvariable k).trans ?_
      rw [henv k hk hp, ite_self, Option.or_none]
    · refine (hvariable (lit "PATH")).trans ?_
      rw [if_neg (by decide), Option.or_none, hpath]
    · refine (hvariable k).trans ?_
      rw [hnone k hk, if_neg fun h => absurd (h ▸ hk) (by decide), Option.or_none]
    · exact hcontrols.persistent
    · exact hcontrols.cronUniqueUnits
    · exact hcontrols.randomDelay
    · exact hcontrols.startHour
    · exact hcontrols.bootDelay
    · exact hcontrols.hourly
    · exact hcontrols.batch
    · exact hcontrols.cronBatchLoadavgBelow
    · exact hcontrols.cronBatchThrottleGroup
    · exact hcontrols.cronLogNamespace

theorem withFallbackMailto_eq (t : Toplevel) (j : Job) :
    ∃ environment, withFallbackMailto t j = { j with environment } := by
  unfold withFallbackMailto
  split
  · exact ⟨_, rfl⟩
  · exact ⟨_, rfl⟩

/-! ### The units of a run -/

theorem filesRequests_forall₂ {α : Type} {f : α → Rng → Except Fault (List Job × Rng)} {files : List α}
    {rng rng' : Rng} {jss : List (List Job)} (h : filesRequests f files rng = .ok (jss, rng')) :
    List.Forall₂ (fun file js => ∃ rng rng', f file rng = .ok (js, rng')) files jss := by
  induction files generalizing rng jss with
  | nil => cases h; exact .nil
  | cons file files ih =>
    rw [filesRequests] at h
    rcases hfile : f file rng with e | ⟨js, rng1⟩
    · rw [hfile] at h; cases h
    rw [hfile] at h
    change (filesRequests f files rng1).bind _ = _ at h
    rcases hrest : filesRequests f files rng1 with e | ⟨others, rng2⟩
    · rw [hrest] at h; cases h
    rw [hrest] at h
    cases h
    exact .cons ⟨rng, rng1, hfile⟩ (ih hrest)

section
variable {cfg : Config} {host : Host} {top : List Bytes} {t : Toplevel}

theorem inheritedValue_inherit (top : List Bytes) :
    inheritedValue top (lit "CRON_INHERIT_VARIABLES") = none := by
  unfold inheritedValue
  split
  · exact if_pos rfl
  · rfl

/-- The `MAILTO` of `/etc/crontab` for the units of a file. -/
theorem UnitsOf.withFallbackMailto (ht : TopOf top t) {anacrontab : Bool} {inherited : Bytes → Option Bytes}
    {lines : List Bytes} {js us : List Job}
    (hjs : List.Forall₂
      (fun p j => j.line = p.2 ∧ RunsWith top none anacrontab (settingInEffect inherited p.1) j) (jobLines lines) js)
    (hus : List.Forall₂ IsUnit (((js.filter (·.valid)).map (withFallbackMailto t)).filter
      fun j => j.valid && j.isActive host) us) :
    UnitsOf host top (finalValue top (lit "MAILTO")) anacrontab inherited lines us := by
  refine ⟨js.map (SystemdCron.withFallbackMailto t), ?_, ?_⟩
  · rw [List.forall₂_map_right_iff]
    refine hjs.imp fun p j hj => ⟨?_, hj.2.withFallbackMailto ht⟩
    obtain ⟨env, he⟩ := withFallbackMailto_eq t j
    rw [he]
    exact hj.1
  · have hkeep : ∀ j, ((SystemdCron.withFallbackMailto t j).valid &&
        (SystemdCron.withFallbackMailto t j).isActive host) = (j.valid && j.isActive host) := by
      intro j
      obtain ⟨env, he⟩ := withFallbackMailto_eq t j
      rw [he]
      rfl
    have hfilter : ((js.filter (·.valid)).map (SystemdCron.withFallbackMailto t)).filter
          (fun j => j.valid && j.isActive host) =
        (js.map (SystemdCron.withFallbackMailto t)).filter fun j => j.valid && j.isActive host := by
      rw [List.filter_map, List.filter_map, List.filter_filter]
      refine congrArg _ (List.filter_congr fun j _ => ?_)
      rw [Function.comp_apply, hkeep]
      cases j.valid <;> simp
    rwa [hfilter] at hus

end

end SystemdCron
