import SystemdCron.Numbers

/-!
# The first run of a boot and a reload

`REBOOT_FILE` is made by the first run of a boot. What the files ask for does not depend on it
(`requests_withReboot`), but a later run passes over the jobs of `@reboot`, and these do not use up numbers
then: `reload_names_iff` says when the other jobs keep their names.
-/

namespace SystemdCron

open Bytes

/-- The host with or without `REBOOT_FILE`, and otherwise the same. -/
def Host.withReboot (host : Host) (b : Bool) : Host :=
  { host with exists' := fun path => if path = REBOOT_FILE then b else host.exists' path }

/-! ### What the files ask for -/

section
variable (host : Host) (b : Bool)

theorem exists_withReboot {w s : Bytes} (hw : NUL ∉ w) (hp : ¬ w <+: REBOOT_FILE) :
    (host.withReboot b).exists' (cstr (w ++ s)) = host.exists' (cstr (w ++ s)) := by
  refine if_neg fun h => hp ?_
  have hcut : cstr (w ++ s) = w ++ cstr s :=
    List.takeWhile_append_of_pos fun c hc => bne_iff_ne.2 fun h0 => hw (h0 ▸ hc)
  exact h ▸ hcut ▸ List.prefix_append w (cstr s)

theorem decodeTimezone_withReboot (j : Job) (v : Bytes) :
    j.decodeTimezone (host.withReboot b) v = j.decodeTimezone host v := by
  unfold Job.decodeTimezone
  extract_lets tz
  rw [exists_withReboot host b (by decide) (by decide)]

theorem decodeEntry_withReboot (ds : CronMailSuccess) (df : CronMailFormat) (j : Job) (k v : Bytes) :
    j.decodeEntry (host.withReboot b) ds df k v = j.decodeEntry host ds df k v := by
  unfold Job.decodeEntry Job.decodeVariable
  simp only [decodeTimezone_withReboot]
  rfl

theorem decodeEnvironment_withReboot (j : Job) (environment : Env) (p : Bool) (ds : CronMailSuccess)
    (df : CronMailFormat) :
    j.decodeEnvironment (host.withReboot b) environment p ds df =
      j.decodeEnvironment host environment p ds df := by
  unfold Job.decodeEnvironment
  simp only [decodeEntry_withReboot]

theorem parseJob_withReboot (kind : CrontabKind) (environment : Env) (line : Bytes) (rng : Rng) :
    parseJob (host.withReboot b) kind environment line rng = parseJob host kind environment line rng := by
  unfold parseJob parseLine newJob
  rw [decodeEnvironment_withReboot]
  rfl

theorem crontabLoop_withReboot (kind : CrontabKind) (lines : List Bytes) (s : CrontabState) :
    crontabLoop (host.withReboot b) kind s lines = crontabLoop host kind s lines := by
  induction lines generalizing s with
  | nil => rfl
  | cons line lines ih =>
    have hstep : crontabStep (host.withReboot b) kind s line = crontabStep host kind s line := by
      unfold crontabStep
      rw [parseJob_withReboot]
    simp only [crontabLoop, hstep, ih]

theorem parseCrontab_withReboot (kind : CrontabKind) (environment : Env) (content : Option Bytes) (rng : Rng) :
    parseCrontab (host.withReboot b) kind environment content rng =
      parseCrontab host kind environment content rng := by
  unfold parseCrontab
  simp only [crontabLoop_withReboot]

theorem toplevelOf_withReboot (preview : Option (Bytes × Env)) :
    toplevelOf (host.withReboot b) preview = toplevelOf host preview := by
  unfold toplevelOf
  simp only [decodeEnvironment_withReboot]

theorem isMasked_withReboot (name : Bytes) (mapping : List (Bytes × Bytes)) :
    isMasked (host.withReboot b) name mapping = isMasked host name mapping := by
  have hpath : ∀ root ∈ [lit "/lib", lit "/etc", lit "/run"], ∀ file,
      (host.withReboot b).exists' (cstr (root ++ lit "/systemd/system/" ++ file ++ lit ".timer")) =
        host.exists' (cstr (root ++ lit "/systemd/system/" ++ file ++ lit ".timer")) := by
    have hroots : ∀ root ∈ [lit "/lib", lit "/etc", lit "/run"], NUL ∉ root ++ lit "/systemd/system/" ∧
        ¬ root ++ lit "/systemd/system/" <+: REBOOT_FILE := by decide
    intro root hroot file
    rw [List.append_assoc]
    exact exists_withReboot host b (hroots root hroot).1 (hroots root hroot).2
  have hlib : lit "/lib/systemd/system/" = lit "/lib" ++ lit "/systemd/system/" := by decide
  unfold isMasked
  simp only [List.any_cons, List.any_nil, hlib]
  rw [hpath _ (by simp), hpath _ (by simp), hpath _ (by simp), hpath _ (by simp)]

/-- **What the files ask for** does not depend on `REBOOT_FILE`. -/
theorem requests_withReboot (cfg : Config) (sources : Sources) (rng : Rng) :
    requests cfg (host.withReboot b) sources rng = requests cfg host sources rng := by
  have hcronD (top : Toplevel) : cronDRequests cfg (host.withReboot b) top = cronDRequests cfg host top := by
    funext file rng
    unfold cronDRequests
    rw [isMasked_withReboot, parseCrontab_withReboot]
  have hspool (top : Toplevel) : spoolRequests cfg (host.withReboot b) top = spoolRequests cfg host top := by
    funext file rng
    unfold spoolRequests
    rw [parseCrontab_withReboot]
  have hpart : isRunPart cfg (host.withReboot b) = isRunPart cfg host := by
    funext period name
    unfold isRunPart
    rw [isMasked_withReboot]
    rfl
  have hjob : runPartsJob (host.withReboot b) = runPartsJob host := by
    funext top s period name i
    unfold runPartsJob
    simp only [decodeEnvironment_withReboot]
    rfl
  have hparts (top : Toplevel) :
      runPartsRequests cfg (host.withReboot b) top = runPartsRequests cfg host top := by
    funext hours runParts
    unfold runPartsRequests
    rw [hpart, hjob]
  unfold requests
  simp only [parseCrontab_withReboot, toplevelOf_withReboot, hcronD, hspool, hparts]

end

/-! ### Names -/

/-- A job of `@reboot` that is given a number of an identifier as long as there is no `REBOOT_FILE`. -/
def isRebootJob (id : Bytes) : Request → Bool
  | .timer j => j.valid && j.schedule == lit "reboot" && j.sequential && j.jobid == id
  | .named _ => false

/-- The numbers that a reload does not use up. -/
theorem countP_withReboot (host : Host) (id : Bytes) (l : List Request) :
    l.countP (counts (host.withReboot false) id) =
      l.countP (counts (host.withReboot true) id) + l.countP (isRebootJob id) := by
  induction l with
  | nil => rfl
  | cons r l ih =>
    have hone : (if counts (host.withReboot false) id r then 1 else 0) =
        (if counts (host.withReboot true) id r then 1 else 0) + if isRebootJob id r then 1 else 0 := by
      cases r with
      | named j => rfl
      | timer j =>
        simp only [counts, isRebootJob, Job.isLive, Job.isActive, Host.withReboot, if_pos]
        by_cases hs : j.schedule = lit "reboot"
        · simp [hs]
        · simp [hs]
    rw [List.countP_cons, List.countP_cons, List.countP_cons, ih, hone]
    omega

theorem counter_withReboot_iff (host : Host) (id : Bytes) (l : List Request) :
    counter (host.withReboot false) id l = counter (host.withReboot true) id l ↔
      2 ^ 64 ∣ l.countP (isRebootJob id) := by
  unfold counter
  rw [countP_withReboot]
  omega

theorem unitOf_timer_eq_some {host : Host} {md5 : Md5} {done : List Request} {j u : Job} :
    unitOf host md5 done (.timer j) = some u ↔
      j.isLive host ∧ (j.generateUnitName md5 (counter host j.jobid done)).1 = u := by
  rw [unitOf]
  split
  next hlive => simp [hlive]
  next hlive => simp [hlive]

/-- The jobs of both runs are the valid ones that are not `@reboot`. -/
theorem isLive_withReboot (host : Host) (j : Job) :
    j.isLive (host.withReboot true) ↔ j.valid ∧ j.schedule ≠ lit "reboot" := by
  simp [Job.isLive, Job.isActive, Host.withReboot]

theorem isLive_first {host : Host} {j : Job} (hv : j.valid) : j.isLive (host.withReboot false) := by
  simp [Job.isLive, Job.isActive, Host.withReboot, hv]

/-- The names of both runs agree if they have a digest or the same number. -/
theorem unitName_withReboot_iff (host : Host) (md5 : Md5) (done : List Request) (j : Job) :
    (j.generateUnitName md5 (counter (host.withReboot false) j.jobid done)).1.unitName =
        (j.generateUnitName md5 (counter (host.withReboot true) j.jobid done)).1.unitName ↔
      (j.sequential → 2 ^ 64 ∣ done.countP (isRebootJob j.jobid)) := by
  rw [← counter_withReboot_iff host]
  unfold Job.generateUnitName
  by_cases hs : j.sequential
  · rw [if_pos hs, if_pos hs]
    simp only [List.append_cancel_left_eq, hs, true_implies]
    exact decimal_injective.eq_iff
  · rw [if_neg hs, if_neg hs]
    simp [hs]

/-- **A reload keeps the names** of the jobs that are generated again exactly if no numbered job that is not
`@reboot` comes after a number of numbered jobs of `@reboot` with its identifier (which has to be no multiple of
`2 ^ 64`). -/
theorem reload_names_iff {cfg : Config} {host : Host} (md5 : Md5) {sources : Sources} {rng : Rng} {q : Requests}
    (h : requests cfg host sources rng = .ok q) :
    ∃ s s', realmain cfg (host.withReboot false) md5 sources rng = .ok s ∧
      realmain cfg (host.withReboot true) md5 sources rng = .ok s' ∧
      s.units = unitsAfter (host.withReboot false) md5 [] q.list ∧
      s'.units = unitsAfter (host.withReboot true) md5 [] q.list ∧
      ((∀ done r rest u u', q.list = done ++ r :: rest →
          unitOf (host.withReboot false) md5 done r = some u →
          unitOf (host.withReboot true) md5 done r = some u' → u.unitName = u'.unitName) ↔
        ∀ done j rest, q.list = done ++ .timer j :: rest → j.valid → j.schedule ≠ lit "reboot" →
          j.sequential → 2 ^ 64 ∣ done.countP (isRebootJob j.jobid)) := by
  have hrun (b : Bool) : realmain cfg (host.withReboot b) md5 sources rng =
      .ok (execute (host.withReboot b) md5 q.distroStartHour q.rng q.list) := by
    rw [realmain_eq, requests_withReboot, h]
    rfl
  refine ⟨_, _, hrun false, hrun true, units_execute .., units_execute .., ?_, ?_⟩
  · intro hsame done j rest hlist hv hs
    have hu := hsame done (.timer j) rest _ _ hlist (unitOf_timer_eq_some.2 ⟨isLive_first hv, rfl⟩)
      (unitOf_timer_eq_some.2 ⟨(isLive_withReboot host j).2 ⟨hv, hs⟩, rfl⟩)
    exact (unitName_withReboot_iff host md5 done j).1 hu
  · intro hcount done r rest u u' hlist hu hu'
    cases r with
    | named j =>
      cases hu
      cases hu'
      rfl
    | timer j =>
      obtain ⟨-, rfl⟩ := unitOf_timer_eq_some.1 hu
      obtain ⟨hlive, rfl⟩ := unitOf_timer_eq_some.1 hu'
      obtain ⟨hv, hs⟩ := (isLive_withReboot host j).1 hlive
      exact (unitName_withReboot_iff host md5 done j).2 (hcount done j rest hlist hv hs)

/-- An `/etc/crontab` and nothing else. -/
def crontabOnly (content : Bytes) : Sources where
  crontab := some content
  cronD := []
  runParts _ := []
  anacrontab := none
  spool := none

/-- The names and the commands of a run on `/etc/crontab`. -/
def namedCommands (host : Host) (content : Bytes) : Option (List (Bytes × List Bytes)) :=
  (realmain {} host sampleMd5 (crontabOnly content) fun _ => 0).toOption.map fun s =>
    s.units.map fun u => (u.unitName, u.command.hunks)

/-- The unit of `b` is named anew by a reload: it gets the name that the unit of `a` had. -/
theorem reload_renames :
    namedCommands (Host.bare.withReboot false) (lit "@reboot root a\n0 6 * * * root b") =
        some [(lit "cron-crontab-root-0", [lit "a"]), (lit "cron-crontab-root-1", [lit "b"])] ∧
      namedCommands (Host.bare.withReboot true) (lit "@reboot root a\n0 6 * * * root b") =
        some [(lit "cron-crontab-root-0", [lit "b"])] :=
  ⟨by decide +kernel, by decide +kernel⟩

theorem reload_names_iff_reboot : ∃ (q : Requests) (s s' : GenState),
    requests {} .bare (crontabOnly (lit "0 6 * * * root b\n@reboot root a")) (fun _ => 0) = .ok q ∧
      s.units = unitsAfter (Host.bare.withReboot false) sampleMd5 [] q.list ∧
      s'.units = unitsAfter (Host.bare.withReboot true) sampleMd5 [] q.list := by
  have hok : (requests {} .bare (crontabOnly (lit "0 6 * * * root b\n@reboot root a")) fun _ => 0).isOk := by
    decide +kernel
  cases hq : requests {} .bare (crontabOnly (lit "0 6 * * * root b\n@reboot root a")) fun _ => 0 with
  | error f => rw [hq] at hok; cases hok
  | ok q =>
    obtain ⟨s, s', -, -, hs, hs', -⟩ := reload_names_iff sampleMd5 hq
    exact ⟨q, s, s', rfl, hs, hs'⟩

end SystemdCron
