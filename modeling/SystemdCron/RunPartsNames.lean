import SystemdCron.Numbers

/-!
# Names of run-parts jobs

The unit of an executable in `/etc/cron.{period}` is named after the period and the letters, digits, dashes and
underscores of the file name, without a number or a digest. `runParts_names_iff` says when that is a name of its
own.
-/

namespace SystemdCron

open Bytes

/-- What `decode` leaves of a file name. -/
def cleaned (name : Bytes) : Bytes := name.filter isAsciiAlnum

/-- The executables that are run, each with its period. -/
def runPartPairs (cfg : Config) (host : Host) (runParts : Bytes → List Bytes) : List (Bytes × Bytes) :=
  if cfg.USE_RUNPARTS then []
  else
    runPartsPeriods.flatMap fun p =>
      ((runParts p.1).filter (isRunPart cfg host p.1)).map fun name => (p.1, name)

/-- The jobs from crontabs. -/
def Requests.timers (q : Requests) : List Job :=
  q.crontab ++ q.cronD.flatten ++ q.anacrontab ++ q.spool.flatten

/-- The name of the unit of an executable, after `cron-`. -/
def runPartText (a : Bytes × Bytes) : Bytes := a.1 ++ DASH :: cleaned a.2

theorem period_spec {p : Bytes × Nat} (hp : p ∈ runPartsPeriods) :
    p.1.filter isAsciiAlnum = p.1 ∧ DASH ∉ p.1 := by
  have : ∀ p ∈ runPartsPeriods, p.1.filter isAsciiAlnum = p.1 ∧ DASH ∉ p.1 := by decide +kernel
  exact this p hp

theorem runPartsJob_unitName (host : Host) (top : Toplevel) (s : GenState) {p : Bytes × Nat}
    (hp : p ∈ runPartsPeriods) (name : Bytes) :
    (runPartsJob host top s p.1 name p.2).unitName = lit "cron-" ++ runPartText (p.1, name) := by
  have hmailto (j : Job) : (withFallbackMailto top j).jobid = j.jobid := by
    unfold withFallbackMailto
    split <;> rfl
  have hdash : isAsciiAlnum DASH := by decide +kernel
  unfold runPartsJob
  extract_lets filename j1 j2 j3
  change lit "cron-" ++ j3.jobid = _
  rw [show j3.jobid = _ from hmailto _, (Job.generateSchedule_scheduled _).jobid, Job.decode]
  obtain ⟨_, _, _, _, _, _, _, hd⟩ :=
    Job.decodeCommand_eq host { j2 with jobid := j2.jobid.filter isAsciiAlnum }
  rw [hd]
  change lit "cron-" ++ (p.1 ++ [DASH] ++ name).filter isAsciiAlnum = _
  rw [List.filter_append, List.filter_append, (period_spec hp).1, List.filter_cons_of_pos hdash,
    List.filter_nil, List.append_assoc]
  rfl

theorem runParts_unitNames (cfg : Config) (host : Host) (top : Toplevel) (hours : Std.TreeMap Bytes Nat)
    (runParts : Bytes → List Bytes) :
    (runPartsRequests cfg host top hours runParts).flatten.map (·.unitName) =
      (runPartPairs cfg host runParts).map fun a => lit "cron-" ++ runPartText a := by
  unfold runPartsRequests runPartPairs
  split
  · rfl
  · rw [List.map_flatten, List.map_map, List.flatMap_def, List.map_flatten, List.map_map]
    refine congrArg List.flatten (List.map_congr_left fun p hp => ?_)
    simp only [Function.comp_apply, List.map_map]
    exact List.map_congr_left fun name _ => runPartsJob_unitName host top _ hp name

/-- The units of a run: those of the crontabs, which are the same without the executables, and those of the
executables. -/
theorem realmain_units {cfg : Config} {host : Host} {md5 : Md5} {sources : Sources} {rng : Rng} {s : GenState}
    {q : Requests} (hq : requests cfg host sources rng = .ok q)
    (h : realmain cfg host md5 sources rng = .ok s) :
    ∃ before after, s.units = before ++ q.runParts.flatten ++ after ∧
      before ++ after = unitsAfter host md5 [] (q.timers.map .timer) := by
  rw [realmain_eq, hq] at h
  cases h
  set first := (q.crontab ++ q.cronD.flatten).map Request.timer with hfirst
  set last := (q.anacrontab ++ q.spool.flatten).map Request.timer with hlast
  have hlist : q.list = first ++ (q.runParts.flatten.map .named ++ last) := by
    simp [Requests.list, hfirst, hlast, List.map_append, List.append_assoc]
  have htimers : q.timers.map Request.timer = first ++ last := by
    simp [Requests.timers, hfirst, hlast, List.map_append, List.append_assoc]
  refine ⟨unitsAfter host md5 [] first, unitsAfter host md5 first last, ?_, ?_⟩
  · rw [units_execute, hlist, unitsAfter_append, unitsAfter_append, List.nil_append, unitsAfter_named,
      @unitsAfter_congr host md5 _ first (counter_append_named · first q.runParts.flatten) last,
      List.append_assoc]
  · rw [htimers, unitsAfter_append, List.nil_append]

/-! ### Clashes -/

theorem mem_runPartPairs {cfg : Config} {host : Host} {runParts : Bytes → List Bytes} {a : Bytes × Bytes}
    (h : a ∈ runPartPairs cfg host runParts) :
    isRunPart cfg host a.1 a.2 ∧ ∃ p ∈ runPartsPeriods, p.1 = a.1 := by
  unfold runPartPairs at h
  split at h
  · cases h
  · obtain ⟨p, hp, h⟩ := List.mem_flatMap.1 h
    obtain ⟨name, hname, rfl⟩ := List.mem_map.1 h
    exact ⟨(List.mem_filter.1 hname).2, p, hp, rfl⟩

/-- The filter for the names of files leaves no letter to delete. -/
theorem cleaned_of_isRunPart {cfg : Config} {host : Host} {period name : Bytes}
    (hfilter : cfg.USE_DEBIAN_BASENAME_FILTER) (h : isRunPart cfg host period name) : cleaned name = name := by
  have hbackup : isBackup cfg name = false := by
    unfold isRunPart at h
    simp only [Bool.not_eq_true', Bool.or_eq_false_iff] at h
    exact h.1.2
  by_cases hplaceholder : name = lit ".placeholder"
  · rw [isBackup, if_pos hplaceholder] at hbackup
    cases hbackup
  · rw [isBackup, if_neg hplaceholder, hfilter, if_pos rfl] at hbackup
    simp only [Bool.or_eq_false_iff, Bool.not_eq_false', List.all_eq_true] at hbackup
    exact List.filter_eq_self.2 hbackup.2

theorem runPartText_inj {a b : Bytes × Bytes} (ha : DASH ∉ a.1) (hb : DASH ∉ b.1) :
    runPartText a = runPartText b ↔ a.1 = b.1 ∧ cleaned a.2 = cleaned b.2 := by
  constructor
  · intro h
    have hsplit := splitFirst_eq_some.2 ⟨h.symm, ha⟩
    rw [runPartText, splitFirst_eq_some.2 ⟨rfl, hb⟩] at hsplit
    obtain ⟨h1, h2⟩ := Prod.mk.inj (Option.some.inj hsplit)
    exact ⟨h1.symm, h2.symm⟩
  · rintro ⟨h1, h2⟩
    rw [runPartText, runPartText, h1, h2]

/-- **Names of run-parts jobs.** In a run the units of the executables have names of their own exactly if the
deletion of characters makes no two file names of a period the same (which it cannot with the filter for the
names of files), and the text of none of them is the identifier of a job from a crontab with a number or a
digest after it. -/
theorem runParts_names_iff {cfg : Config} {host : Host} {md5 : Md5} {sources : Sources} {rng : Rng}
    {s : GenState} (h : realmain cfg host md5 sources rng = .ok s) :
    ∃ q before after, requests cfg host sources rng = .ok q ∧
      s.units = before ++ q.runParts.flatten ++ after ∧
      before ++ after = unitsAfter host md5 [] (q.timers.map .timer) ∧
      q.runParts.flatten.map (·.unitName) =
        (runPartPairs cfg host sources.runParts).map (fun a => lit "cron-" ++ runPartText a) ∧
      (((∀ a ∈ runPartPairs cfg host sources.runParts, ∀ b ∈ runPartPairs cfg host sources.runParts, a ≠ b →
            lit "cron-" ++ runPartText a ≠ lit "cron-" ++ runPartText b) ∧
          ∀ a ∈ runPartPairs cfg host sources.runParts, ∀ u ∈ before ++ after,
            u.unitName ≠ lit "cron-" ++ runPartText a) ↔
        (cfg.USE_DEBIAN_BASENAME_FILTER ∨
            ∀ a ∈ runPartPairs cfg host sources.runParts, ∀ b ∈ runPartPairs cfg host sources.runParts,
              a.1 = b.1 → cleaned a.2 = cleaned b.2 → a.2 = b.2) ∧
          ∀ a ∈ runPartPairs cfg host sources.runParts, ¬ Taken host md5 q.timers (runPartText a)) := by
  obtain ⟨q, hq⟩ : ∃ q, requests cfg host sources rng = .ok q := by
    rw [realmain_eq] at h
    cases hq : requests cfg host sources rng with
    | ok q => exact ⟨q, rfl⟩
    | error f => rw [hq] at h; cases h
  obtain ⟨before, after, hunits, hothers⟩ := realmain_units hq h
  obtain ⟨r, r', rng', hreads⟩ := requests_ok_iff.1 hq
  refine ⟨q, before, after, hq, hunits, hothers, ?_, and_congr ⟨fun hdiff => ?_,
    fun hcond a ha b hb hne heq => ?_⟩ (forall₂_congr fun a ha => ?_)⟩
  · rw [hreads.runParts]
    exact runParts_unitNames ..
  · refine .inr fun a ha b hb hperiod hcleaned => by_contra fun hne => ?_
    refine hdiff a ha b hb (fun hab => hne (congrArg Prod.snd hab)) ?_
    rw [runPartText, runPartText, hperiod, hcleaned]
  · obtain ⟨hruna, pa, hpa, hpa'⟩ := mem_runPartPairs ha
    obtain ⟨hrunb, pb, hpb, hpb'⟩ := mem_runPartPairs hb
    have hdasha := hpa' ▸ (period_spec hpa).2
    have hdashb := hpb' ▸ (period_spec hpb).2
    obtain ⟨hperiod, hcleaned⟩ := (runPartText_inj hdasha hdashb).1 (List.append_cancel_left heq)
    refine hne (Prod.ext hperiod ?_)
    rcases hcond with hfilter | hcond
    · rwa [cleaned_of_isRunPart hfilter hruna, cleaned_of_isRunPart hfilter hrunb] at hcleaned
    · exact hcond a ha b hb hperiod hcleaned
  · rw [taken_iff, ← hothers, not_exists]
    exact forall_congr' fun u => not_and.symm

/-- A host with executables in `/etc/cron.daily`. -/
def dailyHost (names : List Bytes) : Host :=
  { Host.bare with isExecutable := fun path => names.any fun name => path == lit "/etc/cron.daily/" ++ name }

/-- These executables, beside files in `/etc/cron.d`. -/
def dailySources (cronD : List (Bytes × Bytes)) (names : List Bytes) : Sources where
  crontab := none
  cronD
  runParts period := if period = lit "daily" then names else []
  anacrontab := none
  spool := none

/-- The names of the units of a run. -/
def unitNames (cfg : Config) (cronD : List (Bytes × Bytes)) (names : List Bytes) : Option (List Bytes) :=
  (realmain cfg (dailyHost names) sampleMd5 (dailySources cronD names) fun _ => 0).toOption.map fun s =>
    s.units.map (·.unitName)

/-- The deletion of a dot makes two names the same; and, under the filter for the names of files, a name is that
of the first job of a crontab. -/
theorem runParts_names_clash :
    unitNames {} [] [lit "a.b", lit "ab"] = some [lit "cron-daily-ab", lit "cron-daily-ab"] ∧
      unitNames { USE_DEBIAN_BASENAME_FILTER := true } [(lit "daily", lit "0 6 * * * root true")]
          [lit "root-0"] =
        some [lit "cron-daily-root-0", lit "cron-daily-root-0"] :=
  ⟨by decide +kernel, by decide +kernel⟩

theorem runParts_names_iff_two :
    ∃ s q before after,
      realmain {} (dailyHost [lit "a", lit "b"]) sampleMd5 (dailySources [] [lit "a", lit "b"]) (fun _ => 0) =
        .ok s ∧
      requests {} (dailyHost [lit "a", lit "b"]) (dailySources [] [lit "a", lit "b"]) (fun _ => 0) = .ok q ∧
      s.units = before ++ q.runParts.flatten ++ after := by
  have hok : (realmain {} (dailyHost [lit "a", lit "b"]) sampleMd5 (dailySources [] [lit "a", lit "b"])
      fun _ => 0).isOk := by decide +kernel
  cases h : realmain {} (dailyHost [lit "a", lit "b"]) sampleMd5 (dailySources [] [lit "a", lit "b"])
    fun _ => 0 with
  | error f => rw [h] at hok; cases hok
  | ok s =>
    obtain ⟨q, before, after, hq, hunits, -⟩ := runParts_names_iff h
    exact ⟨s, q, before, after, rfl, hq, hunits⟩

end SystemdCron
