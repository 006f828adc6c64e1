import SystemdCron.CrontabCommand
import SystemdCron.Periods
import SystemdCron.Reload

/-!
# The jobs of a boot

`REBOOT_FILE` is on a file system that a boot leaves empty. It is made by the generator, if it sees the spool, and
by `crontab`, whatever its action is: `reboot_once` says which run of a boot writes the units of `@reboot`.
-/

namespace SystemdCron

open Bytes

/-- A run of the generator: the host but for `REBOOT_FILE`, the files, and whether `REBOOT_FILE` can be created. -/
structure GeneratorRun where
  host : Host
  sources : Sources
  rng : Rng
  creat : Bool

/-- A run of `realmain`, with or without `REBOOT_FILE`. -/
def GeneratorRun.realmain (run : GeneratorRun) (cfg : Config) (md5 : Md5) (rebootFile : Bool) :
    Except Fault GenState :=
  SystemdCron.realmain cfg (run.host.withReboot rebootFile) md5 run.sources run.rng

/-- What matters to `REBOOT_FILE`: a boot, a run of the generator, and one of `crontab`. -/
inductive Event where
  | boot
  | generator (run : GeneratorRun)
  | crontab (c : Invocation) (run : StartRun) (opts : List Opt) (operands : List Bytes) (files : Files)

namespace Event

def isBoot : Event → Bool
  | .boot => true
  | _ => false

/-- Whether there is a `REBOOT_FILE` after an event. -/
def rebootFile (cfg : Config) (md5 : Md5) (made : Bool) : Event → Bool
  | .boot => false
  | .generator run => made || run.creat && run.sources.spool.isSome && (run.realmain cfg md5 made).isOk
  | .crontab c run opts operands files =>
    match c.start run opts operands { files with rebootFile := made } with
    | .error outcome => outcome.files.rebootFile
    | .ok r => r.2.2.rebootFile

/-- The event makes `REBOOT_FILE`: the generator sees the spool and comes to its end, or `crontab` to its action. -/
def Creates (cfg : Config) : Event → Prop
  | .boot => False
  | .generator run =>
    run.creat ∧ run.sources.spool.isSome ∧ (requests cfg run.host run.sources run.rng).isOk
  | .crontab c run opts operands files => run.creat ∧ (c.start run opts operands files).isOk

end Event

/-- Whether there is a `REBOOT_FILE` after some events. -/
def rebootFileAfter (cfg : Config) (md5 : Md5) (events : List Event) : Bool :=
  events.foldl (Event.rebootFile cfg md5) false

/-- The events since the last boot, the last one first. -/
def sinceBoot (events : List Event) : List Event := events.reverse.takeWhile (!·.isBoot)

/-- A job without its name. -/
def Job.unnamed (j : Job) : Job := { j with unitName := [] }

def Job.isReboot (j : Job) : Bool := j.schedule = lit "reboot"

/-- The job of `@reboot` that a request is for. -/
def Request.rebootJob : Request → Option Job
  | .timer j => if j.valid && j.isReboot then some j.unnamed else none
  | .named _ => none

/-! ### The file -/

theorem GeneratorRun.realmain_isOk (run : GeneratorRun) (cfg : Config) (md5 : Md5) (made : Bool) :
    (run.realmain cfg md5 made).isOk = (requests cfg run.host run.sources run.rng).isOk := by
  rw [realmain, realmain_eq, requests_withReboot]
  cases requests cfg run.host run.sources run.rng <;> rfl

/-- `crontab` makes the file before its action, and how it gets there does not depend on the file. -/
theorem crontab_rebootFile (cfg : Config) (md5 : Md5) (c : Invocation) (run : StartRun) (opts : List Opt)
    (operands : List Bytes) (files : Files) (made : Bool) :
    (Event.crontab c run opts operands files).rebootFile cfg md5 made =
      (made || run.creat && (c.start run opts operands files).isOk) := by
  simp only [Event.rebootFile, Invocation.start]
  cases (getopts opts {}).bind (·.operands operands) with
  | none => simp [Except.isOk, Except.toBool]
  | some chosen =>
    dsimp only
    cases chosen.user.or (getpassGetlogin c.process) with
    | none => simp [Except.isOk, Except.toBool]
    | some user =>
      by_cases huser : c.getpwnam user
      · by_cases hdir : run.crontabDir
        · simp [huser, hdir, Except.isOk, Except.toBool]
        · simp [huser, hdir, Except.isOk, Except.toBool]
      · simp [huser, Except.isOk, Except.toBool]

theorem rebootFile_iff (cfg : Config) (md5 : Md5) (made : Bool) (e : Event) :
    e.rebootFile cfg md5 made ↔ ¬ e.isBoot ∧ (made ∨ e.Creates cfg) := by
  cases e with
  | boot => simp [Event.rebootFile, Event.isBoot]
  | generator run =>
    simp only [Event.rebootFile, Event.isBoot, Event.Creates, run.realmain_isOk]
    simp [and_assoc]
  | crontab c run opts operands files =>
    rw [crontab_rebootFile]
    simp [Event.isBoot, Event.Creates]

theorem sinceBoot_append (events : List Event) (e : Event) :
    sinceBoot (events ++ [e]) = if e.isBoot then [] else e :: sinceBoot events := by
  rw [sinceBoot, List.reverse_append, List.reverse_singleton, List.singleton_append, List.takeWhile_cons]
  cases e.isBoot <;> rfl

/-- There is a `REBOOT_FILE` if something has made it since the last boot. -/
theorem rebootFileAfter_iff (cfg : Config) (md5 : Md5) (events : List Event) :
    rebootFileAfter cfg md5 events ↔ ∃ e ∈ sinceBoot events, e.Creates cfg := by
  induction events using List.reverseRecOn with
  | nil => simp [rebootFileAfter, sinceBoot]
  | append_singleton events e ih =>
    rw [rebootFileAfter, List.foldl_append, List.foldl_cons, List.foldl_nil, rebootFile_iff, ← rebootFileAfter,
      ih, sinceBoot_append]
    by_cases hboot : e.isBoot
    · rw [if_pos hboot]
      exact iff_of_false (fun h => h.1 hboot) nofun
    · rw [if_neg hboot, and_iff_right hboot, List.exists_mem_cons_iff, or_comm]

/-! ### The units -/

/-- The job of an executable is none of `@reboot`. -/
theorem runPartsJob_schedule (host : Host) (top : Toplevel) (s : GenState) (name : Bytes) {p : Bytes × Nat}
    (hp : p ∈ runPartsPeriods) : (runPartsJob host top s p.1 name p.2).isReboot = false := by
  have hperiod : ∃ k : Keyword, k ≠ .reboot ∧ normalPeriod p.1 = k.name ∧ p.1 ≠ [] := by
    simp only [runPartsPeriods, List.mem_cons, List.not_mem_nil, or_false] at hp
    rcases hp with rfl | rfl | rfl | rfl | rfl
    · exact ⟨.hourly, by decide, by decide, by decide⟩
    · exact ⟨.daily, by decide, by decide, by decide⟩
    · exact ⟨.weekly, by decide, by decide, by decide⟩
    · exact ⟨.monthly, by decide, by decide, by decide⟩
    · exact ⟨.yearly, by decide, by decide, by decide⟩
  obtain ⟨k, hk, hnormal, hne⟩ := hperiod
  have hschedule : ∃ hour delay, (runPartsJob host top s p.1 name p.2).schedule = periodText k.name hour delay := by
    have hmailto (j : Job) : (withFallbackMailto top j).schedule = j.schedule := by
      unfold withFallbackMailto
      split <;> rfl
    unfold runPartsJob
    extract_lets filename j1 j2 j3
    obtain ⟨_, _, _, _, _, _, _, hd⟩ :=
      Job.decodeCommand_eq host { j2 with jobid := j2.jobid.filter isAsciiAlnum }
    have hdecode : (j2.decode host).period = p.1 := by rw [Job.decode, hd]
    refine ⟨(j2.decode host).startHour, (j2.decode host).bootDelay, ?_⟩
    change j3.schedule = _
    rw [show j3.schedule = _ from hmailto _, Job.generateSchedule, if_pos (hdecode ▸ hne),
      generateScheduleFromPeriod_schedule, hdecode, hnormal]
  obtain ⟨hour, delay, hs⟩ := hschedule
  rw [Job.isReboot, hs, decide_eq_false_iff_not]
  rcases periodText_keyword k hour delay with ⟨rfl, -⟩ | ⟨e, -, hw⟩
  · exact absurd rfl hk
  · intro h
    have hmeaning := hw.meaning
    rw [h, meaning_reboot] at hmeaning
    cases hmeaning

/-- What is written for the jobs of `@reboot` of some requests. -/
theorem unitsAfter_reboot (host : Host) (md5 : Md5) (made : Bool) {l : List Request}
    (hl : ∀ j, Request.named j ∈ l → j.isReboot = false) (done : List Request) :
    ((unitsAfter (host.withReboot made) md5 done l).filter Job.isReboot).map Job.unnamed =
      if made then [] else l.filterMap Request.rebootJob := by
  induction l generalizing done with
  | nil => simp [unitsAfter]
  | cons r rest ih =>
    have hrest := ih (fun j hj => hl j (List.mem_cons_of_mem _ hj)) (done ++ [r])
    have hone : ((unitOf (host.withReboot made) md5 done r).toList.filter Job.isReboot).map Job.unnamed =
        if made then [] else r.rebootJob.toList := by
      cases r with
      | named j => simp [unitOf, Request.rebootJob, hl j List.mem_cons_self]
      | timer j =>
        have hlive : j.isLive (host.withReboot made) = (j.valid && !(j.isReboot && made)) := by
          simp [Job.isLive, Job.isActive, Job.isReboot, Host.withReboot]
        have hnamed (n : Nat) : (j.generateUnitName md5 n).1.isReboot = j.isReboot ∧
            (j.generateUnitName md5 n).1.unnamed = j.unnamed := by
          unfold Job.generateUnitName
          split <;> exact ⟨rfl, rfl⟩
        rw [unitOf, Request.rebootJob, hlive]
        cases hv : j.valid <;> cases hr : j.isReboot <;> cases made <;> simp [hnamed, hr]
    rw [unitsAfter, List.filter_append, List.map_append, hone, hrest, List.filterMap_cons]
    cases made with
    | true => rfl
    | false => cases r.rebootJob <;> rfl

/-- **`@reboot` once in a boot**, over any boots, runs of the generator and runs of `crontab`: the units that a run
writes for jobs of `@reboot` are those of all valid ones in its files, unless since the boot a run of the generator
that saw the spool, or a `crontab` that came to its action, has made `REBOOT_FILE`. Then there are none. -/
theorem reboot_once {cfg : Config} {run : GeneratorRun} {q : Requests}
    (h : requests cfg run.host run.sources run.rng = .ok q) (md5 : Md5) (events : List Event) :
    ∃ s, run.realmain cfg md5 (rebootFileAfter cfg md5 events) = .ok s ∧
      ((∃ e ∈ sinceBoot events, e.Creates cfg) → s.units.filter Job.isReboot = []) ∧
      ((∀ e ∈ sinceBoot events, ¬ e.Creates cfg) →
        (s.units.filter Job.isReboot).map Job.unnamed = q.list.filterMap Request.rebootJob) := by
  have hnamed (j : Job) (hj : Request.named j ∈ q.list) : j.isReboot = false := by
    obtain ⟨r, r', rng', hreads⟩ := requests_ok_iff.1 h
    have hmem : j ∈ q.runParts.flatten := by simpa [Requests.list] using hj
    rw [hreads.runParts, runPartsRequests] at hmem
    split at hmem
    · cases hmem
    · obtain ⟨jobs, hjobs, hj⟩ := List.mem_flatten.1 hmem
      obtain ⟨p, hp, rfl⟩ := List.mem_map.1 hjobs
      obtain ⟨name, -, rfl⟩ := List.mem_map.1 hj
      exact runPartsJob_schedule run.host _ _ name hp
  have hunits := fun made => unitsAfter_reboot run.host md5 made hnamed []
  refine ⟨execute (run.host.withReboot (rebootFileAfter cfg md5 events)) md5 q.distroStartHour q.rng q.list, ?_,
    fun hmade => ?_, fun hnone => ?_⟩
  · rw [GeneratorRun.realmain, realmain_eq, requests_withReboot, h]
    rfl
  · rw [units_execute, (rebootFileAfter_iff cfg md5 events).2 hmade]
    have := hunits true
    rwa [if_pos rfl, List.map_eq_nil_iff] at this
  · have hmade : rebootFileAfter cfg md5 events = false :=
      Bool.eq_false_iff.2 fun hmade => by
        obtain ⟨e, he, hcreates⟩ := (rebootFileAfter_iff cfg md5 events).1 hmade
        exact hnone e he hcreates
    rw [units_execute, hmade, hunits]
    rfl

/-- A run on a host with an `/etc/crontab` of one job, and an empty spool. -/
def oneRebootJob : GeneratorRun where
  host := .bare
  sources := { crontabOnly (lit "@reboot root a") with spool := some [] }
  rng _ := 0
  creat := true

/-- The second run of a boot does not write the unit of the first. -/
theorem reboot_once_twice : ∃ s s',
    oneRebootJob.realmain {} sampleMd5 false = .ok s ∧ (s.units.filter Job.isReboot).length = 1 ∧
      oneRebootJob.realmain {} sampleMd5 (rebootFileAfter {} sampleMd5 [.generator oneRebootJob]) = .ok s' ∧
      s'.units.filter Job.isReboot = [] := by
  have hok : (requests {} .bare oneRebootJob.sources oneRebootJob.rng).isOk := by decide +kernel
  cases hq : requests {} .bare oneRebootJob.sources oneRebootJob.rng with
  | error f => rw [hq] at hok; cases hok
  | ok q =>
    have hone : ((requests {} .bare oneRebootJob.sources oneRebootJob.rng).toOption.map fun q =>
        (q.list.filterMap Request.rebootJob).length) = some 1 := by decide +kernel
    rw [hq] at hone
    obtain ⟨s, hs, -, hfirst⟩ := @reboot_once _ oneRebootJob _ hq sampleMd5 []
    obtain ⟨s', hs', hsecond, -⟩ := @reboot_once _ oneRebootJob _ hq sampleMd5 [.generator oneRebootJob]
    refine ⟨s, s', hs, ?_, hs', hsecond ⟨_, List.mem_singleton_self _, rfl, rfl, hok⟩⟩
    rw [← List.length_map, hfirst nofun]
    exact Option.some.inj hone

end SystemdCron
