import SystemdCron.UnitNames
import SystemdCron.CheckAgreement

/-!
# The start hours in `/etc/crontab`

The callback for `/etc/crontab` runs no job of `/etc/cron.daily`, `/etc/cron.weekly` or `/etc/cron.monthly`,
but keeps the first of its hours. A valid job with five fields has one. A job with an `@` has none, and
`start_hours_iff` says that such jobs are all that goes wrong.
-/

namespace SystemdCron

open Bytes

/-- The directory whose start hour a line gives. -/
def savedDir (line : Bytes) : Option Bytes :=
  if Bytes.contains line (lit "/etc/cron.hourly") then none
  else [lit "daily", lit "weekly", lit "monthly"].find?
    fun dir => Bytes.contains line (lit "/etc/cron." ++ dir)

/-- A line with an `@`, a user and a command, that names such a directory. -/
def AtSaved (line : Bytes) : Prop :=
  line.head? = some AT ∧ 3 ≤ (tokens isFieldDelim line).length ∧ (savedDir line).isSome

instance : DecidablePred AtSaved := fun _ => inferInstanceAs (Decidable (_ ∧ _ ∧ _))

/-- The start hours are hours. -/
def GenState.RealHours (s : GenState) : Prop :=
  ∀ (dir : Bytes) (hour : Nat), s.distroStartHour[dir]? = some hour → hour ≤ 23

/-- The jobs of `/etc/crontab` that the callback has seen after some of its lines. -/
def seenJobs (host : Host) (rng : Rng) (lines : List Bytes) : Option (List Job) :=
  match crontabLoop host systemKind { environment := {}, cronInheritVariables := [], jobs := [], rng } lines with
  | .ok s => some s.jobs
  | .error _ => none

/-- The callback takes the first element of no empty set of hours, and keeps hours only. -/
def KeepsHours (host : Host) (md5 : Md5) (rng : Rng) (jobs : List Job) : Prop :=
  ∃ s, jobs.foldlM (crontabJob host md5) (.start rng) = .ok s ∧ s.RealHours

theorem GenState.realHours_start (rng : Rng) : (GenState.start rng).RealHours := fun dir hour h => by
  simp [GenState.start] at h

variable {host : Host} {md5 : Md5}

/-! ### The hours of a job -/

/-- The hours of a valid job with five fields. -/
theorem hours_of_fields {environment : Env} {line : Bytes} {rng rng' : Rng} {j : Job}
    (h : parseJob host systemKind environment line rng = .ok (j, rng')) (hat : line.head? ≠ some AT)
    (hv : j.valid) :
    ∃ hour rest, j.timespecHour.toList = hour :: rest ∧ (hour = TIMESPEC_ASTERISK ∨ hour ≤ 23) := by
  obtain ⟨p, rfl, hlacks, -, m, hr, d, n, w, hp⟩ := parseJob_valid_fields h rfl hat hv
  have hne : p.generateScheduleFromTimespec.timespecHour.isEmpty = false := by
    simp only [Job.lacksValues, Bool.or_eq_false_iff] at hlacks
    exact hlacks.1.2
  have hset := hp.generate.timespecHour
  rw [hset] at hne ⊢
  rcases hl : hr.set.toList with - | ⟨hour, rest⟩
  · rw [← Std.TreeSet.isEmpty_toList, hl] at hne
    cases hne
  · have hmem : hour ∈ hr.set := by
      rw [← Std.TreeSet.mem_toList, hl]
      exact List.mem_cons_self
    refine ⟨hour, rest, rfl, ?_⟩
    rcases parseTimeUnit_values hp.hour with ⟨-, hast⟩ | hvalues
    · rw [hast, Std.TreeSet.ofList_singleton, mem_insert_iff] at hmem
      exact .inl (hmem.resolve_right (by simp))
    · exact .inr (Nat.le_of_lt_succ (List.mem_range.1 (hvalues hour hmem)))

/-- A line with an `@` is a valid job exactly if it has a user and a command, and has no hours. -/
theorem hours_of_at {environment : Env} {line : Bytes} {rng rng' : Rng} {j : Job}
    (h : parseJob host systemKind environment line rng = .ok (j, rng')) (hat : line.head? = some AT) :
    (j.valid ↔ 3 ≤ (tokens isFieldDelim line).length) ∧ (j.valid → j.timespecHour.toList = []) := by
  obtain ⟨j', hok, hj⟩ := parseJob_at host environment rng (rfl : systemKind.anacrontab = false) hat
  rw [h] at hok
  cases hok
  change if 3 ≤ (tokens isFieldDelim line).length then _ else _ at hj
  split at hj
  next hlen => exact ⟨iff_of_true hj.1 hlen, fun _ => by rw [hj.2.2.2.2.2]; rfl⟩
  next hlen => exact ⟨iff_of_false (by simp [hj]) hlen, fun hv => absurd hv (by simp [hj])⟩

/-! ### The callback -/

theorem generateTimerUnit_distroStartHour (s : GenState) (j : Job) :
    (generateTimerUnit host md5 s j).distroStartHour = s.distroStartHour := by
  unfold generateTimerUnit
  split <;> rfl

/-- The callback for a valid job. -/
theorem crontabJob_valid (s : GenState) {j : Job} (hv : j.valid) :
    crontabJob host md5 s j =
      match savedDir j.line with
      | some dir =>
        match j.timespecHour.toList with
        | [] => .error .outOfBounds
        | hour :: _ =>
          .ok (if hour = TIMESPEC_ASTERISK then s
            else { s with distroStartHour := s.distroStartHour.insert dir hour })
      | none =>
        .ok (if Bytes.contains j.line (lit "/etc/cron.hourly") then s else generateTimerUnit host md5 s j) := by
  unfold crontabJob savedDir
  rw [hv, Bool.not_true, if_neg Bool.false_ne_true]
  split
  next => rfl
  next => rfl

theorem GenState.RealHours.insert {s : GenState} (hs : s.RealHours) (dir : Bytes) {hour : Nat} (h : hour ≤ 23) :
    { s with distroStartHour := s.distroStartHour.insert dir hour }.RealHours := by
  intro dir' hour' hget
  dsimp only at hget
  rw [Std.TreeMap.getElem?_insert] at hget
  split at hget
  · cases hget
    exact h
  · exact hs dir' hour' hget

/-- One round: it fails exactly on a line with an `@` for a directory whose hour is kept. -/
theorem crontabJob_hours {environment : Env} {p : List Bytes × Bytes} {j : Job}
    (h : IsJob host systemKind environment p j) {s : GenState} (hs : s.RealHours) :
    if AtSaved p.2 then crontabJob host md5 s j = .error .outOfBounds
    else ∃ s', crontabJob host md5 s j = .ok s' ∧ s'.RealHours := by
  obtain ⟨rng, rng', hparse⟩ := h
  have hline := parseJob_line hparse
  cases hv : j.valid with
  | false =>
    have hnot : ¬ AtSaved p.2 := fun hat => by
      rw [(hours_of_at hparse hat.1).1.2 hat.2.1] at hv
      cases hv
    rw [if_neg hnot]
    exact ⟨s, by rw [crontabJob, hv]; rfl, hs⟩
  | true =>
    have hstep := @crontabJob_valid host md5 s j hv
    rw [hline] at hstep
    rw [hstep]
    rcases hdir : savedDir p.2 with - | dir
    · rw [if_neg fun h => by simp [AtSaved, hdir] at h]
      refine ⟨_, rfl, ?_⟩
      split
      · exact hs
      · rwa [GenState.RealHours, generateTimerUnit_distroStartHour]
    · by_cases hat : p.2.head? = some AT
      · obtain ⟨hlen, hnone⟩ := hours_of_at hparse hat
        rw [if_pos ⟨hat, hlen.1 hv, by rw [hdir]; rfl⟩, hnone hv]
      · obtain ⟨hour, rest, hhours, hreal⟩ := hours_of_fields hparse hat hv
        rw [if_neg fun h => hat h.1, hhours]
        refine ⟨_, rfl, ?_⟩
        split
        next => exact hs
        next hne => exact hs.insert dir (hreal.resolve_left hne)

/-- All rounds. -/
theorem foldlM_crontabJob_hours {environment : Env} {ps : List (List Bytes × Bytes)} {js : List Job}
    (h : List.Forall₂ (IsJob host systemKind environment) ps js) {s : GenState} (hs : s.RealHours) :
    (∃ s', js.foldlM (crontabJob host md5) s = .ok s' ∧ s'.RealHours) ↔ ∀ p ∈ ps, ¬ AtSaved p.2 := by
  induction h generalizing s with
  | nil => exact iff_of_true ⟨s, rfl, hs⟩ (by simp)
  | cons hj _ ih =>
    have hround := @crontabJob_hours host md5 _ _ _ hj s hs
    rw [List.foldlM_cons, List.forall_mem_cons]
    split at hround
    next hat =>
      rw [hround]
      exact iff_of_false nofun fun h => h.1 hat
    next hat =>
      obtain ⟨s', hok, hs'⟩ := hround
      rw [hok, and_iff_right hat]
      exact ih hs'

/-! ### All lines -/

/-- The jobs that the callback has seen are those of the job lines. -/
theorem seenJobs_lines {rng : Rng} {lines : List Bytes} {jobs : List Job} (h : seenJobs host rng lines = some jobs) :
    List.Forall₂ (IsJob host systemKind {}) (jobLines lines) jobs := by
  unfold seenJobs at h
  split at h
  next s hloop =>
    cases h
    obtain ⟨⟨js, hjs, hall⟩, -⟩ := crontabLoop_jobs hloop (show ({} : Env) = environmentBelow {} [] from rfl) rfl
    rw [hjs]
    exact hall
  next => cases h

/-- **The start hours** are hours, taken from nonempty sets, as far as the lines of `/etc/crontab` are parsed,
exactly if none of the lines parsed is a complete line with an `@` for a directory whose hour is kept. -/
theorem start_hours_iff (host : Host) (md5 : Md5) (content : Bytes) (rng : Rng) :
    (∀ lines jobs, lines <+: crontabLines content → seenJobs host rng lines = some jobs →
      KeepsHours host md5 rng jobs) ↔
    ∀ lines jobs, lines <+: crontabLines content → seenJobs host rng lines = some jobs →
      ∀ p ∈ jobLines lines, ¬ AtSaved p.2 := by
  refine forall₂_congr fun lines jobs => forall₂_congr fun _ hseen => ?_
  exact foldlM_crontabJob_hours (seenJobs_lines hseen) (GenState.realHours_start rng)

/-- An `@daily` job for `/etc/cron.daily`: the callback takes the first element of an empty set. -/
theorem start_hours_at :
    ¬ ∀ (host : Host) (md5 : Md5) (content : Bytes) (rng : Rng) (lines : List Bytes) (jobs : List Job),
      lines <+: crontabLines content → seenJobs host rng lines = some jobs → KeepsHours host md5 rng jobs := by
  intro h
  let content := lit "@daily root run-parts /etc/cron.daily\n"
  obtain ⟨jobs, hjobs⟩ := Option.isSome_iff_exists.1
    (show (seenJobs .bare (fun _ => 0) (crontabLines content)).isSome by decide +kernel)
  have hkeeps := h .bare sampleMd5 content _ _ _ List.prefix_rfl hjobs
  refine (foldlM_crontabJob_hours (seenJobs_lines hjobs) (GenState.realHours_start _)).1 hkeeps
    ([], lit "@daily root run-parts /etc/cron.daily") ?_ ?_
  · decide +kernel
  · decide +kernel

end SystemdCron
