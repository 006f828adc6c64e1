import SystemdCron.Generator

/-!
# Unit names

The names `generate_unit_name` gives to the jobs of a run. `Issued` is the invariant of the counters:
every numbered name has a number below the counter of its identifier, so that a new number is new. The
identifiers may share digits and dashes; a name still comes apart at its last dash, because neither a
numeral nor a digest has one.
-/

namespace SystemdCron

open Bytes

/-- The jobs that get to `generate_timer_unit`: those of a file, and those of a file in `/etc/cron.d`,
which may get the `MAILTO` of `/etc/crontab`. -/
inductive Handed (host : Host) : Job → Prop where
  | parsed {kind environment content rng r j} :
      parseCrontab host kind environment content rng = .ok r → j ∈ r.jobs → Handed host j
  | mailto {j} (top : Toplevel) : Handed host j → Handed host (withFallbackMailto top j)

/-- The identifier of a job after `decode`. -/
theorem parseJob_jobid {host : Host} {kind : CrontabKind} {environment : Env} {line : Bytes}
    {rng rng' : Rng} {j : Job} (h : parseJob host kind environment line rng = .ok (j, rng')) :
    ∀ c ∈ j.jobid, isAsciiAlnum c := by
  obtain ⟨p, -, rfl⟩ := parseJob_ok h
  rw [(Job.generateSchedule_scheduled _).jobid, Job.decode]
  obtain ⟨_, _, _, _, _, _, _, hd⟩ :=
    Job.decodeCommand_eq host { p with jobid := p.jobid.filter isAsciiAlnum }
  rw [hd]
  exact fun c hc => (List.mem_filter.1 hc).2

theorem Handed.jobid {host : Host} {j : Job} (h : Handed host j) : ∀ c ∈ j.jobid, isAsciiAlnum c := by
  induction h with
  | parsed h hj =>
    obtain ⟨_, -, _, -, _, _, _, -, hp⟩ := mem_jobs_parseCrontab h hj
    exact parseJob_jobid hp
  | mailto top _ ih =>
    unfold withFallbackMailto
    split <;> exact ih

theorem Handed.of_mem_crontabJobs {host : Host} {kind : CrontabKind} {environment : Env}
    {content : Bytes} {rng : Rng} {j : Job} (hj : j ∈ crontabJobs host kind environment content rng) :
    Handed host j := by
  obtain ⟨r, hr, hj⟩ := mem_crontabJobs hj
  exact .parsed hr hj

/-! ### Suffixes -/

theorem dash_notMem_decimal (n : Nat) : DASH ∉ decimal n := not_mem_decimal (by decide)

theorem Md5.dash_notMem_hex (md5 : Md5) (b : Bytes) : DASH ∉ md5.hex b := fun h => by
  have := md5.hex_digit b _ h
  revert this; decide

/-- A name is told apart by its identifier and what follows the last dash. -/
theorem Job.stem_append_inj {u v : Job} {s t : Bytes} (hs : DASH ∉ s) (ht : DASH ∉ t) :
    u.stem ++ s = v.stem ++ t ↔ u.jobid = v.jobid ∧ s = t := by
  simp only [Job.stem, List.append_assoc, List.cons_append, List.nil_append,
    List.append_cancel_left_eq]
  exact append_cons_inj_of_last hs ht

theorem decimal_ne_hex (md5 : Md5) (b : Bytes) {n : Nat} (h : n < 2 ^ 64) : decimal n ≠ md5.hex b := by
  intro he
  have h1 : (decimal n).length ≤ 20 := length_decimal_le (by norm_num) (h.trans (by norm_num))
  have h2 := md5.length_hex b
  rw [← he] at h2
  omega

/-! ### The counters -/

/-- The state before any file is read. -/
def GenState.start (rng : Rng) : GenState := { seqs := {}, units := [], distroStartHour := {}, rng }

/-- What holds of the counters and the numbered names of a run. -/
structure Issued (s : GenState) : Prop where
  bound : ∀ id, s.seqs.getD id 0 ≤ s.units.length
  numbered : ∀ u ∈ s.units, u.sequential →
    ∃ n < s.seqs.getD u.jobid 0, u.unitName = u.stem ++ decimal n
  distinct : s.units.Pairwise fun u v => u.sequential → v.sequential → u.unitName ≠ v.unitName

/-- A named job differs from the job in its name only. -/
theorem Job.generateUnitName_eq (md5 : Md5) (seq : Nat) (j : Job) :
    ∃ name, (j.generateUnitName md5 seq).1 = { j with unitName := name } := by
  unfold Job.generateUnitName
  split <;> exact ⟨_, rfl⟩

theorem length_generateTimerUnit_le (host : Host) (md5 : Md5) (s : GenState) (j : Job) :
    (generateTimerUnit host md5 s j).units.length ≤ s.units.length + 1 := by
  unfold generateTimerUnit
  split <;> simp

namespace Issued

variable {md5 : Md5} {s : GenState}

theorem start (rng : Rng) : Issued (.start rng) where
  bound id := by simp [GenState.start]
  numbered := by simp [GenState.start]
  distinct := by simp [GenState.start]

/-- The step: the counter of the identifier grows past the number that was given out. -/
theorem timer {host : Host} {job : Job} (hs : Issued s) (hlen : s.units.length + 1 < 2 ^ 64) :
    Issued (generateTimerUnit host md5 s job) := by
  unfold generateTimerUnit
  split
  case isFalse => exact hs
  set seq := s.seqs.getD job.jobid 0 with hseq
  have hle : seq ≤ s.units.length := hs.bound _
  obtain ⟨name, hname⟩ := job.generateUnitName_eq md5 seq
  have hid : (job.generateUnitName md5 seq).1.jobid = job.jobid := by rw [hname]
  -- The counter only grows: by one for a numbered name, not at all for a hashed one.
  have hnext : seq ≤ (job.generateUnitName md5 seq).2 ∧
      (job.generateUnitName md5 seq).2 ≤ s.units.length + 1 := by
    unfold Job.generateUnitName
    split
    · rw [Nat.mod_eq_of_lt (by omega)]; omega
    · exact ⟨le_rfl, by omega⟩
  have hgrow : ∀ id, s.seqs.getD id 0 ≤
      (s.seqs.insert job.jobid (job.generateUnitName md5 seq).2).getD id 0 := by
    intro id
    rw [Std.TreeMap.getD_insert]
    split
    case isTrue h => rw [← Std.LawfulEqCmp.eq_of_compare h]; exact hnext.1
    case isFalse => exact le_rfl
  refine ⟨?_, ?_, ?_⟩
  · intro id
    simp only [List.length_append, List.length_singleton]
    rw [Std.TreeMap.getD_insert]
    split
    · exact hnext.2
    · exact (hs.bound id).trans (Nat.le_succ _)
  · intro u hu hseqn
    rcases List.mem_append.1 hu with hu | hu
    · obtain ⟨n, hn, he⟩ := hs.numbered u hu hseqn
      exact ⟨n, hn.trans_le (hgrow _), he⟩
    · obtain rfl := List.mem_singleton.1 hu
      have hj : job.sequential := by rw [hname] at hseqn; exact hseqn
      refine ⟨seq, ?_, ?_⟩
      · simp only [Std.TreeMap.getD_insert_self, Job.generateUnitName, hj, if_true]
        rw [Nat.mod_eq_of_lt (by omega)]; omega
      · simp [Job.generateUnitName, hj, Job.stem]
  · refine List.pairwise_append.2 ⟨hs.distinct, List.pairwise_singleton _ _, ?_⟩
    intro u hu v hv hus hvs
    obtain rfl := List.mem_singleton.1 hv
    have hj : job.sequential := by rw [hname] at hvs; exact hvs
    obtain ⟨n, hn, he⟩ := hs.numbered u hu hus
    have hv : (job.generateUnitName md5 seq).1.unitName = job.stem ++ decimal seq := by
      simp [Job.generateUnitName, hj]
    rw [he, hv]
    intro hc
    obtain ⟨hids, hdec⟩ := (Job.stem_append_inj (dash_notMem_decimal _) (dash_notMem_decimal _)).1 hc
    rw [hids, ← hseq, decimal_injective hdec] at hn
    exact lt_irrefl _ hn

/-- The run: a sequence of calls of `generate_timer_unit`. -/
theorem run {host : Host} {jobs : List Job} (hs : Issued s)
    (hlen : s.units.length + jobs.length < 2 ^ 64) :
    Issued (jobs.foldl (generateTimerUnit host md5) s) := by
  induction jobs generalizing s with
  | nil => exact hs
  | cons job jobs ih =>
    simp only [List.length_cons] at hlen
    have hunits := length_generateTimerUnit_le host md5 s job
    exact ih (hs.timer (by omega)) (by omega)

end Issued

theorem length_units_le (host : Host) (md5 : Md5) (jobs : List Job) (s : GenState) :
    (jobs.foldl (generateTimerUnit host md5) s).units.length ≤ s.units.length + jobs.length := by
  induction jobs generalizing s with
  | nil => simp
  | cons j jobs ih =>
    have h1 := ih (generateTimerUnit host md5 s j)
    have h2 := length_generateTimerUnit_le host md5 s j
    simp only [List.foldl_cons, List.length_cons]
    omega

/-- Every unit is a valid job of the run with a name. -/
theorem mem_units {host : Host} {md5 : Md5} {jobs : List Job} {s : GenState} {u : Job}
    (hu : u ∈ (jobs.foldl (generateTimerUnit host md5) s).units) :
    u ∈ s.units ∨ ∃ j ∈ jobs, j.valid ∧ ∃ seq, u = (j.generateUnitName md5 seq).1 := by
  induction jobs generalizing s with
  | nil => exact .inl hu
  | cons job jobs ih =>
    rcases ih hu with hu | ⟨j, hj, rest⟩
    · unfold generateTimerUnit at hu
      split at hu
      case isFalse => exact .inl hu
      next hv =>
        rcases List.mem_append.1 hu with hu | hu
        · exact .inl hu
        · obtain rfl := List.mem_singleton.1 hu
          exact .inr ⟨job, by simp, by simp_all, _, rfl⟩
    · exact .inr ⟨j, by simp [hj], rest⟩

/-- What holds of every unit of a run of jobs that were handed over. -/
theorem Handed.of_mem_units {host : Host} {md5 : Md5} {jobs : List Job} {rng : Rng} {u : Job}
    (hjobs : ∀ j ∈ jobs, Handed host j)
    (hu : u ∈ (jobs.foldl (generateTimerUnit host md5) (.start rng)).units) :
    ∃ j name, Handed host j ∧ u = { j with unitName := name } ∧
      (u.sequential = false → u.unitName = u.stem ++ md5.hex u.hashInput) := by
  rcases mem_units hu with hu | ⟨j, hj, -, seq, rfl⟩
  · cases hu
  · obtain ⟨name, hname⟩ := j.generateUnitName_eq md5 seq
    refine ⟨j, name, hjobs j hj, hname, fun hs => ?_⟩
    have hj : j.sequential = false := by rw [hname] at hs; exact hs
    simp [Job.generateUnitName, hj, Job.stem, Job.hashInput]

/-- MD5 on the texts fed for `true` and `false` in a crontab that is not persistent. -/
def sampleMd5 : Md5 where
  hex b :=
    if b = lit "\x00true" then lit "6bfa6df41789785106d9029d5600431d"
    else if b = lit "\x00false" then lit "1100a319b94214c9f65076040ac65cb4"
    else List.replicate 32 48
  length_hex b := by
    split
    · decide
    · split
      · decide
      · simp
  hex_digit b := by
    split
    · decide +kernel
    · split
      · decide +kernel
      · simp only [List.mem_replicate, and_imp]
        rintro c - rfl
        exact .inl (by decide)

/-- The units of `/etc/crontab` with some content. -/
abbrev systemUnits (content : Bytes) : List Job :=
  ((systemJobs content).foldl (generateTimerUnit .bare sampleMd5) (.start fun _ => 0)).units

/-- A letter, a digit, a dash or an underscore. -/
def isUnitChar (c : UInt8) : Bool := isAlnum c || c == DASH || c == UNDERSCORE

theorem isUnitChar_of_isAsciiAlnum {c : UInt8} (h : isAsciiAlnum c) : isUnitChar c := by
  have : ∀ c ∈ ASCII_ALNUM, isUnitChar c := by decide +kernel
  exact this c (by simpa [isAsciiAlnum] using h)

theorem isUnitChar_of_isDigit {c : UInt8} (h : isDigit c) : isUnitChar c := by
  simp [isUnitChar, isAlnum, h]

theorem Md5.isUnitChar_hex (md5 : Md5) (b : Bytes) : ∀ c ∈ md5.hex b, isUnitChar c := by
  intro c hc
  rcases md5.hex_digit b c hc with h | ⟨h1, h2⟩
  · exact isUnitChar_of_isDigit h
  · have : isLower c := by
      have h3 : (102 : UInt8) ≤ 122 := by decide
      simp only [isLower, Bool.and_eq_true, decide_eq_true_eq]
      exact ⟨h1, UInt8.le_trans h2 h3⟩
    simp [isUnitChar, isAlnum, this]

/-- **Sequential names.** In a run the numbered names are pairwise distinct, none of them is the name
of a hashed unit, and every name is `cron-` with letters, digits, dashes and underscores after it, and
so a single path component. -/
theorem generateTimerUnit_names (host : Host) (md5 : Md5) (rng : Rng) (jobs : List Job)
    (hjobs : ∀ j ∈ jobs, Handed host j) (hlen : jobs.length < 2 ^ 64) :
    let units := (jobs.foldl (generateTimerUnit host md5) (.start rng)).units
    (units.Pairwise fun u v => u.sequential → v.sequential → u.unitName ≠ v.unitName) ∧
    (∀ u ∈ units, ∀ v ∈ units, u.sequential → v.sequential = false → u.unitName ≠ v.unitName) ∧
    ∀ u ∈ units, SLASH ∉ u.unitName ∧
      ∃ rest, u.unitName = lit "cron-" ++ rest ∧ ∀ c ∈ rest, isUnitChar c := by
  intro units
  have hs : Issued (jobs.foldl (generateTimerUnit host md5) (.start rng)) :=
    (Issued.start rng).run (by simpa [GenState.start] using hlen)
  have hunits : units.length < 2 ^ 64 :=
    (length_units_le host md5 jobs (.start rng)).trans_lt (by simpa [GenState.start] using hlen)
  refine ⟨hs.distinct, ?_, ?_⟩
  · intro u hu v hv hus hvs he
    obtain ⟨n, hn, hun⟩ := hs.numbered u hu hus
    obtain ⟨_, _, -, -, hvn⟩ := Handed.of_mem_units hjobs hv
    rw [hun, hvn hvs] at he
    obtain ⟨-, hdec⟩ :=
      (Job.stem_append_inj (dash_notMem_decimal _) (md5.dash_notMem_hex _)).1 he
    exact decimal_ne_hex md5 _ (hn.trans ((hs.bound _).trans_lt hunits)) hdec
  · intro u hu
    obtain ⟨j, _, hj, rfl, hun⟩ := Handed.of_mem_units hjobs hu
    set u := { j with unitName := _ }
    obtain ⟨suffix, he, hsuffix⟩ : ∃ suffix, u.unitName = lit "cron-" ++ (u.jobid ++ [DASH] ++ suffix) ∧
        ∀ c ∈ suffix, isUnitChar c := by
      cases hus : u.sequential with
      | true =>
        obtain ⟨n, -, hun⟩ := hs.numbered u hu hus
        exact ⟨decimal n, by simp [hun, Job.stem],
          fun c hc => isUnitChar_of_isDigit (isDigit_of_mem_decimal hc)⟩
      | false =>
        exact ⟨md5.hex u.hashInput, by simp [hun hus, Job.stem], md5.isUnitChar_hex _⟩
    have hrest : ∀ c ∈ u.jobid ++ [DASH] ++ suffix, isUnitChar c := by
      intro c hc
      simp only [List.mem_append, List.mem_singleton] at hc
      rcases hc with (hc | rfl) | hc
      · exact isUnitChar_of_isAsciiAlnum (hj.jobid c hc)
      · decide
      · exact hsuffix c hc
    refine ⟨?_, _, he, hrest⟩
    rw [he, List.mem_append, not_or]
    exact ⟨by decide, fun hc => by have := hrest _ hc; revert this; decide⟩

theorem generateTimerUnit_names_two_lines :
    let units := systemUnits (lit "1 * * * * root true\n2 * * * * root true")
    units.map (·.unitName) = [lit "cron-crontab-root-0", lit "cron-crontab-root-1"] ∧
      units.Pairwise fun u v => u.sequential → v.sequential → u.unitName ≠ v.unitName :=
  ⟨by decide +kernel, (generateTimerUnit_names .bare sampleMd5 _ _
    (fun _ hj => .of_mem_crontabJobs hj) (by decide +kernel)).1⟩

/-! ### Hashed names -/

/-- The texts a hashed name stands for: the raw schedule, which only a persistent job has, and the
nonempty words of the command, all of them divided at their NULs. -/
def Job.hashedWords (j : Job) : List Bytes :=
  ((if j.persistent then j.scheduleRaw else []) :: j.command.hunks.filter (· ≠ [])).flatMap
    (List.splitOn NUL)

/-- Two jobs that ask for different units. -/
def Job.Differ (u v : Job) : Prop :=
  u.schedule ≠ v.schedule ∨ u.timezone ≠ v.timezone ∨ u.command.hunks ≠ v.command.hunks ∨
    u.inputData ≠ v.inputData ∨ u.environment.toList ≠ v.environment.toList

/-- Neither of two jobs overwrites a file of the other. -/
def Job.KeepApart (cfg : Config) (host : Host) (targetDir : Bytes) (u v : Job) : Prop :=
  ∀ f ∈ u.output cfg host targetDir, ∀ g ∈ v.output cfg host targetDir, f.path ≠ g.path

theorem Handed.scheduleRaw {host : Host} {j : Job} (h : Handed host j) (hp : j.persistent = false) :
    j.scheduleRaw = [] := by
  induction h with
  | parsed h hj =>
    obtain ⟨_, -, line, -, env, _, _, -, hj⟩ := mem_jobs_parseCrontab h hj
    obtain ⟨p, hline, rfl⟩ := parseJob_ok hj
    obtain ⟨_, _, _, _, _, _, _, hd⟩ :=
      Job.decodeCommand_eq host { p with jobid := p.jobid.filter isAsciiAlnum }
    rw [(Job.generateSchedule_scheduled _).scheduleRaw hp, Job.decode, hd]
    exact (parseLine_sameSettings hline).scheduleRaw.trans
      Job.decodeEnvironment_sameLine.scheduleRaw
  | mailto top _ ih =>
    unfold withFallbackMailto at hp ⊢
    split at hp
    · exact ih hp
    · exact ih hp

theorem splitOn_flatMap_nul (s : Bytes) (ws : List Bytes) :
    (s ++ ws.flatMap (NUL :: ·)).splitOn NUL = (s :: ws).flatMap (List.splitOn NUL) := by
  induction ws generalizing s with
  | nil => simp
  | cons w ws ih =>
    rw [List.flatMap_cons, List.cons_append, splitOn_append_cons, ih]
    simp

theorem Handed.hashInput_splitOn {host : Host} {j : Job} (h : Handed host j) :
    j.hashInput.splitOn NUL = j.hashedWords := by
  have hraw : (if j.persistent then j.scheduleRaw else []) = j.scheduleRaw := by
    split
    case isTrue => rfl
    case isFalse hp => exact (h.scheduleRaw (by simpa using hp)).symm
  rw [Job.hashInput, splitOn_flatMap_nul, Job.hashedWords, hraw]

/-- Different names mean different files, whatever their kinds. -/
theorem Job.keepApart_of_ne {cfg : Config} {host : Host} {targetDir : Bytes} {u v : Job}
    (h : u.unitName ≠ v.unitName) : u.KeepApart cfg host targetDir v := by
  intro f hf g hg he
  obtain ⟨e, hemem, hfe⟩ := Job.mem_output hf
  obtain ⟨e', he'mem, hge⟩ := Job.mem_output hg
  rw [hfe, hge] at he
  simp only [List.append_assoc, List.append_cancel_left_eq] at he
  have hlast : ∀ e ∈ [lit ".sh", lit ".timer", lit ".service"],
      ∀ e' ∈ [lit ".sh", lit ".timer", lit ".service"], e.getLast? = e'.getLast? → e = e' := by
    decide
  have hne : ∀ e ∈ [lit ".sh", lit ".timer", lit ".service"], e ≠ [] := by decide
  have hl := congrArg List.getLast? he
  rw [List.getLast?_append_of_ne_nil _ (hne e hemem),
    List.getLast?_append_of_ne_nil _ (hne e' he'mem)] at hl
  obtain rfl := hlast e hemem e' he'mem hl
  exact h (List.append_cancel_right he)

/-- **Hashed names.** Two hashed units of a run that ask for different units have different names, and
keep apart, exactly if their identifiers or their hashed words differ. -/
theorem hashed_names_iff (cfg : Config) (host : Host) (targetDir : Bytes) (md5 : Md5) (rng : Rng)
    (jobs : List Job) (hjobs : ∀ j ∈ jobs, Handed host j)
    (hinj : Set.InjOn md5.hex {b | ∃ w ∈ (jobs.foldl (generateTimerUnit host md5) (.start rng)).units,
      w.sequential = false ∧ b = w.hashInput})
    (u v : Job) (hu : u ∈ (jobs.foldl (generateTimerUnit host md5) (.start rng)).units)
    (hv : v ∈ (jobs.foldl (generateTimerUnit host md5) (.start rng)).units)
    (hus : u.sequential = false) (hvs : v.sequential = false) (_hdiff : u.Differ v) :
    (u.unitName ≠ v.unitName ∧ u.KeepApart cfg host targetDir v) ↔
      (u.jobid ≠ v.jobid ∨ u.hashedWords ≠ v.hashedWords) := by
  obtain ⟨j, _, hj, huj, hun⟩ := Handed.of_mem_units hjobs hu
  obtain ⟨k, _, hk, hvk, hvn⟩ := Handed.of_mem_units hjobs hv
  have huw : u.hashInput.splitOn NUL = u.hashedWords := by rw [huj]; exact hj.hashInput_splitOn
  have hvw : v.hashInput.splitOn NUL = v.hashedWords := by rw [hvk]; exact hk.hashInput_splitOn
  have hnames : u.unitName = v.unitName ↔ u.jobid = v.jobid ∧ u.hashedWords = v.hashedWords := by
    rw [hun hus, hvn hvs,
      Job.stem_append_inj (md5.dash_notMem_hex _) (md5.dash_notMem_hex _), ← huw, ← hvw,
      (splitOn_injective NUL).eq_iff, hinj.eq_iff ⟨u, hu, hus, rfl⟩ ⟨v, hv, hvs, rfl⟩]
  constructor
  · rintro ⟨hne, -⟩
    by_contra hc
    push Not at hc
    exact hne (hnames.2 hc)
  · intro hc
    have hne : u.unitName ≠ v.unitName := fun he => by
      obtain ⟨h1, h2⟩ := hnames.1 he
      rcases hc with hc | hc
      · exact hc h1
      · exact hc h2
    exact ⟨hne, Job.keepApart_of_ne hne⟩

/-- Two lines that run the same command at different minutes get one name, and the second overwrites
the files of the first. -/
theorem hashed_names_clash :
    let content := lit "CRON_UNIQUE_UNITS=1\n1 * * * * root true\n2 * * * * root true"
    (∀ j ∈ systemJobs content, Handed .bare j) ∧
    Set.InjOn sampleMd5.hex {b | ∃ w ∈ systemUnits content, w.sequential = false ∧ b = w.hashInput} ∧
    ∃ u ∈ systemUnits content, ∃ v ∈ systemUnits content,
      u.sequential = false ∧ v.sequential = false ∧ u.Differ v ∧
        ¬ (u.unitName ≠ v.unitName ∧ u.KeepApart {} .bare (lit "/run/generator") v) := by
  intro content
  refine ⟨fun j hj => .of_mem_crontabJobs hj, ?_, ?_⟩
  · have h : ∀ w ∈ systemUnits content, w.hashInput = lit "\x00true" := by decide +kernel
    rintro a ⟨u, hu, -, rfl⟩ b ⟨v, hv, -, rfl⟩ -
    rw [h u hu, h v hv]
  · refine ⟨_, List.getElem_mem (by decide +kernel : 0 < (systemUnits content).length),
      _, List.getElem_mem (by decide +kernel : 1 < (systemUnits content).length),
      ?_, ?_, .inl ?_, fun h => h.1 ?_⟩ <;>
      decide +kernel

theorem hashed_names_iff_true_false :
    let content := lit "CRON_UNIQUE_UNITS=1\n1 * * * * root true\n2 * * * * root false"
    ∃ u ∈ systemUnits content, ∃ v ∈ systemUnits content,
      ((u.unitName ≠ v.unitName ∧ u.KeepApart {} .bare (lit "/run/generator") v) ↔
        (u.jobid ≠ v.jobid ∨ u.hashedWords ≠ v.hashedWords)) := by
  intro content
  refine ⟨_, List.getElem_mem (by decide +kernel : 0 < (systemUnits content).length),
    _, List.getElem_mem (by decide +kernel : 1 < (systemUnits content).length),
    hashed_names_iff _ _ _ sampleMd5 _ _ (fun j hj => .of_mem_crontabJobs hj) ?_ _ _
      (List.getElem_mem _) (List.getElem_mem _) ?_ ?_ (.inl ?_)⟩
  · have h : ∀ w ∈ systemUnits content, w.hashInput = lit "\x00true" ∨ w.hashInput = lit "\x00false" := by
      decide +kernel
    rintro a ⟨u, hu, -, rfl⟩ b ⟨v, hv, -, rfl⟩ he
    rcases h u hu with hu | hu <;> rcases h v hv with hv | hv <;> rw [hu, hv] at he ⊢ <;>
      revert he <;> decide
  all_goals decide +kernel

/-! ### Runs -/


/-- A state is reached by calls of `generate_timer_unit`, among which the units of run-parts files, which
are named otherwise, may have been put. -/
structure Calls (host : Host) (md5 : Md5) (jobs : List Job) (s : GenState) : Prop where
  handed : ∀ j ∈ jobs, Handed host j
  seqs : s.seqs = (jobs.foldl (generateTimerUnit host md5) (.start s.rng)).seqs
  units : (jobs.foldl (generateTimerUnit host md5) (.start s.rng)).units.Sublist s.units

/-- A call looks at the counters only. -/
theorem generateTimerUnit_congr (host : Host) (md5 : Md5) {s t : GenState} (h : s.seqs = t.seqs)
    (j : Job) : ∃ q new,
      generateTimerUnit host md5 s j = { s with seqs := q, units := s.units ++ new } ∧
      generateTimerUnit host md5 t j = { t with seqs := q, units := t.units ++ new } := by
  unfold generateTimerUnit
  rw [h]
  split
  · exact ⟨_, _, rfl, rfl⟩
  · exact ⟨t.seqs, [], by simp [← h], by simp⟩

theorem generateTimerUnit_rng (host : Host) (md5 : Md5) (jobs : List Job) (r r' : Rng) :
    (jobs.foldl (generateTimerUnit host md5) (.start r)).seqs =
        (jobs.foldl (generateTimerUnit host md5) (.start r')).seqs ∧
      (jobs.foldl (generateTimerUnit host md5) (.start r)).units =
        (jobs.foldl (generateTimerUnit host md5) (.start r')).units := by
  have h : ∀ {s t : GenState}, s.seqs = t.seqs → s.units = t.units →
      (jobs.foldl (generateTimerUnit host md5) s).seqs =
        (jobs.foldl (generateTimerUnit host md5) t).seqs ∧
      (jobs.foldl (generateTimerUnit host md5) s).units =
        (jobs.foldl (generateTimerUnit host md5) t).units := by
    induction jobs with
    | nil => exact fun h1 h2 => ⟨h1, h2⟩
    | cons j jobs ih =>
      intro s t h1 h2
      obtain ⟨q, new, hs, ht⟩ := generateTimerUnit_congr host md5 h1 j
      simp only [List.foldl_cons, hs, ht]
      exact ih rfl (by rw [h2])
  exact h rfl rfl

namespace Calls

variable {host : Host} {md5 : Md5} {jobs : List Job} {s : GenState}

theorem start (rng : Rng) : Calls host md5 [] (.start rng) where
  handed := by simp
  seqs := by simp [GenState.start]
  units := by simp [GenState.start]

theorem timer (h : Calls host md5 jobs s) {j : Job} (hj : Handed host j) :
    Calls host md5 (jobs ++ [j]) (generateTimerUnit host md5 s j) := by
  obtain ⟨q, new, hs, ht⟩ := generateTimerUnit_congr host md5 h.seqs j
  rw [hs]
  refine ⟨?_, ?_, ?_⟩
  · intro k hk
    rcases List.mem_append.1 hk with hk | hk
    · exact h.handed k hk
    · rw [List.mem_singleton.1 hk]; exact hj
  · simp only [List.foldl_append, List.foldl_cons, List.foldl_nil]
    rw [ht]
  · simp only [List.foldl_append, List.foldl_cons, List.foldl_nil]
    rw [ht]
    exact h.units.append (List.Sublist.refl _)

theorem other (h : Calls host md5 jobs s) (hours : Std.TreeMap Bytes Nat) (rng : Rng) :
    Calls host md5 jobs { s with distroStartHour := hours, rng } where
  handed := h.handed
  seqs := by
    have := (generateTimerUnit_rng host md5 jobs s.rng rng).1
    rw [← this]; exact h.seqs
  units := by
    have := (generateTimerUnit_rng host md5 jobs s.rng rng).2
    rw [← this]; exact h.units

theorem unit (h : Calls host md5 jobs s) (j : Job) :
    Calls host md5 jobs { s with units := s.units ++ [j] } where
  handed := h.handed
  seqs := h.seqs
  units := h.units.trans (List.sublist_append_left _ _)

/-- A loop over jobs or files. -/
theorem foldl {α : Type} {f : GenState → α → GenState} {l : List α}
    (hf : ∀ {jobs s}, Calls host md5 jobs s → ∀ a ∈ l, ∃ jobs', Calls host md5 jobs' (f s a))
    (h : Calls host md5 jobs s) : ∃ jobs', Calls host md5 jobs' (l.foldl f s) := by
  induction l generalizing jobs s with
  | nil => exact ⟨jobs, h⟩
  | cons a l ih =>
    obtain ⟨jobs', h'⟩ := hf h a (by simp)
    exact ih (fun h b hb => hf h b (by simp [hb])) h'

/-- A loop that may fail. -/
theorem foldlM {α : Type} {f : GenState → α → Except Fault GenState} {l : List α} {s' : GenState}
    (hf : ∀ {jobs s s'}, Calls host md5 jobs s → ∀ a ∈ l, f s a = .ok s' →
      ∃ jobs', Calls host md5 jobs' s')
    (h : Calls host md5 jobs s) (hs : l.foldlM f s = .ok s') : ∃ jobs', Calls host md5 jobs' s' := by
  induction l generalizing jobs s with
  | nil => cases hs; exact ⟨jobs, h⟩
  | cons a l ih =>
    simp only [List.foldlM_cons, bind, Except.bind] at hs
    split at hs
    · cases hs
    next s1 h1 =>
      obtain ⟨jobs', h'⟩ := hf h a (by simp) h1
      exact ih (fun h b hb => hf h b (by simp [hb])) h' hs

theorem crontabJob {j : Job} {s' : GenState} (h : Calls host md5 jobs s) (hj : Handed host j)
    (hs : SystemdCron.crontabJob host md5 s j = .ok s') : ∃ jobs', Calls host md5 jobs' s' := by
  simp only [SystemdCron.crontabJob] at hs
  split at hs
  · cases hs; exact ⟨jobs, h⟩
  split at hs
  · cases hs; exact ⟨jobs, h⟩
  split at hs
  · split at hs
    · cases hs
    · cases hs
      split
      · exact ⟨jobs, h⟩
      · exact ⟨jobs, h.other _ s.rng⟩
  · cases hs; exact ⟨_, h.timer hj⟩

/-- A call under a condition on the job. -/
theorem ite {j : Job} {b : Bool} (h : Calls host md5 jobs s) (hj : Handed host j) :
    ∃ jobs', Calls host md5 jobs' (if b then s else generateTimerUnit host md5 s j) := by
  split
  · exact ⟨jobs, h⟩
  · exact ⟨_, h.timer hj⟩

theorem cronDStep {cfg : Config} {top : Toplevel} {file : Bytes × Bytes} {s' : GenState}
    (h : Calls host md5 jobs s) (hs : SystemdCron.cronDStep cfg host md5 top s file = .ok s') :
    ∃ jobs', Calls host md5 jobs' s' := by
  simp only [SystemdCron.cronDStep, bind, Except.bind] at hs
  split at hs
  · cases hs; exact ⟨_, h⟩
  split at hs
  · cases hs
  next r hr =>
    cases hs
    exact (h.other _ r.rng).foldl fun h j hj => h.ite (.mailto _ (.parsed hr hj))

theorem spoolStep {cfg : Config} {top : Toplevel} {file : Bytes × Bytes} {s' : GenState}
    (h : Calls host md5 jobs s) (hs : SystemdCron.spoolStep cfg host md5 top s file = .ok s') :
    ∃ jobs', Calls host md5 jobs' s' := by
  simp only [SystemdCron.spoolStep, bind, Except.bind] at hs
  split at hs
  · cases hs; exact ⟨_, h⟩
  split at hs
  · cases hs
  next r hr =>
    cases hs
    exact (h.other _ r.rng).foldl fun h j hj => ⟨_, h.timer (.parsed hr hj)⟩

theorem runParts {sources : Sources} (cfg : Config) (top : Toplevel) (h : Calls host md5 jobs s) :
    ∃ jobs', Calls host md5 jobs' (if cfg.USE_RUNPARTS then s
      else runPartsPeriods.foldl (fun s p =>
        (sources.runParts p.1).foldl (runPartsStep cfg host top p.1 p.2) s) s) := by
  split
  · exact ⟨_, h⟩
  · refine h.foldl fun h p _ => h.foldl fun h name _ => ?_
    unfold runPartsStep
    split
    · exact ⟨_, h⟩
    · exact ⟨_, h.unit _⟩

end Calls

/-- Every run of the generator is a sequence of calls of `generate_timer_unit`, and of units for
run-parts files. -/
theorem realmain_calls {cfg : Config} {host : Host} {md5 : Md5} {sources : Sources} {rng : Rng}
    {s : GenState} (h : realmain cfg host md5 sources rng = .ok s) :
    ∃ jobs, Calls host md5 jobs s := by
  simp only [realmain, bind, Except.bind] at h
  split at h
  · cases h
  next r1 hr1 =>
  split at h
  · cases h
  next s1 hs1 =>
  split at h
  · cases h
  next s2 hs2 =>
  split at h
  · cases h
  next r3 hr3 =>
  have h0 : Calls host md5 [] { GenState.start rng with rng := r1.rng } := .start _
  obtain ⟨jobs1, h1⟩ := h0.foldlM (fun h j hj => h.crontabJob (.parsed hr1 hj)) hs1
  obtain ⟨jobs2, h2⟩ := h1.foldlM (fun h file _ hf => h.cronDStep hf) hs2
  obtain ⟨jobs3, h3⟩ := h2.runParts cfg (toplevelOf host r1.preview)
  obtain ⟨jobs4, h4⟩ := (h3.other _ r3.rng).foldl fun h j hj => h.ite (.parsed hr3 hj)
  exact h4.foldlM (fun h file _ hf => h.spoolStep hf) h

end SystemdCron
