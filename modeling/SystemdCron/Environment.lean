import SystemdCron.Generator

/-!
# Environments

What `parse_crontab` and `decode_environment` make of the settings of a file, one name at a time: the
environment that holds at a line, the variables that are passed on to the job of the line, and its mail
modes.
-/

namespace SystemdCron

open Bytes

/-! ### Maps and their lists -/

theorem Env.lookup_toList (env : Env) (k : Bytes) : env.toList.lookup k = env[k]? := by
  rcases h : env[k]? with - | v
  · refine List.lookup_eq_none_iff.2 fun p hp => ?_
    have := Std.TreeMap.mem_toList_iff_getElem?_eq_some.1 (show (p.1, p.2) ∈ env.toList from hp)
    refine bne_iff_ne.2 fun he => ?_
    rw [← he, h] at this
    cases this
  · have hmem := Std.TreeMap.mem_toList_iff_getElem?_eq_some.2 h
    have hdistinct := @Std.TreeMap.distinct_keys_toList _ _ _ env _
    generalize env.toList = l at hmem hdistinct
    induction l with
    | nil => cases hmem
    | cons p l ih =>
      obtain ⟨k', v'⟩ := p
      obtain ⟨hne, hdistinct⟩ := List.pairwise_cons.1 hdistinct
      rcases List.mem_cons.1 hmem with he | hmem
      · cases he
        exact List.lookup_cons_self
      · have : k ≠ k' := fun he => hne _ hmem (by rw [he]; exact Std.ReflCmp.compare_self)
        rw [List.lookup_cons, beq_false_of_ne this]
        exact ih hmem hdistinct

theorem Env.getElem?_insert (env : Env) (k k' v : Bytes) :
    (env.insert k v)[k']? = if k = k' then some v else env[k']? := by
  simp only [Std.TreeMap.getElem?_insert, Std.LawfulEqCmp.compare_eq_iff_eq]

theorem Env.getElem?_erase (env : Env) (k k' : Bytes) :
    (env.erase k)[k']? = if k = k' then none else env[k']? := by
  simp only [Std.TreeMap.getElem?_erase, Std.LawfulEqCmp.compare_eq_iff_eq]

theorem Env.getElem?_insertIfNew (env : Env) (k k' v : Bytes) :
    (env.insertIfNew k v)[k']? = env[k']?.or (if k = k' then some v else none) := by
  rw [Std.TreeMap.getElem?_insertIfNew]
  by_cases hk : k = k'
  · subst hk
    by_cases hm : k ∈ env
    · simp [hm]
    · simp [hm]
  · simp [hk, Std.LawfulEqCmp.compare_eq_iff_eq]

/-- A fold over a map, seen through a value that the entry of one name sets and the others keep. -/
theorem Env.foldl_of_other {α β : Type} {f : β → Bytes → Bytes → β} {get : β → α} {name : Bytes}
    (hother : ∀ b k v, k ≠ name → get (f b k v) = get b) (env : Env) (b : β) :
    ∃ b', get b' = get b ∧
      get (env.foldl f b) = env[name]?.elim (get b) fun v => get (f b' name v) := by
  rw [Std.TreeMap.foldl_eq_foldl_toList, ← Env.lookup_toList]
  have hdistinct : env.toList.Pairwise fun p q => p.1 ≠ q.1 :=
    Std.TreeMap.distinct_keys_toList.imp fun h he => h (by rw [he]; exact Std.ReflCmp.compare_self)
  generalize env.toList = l at hdistinct
  induction l generalizing b with
  | nil => exact ⟨b, rfl, rfl⟩
  | cons p l ih =>
    obtain ⟨k, v⟩ := p
    obtain ⟨hk, hl⟩ := List.pairwise_cons.1 hdistinct
    obtain ⟨b', hb', h⟩ := ih (f b k v) hl
    rw [List.foldl_cons, h]
    by_cases hname : k = name
    · have hnone : l.lookup name = none :=
        List.lookup_eq_none_iff.2 fun q hq => bne_iff_ne.2 (hname ▸ hk q hq)
      refine ⟨b, rfl, ?_⟩
      rw [hnone, ← hname, List.lookup_cons_self]
      rfl
    · refine ⟨b', hb'.trans (hother b k v hname), ?_⟩
      rw [List.lookup_cons, beq_false_of_ne (Ne.symm hname), hother b k v hname]

/-! ### The variables of a job -/

/-- The variables that `decode_environment` takes for the generator: they are not passed on. -/
def controlVariables : List Bytes :=
  [lit "PERSISTENT", lit "CRON_UNIQUE_UNITS", lit "RANDOM_DELAY", lit "START_HOURS_RANGE", lit "DELAY",
   lit "BATCH", lit "CRON_BATCH_LOADAVG_BELOW", lit "CRON_BATCH_THROTTLE_GROUP", lit "CRON_LOG_NAMESPACE",
   lit "CRON_MAIL_SUCCESS", lit "CRON_MAIL_FORMAT"]

namespace Job

variable (host : Host) (j : Job) (ds : CronMailSuccess) (df : CronMailFormat)

theorem decodeVariable_environment (k v : Bytes) :
    (j.decodeVariable host k v).environment = j.environment.insertIfNew k v := by
  unfold decodeVariable
  extract_lets j1 j2 j3
  have h1 : j1.environment = j.environment := by
    change (if _ then _ else _ : Job).environment = _
    split <;> rfl
  have h2 : j2.environment = j1.environment := by
    change (if _ then _ else _ : Job).environment = _
    split
    · unfold decodeTimezone
      extract_lets tz
      split
      · rfl
      · split <;> rfl
    · rfl
  have h3 : j3.environment = j2.environment := by
    change (if _ then _ else _ : Job).environment = _
    split <;> rfl
  rw [h3, h2, h1]

theorem decodeEntry_environment (k v : Bytes) :
    (j.decodeEntry host ds df k v).environment =
      if k ∈ controlVariables then j.environment else j.environment.insertIfNew k v := by
  have hwarn : ∀ {j' : Job} {b : Bool} {m : Bytes},
      (if b then j'.warn m else j').environment = j'.environment := by
    intro j' b m
    split <;> rfl
  -- One case for every control variable, and one for the others.
  have hite : ∀ {name : Bytes} {a b : Job} {rest : List Bytes} {env : Env},
      a.environment = j.environment →
      b.environment = (if k ∈ rest then j.environment else env) →
      (if k = name then a else b).environment = if k ∈ name :: rest then j.environment else env := by
    intro name a b rest env ha hb
    by_cases hk : k = name
    · rw [if_pos hk, if_pos (by simp [hk]), ha]
    · rw [if_neg hk, hb]
      simp [hk]
  unfold decodeEntry controlVariables
  refine hite rfl <| hite rfl <| hite hwarn <| hite ?_ <| hite hwarn <| hite rfl <| hite rfl <|
    hite rfl <| hite rfl <| hite ?_ <| hite ?_ ?_
  · split
    · rfl
    · exact hwarn
  · unfold decodeMailSuccess
    split <;> [rfl; split <;> [rfl; split <;> [rfl; split <;> rfl]]]
  · unfold decodeMailFormat
    split <;> [rfl; split <;> [rfl; split <;> rfl]]
  · rw [decodeVariable_environment, if_neg List.not_mem_nil]

/-- What `decode_environment` passes on. -/
theorem decodeEnvironment_environment (env : Env) (b : Bool) (k : Bytes) :
    (j.decodeEnvironment host env b ds df).environment[k]? =
      j.environment[k]?.or (if k ∈ controlVariables then none else env[k]?) := by
  unfold decodeEnvironment
  extract_lets j0
  rw [Std.TreeMap.foldl_eq_foldl_toList, ← Env.lookup_toList env]
  have hfold : ∀ (l : List (Bytes × Bytes)) (j : Job),
      (l.foldl (fun j kv => j.decodeEntry host ds df kv.1 kv.2) j).environment[k]? =
        j.environment[k]?.or (if k ∈ controlVariables then none else l.lookup k) := by
    intro l
    induction l with
    | nil => intro j; simp
    | cons p l ih =>
      intro j
      rw [List.foldl_cons, ih, decodeEntry_environment, List.lookup_cons]
      by_cases hp : p.1 = k
      · rw [hp, beq_self_eq_true]
        split
        · rfl
        · rw [Env.getElem?_insertIfNew, if_pos rfl]
          cases j.environment[k]? <;> rfl
      · rw [beq_false_of_ne (Ne.symm hp)]
        split
        · rfl
        · rw [Env.getElem?_insertIfNew, if_neg hp, Option.or_none]
  exact hfold env.toList j0

/-! ### `PATH` -/

/-- What `decode_command` makes of `PATH` for a user with a home. -/
def expandedPath (home : Option Bytes) (path : Bytes) : Bytes :=
  match home with
  | none => path
  | some home =>
    if (lit "~/").isPrefixOf path || contains path (lit ":~/") then (expandPath home path).dropLast
    else path

theorem expandPathVariable_environment (home : Bytes) (h : j.environmentPATHStorage = []) (k : Bytes) :
    (j.expandPathVariable home).environment[k]? =
      if k = lit "PATH" then j.environment[k]?.map (expandedPath (some home)) else j.environment[k]? := by
  have hsame : ∀ {path : Bytes}, j.environment[lit "PATH"]? = some path →
      expandedPath (some home) path = path →
      j.environment[k]? =
        if k = lit "PATH" then j.environment[k]?.map (expandedPath (some home))
        else j.environment[k]? := by
    intro path hpath he
    by_cases hk : k = lit "PATH"
    · rw [if_pos hk, hk, hpath, Option.map_some, he]
    · rw [if_neg hk]
  unfold expandPathVariable
  rcases hpath : j.environment[lit "PATH"]? with - | path
  · dsimp only
    by_cases hk : k = lit "PATH"
    · rw [if_pos hk, hk, hpath, Option.map_none]
    · rw [if_neg hk]
  · dsimp only
    by_cases htilde : (lit "~/").isPrefixOf path || contains path (lit ":~/")
    · rw [if_pos htilde]
      dsimp only
      rw [Env.getElem?_insert, h, List.nil_append]
      by_cases hk : k = lit "PATH"
      · rw [if_pos hk.symm, if_pos hk, hk, hpath, Option.map_some, expandedPath, if_pos htilde]
      · rw [if_neg (Ne.symm hk), if_neg hk]
    · rw [if_neg htilde]
      exact hsame hpath (by rw [expandedPath, if_neg htilde])

/-- What `decode` makes of the variables of a job whose user was not looked up before. -/
theorem decode_environment (h : j.environmentPATHStorage = []) (hhome : j.userHome = none) (k : Bytes) :
    (j.decode host).environment[k]? =
      if k = lit "PATH" then j.environment[k]?.map (expandedPath (j.decode host).userHome)
      else j.environment[k]? := by
  have hnone : ∀ {path : Option Bytes}, path.map (expandedPath none) = path := by
    intro path
    cases path <;> rfl
  unfold decode
  generalize hj : { j with jobid := j.jobid.filter isAsciiAlnum } = j'
  have henv : j'.environment = j.environment := hj ▸ rfl
  rw [← henv]
  unfold decodeCommand
  split
  · rw [show j'.userHome = none from hj ▸ hhome, hnone, ite_self]
  · extract_lets j1
    obtain ⟨home, uid, gid, hp⟩ := j'.pullUser_eq host
    have h1 : j1.environment = j'.environment := by
      change (j'.pullUser host).environment = _
      rw [hp]
    have hstorage : j1.environmentPATHStorage = [] := by
      change (j'.pullUser host).environmentPATHStorage = _
      rw [hp, ← hj]
      exact h
    rw [← h1]
    split
    next hn => rw [hn, hnone, ite_self]
    next home' hsome =>
      obtain ⟨c0, ws, hc⟩ := j1.expandCommand_eq home'
      rw [expandPathVariable_environment _ _ (by rw [hc]; exact hstorage), expandPathVariable_userHome,
        expandCommand_userHome, hsome, hc]

end Job

/-! ### The job of a line -/

/-- What a job gets of the settings: not the control variables, and `PATH` with the home. -/
def jobVariable (home : Option Bytes) (settings : Bytes → Option Bytes) (k : Bytes) : Option Bytes :=
  if k ∈ controlVariables then none
  else if k = lit "PATH" then (settings k).map (Job.expandedPath home)
  else settings k

theorem parseJob_environment {host : Host} {kind : CrontabKind} {environment : Env} {line : Bytes}
    {rng rng' : Rng} {j : Job} (h : parseJob host kind environment line rng = .ok (j, rng'))
    (k : Bytes) : j.environment[k]? = jobVariable j.userHome (fun k => environment[k]?) k := by
  obtain ⟨p, hp, rfl⟩ := parseJob_ok h
  have hscheduled := (p.decode host).generateSchedule_scheduled
  have hsettings := parseLine_sameSettings hp
  have hline := newJob_sameLine host kind environment line
  have hpenv : ∀ k, p.environment[k]? = if k ∈ controlVariables then none else environment[k]? := by
    intro k
    rw [hsettings.environment, newJob, Job.decodeEnvironment_environment]
    exact Option.none_or
  rw [hscheduled.environment, hscheduled.userHome,
    Job.decode_environment host p (hsettings.environmentPATHStorage.trans hline.environmentPATHStorage)
      (hsettings.userHome.trans hline.userHome), hpenv, jobVariable]
  by_cases hcontrol : k ∈ controlVariables
  · rw [if_pos hcontrol, if_pos hcontrol, Option.map_none, ite_self]
  · rw [if_neg hcontrol, if_neg hcontrol]

/-! ### Mail modes -/

/-- The mode that a text of `CRON_MAIL_SUCCESS` stands for, if it is neither `inherit` nor unknown. -/
def mailSuccess (text : Bytes) : Option CronMailSuccess :=
  if text = lit "never" ∨ systemdBoolFalse text then some .never
  else if text = lit "always" ∨ systemdBool text then some .always
  else if text = lit "nonempty" ∨ text = lit "non-empty" then some .nonempty
  else none

/-- The mode that a text of `CRON_MAIL_FORMAT` stands for, if it is neither `inherit` nor unknown. -/
def mailFormat (text : Bytes) : Option CronMailFormat :=
  if text = lit "normal" then some .normal
  else if text = lit "nometadata" ∨ text = lit "no-metadata" then some .nometadata
  else none

namespace Job

variable (host : Host) (j : Job) (ds : CronMailSuccess) (df : CronMailFormat)

theorem decodeMailSuccess_cronMailSuccess (v : Bytes) (h : j.cronMailSuccess = ds) :
    (j.decodeMailSuccess v ds).cronMailSuccess = (mailSuccess v).getD ds := by
  unfold decodeMailSuccess mailSuccess
  split
  · rfl
  split
  · rfl
  split
  · rfl
  split
  · rfl
  · exact h

theorem decodeMailFormat_cronMailFormat (v : Bytes) (h : j.cronMailFormat = df) :
    (j.decodeMailFormat v df).cronMailFormat = (mailFormat v).getD df := by
  unfold decodeMailFormat mailFormat
  split
  · rfl
  split
  · rfl
  split
  · rfl
  · exact h

theorem decodeMailSuccess_cronMailFormat (v : Bytes) :
    (j.decodeMailSuccess v ds).cronMailFormat = j.cronMailFormat := by
  unfold decodeMailSuccess
  split_ifs <;> rfl

theorem decodeMailFormat_cronMailSuccess (v : Bytes) :
    (j.decodeMailFormat v df).cronMailSuccess = j.cronMailSuccess := by
  unfold decodeMailFormat
  split_ifs <;> rfl

theorem decodeEntry_mailSuccess (v : Bytes) :
    j.decodeEntry host ds df (lit "CRON_MAIL_SUCCESS") v = j.decodeMailSuccess v ds := by
  unfold decodeEntry
  iterate 9 rw [if_neg (by decide)]
  exact if_pos rfl

theorem decodeEntry_mailFormat (v : Bytes) :
    j.decodeEntry host ds df (lit "CRON_MAIL_FORMAT") v = j.decodeMailFormat v df := by
  unfold decodeEntry
  iterate 10 rw [if_neg (by decide)]
  exact if_pos rfl

/-- `b` has the mail modes of `a`. -/
def SameModes (a b : Job) : Prop :=
  b.cronMailSuccess = a.cronMailSuccess ∧ b.cronMailFormat = a.cronMailFormat

variable {j} in
theorem SameModes.ite {b b' : Job} {c : Prop} [Decidable c] (h : c → j.SameModes b)
    (h' : j.SameModes b') : j.SameModes (if c then b else b') := by
  split
  next hc => exact h hc
  next => exact h'

theorem decodeEntry_sameModes {k : Bytes} (v : Bytes) (hs : k ≠ lit "CRON_MAIL_SUCCESS")
    (hf : k ≠ lit "CRON_MAIL_FORMAT") : j.SameModes (j.decodeEntry host ds df k v) := by
  have hwarn : ∀ {j' : Job} {b : Bool} {m : Bytes}, j.SameModes j' →
      j.SameModes (if b then j'.warn m else j') := fun h => .ite (fun _ => h) h
  have hset : ∀ {name : Bytes} {b b' : Job}, j.SameModes b → j.SameModes b' →
      j.SameModes (if k = name then b else b') := fun h h' => .ite (fun _ => h) h'
  unfold decodeEntry
  refine hset ⟨rfl, rfl⟩ <| hset ⟨rfl, rfl⟩ <| hset (hwarn ⟨rfl, rfl⟩) <| hset ?_ <|
    hset (hwarn ⟨rfl, rfl⟩) <| hset ⟨rfl, rfl⟩ <| hset ⟨rfl, rfl⟩ <| hset ⟨rfl, rfl⟩ <|
    hset ⟨rfl, rfl⟩ <| .ite (fun h => absurd h hs) <| .ite (fun h => absurd h hf) ?_
  · split
    · exact ⟨rfl, rfl⟩
    · exact hwarn ⟨rfl, rfl⟩
  · unfold decodeVariable
    extract_lets j1 j2 j3
    have h1 : j.SameModes j1 := .ite (fun _ => ⟨rfl, rfl⟩) ⟨rfl, rfl⟩
    have h2 : j1.SameModes j2 :=
      .ite (fun _ => .ite (fun _ => ⟨rfl, rfl⟩) <| .ite (fun _ => ⟨rfl, rfl⟩) ⟨rfl, rfl⟩) ⟨rfl, rfl⟩
    have h3 : j2.SameModes j3 := .ite (fun _ => ⟨rfl, rfl⟩) ⟨rfl, rfl⟩
    exact ⟨h3.1.trans (h2.1.trans h1.1), h3.2.trans (h2.2.trans h1.2)⟩

theorem decodeEntry_cronMailSuccess {k : Bytes} (v : Bytes) (hk : k ≠ lit "CRON_MAIL_SUCCESS") :
    (j.decodeEntry host ds df k v).cronMailSuccess = j.cronMailSuccess := by
  by_cases hf : k = lit "CRON_MAIL_FORMAT"
  · rw [hf, decodeEntry_mailFormat]
    exact decodeMailFormat_cronMailSuccess j df v
  · exact (decodeEntry_sameModes host j ds df v hk hf).1

theorem decodeEntry_cronMailFormat {k : Bytes} (v : Bytes) (hk : k ≠ lit "CRON_MAIL_FORMAT") :
    (j.decodeEntry host ds df k v).cronMailFormat = j.cronMailFormat := by
  by_cases hs : k = lit "CRON_MAIL_SUCCESS"
  · rw [hs, decodeEntry_mailSuccess]
    exact decodeMailSuccess_cronMailFormat j ds v
  · exact (decodeEntry_sameModes host j ds df v hs hk).2

/-- The modes that `decode_environment` sets: what the texts stand for, and the defaults where they stand
for nothing. -/
theorem decodeEnvironment_modes (env : Env) (b : Bool) :
    (j.decodeEnvironment host env b ds df).cronMailSuccess =
        (env[lit "CRON_MAIL_SUCCESS"]?.bind mailSuccess).getD ds ∧
      (j.decodeEnvironment host env b ds df).cronMailFormat =
        (env[lit "CRON_MAIL_FORMAT"]?.bind mailFormat).getD df := by
  unfold decodeEnvironment
  extract_lets j0
  constructor
  · obtain ⟨j', hj', h⟩ := Env.foldl_of_other (f := fun j k v => j.decodeEntry host ds df k v)
      (show ∀ j k v, k ≠ lit "CRON_MAIL_SUCCESS" → (j.decodeEntry host ds df k v).cronMailSuccess =
        j.cronMailSuccess from fun j _ v hk => decodeEntry_cronMailSuccess host j ds df v hk) env j0
    rw [h]
    rcases env[lit "CRON_MAIL_SUCCESS"]? with - | v
    · rfl
    · exact (congrArg _ (decodeEntry_mailSuccess host j' ds df v)).trans
        (decodeMailSuccess_cronMailSuccess j' ds v hj')
  · obtain ⟨j', hj', h⟩ := Env.foldl_of_other (f := fun j k v => j.decodeEntry host ds df k v)
      (show ∀ j k v, k ≠ lit "CRON_MAIL_FORMAT" → (j.decodeEntry host ds df k v).cronMailFormat =
        j.cronMailFormat from fun j _ v hk => decodeEntry_cronMailFormat host j ds df v hk) env j0
    rw [h]
    rcases env[lit "CRON_MAIL_FORMAT"]? with - | v
    · rfl
    · exact (congrArg _ (decodeEntry_mailFormat host j' ds df v)).trans
        (decodeMailFormat_cronMailFormat j' df v hj')

end Job

/-- The name and the value of a line that is a setting. -/
def setting (line : Bytes) : Option (Bytes × Bytes) :=
  (matchEnvvar line).map fun p => (p.1, dequote p.2.length p.2)

/-- The value that the last of some lines sets a name to. -/
def lastSetting (lines : List Bytes) (k : Bytes) : Option Bytes := (lines.reverse.filterMap setting).lookup k

/-- The environment below some lines. -/
def environmentBelow (environment : Env) (lines : List Bytes) : Env :=
  lines.foldl
    (fun env line =>
      match setting line with
      | some (k, v) => (applySetting env [] k v).1
      | none => env)
    environment

/-- The value a setting leaves its name with: `PERSISTENT=auto` leaves it with none. -/
def settingValue (k v : Bytes) : Option Bytes :=
  if k = lit "PERSISTENT" ∧ v = lit "auto" then none else some v

theorem setting_of_matchEnvvar {line key value : Bytes} (h : matchEnvvar line = some (key, value)) :
    setting line = some (key, dequote value.length value) := by
  rw [setting, h]
  rfl

theorem setting_eq_none {line : Bytes} : setting line = none ↔ matchEnvvar line = none :=
  Option.map_eq_none_iff

/-- The environment does not depend on the variables to inherit. -/
theorem applySetting_fst (environment : Env) (inherit' inherit'' key value : Bytes) :
    (applySetting environment inherit' key value).1 = (applySetting environment inherit'' key value).1 := by
  unfold applySetting
  split
  · rfl
  · split <;> rfl

theorem applySetting_getElem? (environment : Env) (inherit' key value k : Bytes) :
    (applySetting environment inherit' key value).1[k]? =
      if key = k ∧ k ≠ lit "CRON_INHERIT_VARIABLES" then settingValue key value else environment[k]? := by
  have hne : lit "PERSISTENT" ≠ lit "CRON_INHERIT_VARIABLES" := by decide
  unfold applySetting settingValue
  by_cases hp : key = lit "PERSISTENT" ∧ value = lit "auto"
  · rw [if_pos hp, if_pos hp]
    dsimp only
    rw [Env.getElem?_erase, hp.1]
    by_cases hk : lit "PERSISTENT" = k
    · rw [if_pos hk, if_pos ⟨hk, hk ▸ hne⟩]
    · rw [if_neg hk, if_neg fun h => hk h.1]
  · rw [if_neg hp, if_neg hp]
    by_cases hi : key = lit "CRON_INHERIT_VARIABLES"
    · rw [if_pos hi, if_neg fun h => h.2 (h.1 ▸ hi)]
    · rw [if_neg hi]
      dsimp only
      rw [Env.getElem?_insert]
      by_cases hk : key = k
      · rw [if_pos hk, if_pos ⟨hk, hk ▸ hi⟩]
      · rw [if_neg hk, if_neg fun h => hk h.1]

theorem applySetting_snd (environment : Env) (inherit' key value : Bytes) :
    (applySetting environment inherit' key value).2 =
      if key = lit "CRON_INHERIT_VARIABLES" then value else inherit' := by
  unfold applySetting
  split
  next hp => rw [if_neg (by rw [hp.1]; decide)]
  next => split <;> rfl

theorem lastSetting_append_singleton (lines : List Bytes) (line k : Bytes) :
    lastSetting (lines ++ [line]) k =
      match setting line with
      | some (k', v) => if k' = k then some v else lastSetting lines k
      | none => lastSetting lines k := by
  rw [lastSetting, List.reverse_append, List.reverse_singleton, List.singleton_append,
    List.filterMap_cons]
  rcases setting line with - | ⟨k', v⟩
  · rfl
  · dsimp only
    rw [List.lookup_cons]
    by_cases hk : k' = k
    · rw [hk, beq_self_eq_true, if_pos rfl]
    · rw [beq_false_of_ne (Ne.symm hk), if_neg hk]
      rfl

/-- **The law of settings**: a name has what its last setting leaves it with, and what it had before if there
is none. -/
theorem environmentBelow_append_singleton (environment : Env) (above : List Bytes) (line : Bytes) :
    environmentBelow environment (above ++ [line]) =
      match setting line with
      | some (k, v) => (applySetting (environmentBelow environment above) [] k v).1
      | none => environmentBelow environment above := by
  rw [environmentBelow, List.foldl_append]
  rfl

theorem environmentBelow_getElem? (environment : Env) (lines : List Bytes) (k : Bytes)
    (hk : k ≠ lit "CRON_INHERIT_VARIABLES") :
    (environmentBelow environment lines)[k]? =
      (lastSetting lines k).elim environment[k]? (settingValue k) := by
  induction lines using List.reverseRecOn with
  | nil => rfl
  | append_singleton lines line ih =>
    rw [environmentBelow_append_singleton, lastSetting_append_singleton]
    rcases setting line with - | ⟨k', v⟩
    · exact ih
    · dsimp only
      rw [applySetting_getElem?]
      by_cases hk' : k' = k
      · rw [if_pos ⟨hk', hk⟩, if_pos hk', hk']
        rfl
      · rw [if_neg fun h => hk' h.1, if_neg hk', ih]

/-- The variables to inherit are no variable. -/
theorem environmentBelow_inherit (environment : Env) (lines : List Bytes) :
    (environmentBelow environment lines)[lit "CRON_INHERIT_VARIABLES"]? =
      environment[lit "CRON_INHERIT_VARIABLES"]? := by
  induction lines using List.reverseRecOn with
  | nil => rfl
  | append_singleton lines line ih =>
    rw [environmentBelow_append_singleton]
    rcases setting line with - | ⟨k', v⟩
    · exact ih
    · dsimp only
      rw [applySetting_getElem?, if_neg fun h => h.2 rfl, ih]

/-! ### The jobs of a file, line by line -/

/-- The lines that are no settings, each with the lines above it. -/
def jobLinesBelow (above : List Bytes) : List Bytes → List (List Bytes × Bytes)
  | [] => []
  | line :: lines =>
    if setting line = none then (above, line) :: jobLinesBelow (above ++ [line]) lines
    else jobLinesBelow (above ++ [line]) lines

abbrev jobLines (lines : List Bytes) : List (List Bytes × Bytes) := jobLinesBelow [] lines

theorem mem_jobLinesBelow {above lines : List Bytes} {p : List Bytes × Bytes}
    (h : p ∈ jobLinesBelow above lines) :
    setting p.2 = none ∧ ∃ between below, lines = between ++ p.2 :: below ∧ p.1 = above ++ between := by
  induction lines generalizing above with
  | nil => cases h
  | cons line lines ih =>
    have hrest : p ∈ jobLinesBelow (above ++ [line]) lines →
        setting p.2 = none ∧ ∃ between below, line :: lines = between ++ p.2 :: below ∧
          p.1 = above ++ between := by
      intro h
      obtain ⟨hs, between, below, rfl, hp⟩ := ih h
      exact ⟨hs, line :: between, below, rfl, by rw [hp, List.append_assoc, List.singleton_append]⟩
    rw [jobLinesBelow] at h
    split at h
    next hs =>
      rcases List.mem_cons.1 h with rfl | h
      · exact ⟨hs, [], lines, rfl, (List.append_nil above).symm⟩
      · exact hrest h
    next => exact hrest h

theorem exists_mem_of_forall₂ {α β : Type} {R : α → β → Prop} {l : List α} {l' : List β}
    (h : List.Forall₂ R l l') {b : β} (hb : b ∈ l') : ∃ a ∈ l, R a b := by
  induction h with
  | nil => cases hb
  | cons hab _ ih =>
    rcases List.mem_cons.1 hb with rfl | hb
    · exact ⟨_, List.mem_cons_self, hab⟩
    · obtain ⟨a, ha, hab⟩ := ih hb
      exact ⟨a, List.mem_cons_of_mem _ ha, hab⟩

/-- The job of a line under the environment that the lines above it leave. -/
def IsJob (host : Host) (kind : CrontabKind) (environment : Env) (p : List Bytes × Bytes) (j : Job) :
    Prop :=
  ∃ rng rng', parseJob host kind (environmentBelow environment p.1) p.2 rng = .ok (j, rng')

theorem crontabLoop_jobs {host : Host} {kind : CrontabKind} {environment : Env} {lines above : List Bytes}
    {s s' : CrontabState} (h : crontabLoop host kind s lines = .ok s')
    (henv : s.environment = environmentBelow environment above)
    (hinherit : s.cronInheritVariables = (lastSetting above (lit "CRON_INHERIT_VARIABLES")).getD []) :
    (∃ js, s'.jobs = s.jobs ++ js ∧
      List.Forall₂ (IsJob host kind environment) (jobLinesBelow above lines) js) ∧
    s'.environment = environmentBelow environment (above ++ lines) ∧
    s'.cronInheritVariables =
      (lastSetting (above ++ lines) (lit "CRON_INHERIT_VARIABLES")).getD [] := by
  induction lines generalizing s above with
  | nil =>
    cases h
    rw [List.append_nil]
    exact ⟨⟨[], (List.append_nil _).symm, .nil⟩, henv, hinherit⟩
  | cons line lines ih =>
    rw [crontabLoop] at h
    rcases hstep : crontabStep host kind s line with f | s1
    · rw [hstep] at h
      cases h
    rw [hstep] at h
    have hcons : above ++ line :: lines = (above ++ [line]) ++ lines := by simp
    have hbelow := environmentBelow_append_singleton environment above line
    rw [crontabStep] at hstep
    rw [hcons, jobLinesBelow]
    rcases hm : matchEnvvar line with - | ⟨key, value⟩
    · rw [hm] at hstep
      have hs := setting_eq_none.2 hm
      rcases hp : parseJob host kind s.environment line s.rng with f | ⟨j, rng'⟩
      · rw [hp] at hstep
        cases hstep
      rw [hp] at hstep
      cases hstep
      obtain ⟨⟨js, hjs, hall⟩, hrest⟩ := ih h (by rw [hbelow, hs]; exact henv)
        (by rw [lastSetting_append_singleton, hs]; exact hinherit)
      rw [if_pos hs]
      refine ⟨⟨j :: js, by rw [hjs, List.append_assoc, List.singleton_append], ?_⟩, hrest⟩
      exact .cons ⟨s.rng, rng', henv ▸ hp⟩ hall
    · rw [hm] at hstep
      have hs := setting_of_matchEnvvar hm
      cases hstep
      dsimp only at h
      rw [if_neg (by rw [hs]; exact Option.some_ne_none _)]
      have hrest := @ih (above ++ [line]) _ h
      refine hrest ?_ ?_
      · rw [hbelow, hs, ← henv]
        exact applySetting_fst ..
      · rw [lastSetting_append_singleton, hs, applySetting_snd, hinherit]
        dsimp only
        split <;> rfl

/-- The jobs of a file are those of its lines, in order, and the preview gets what is left at its end. -/
theorem parseCrontab_jobs {host : Host} {kind : CrontabKind} {environment : Env} {content : Option Bytes}
    {rng : Rng} {r : Crontab} (h : parseCrontab host kind environment content rng = .ok r) :
    List.Forall₂ (IsJob host kind environment) (jobLines (crontabLines (content.getD []))) r.jobs ∧
    match r.preview with
    | none => crontabLines (content.getD []) = []
    | some p =>
      p.1 = (lastSetting (crontabLines (content.getD [])) (lit "CRON_INHERIT_VARIABLES")).getD [] ∧
      p.2 = environmentBelow environment (crontabLines (content.getD [])) := by
  unfold parseCrontab at h
  rcases content with - | content
  · cases h
    exact ⟨.nil, rfl⟩
  dsimp only at h
  rw [Option.getD_some]
  by_cases hc : content = []
  · rw [if_pos hc] at h
    cases h
    subst hc
    exact ⟨.nil, rfl⟩
  rw [if_neg hc] at h
  rcases hloop : crontabLoop host kind
    { environment, cronInheritVariables := [], jobs := [], rng } (crontabLines content) with f | s
  · rw [hloop] at h
    cases h
  rw [hloop] at h
  cases h
  obtain ⟨⟨js, hjs, hall⟩, henv, hinherit⟩ := crontabLoop_jobs hloop
    (show environment = environmentBelow environment [] from rfl) rfl
  exact ⟨by rw [hjs]; exact hall, hinherit, henv⟩

/-! ### Names -/

/-- A text that `ENVVAR_RE` takes for a name. -/
def IsName (k : Bytes) : Prop := k ≠ [] ∧ ∀ c ∈ k, isNameChar c

/-- An environment whose names are those of settings. -/
def Env.Named (env : Env) : Prop := ∀ k v, env[k]? = some v → IsName k

theorem Env.named_empty : Env.Named {} := fun k v h => by
  rw [Std.TreeMap.getElem?_emptyc] at h
  cases h

theorem isName_of_setting {line k v : Bytes} (h : setting line = some (k, v)) : IsName k := by
  obtain ⟨p, hp, he⟩ := Option.map_eq_some_iff.1 h
  cases he
  unfold matchEnvvar at hp
  extract_lets key at hp
  split at hp
  · dsimp only at hp
    split at hp
    next hkey =>
      cases hp
      exact ⟨hkey.1, fun c hc => List.mem_takeWhile_imp hc⟩
    next => cases hp
  · cases hp

theorem isName_of_lastSetting {lines : List Bytes} {k v : Bytes} (h : lastSetting lines k = some v) :
    IsName k := by
  obtain ⟨l₁, l₂, hl, -⟩ := List.lookup_eq_some_iff.1 h
  have hmem : (k, v) ∈ lines.reverse.filterMap setting := by rw [hl]; simp
  obtain ⟨line, -, hline⟩ := List.mem_filterMap.1 hmem
  exact isName_of_setting hline

theorem Env.Named.below {env : Env} (h : env.Named) (lines : List Bytes) :
    (environmentBelow env lines).Named := by
  intro k v hk
  by_cases hi : k = lit "CRON_INHERIT_VARIABLES"
  · subst hi
    rw [environmentBelow_inherit] at hk
    exact h _ v hk
  rw [environmentBelow_getElem? env lines k hi] at hk
  rcases hlast : lastSetting lines k with - | w
  · rw [hlast] at hk
    exact h k v hk
  · exact isName_of_lastSetting hlast

/-- The variables of a job have the names of settings. -/
theorem Env.Named.jobVariable {env : Env} (h : env.Named) {home : Option Bytes} {k v : Bytes}
    (hk : jobVariable home (fun k => env[k]?) k = some v) : IsName k := by
  unfold SystemdCron.jobVariable at hk
  split at hk
  · cases hk
  · split at hk
    · obtain ⟨w, hw, -⟩ := Option.map_eq_some_iff.1 hk
      exact h k w hw
    · exact h k v hk

theorem parseCrontab_named {host : Host} {kind : CrontabKind} {environment : Env}
    (henv : environment.Named) {content : Option Bytes} {rng : Rng} {r : Crontab}
    (h : parseCrontab host kind environment content rng = .ok r) {j : Job} (hj : j ∈ r.jobs) :
    Env.Named j.environment := by
  obtain ⟨p, -, rng, rng', hp⟩ := exists_mem_of_forall₂ (parseCrontab_jobs h).1 hj
  intro k v hk
  rw [parseJob_environment hp] at hk
  exact (henv.below p.1).jobVariable hk

end SystemdCron
