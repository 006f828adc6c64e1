import SystemdCron.CheckAgreement
import SystemdCron.Inheritance
import SystemdCron.Reload
import SystemdCron.Scriptlet
import SystemdCron.Settings
import SystemdCron.UnitReading

/-!
# Whom the units of a user run as

The crontab of a user in the spool can say a lot about its units, but not whom they run as: `user_units` says that
the service of each of its jobs has one `User=`, and that it is the name of the file, for a reader that ends lines
where the crontab does.
-/

namespace SystemdCron

open Bytes UnitSyntax

/-! ### What a job of the spool is parsed to -/

namespace Job

/-- The home is that of a user. -/
theorem pullUser_userHome (host : Host) {j : Job} (h : j.userHome = none) :
    ∀ home ∈ (j.pullUser host).userHome, ∃ name, ∃ ent ∈ host.getpwnam name, home = ent.dir := by
  unfold pullUser
  rw [h, if_neg (by decide)]
  cases hent : host.getpwnam (cstr j.user) with
  | none => rw [h]; exact nofun
  | some ent => exact fun home hhome => ⟨_, ent, hent, (Option.some.inj hhome).symm⟩

theorem decode_userHome (host : Host) (j : Job) (h : j.userHome = none) :
    ∀ home ∈ (j.decode host).userHome, ∃ name, ∃ ent ∈ host.getpwnam name, home = ent.dir := by
  unfold decode decodeCommand
  split
  · rw [h]; exact nofun
  · have hpull := @pullUser_userHome host { j with jobid := j.jobid.filter isAsciiAlnum } h
    extract_lets j'
    split
    · exact hpull
    · rwa [expandPathVariable_userHome, expandCommand_userHome]

end Job

/-- A job of the spool, as far as its service is concerned with it. -/
structure IsUserJob (host : Host) (kind : CrontabKind) (environment : Env) (line : Bytes) (j : Job) : Prop where
  filename : j.filename = kind.filename
  user : j.user = voreBasename kind.filename
  userHome : ∀ home ∈ j.userHome, ∃ name, ∃ ent ∈ host.getpwnam name, home = ent.dir
  shell : j.shell = shellOf environment
  cronLogNamespace : j.cronLogNamespace = logNamespaceOf environment
  execstart : j.execstart = []

theorem parseLine_user {host : Host} {kind : CrontabKind} {environment : Env} {line : Bytes} {rng rng' : Rng}
    {p : Job} (hk : kind.anacrontab = false) (hu : kind.withuser = .fromBasename)
    (h : parseLine host kind environment line rng = .ok (p, rng')) :
    p.cronLogNamespace = (newJob host kind environment line).cronLogNamespace ∧
      (p.valid → p.user = voreBasename kind.filename) := by
  have hbase : (newJob host kind environment line).basename = voreBasename kind.filename :=
    (newJob_sameLine host kind environment line).basename
  have huser (j : Job) (skip : Nat) : (j.parseUserCommand .fromBasename skip).user = j.basename := by
    unfold Job.parseUserCommand
    extract_lets r c j'
    obtain ⟨ws, input, he⟩ := j'.parsePercent_eq r.2
    rw [he]
  simp only [parseLine] at h
  rw [hk, hu] at h
  generalize newJob host kind environment line = j at h hbase ⊢
  split at h
  next hf => cases hf
  · split at h
    · cases h
      obtain ⟨_, _, _, _, _, _, _, hp⟩ := j.parseCrontabAt_eq .fromBasename
      refine ⟨by rw [hp], ?_⟩
      unfold Job.parseCrontabAt
      extract_lets need user _ j1
      split
      · intro hv
        cases hv
      · exact fun _ => (huser j1 1).trans hbase
    · rcases Job.parseCrontabTimespec_ok h with ⟨-, log, rfl⟩ | ⟨f, hf, -, rfl⟩
      · refine ⟨rfl, fun hv => ?_⟩
        cases hv
      · obtain ⟨user, ws, id, input, hp⟩ := f.parseUserCommand_eq .fromBasename 5
        obtain ⟨_, _, _, _, _, _, _, _, _, _, _, _, rfl⟩ := Job.parseFields_ok hf
        exact ⟨by rw [hp], fun _ => (huser _ 5).trans hbase⟩

theorem parseJob_user {host : Host} {kind : CrontabKind} {environment : Env} {line : Bytes} {rng rng' : Rng}
    {j : Job} (hk : kind.anacrontab = false) (hu : kind.withuser = .fromBasename)
    (h : parseJob host kind environment line rng = .ok (j, rng')) (hv : j.valid) :
    IsUserJob host kind environment line j := by
  obtain ⟨p, hp, rfl⟩ := parseJob_ok h
  have hset := parseLine_sameSettings hp
  have hsame := newJob_sameLine host kind environment line
  obtain ⟨hshell, hnamespace⟩ := newJob_shell host kind environment line
  obtain ⟨hpn, hpu⟩ := parseLine_user hk hu hp
  have hgen := (p.decode host).generateSchedule_scheduled
  have hvp : p.valid := by
    obtain ⟨_, _, _, _, _, _, _, hd⟩ := Job.decodeCommand_eq host { p with jobid := p.jobid.filter isAsciiAlnum }
    have := hgen.valid hv
    rwa [Job.decode, hd] at this
  have hhome : ∀ home ∈ (p.decode host).userHome, ∃ name, ∃ ent ∈ host.getpwnam name, home = ent.dir :=
    Job.decode_userHome host p (hset.userHome.trans hsame.userHome)
  obtain ⟨_, _, _, _, _, _, _, hd⟩ := Job.decodeCommand_eq host { p with jobid := p.jobid.filter isAsciiAlnum }
  refine ⟨hgen.filename.trans ?_, hgen.user.trans ?_, fun home hmem => hhome home (hgen.userHome ▸ hmem),
    hgen.shell.trans ?_, (Job.generateSchedule_settings _).2.2.2.trans ?_, hgen.execstart.trans ?_⟩ <;>
    rw [Job.decode, hd]
  · exact hset.filename.trans hsame.filename
  · exact hpu hvp
  · exact hset.shell.trans hshell
  · exact hpn.trans hnamespace
  · exact hset.execstart.trans hsame.execstart

/-! ### Texts within a line -/

/-- No octet of a text ends a line. -/
def Whole (e : Manager) (s : Bytes) : Prop := ∀ c ∈ s, e.isEnd c = false

section
variable {e : Manager} {s t : Bytes}

theorem whole_append : Whole e (s ++ t) ↔ Whole e s ∧ Whole e t := List.forall_mem_append

theorem whole_cons {c : UInt8} : Whole e (c :: s) ↔ e.isEnd c = false ∧ Whole e s := List.forall_mem_cons

theorem whole_nil : Whole e [] := nofun

theorem Whole.subset (h : Whole e s) (ht : ∀ c ∈ t, c ∈ s) : Whole e t := fun c hc => h c (ht c hc)

theorem Whole.cstr (h : Whole e s) : Whole e (cstr s) := h.subset fun _ hc => (cstr_isPrefix s).subset hc

theorem whole_of_printable (h : s.all fun c => 32 ≤ c && c < 127) : Whole e s := isEnd_of_printable e h

theorem whole_hexEscape (c : UInt8) : Whole e (hexEscape c) := by
  have hall : ∀ c : UInt8, (hexEscape c).all fun c => 32 ≤ c && c < 127 := by decide +kernel
  exact whole_of_printable (hall c)

/-- What `describe_line` copies, and how it escapes the rest. -/
theorem whole_describeLoop {line : Bytes} (hline : Whole e line) {fuel : Nat} {desc : Bytes} (hdesc : Whole e desc)
    {escaped : Option Bytes} (hesc : ∀ w ∈ escaped, Whole e w) :
    ∀ w ∈ describeLoop line fuel desc escaped, Whole e w := by
  induction fuel generalizing desc escaped with
  | zero => exact hesc
  | succ fuel ih =>
    rw [describeLoop]
    split
    · exact hesc
    extract_lets begun hex
    have hbegun : Whole e begun := by
      cases escaped with
      | none => exact hline.subset fun c hc => List.mem_of_mem_take hc
      | some w => exact hesc w rfl
    have hhex (conv : Nat) : ∀ w ∈ hex conv, Whole e w :=
      ih (hdesc.subset fun c hc => List.mem_of_mem_drop hc) fun w hw => by
        obtain rfl := Option.some.inj hw
        refine whole_append.2 ⟨hbegun, fun c hc => ?_⟩
        obtain ⟨d, -, hc⟩ := List.mem_flatMap.1 hc
        exact whole_hexEscape d c hc
    split
    · exact hhex 1
    · exact hhex 1
    · exact hhex _
    · split
      · refine ih (hdesc.subset fun c hc => List.mem_of_mem_drop hc) fun w hw => ?_
        obtain rfl := Option.some.inj hw
        exact whole_append.2 ⟨hbegun, whole_of_printable (by decide)⟩
      · refine ih (hdesc.subset fun c hc => List.mem_of_mem_drop hc) fun w hw => ?_
        obtain ⟨v, hv, rfl⟩ := Option.map_eq_some_iff.1 hw
        exact whole_append.2 ⟨hesc v hv, hdesc.subset fun c hc => List.mem_of_mem_take hc⟩

theorem Whole.describeLine (h : Whole e s) : Whole e (describeLine s) := by
  unfold SystemdCron.describeLine
  have hloop := @whole_describeLoop e s h s.length s h none nofun
  cases hd : describeLoop s s.length s none with
  | none => exact h
  | some w => exact hloop w hd

theorem Whole.unescape (h : Whole e s) : Whole e (unescape s) := by
  fun_induction SystemdCron.unescape s with
  | case1 r ih => exact whole_cons.2 ⟨e.printable _ (by decide) (by decide), ih (whole_cons.1 (whole_cons.1 h).2).2⟩
  | case2 c r _ ih => exact whole_cons.2 ⟨(whole_cons.1 h).1, ih (whole_cons.1 h).2⟩
  | case3 => exact whole_nil

theorem whole_joinWords {ws : List Bytes} (h : ∀ w ∈ ws, Whole e w) : Whole e (joinWords ws) := by
  intro c hc
  by_contra hend
  have hend : e.isEnd c := by simpa using hend
  have hspace : c ≠ SPACE := fun h0 => by
    rw [h0, e.printable SPACE (by decide) (by decide)] at hend
    cases hend
  refine Assignments.notMem_joinWords hspace (fun w hw hcw => ?_) hc
  rw [h w hw c hcw] at hend
  cases hend

/-- The variables of a job, as they are written. -/
theorem whole_environmentWrite {env : Env} (h : ∀ k v, env[k]? = some v → Whole e k ∧ Whole e v) :
    Whole e (environmentWrite env) := by
  refine whole_joinWords fun w hw => ?_
  obtain ⟨⟨k, v⟩, hkv, rfl⟩ := List.mem_map.1 hw
  obtain ⟨hk, hv⟩ := h k v (Std.TreeMap.mem_toList_iff_getElem?_eq_some.1 hkv)
  have hquote : Whole e (if SPACE ∈ v then [DQUOTE] else []) := by
    split
    · exact whole_of_printable (by decide)
    · exact whole_nil
  simp only [whole_append]
  exact ⟨⟨⟨⟨hquote, hk⟩, whole_of_printable (by decide)⟩, hv⟩, hquote⟩

theorem whole_expandedPath {home : Option Bytes} (hhome : ∀ h ∈ home, Whole e h) (hs : Whole e s) :
    Whole e (Job.expandedPath home s) := by
  unfold Job.expandedPath
  cases home with
  | none => exact hs
  | some home =>
    dsimp only
    split
    · refine fun c hc => ?_
      obtain ⟨p, hp, hc⟩ := List.mem_flatMap.1 (List.dropLast_sublist _ |>.subset hc)
      have hpw : Whole e p := hs.subset fun c hc => by
        rw [softTokenise_eq] at hp
        exact mem_of_mem_tokens hp hc
      have hpart : Whole e (if (lit "~/").isPrefixOf p then home ++ p.drop 1 else p) := by
        split
        · exact whole_append.2 ⟨hhome home rfl, hpw.subset fun c hc => List.mem_of_mem_drop hc⟩
        · exact hpw
      exact whole_append.2 ⟨hpart, whole_of_printable (by decide)⟩ c hc
    · exact hs

end

/-- No entry has a line in its value. -/
def AllWhole (e : Manager) (is : List Entry) : Prop := ∀ i ∈ is, Whole e i.value

section
variable {e : Manager} {is js : List Entry}

theorem allWhole_of_tame (h : AllTame e is) : AllWhole e is := fun i hi => (h i hi).noEnd

theorem allWhole_append : AllWhole e (is ++ js) ↔ AllWhole e is ∧ AllWhole e js := List.forall_mem_append

theorem allWhole_singleton {key value : Bytes} (h : Whole e value) : AllWhole e [.setting key value] :=
  List.forall_mem_singleton.2 h

theorem allWhole_ite {p : Prop} [Decidable p] (his : p → AllWhole e is) (hjs : ¬ p → AllWhole e js) :
    AllWhole e (if p then is else js) := by
  split
  next h => exact his h
  next h => exact hjs h

end

namespace Job

/-- A job without a line in its texts. -/
structure WholeTexts (e : Manager) (j : Job) : Prop where
  line : Whole e j.line
  filename : Whole e j.filename
  user : Whole e j.user
  userHome : ∀ home ∈ j.userHome, Whole e home
  cronLogNamespace : Whole e j.cronLogNamespace
  cronBatchThrottleGroup : Whole e j.cronBatchThrottleGroup
  cronBatchLoadavgBelow : Whole e j.cronBatchLoadavgBelow
  execstart : Whole e j.execstart
  environment : Whole e (environmentWrite j.environment)

section
variable {e : Manager} {cfg : Config} {host : Host} {j : Job}

theorem whole_lineQuote : Whole e j.lineQuote := fun c hc => by
  rw [mem_lineQuote hc]
  exact e.printable _ (by decide) (by decide)

theorem allWhole_unitEntries (h : j.WholeTexts e) : AllWhole e (j.unitEntries (lit "Cron")) := by
  have hdescription : Whole e
      (lit "[" ++ lit "Cron" ++ lit "] " ++ j.lineQuote ++ describeLine j.line ++ j.lineQuote) := by
    simp only [whole_append]
    exact ⟨⟨⟨⟨⟨whole_of_printable (by decide), whole_of_printable (by decide)⟩, whole_of_printable (by decide)⟩,
      whole_lineQuote⟩, h.line.describeLine⟩, whole_lineQuote⟩
  refine allWhole_append.2 ⟨List.forall_mem_cons.2 ⟨hdescription,
    allWhole_singleton (whole_of_printable (by decide))⟩, allWhole_ite (fun _ => nofun) fun _ => ?_⟩
  exact allWhole_singleton h.filename.cstr

theorem allWhole_dependencyEntries (h : j.WholeTexts e) : AllWhole e (j.dependencyEntries cfg) := by
  refine allWhole_ite (fun _ => List.forall_mem_cons.2 ⟨whole_of_printable (by decide), fun i hi => ?_⟩)
    fun _ => nofun
  obtain ⟨home, hhome, rfl⟩ := List.mem_map.1 hi
  exact (h.userHome home (Option.mem_toList.1 hhome)).cstr

theorem allWhole_helperEntries (hcfg : cfg.Legible e) (h : j.WholeTexts e) : AllWhole e (j.helperEntries cfg) := by
  have hpath {path : Bytes} (hp : path.all fun c => 32 ≤ c && c < 127) : Whole e (cfg.libexecdir ++ path) :=
    whole_append.2 ⟨hcfg.libexecdir, whole_of_printable hp⟩
  have hspace : Whole e [SPACE] := whole_of_printable (by decide)
  have hbang : Whole e (lit "!") := whole_of_printable (by decide)
  intro i hi
  obtain ⟨v, hv, rfl⟩ := List.mem_map.1 hi
  change Whole e v
  rw [Option.mem_toList, helperCommand] at hv
  split at hv
  · obtain rfl := Option.some.inj hv
    have hblank : Whole e (if j.cronBatchLoadavgBelow ≠ [] then [SPACE] else []) := by
      split
      · exact hspace
      · exact whole_nil
    simp only [whole_append]
    exact ⟨⟨⟨⟨⟨hbang, hpath (by decide)⟩, hspace⟩, h.cronBatchThrottleGroup.cstr⟩, hblank⟩,
      h.cronBatchLoadavgBelow.cstr⟩
  · split at hv
    · obtain rfl := Option.some.inj hv
      simp only [whole_append]
      exact ⟨⟨⟨hbang, hpath (by decide)⟩, hspace⟩, h.cronBatchLoadavgBelow.cstr⟩
    · cases hv

theorem allWhole_commandEntries (hcfg : cfg.Legible e) (h : j.WholeTexts e) :
    AllWhole e (j.commandEntries cfg host) := by
  have hlevel : AllTame e (levelEntries cfg) :=
    allTame_ite_iff.2 fun _ => allTame_singleton_iff.2 hcfg.USE_LOGLEVELMAX
  have htimeout : AllTame e (j.timeoutEntries cfg host) :=
    allTame_ite_iff.2 fun _ => allTame_singleton_iff.2 (tame_of_isPlain e (by decide))
  have hidle : isPlain (lit "idle") := by decide
  have hbatch : AllTame e j.batchEntries := allTame_ite_iff.2 fun _ =>
    allTame_cons_iff.2 ⟨tame_of_isPlain e hidle, allTame_singleton_iff.2 (tame_of_isPlain e hidle)⟩
  simp only [commandEntries, allWhole_append]
  refine ⟨⟨⟨⟨⟨⟨⟨⟨⟨⟨allWhole_of_tame (allTame_fixedEntries hcfg), ?_⟩, allWhole_of_tame hlevel⟩,
    allWhole_of_tame (allTame_bootDelayEntries hcfg host j)⟩, allWhole_helperEntries hcfg h⟩,
    allWhole_of_tame htimeout⟩, allWhole_singleton h.execstart.cstr⟩,
    allWhole_of_tame (allTame_mailEntries e cfg host j).2⟩, ?_⟩, allWhole_of_tame (allTame_inputEntries e j)⟩,
    allWhole_of_tame hbatch⟩
  · exact allWhole_ite (fun _ => allWhole_singleton h.cronLogNamespace.cstr) fun _ => nofun
  · exact allWhole_ite (fun _ => nofun) fun _ => allWhole_singleton h.environment

theorem allWhole_serviceEntries (hcfg : cfg.Legible e) (h : j.WholeTexts e) :
    AllWhole e (j.serviceUnitEntries cfg host ++ ([] ++ j.logEntry :: .setting (lit "User") (cstr j.user) ::
      j.commandEntries cfg host)) := by
  simp only [serviceUnitEntries, allWhole_append]
  refine ⟨⟨⟨allWhole_unitEntries h, allWhole_of_tame (allTame_mailEntries e cfg host j).1⟩,
    allWhole_dependencyEntries h⟩, List.forall_mem_nil _,
    List.forall_mem_cons.2 ⟨(tame_logEntry h.line.describeLine).noEnd,
      List.forall_mem_cons.2 ⟨h.user.cstr, allWhole_commandEntries hcfg h⟩⟩⟩

/-- The service of a job without lines in its texts is one for the user of the job. -/
theorem service_user (hcfg : cfg.Legible e) (h : j.WholeTexts e)
    (huser : Assignments.continued (cstr j.user) = false) {ss : List Setting}
    (hread : read e (unlines (j.generateService cfg host)) = some ss) :
    ss.filter (fun s => s.part = lit "Service" ∧ s.key = lit "User") =
      [{ part := lit "Service", key := lit "User", value := strip (cstr j.user) }] := by
  obtain ⟨hunit, hservice, -⟩ := named_unit
  have hnew : lit "User" ∉ serviceKeys := by decide
  rw [generateService_eq, unlines_eq_text, serviceEntries] at hread
  exact read_once hunit hservice (by decide) keys_unitKeys keys_serviceKeys
    (keys_user _ List.mem_cons_self) hnew
    (serviceUnitEntries_keyed cfg host j)
    (List.forall_mem_cons.2 ⟨logEntry_keyed j, commandEntries_keyed cfg host j⟩)
    (tame_logEntry h.line.describeLine).closed huser (allWhole_serviceEntries hcfg h) hread

end

end Job

/-! ### What comes out of a crontab -/

/-- A text whose lines all end in newlines. -/
def OnlyNewlines (e : Manager) (content : Bytes) : Prop := ∀ c ∈ content, e.isEnd c → c = LF

theorem Whole.onlyNewlines {e : Manager} {s : Bytes} (h : Whole e s) : OnlyNewlines e s := fun c hc hend => by
  rw [h c hc] at hend
  cases hend

section
variable {e : Manager}

theorem mem_of_mem_crontabLines {content line : Bytes} (h : line ∈ crontabLines content) {c : UInt8}
    (hc : c ∈ line) : c ∈ content := by
  simp only [crontabLines, softTokenise_eq, List.mem_filterMap] at h
  obtain ⟨raw, hraw, h⟩ := h
  split at h
  · cases h
  · cases h
    exact mem_of_mem_tokens hraw ((List.dropWhile_sublist _).subset ((List.rdropWhile_prefix _ _).subset hc))

theorem OnlyNewlines.lines {content : Bytes} (h : OnlyNewlines e content) :
    ∀ line ∈ crontabLines content, Whole e line := by
  intro line hline c hc
  by_contra hend
  refine LF_notMem_crontabLines hline ?_
  rw [← h c (mem_of_mem_crontabLines hline hc) (by simpa using hend)]
  exact hc

theorem whole_dequote {fuel : Nat} {v : Bytes} (h : Whole e v) : Whole e (dequote fuel v) := by
  induction fuel generalizing v with
  | zero => exact h
  | succ fuel ih =>
    rw [dequote]
    split
    · exact ih (h.subset fun c hc => List.mem_of_mem_drop (List.dropLast_sublist _ |>.subset hc))
    · exact h

theorem whole_setting {line k v : Bytes} (h : Whole e line) (hs : setting line = some (k, v)) :
    Whole e k ∧ Whole e v := by
  obtain ⟨⟨key, value⟩, hm, he⟩ := Option.map_eq_some_iff.1 hs
  cases he
  unfold matchEnvvar at hm
  extract_lets name at hm
  split at hm
  next r hr =>
    dsimp only at hm
    split at hm
    · obtain ⟨hname, hvalue⟩ := Prod.mk.inj (Option.some.inj hm)
      rw [← hname, ← hvalue]
      have hrest : ∀ c ∈ EQUALS :: r, c ∈ line := fun c hc =>
        (List.dropWhile_sublist _).subset ((List.dropWhile_sublist _).subset (hr ▸ hc))
      exact ⟨h.subset fun c hc => (List.takeWhile_prefix _).subset hc, whole_dequote <| h.subset fun c hc =>
        hrest c (List.mem_cons_of_mem _ ((List.dropWhile_sublist _).subset hc))⟩
    · cases hm
  · cases hm

theorem whole_lastSetting {lines : List Bytes} (h : ∀ line ∈ lines, Whole e line) {k v : Bytes}
    (hs : lastSetting lines k = some v) : Whole e k ∧ Whole e v := by
  obtain ⟨l, r, hl, -⟩ := List.lookup_eq_some_iff.1 hs
  have hmem : (k, v) ∈ lines.reverse.filterMap setting := hl ▸ by simp
  obtain ⟨line, hline, hset⟩ := List.mem_filterMap.1 hmem
  exact whole_setting (h line (List.mem_reverse.1 hline)) hset

/-- An environment without a line in it. -/
def WholeEnv (e : Manager) (env : Env) : Prop := ∀ k v, env[k]? = some v → Whole e k ∧ Whole e v

theorem WholeEnv.below {env : Env} (henv : WholeEnv e env) (hinherit : env[lit "CRON_INHERIT_VARIABLES"]? = none)
    {lines : List Bytes} (h : ∀ line ∈ lines, Whole e line) : WholeEnv e (environmentBelow env lines) := by
  intro k v hv
  rw [environmentBelow_eq _ _ hinherit, settingInEffect] at hv
  split at hv
  · cases hv
  · cases hl : lastSetting lines k with
    | none =>
      rw [hl] at hv
      exact henv k v hv
    | some w =>
      rw [hl, Option.elim_some, settingValue] at hv
      split at hv
      · cases hv
      · exact Option.some.inj hv ▸ whole_lastSetting h hl

theorem TopOf.wholeEnv {top : List Bytes} {t : Toplevel} (ht : TopOf top t) (h : ∀ line ∈ top, Whole e line) :
    WholeEnv e t.inheritVariables := by
  intro k v hv
  rw [ht.inheritVariables, inheritedValue] at hv
  split at hv
  · rw [finalValue] at hv
    split at hv
    · cases hv
    · obtain ⟨w, hl, hv⟩ := Option.bind_eq_some_iff.1 hv
      rw [settingValue] at hv
      split at hv
      · cases hv
      · exact Option.some.inj hv ▸ whole_lastSetting h hl
  · cases hv

/-- The words of a command are parts of its line, the first one perhaps after a home. -/
theorem whole_hunks {host : Host} {kind : CrontabKind} {environment : Env} {line : Bytes} {rng rng' : Rng} {j : Job}
    (hk : kind.anacrontab = false) (hline : Whole e line)
    (h : parseJob host kind environment line rng = .ok (j, rng')) (hhome : ∀ home ∈ j.userHome, Whole e home) :
    ∀ w ∈ j.command.hunks, Whole e w := by
  obtain ⟨p, hp, -, -, -, hhunks⟩ := parseJob_command h
  have hwords : ∀ w ∈ p.command.command, Whole e w := by
    have htokens : ∀ w ∈ tokens isFieldDelim (commandPart (commandText kind line)), Whole e w := fun w hw =>
      hline.subset fun c hc =>
        mem_of_mem_commandText ((commandPart_isPrefix _).subset (mem_of_mem_tokens hw hc))
    rcases (parseLine_tokens hp hk).2.1 with hc | hc
    · rwa [hc]
    · rw [hc]
      exact List.forall_mem_append.2 ⟨htokens, List.forall_mem_singleton.2 whole_nil⟩
  rw [hhunks]
  cases hcmd : p.command.command with
  | nil => exact nofun
  | cons w ws =>
    rw [hcmd] at hwords
    obtain ⟨hw, hws⟩ := List.forall_mem_cons.1 hwords
    cases hh : j.userHome with
    | none => exact List.forall_mem_cons.2 ⟨hw, hws⟩
    | some home =>
      refine List.forall_mem_cons.2 ⟨?_, hws⟩
      split
      · exact whole_append.2 ⟨hhome home hh, hw.subset fun c hc => List.mem_of_mem_drop hc⟩
      · exact hw

end

namespace Job

/-- The word that a command of one word has. -/
theorem get_mem_hunks {c : Command} (h : c.size = 1) : c.get 0 ∈ c.hunks := by
  rw [Command.hunks_eq]
  obtain ⟨ws, - | w, np⟩ := c
  · obtain ⟨w, rfl⟩ := List.length_eq_one_iff.1 (show ws.length = 1 from h)
    exact List.mem_singleton_self w
  · exact List.mem_cons_self

/-- What `generate_scriptlet` starts: the shell with the scriptlet, or the one word of the command. -/
theorem generateScriptlet_cases (host : Host) (targetDir : Bytes) (j : Job) :
    ∃ home uid gid exec, (j.generateScriptlet host targetDir).1 =
        { j with userHome := home, userUid := uid, userGid := gid, execstart := exec } ∧
      (home = j.userHome ∨ home = (j.pullUser host).userHome) ∧
      ((exec = j.shell ++ [SPACE] ++ (targetDir ++ [SLASH] ++ j.unitName ++ lit ".sh") ∧
          (j.generateScriptlet host targetDir).2 ≠ none) ∨
        (j.command.size = 1 ∧ exec = j.execstart ++ j.unescaped (j.command.get 0) ∧
          (j.generateScriptlet host targetDir).2 = none)) := by
  obtain ⟨home, uid, gid, hp⟩ := j.pullUser_eq host
  unfold generateScriptlet
  rw [hp]
  extract_lets scriptlet wrapped j1 j2
  split
  next hsize =>
    split
    · split
      · exact ⟨_, _, _, _, rfl, .inr rfl, .inr ⟨hsize, rfl, rfl⟩⟩
      · exact ⟨_, _, _, _, rfl, .inr rfl, .inl ⟨rfl, nofun⟩⟩
    · exact ⟨_, _, _, _, rfl, .inr rfl, .inl ⟨rfl, nofun⟩⟩
  · exact ⟨_, _, _, _, rfl, .inl rfl, .inl ⟨rfl, nofun⟩⟩

/-- A home is one that the job has, or that of a user. -/
theorem pullUser_userHome_cases (host : Host) (j : Job) :
    ∀ home ∈ (j.pullUser host).userHome, home ∈ j.userHome ∨ ∃ name, ∃ ent ∈ host.getpwnam name, home = ent.dir := by
  cases h : j.userHome with
  | none => exact fun home hhome => .inr (pullUser_userHome host h home hhome)
  | some home =>
    have hsome : j.userHome.isSome := by rw [h]; rfl
    rw [pullUser, if_pos hsome, h]
    exact fun _ hmem => .inl hmem

end Job

section
variable {e : Manager}

/-- The texts of a user's job are parts of its crontab, and of what the host and the configuration have. -/
theorem IsUserJob.wholeTexts {host : Host} {kind : CrontabKind} {environment : Env} {line targetDir : Bytes}
    {rng rng' : Rng} {j : Job} (htarget : Whole e targetDir)
    (hhomes : ∀ name, ∀ ent ∈ host.getpwnam name, Whole e ent.dir) (hfile : Whole e kind.filename)
    (hk : kind.anacrontab = false) (hline : Whole e line) (henv : WholeEnv e environment)
    (h : parseJob host kind environment line rng = .ok (j, rng')) (hj : IsUserJob host kind environment line j)
    {name : Bytes} (hname : Whole e name) :
    ((({ j with unitName := name } : Job).generateScriptlet host targetDir).1).WholeTexts e := by
  obtain ⟨hbelow, hgroup⟩ := parseJob_batch h
  have hgetD (k dflt : Bytes) (hd : Whole e dflt) : Whole e ((environment[k]?).getD dflt) := by
    cases hv : environment[k]? with
    | none => exact hd
    | some v => exact (henv k v hv).2
  have hhome : ∀ home ∈ j.userHome, Whole e home := fun home hmem => by
    obtain ⟨user, ent, hent, rfl⟩ := hj.userHome home hmem
    exact hhomes user ent hent
  have hbase : Whole e (voreBasename kind.filename) := hfile.subset fun c hc =>
    List.mem_reverse.1 ((List.takeWhile_prefix _).subset (List.mem_reverse.1 hc))
  have hvars : Whole e (environmentWrite j.environment) := whole_environmentWrite fun k v hv => by
    rw [parseJob_environment h, jobVariable] at hv
    split at hv
    · cases hv
    · split at hv
      · obtain ⟨w, hw, rfl⟩ := Option.map_eq_some_iff.1 hv
        exact ⟨(henv k w hw).1, whole_expandedPath hhome (henv k w hw).2⟩
      · exact henv k v hv
  set u : Job := { j with unitName := name } with hu
  obtain ⟨home, uid, gid, exec, heq, hpull, hexec⟩ := u.generateScriptlet_cases host targetDir
  have hwhole : Whole e exec := by
    rcases hexec with ⟨rfl, -⟩ | ⟨hsize, rfl, -⟩
    · have hshell : Whole e j.shell := by
        rw [hj.shell]
        exact hgetD _ _ (whole_of_printable (by decide))
      simp only [whole_append]
      exact ⟨⟨hshell, whole_of_printable (by decide)⟩, ⟨⟨htarget, whole_of_printable (by decide)⟩, hname⟩,
        whole_of_printable (by decide)⟩
    · have hword : Whole e (j.command.get 0) := whole_hunks hk hline h hhome _ (Job.get_mem_hunks hsize)
      refine whole_append.2 ⟨by rw [show u.execstart = [] from hj.execstart]; exact whole_nil, ?_⟩
      rw [Job.unescaped_eq]
      split
      · exact hword
      · exact hword.unescape
  have hown : j.line = line := parseJob_line h
  rw [heq]
  refine ⟨hown ▸ hline, hj.filename ▸ hfile, hj.user ▸ hbase, fun home' hmem => ?_,
    ?_, ?_, ?_, hwhole, hvars⟩
  · rcases hpull with rfl | rfl
    · exact hhome home' hmem
    · rcases Job.pullUser_userHome_cases host u home' hmem with hmem | ⟨user, ent, hent, rfl⟩
      · exact hhome home' hmem
      · exact hhomes user ent hent
  · exact hj.cronLogNamespace ▸ hgetD _ _ whole_nil
  · exact hgroup ▸ hgetD _ _ whole_nil
  · exact hbelow ▸ hgetD _ _ whole_nil

/-- The name of a unit has no line in it. -/
theorem whole_unitName (md5 : Md5) (seq : Nat) {j : Job} (hid : ∀ c ∈ j.jobid, isAsciiAlnum c) :
    ∃ name, (j.generateUnitName md5 seq).1 = { j with unitName := name } ∧ Whole e name := by
  have hunit {w : Bytes} (hw : ∀ c ∈ w, isUnitChar c) : Whole e w := fun c hc => by
    have hall : ∀ c : UInt8, isUnitChar c → 32 ≤ c ∧ c < 127 := by decide +kernel
    obtain ⟨h1, h2⟩ := hall c (hw c hc)
    exact e.printable c h1 h2
  have hstem : Whole e j.stem := by
    simp only [Job.stem, whole_append]
    exact ⟨⟨whole_of_printable (by decide), hunit fun c hc => isUnitChar_of_isAsciiAlnum (hid c hc)⟩,
      whole_of_printable (by decide)⟩
  unfold Job.generateUnitName
  split
  · exact ⟨_, rfl, whole_append.2 ⟨hstem, hunit fun c hc => isUnitChar_of_isDigit (isDigit_of_mem_decimal hc)⟩⟩
  · exact ⟨_, rfl, whole_append.2 ⟨hstem, hunit fun c hc => md5.isUnitChar_hex _ c hc⟩⟩

end

/-! ### Where a unit comes from -/

theorem runPartsJob_filename (host : Host) (top : Toplevel) (s : GenState) (period name : Bytes) (i : Nat) :
    (runPartsJob host top s period name i).filename = lit "/etc/cron." ++ period ++ [SLASH] ++ name := by
  have hmailto (j : Job) : (withFallbackMailto top j).filename = j.filename := by
    obtain ⟨env, he⟩ := withFallbackMailto_eq top j
    rw [he]
  unfold runPartsJob
  extract_lets filename j1 j2 j3
  obtain ⟨_, _, _, _, _, _, _, hd⟩ := Job.decodeCommand_eq host { j2 with jobid := j2.jobid.filter isAsciiAlnum }
  change j3.filename = _
  rw [show j3.filename = _ from hmailto _, (j2.decode host).generateSchedule_scheduled.filename, Job.decode, hd]
  exact (Job.decodeEnvironment_sameLine (j := Job.new filename filename)).filename

theorem parseJob_filename {host : Host} {kind : CrontabKind} {environment : Env} {line : Bytes} {rng rng' : Rng}
    {j : Job} (h : parseJob host kind environment line rng = .ok (j, rng')) : j.filename = kind.filename := by
  obtain ⟨p, hp, rfl⟩ := parseJob_ok h
  obtain ⟨_, _, _, _, _, _, _, hd⟩ := Job.decodeCommand_eq host { p with jobid := p.jobid.filter isAsciiAlnum }
  rw [(p.decode host).generateSchedule_scheduled.filename, Job.decode, hd]
  exact (parseLine_sameSettings hp).filename.trans (newJob_sameLine host kind environment line).filename

theorem parseCrontab_filename {host : Host} {kind : CrontabKind} {environment : Env} {content : Option Bytes}
    {rng : Rng} {r : Crontab} (h : parseCrontab host kind environment content rng = .ok r) :
    ∀ j ∈ r.jobs, j.filename = kind.filename := fun _ hj => by
  obtain ⟨_, -, _, -, _, _, _, -, hp⟩ := mem_jobs_parseCrontab h hj
  exact parseJob_filename hp

/-- The requests of `/etc/crontab` are jobs of it. -/
theorem mem_crontabRequest {jobs : List Job} {s s' : List Job × Std.TreeMap Bytes Nat}
    (h : jobs.foldlM crontabRequest s = .ok s') : ∀ j ∈ s'.1, j ∈ s.1 ∨ j ∈ jobs := by
  induction jobs generalizing s with
  | nil =>
    cases h
    exact fun j hj => .inl hj
  | cons job jobs ih =>
    rw [List.foldlM_cons] at h
    rcases hstep : crontabRequest s job with f | s1
    · rw [hstep] at h; cases h
    rw [hstep] at h
    have hone : ∀ j ∈ s1.1, j ∈ s.1 ∨ j = job := by
      unfold crontabRequest at hstep
      split at hstep
      · cases hstep; exact fun j hj => .inl hj
      split at hstep
      · cases hstep; exact fun j hj => .inl hj
      split at hstep
      · split at hstep
        · cases hstep
        · cases hstep
          split <;> exact fun j hj => .inl hj
      · cases hstep
        exact fun j hj => (List.mem_append.1 hj).imp_right List.mem_singleton.1
    intro j hj
    rcases ih h j hj with hj | hj
    · rcases hone j hj with hj | rfl
      · exact .inl hj
      · exact .inr List.mem_cons_self
    · exact .inr (List.mem_cons_of_mem _ hj)

theorem exists_mem_of_forall₂_right {α β : Type} {R : α → β → Prop} {l : List α} {l' : List (List β)}
    (h : List.Forall₂ (fun a bs => ∀ b ∈ bs, R a b) l l') {b : β} (hb : b ∈ l'.flatten) : ∃ a ∈ l, R a b := by
  obtain ⟨bs, hbs, hb⟩ := List.mem_flatten.1 hb
  obtain ⟨a, ha, hR⟩ := exists_mem_of_forall₂ h hbs
  exact ⟨a, ha, hR b hb⟩

/-- The job of a request. -/
def Request.job : Request → Job
  | .timer j => j
  | .named j => j

/-- A job of the spool, under its file and the variables it inherits. -/
def IsSpoolJob (cfg : Config) (host : Host) (t : Toplevel) (file : Bytes × Bytes) (j : Job) : Prop :=
  ∃ rng r, parseCrontab host (spoolKind cfg t file.1) t.inheritVariables (some file.2) rng = .ok r ∧ j ∈ r.jobs

/-- What is handed on of a file of `/etc/cron.d` is a job of it. -/
theorem cronDRequests_filename {cfg : Config} {host : Host} {top : Toplevel} {file : Bytes × Bytes} {rng rng' : Rng}
    {js : List Job} (h : cronDRequests cfg host top file rng = .ok (js, rng')) :
    ∀ j ∈ js, j.filename = lit "/etc/cron.d/" ++ file.1 := by
  rw [cronDRequests] at h
  split at h
  · cases h
    exact List.forall_mem_nil _
  rcases hp : parseCrontab host (cronDKind top file.1) top.inheritVariables (some file.2) rng with f | c
  · rw [hp] at h; cases h
  rw [hp] at h
  cases h
  intro j hj
  obtain ⟨k, hk, rfl⟩ := List.mem_map.1 hj
  obtain ⟨env, he⟩ := withFallbackMailto_eq top k
  rw [he]
  exact parseCrontab_filename hp k (List.mem_filter.1 hk).1

/-- What is handed on of a file of the spool is a job of it. -/
theorem spoolRequests_isSpoolJob {cfg : Config} {host : Host} {top : Toplevel} {file : Bytes × Bytes}
    {rng rng' : Rng} {js : List Job} (h : spoolRequests cfg host top file rng = .ok (js, rng')) :
    ∀ j ∈ js, IsSpoolJob cfg host top file j := by
  rw [spoolRequests] at h
  split at h
  · cases h
    exact List.forall_mem_nil _
  rcases hp : parseCrontab host (spoolKind cfg top file.1) top.inheritVariables (some file.2) rng with f | c
  · rw [hp] at h; cases h
  rw [hp] at h
  cases h
  exact fun j hj => ⟨rng, c, hp, hj⟩

/-- A request is one of the spool, or its file is below `/etc`. -/
theorem Reads.job_cases {cfg : Config} {host : Host} {sources : Sources} {rng rng' : Rng} {q : Requests}
    {r r' : Crontab} (h : Reads cfg host sources rng q r r' rng') {a : Request} (ha : a ∈ q.list) :
    lit "/etc/" <+: a.job.filename ∨
      ∃ j, a = .timer j ∧ ∃ file ∈ sources.spool.getD [], IsSpoolJob cfg host (toplevelOf host r.preview) file j := by
  simp only [Requests.list, List.mem_append, List.mem_map] at ha
  rcases ha with (((⟨j, hj, rfl⟩ | ⟨j, hj, rfl⟩) | ⟨j, hj, rfl⟩) | ⟨j, hj, rfl⟩) | ⟨j, hj, rfl⟩
  · rcases mem_crontabRequest h.crontab j hj with hj | hj
    · cases hj
    · rw [Request.job, parseCrontab_filename h.parseTop j hj]
      exact .inl (by decide)
  · obtain ⟨_, -, hpre⟩ := exists_mem_of_forall₂_right (R := fun _ j => lit "/etc/" <+: j.filename)
      ((filesRequests_forall₂ h.cronD).imp fun file js hjs j hj => by
        obtain ⟨rng1, rng2, hjs⟩ := hjs
        rw [cronDRequests_filename hjs j hj]
        exact (show lit "/etc/" <+: lit "/etc/cron.d/" by decide).trans (List.prefix_append ..)) hj
    exact .inl hpre
  · refine .inl ?_
    rw [h.runParts, runPartsRequests] at hj
    split at hj
    · cases hj
    obtain ⟨jobs, hjobs, hj⟩ := List.mem_flatten.1 hj
    obtain ⟨p, -, rfl⟩ := List.mem_map.1 hjobs
    obtain ⟨name, -, rfl⟩ := List.mem_map.1 hj
    rw [Request.job, runPartsJob_filename]
    exact (show lit "/etc/" <+: lit "/etc/cron." by decide).trans
      ((List.prefix_append ..).trans ((List.prefix_append ..).trans (List.prefix_append ..)))
  · rw [h.anacrontab] at hj
    rw [Request.job, parseCrontab_filename h.parseAnacrontab j (List.mem_filter.1 hj).1]
    exact .inl (show lit "/etc/" <+: lit "/etc/anacrontab" by decide)
  · refine .inr ⟨j, rfl, ?_⟩
    exact exists_mem_of_forall₂_right ((filesRequests_forall₂ h.spool).imp fun _ _ hjs => by
      obtain ⟨_, _, hjs⟩ := hjs
      exact spoolRequests_isSpoolJob hjs) hj

/-- The service of a job among its files. -/
theorem Job.content_of_service {cfg : Config} {host : Host} {targetDir : Bytes} {u : Job} {f : UnitFile}
    (h : f ∈ u.output cfg host targetDir) (hpath : f.path = targetDir ++ [SLASH] ++ u.unitName ++ lit ".service") :
    f.content = unlines ((u.generateScriptlet host targetDir).1.generateService cfg host) := by
  obtain ⟨⟨home, uid, gid, exec, heq⟩, hscriptlet⟩ := u.generateScriptlet_eq host targetDir
  unfold output at h
  extract_lets r j1 at h
  have hname : j1.unitName = u.unitName := by simp only [j1, r, heq]
  rcases List.mem_append.1 h with h | h
  · split at h
    next p hp =>
      obtain rfl := List.mem_singleton.1 h
      have hsh := (hscriptlet p hp).symm.trans hpath
      exact absurd (List.append_cancel_left hsh) (by decide)
    · cases h
  · rw [hname] at h
    simp only [List.mem_cons, List.not_mem_nil, or_false] at h
    rcases h with rfl | rfl
    · exact absurd (List.append_cancel_left hpath) (by decide)
    · rfl

theorem voreBasename_append {dir name : Bytes} (h : SLASH ∉ name) : voreBasename (dir ++ [SLASH] ++ name) = name := by
  have hall : ∀ c ∈ name.reverse, c != SLASH := fun c hc =>
    bne_iff_ne.2 fun h0 => h (h0 ▸ List.mem_reverse.1 hc)
  rw [voreBasename, List.reverse_append, List.reverse_append, List.takeWhile_append_of_pos hall,
    List.reverse_singleton, List.singleton_append, List.takeWhile_cons_of_neg (by decide), List.append_nil,
    List.reverse_reverse]

/-- A file that is in a directory below another is in it. -/
theorem prefix_of_below {dir name : Bytes} (h : SLASH ∉ name) (hetc : lit "/etc/" <+: dir ++ [SLASH] ++ name) :
    lit "/etc" <+: dir := by
  obtain ⟨t, ht⟩ := hetc
  have hsplit : lit "/etc" ++ SLASH :: t = dir ++ SLASH :: name := by
    rw [List.append_assoc, List.singleton_append] at ht
    exact ht
  rcases List.append_eq_append_iff.1 hsplit with ⟨w, hdir, -⟩ | ⟨w, hetc, hname⟩
  · exact hdir ▸ List.prefix_append ..
  · cases w with
    | nil => rw [hetc, List.append_nil]
    | cons c w => exact absurd (List.cons.inj hname).2 fun h0 => h (h0 ▸ by simp)

/-- A name that a crontab has in the spool, of a user whose name a unit can have. -/
structure IsUserName (e : Manager) (name : Bytes) : Prop where
  tame : Tame e name
  noSlash : SLASH ∉ name
  noNul : NUL ∉ name

/-- The settings of a service that say whom it is run as. -/
def userSettings (ss : List Setting) : List Setting :=
  ss.filter fun s => s.part = lit "Service" ∧ s.key = lit "User"

/-- **Whom the units of a user run as**: in any run, every service that is written for the crontab of a user in the
spool is read to say so once, and to name this user, if it is read at all, whatever the crontab says. For that the
reader takes no octet of it but a newline for the end of a line, and none of `/etc/crontab`, whose variables may be
inherited. -/
theorem user_units (e : Manager) {cfg : Config} {host : Host} {md5 : Md5} {sources : Sources} {rng : Rng}
    {s : GenState} {targetDir name : Bytes} (hcfg : cfg.Legible e) (hdir : Whole e cfg.STATEDIR)
    (hspool : ¬ lit "/etc" <+: cfg.STATEDIR) (htarget : Whole e targetDir)
    (hhomes : ∀ user, ∀ ent ∈ host.getpwnam user, Whole e ent.dir)
    (htop : OnlyNewlines e (sources.crontab.getD [])) (h : realmain cfg host md5 sources rng = .ok s)
    (hname : IsUserName e name)
    (hfile : ∀ content, (name, content) ∈ sources.spool.getD [] → OnlyNewlines e content) :
    ∀ u ∈ s.units, u.filename = cfg.STATEDIR ++ [SLASH] ++ name →
      ∀ f ∈ u.output cfg host targetDir, f.path = targetDir ++ [SLASH] ++ u.unitName ++ lit ".service" →
        ∀ ss, read e f.content = some ss →
          userSettings ss = [{ part := lit "Service", key := lit "User", value := name }] := by
  rw [realmain_eq] at h
  rcases hq : requests cfg host sources rng with f | q
  · rw [hq] at h; cases h
  rw [hq] at h
  cases h
  obtain ⟨r, r', rng', hr⟩ := requests_ok_iff.1 hq
  have ht := toplevelOf_spec hr.parseTop
  intro u hu hfilename f hf hpath ss hread
  rw [units_execute] at hu
  obtain ⟨a, req, b, hsplit, hunit⟩ := mem_unitsAfter.1 hu
  have hreq : req ∈ q.list := hsplit ▸ by simp
  have hsame : u.filename = req.job.filename := by
    cases req with
    | named j =>
      cases hunit
      rfl
    | timer j =>
      obtain ⟨-, rfl⟩ := unitOf_timer_eq_some.1 hunit
      obtain ⟨unitName, he⟩ := j.generateUnitName_eq md5 (counter host j.jobid ([] ++ a))
      rw [he]
      rfl
  rcases hr.job_cases hreq with hetc | ⟨j, rfl, ⟨name', content⟩, hmem, rng1, c, hparse, hj⟩
  · rw [← hsame, hfilename] at hetc
    exact absurd (prefix_of_below hname.noSlash hetc) hspool
  obtain ⟨hlive, rfl⟩ := unitOf_timer_eq_some.1 hunit
  -- The line of the job, and the environment that is in effect there.
  obtain ⟨p, hp, rng3, rng4, hjob⟩ := exists_mem_of_forall₂ (parseCrontab_jobs hparse).1 hj
  obtain rfl : name' = name := by
    rw [hsame, Request.job, parseJob_filename hjob] at hfilename
    exact List.append_cancel_left hfilename
  obtain ⟨-, between, below, hlines, habove⟩ := mem_jobLinesBelow hp
  have hwhole := (hfile content hmem).lines
  rw [Option.getD_some] at hlines
  rw [hlines] at hwhole
  have hinherit : (toplevelOf host r.preview).inheritVariables[lit "CRON_INHERIT_VARIABLES"]? = none := by
    rw [ht.inheritVariables, inheritedValue_inherit]
  have henv : WholeEnv e (environmentBelow (toplevelOf host r.preview).inheritVariables p.1) :=
    (ht.wholeEnv htop.lines).below hinherit fun line hline => hwhole line (by
      rw [habove, List.nil_append] at hline
      exact List.mem_append_left _ hline)
  have hv : j.valid := by
    rw [Job.isLive, Bool.and_eq_true] at hlive
    exact hlive.1
  have huser := parseJob_user rfl rfl hjob hv
  have hwfile : Whole e (cfg.STATEDIR ++ [SLASH] ++ name') := by
    simp only [whole_append]
    exact ⟨⟨hdir, whole_of_printable (by decide)⟩, hname.tame.noEnd⟩
  obtain ⟨unitName, hnamed, hwname⟩ := @whole_unitName e md5 (counter host j.jobid ([] ++ a)) j (parseJob_jobid hjob)
  have htexts := IsUserJob.wholeTexts htarget hhomes hwfile rfl (hwhole p.2 (by simp)) henv hjob huser hwname
  rw [hnamed] at hf hpath
  have howner : (({ j with unitName } : Job).generateScriptlet host targetDir).1.user = name' := by
    obtain ⟨⟨home, uid, gid, exec, heq⟩, -⟩ := ({ j with unitName } : Job).generateScriptlet_eq host targetDir
    rw [heq]
    exact huser.user.trans (voreBasename_append hname.noSlash)
  rw [Job.content_of_service hf hpath] at hread
  have hservice := Job.service_user hcfg htexts (by
    rw [howner, cstr_eq_iff.2 hname.noNul]; exact hname.tame.closed) hread
  rwa [howner, cstr_eq_iff.2 hname.noNul, hname.tame.stripped] at hservice

/-- A host with an empty `/etc/crontab` and the crontab of one user. -/
def spoolOnly (name content : Bytes) : Sources where
  crontab := none
  cronD := []
  runParts _ := []
  anacrontab := none
  spool := some [(name, content)]

/-- Whom the services of such a host are read to run as. -/
def readUsers (e : Manager) (name content : Bytes) : Option (List (Option (List Bytes))) :=
  (realmain {} .bare sampleMd5 (spoolOnly name content) fun _ => 0).toOption.map fun s =>
    s.units.flatMap fun u => ((u.output {} .bare (lit "/run")).filter fun f =>
        f.path = lit "/run" ++ [SLASH] ++ u.unitName ++ lit ".service").map fun f =>
      (read e f.content).map fun ss => (userSettings ss).map (·.value)

theorem user_units_bob : ∃ s, realmain {} .bare sampleMd5 (spoolOnly (lit "bob") (lit "@daily id"))
      (fun _ => 0) = .ok s ∧ s.units.length = 1 ∧
      readUsers systemdManager (lit "bob") (lit "@daily id") = some [some [lit "bob"]] ∧
      ∀ u ∈ s.units, u.filename = lit "/var/spool/cron/bob" →
        ∀ f ∈ u.output {} .bare (lit "/run"), f.path = lit "/run" ++ [SLASH] ++ u.unitName ++ lit ".service" →
          ∀ ss, read systemdManager f.content = some ss →
            userSettings ss = [{ part := lit "Service", key := lit "User", value := lit "bob" }] := by
  have hlength : ((realmain {} .bare sampleMd5 (spoolOnly (lit "bob") (lit "@daily id")) fun _ => 0).toOption.map
      fun s => s.units.length) = some 1 := by decide +kernel
  have hread : readUsers systemdManager (lit "bob") (lit "@daily id") = some [some [lit "bob"]] := by decide +kernel
  cases hrun : realmain {} .bare sampleMd5 (spoolOnly (lit "bob") (lit "@daily id")) fun _ => 0 with
  | error f => rw [hrun] at hlength; cases hlength
  | ok s =>
    rw [hrun] at hlength
    have hbob : IsUserName systemdManager (lit "bob") :=
      ⟨tame_of_isPlain _ (by decide), by decide, by decide⟩
    refine ⟨s, rfl, Option.some.inj hlength, hread, user_units systemdManager Config.legible_default
      (whole_of_printable (by decide)) (by decide) (whole_of_printable (by decide)) nofun
      (fun _ hc => absurd hc List.not_mem_nil) hrun hbob ?_⟩
    rintro content hmem
    obtain ⟨-, rfl⟩ := Prod.mk.inj (List.mem_singleton.1 hmem)
    exact (whole_of_printable (by decide) : Whole systemdManager _).onlyNewlines

/-- A carriage return in a crontab lets its user choose, for a reader that ends lines there. -/
theorem user_units_carriage_return :
    readUsers systemdManager (lit "bob") (lit "A=x\rUser=root\n@daily id") = some [some [lit "bob", lit "root"]] := by
  decide +kernel

end SystemdCron
