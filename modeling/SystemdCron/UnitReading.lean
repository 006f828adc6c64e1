import SystemdCron.UnitSettings

/-!
# Reading the units

When a service manager reads from the files of a job what their lines spell (`units_read_iff`): exactly if every
text that the job puts into a value is one that the syntax of units leaves as it is, and no line is refused
(`Job.Legible`).
-/

namespace SystemdCron

open Bytes UnitSyntax

/-! ### Values -/

/-- A configuration whose texts are read as they are. -/
structure Config.Legible (e : Manager) (cfg : Config) : Prop where
  libexecdir : ∀ c ∈ cfg.libexecdir, e.isEnd c = false
  PAMNAME : Tame e cfg.PAMNAME
  USE_LOGLEVELMAX : Tame e cfg.USE_LOGLEVELMAX

namespace Job

/-- The arguments of the throttling helper. -/
def helperArguments (j : Job) : Bytes :=
  if j.cronBatchThrottleGroup ≠ [] then
    cstr j.cronBatchThrottleGroup ++ (if j.cronBatchLoadavgBelow ≠ [] then [SPACE] else []) ++
      cstr j.cronBatchLoadavgBelow
  else cstr j.cronBatchLoadavgBelow

/-- A job whose texts are read as they are. -/
structure Legible (e : Manager) (cfg : Config) (host : Host) (j : Job) : Prop where
  line : ∀ c ∈ describeLine j.line, e.isEnd c = false
  path : j.line.head? = some SLASH → TameEnd e (describeLine j.line)
  filename : j.filename ≠ lit "-" → Tame e (cstr j.filename)
  user : Tame e (cstr j.user)
  home : j.user ≠ lit "root" ∨ Bytes.contains j.filename cfg.STATEDIR →
    ∀ home ∈ j.userHome, Tame e (cstr home)
  logNamespace : j.cronLogNamespace ≠ [] → Tame e (cstr j.cronLogNamespace)
  helper : j.cronBatchThrottleGroup ≠ [] ∨ j.cronBatchLoadavgBelow ≠ [] → TameEnd e j.helperArguments
  execstart : Tame e (cstr j.execstart)
  environment : j.environment.isEmpty = false → Tame e (environmentWrite j.environment)
  onCalendar : j.schedule ≠ lit "reboot" → Tame e j.onCalendar
  valid : ∀ l ∈ j.generateTimer ++ j.generateService cfg host, l ≠ [] → e.valid l

theorem tame_mailUnit (e : Manager) (j : Job) (b : Bool) :
    Tame e (j.mailUnit (lit "Failure") b) ∧ Tame e (j.mailUnit (lit "Success") b) ∧
      Tame e (lit "-+/usr/bin/systemctl start --no-block " ++ j.mailUnit (lit "Success") b) := by
  unfold mailUnit
  cases b <;> cases j.cronMailFormat <;>
    exact ⟨tame_of_isPlain e (by decide), tame_of_isPlain e (by decide),
      tame_of_isPlain e (by decide)⟩

theorem allTame_mailEntries (e : Manager) (cfg : Config) (host : Host) (j : Job) :
    AllTame e (j.mailEntries cfg host).1 ∧ AllTame e (j.mailEntries cfg host).2 := by
  have hsuccess (b : Bool) : AllTame e [j.successEntry cfg b] ∧ AllTame e (j.shimEntries cfg b) := by
    obtain ⟨-, h1, h2⟩ := tame_mailUnit e j b
    unfold successEntry shimEntries
    split
    · exact ⟨allTame_singleton_iff.2 h1, allTame_nil⟩
    · exact ⟨allTame_singleton_iff.2 h1, allTame_singleton_iff.2 h2⟩
  have hfailure := (tame_mailUnit e j false).1
  unfold mailEntries
  split
  · exact ⟨allTame_nil, allTame_nil⟩
  split
  · exact ⟨allTame_nil, allTame_nil⟩
  cases j.cronMailSuccess with
  | never => exact ⟨allTame_singleton_iff.2 hfailure, allTame_nil⟩
  | always => exact ⟨allTame_cons_iff.2 ⟨hfailure, (hsuccess false).1⟩, (hsuccess false).2⟩
  | nonempty => exact ⟨allTame_cons_iff.2 ⟨hfailure, (hsuccess true).1⟩, (hsuccess true).2⟩

theorem mem_quoteDescription {s : Bytes} {c : UInt8} (h : c ∈ quoteDescription s) : c = BACKSLASH ∨ c ∈ s := by
  obtain ⟨d, hd, hc⟩ := List.mem_flatMap.1 h
  split at hc
  · simp only [List.mem_cons, List.not_mem_nil, or_false] at hc
    rcases hc with rfl | rfl
    · exact .inl rfl
    · exact .inr hd
  · exact .inr (List.mem_singleton.1 hc ▸ hd)

theorem mem_lineQuote {j : Job} {c : UInt8} (h : c ∈ j.lineQuote) : c = DQUOTE := by
  unfold lineQuote at h
  split at h
  · cases h
  · exact List.mem_singleton.1 h

theorem tame_logEntry {e : Manager} {j : Job} (h : ∀ c ∈ describeLine j.line, e.isEnd c = false) :
    Tame e j.logEntry.value := by
  have hquote : lit "\"" = [DQUOTE] := by decide
  have hassoc : j.logEntry.value = lit "CRON_JOB=\"" ++ (quoteDescription j.lineQuote ++
      (quoteDescription (describeLine j.line) ++ quoteDescription j.lineQuote)) ++ [DQUOTE] := by
    rw [← hquote]
    simp only [logEntry, Entry.value, List.append_assoc]
  rw [hassoc, tame_quoted_iff (by decide)
    (isEnd_of_printable e (by decide)) (by decide +kernel)]
  intro c hc
  rw [List.mem_append, List.mem_append] at hc
  rcases hc with hc | hc | hc
  · rcases mem_quoteDescription hc with rfl | hc
    · exact e.printable _ (by decide) (by decide)
    · rw [mem_lineQuote hc]
      exact e.printable _ (by decide) (by decide)
  · rcases mem_quoteDescription hc with rfl | hc
    · exact e.printable _ (by decide) (by decide)
    · exact h c hc
  · rcases mem_quoteDescription hc with rfl | hc
    · exact e.printable _ (by decide) (by decide)
    · rw [mem_lineQuote hc]
      exact e.printable _ (by decide) (by decide)

theorem allTame_unitEntries_iff {e : Manager} {j : Job} {tp : Bytes} (htp : ∀ c ∈ tp, e.isEnd c = false) :
    AllTame e (j.unitEntries tp) ↔ (∀ c ∈ describeLine j.line, e.isEnd c = false) ∧
      (j.line.head? = some SLASH → TameEnd e (describeLine j.line)) ∧
      (j.filename ≠ lit "-" → Tame e (cstr j.filename)) := by
  have hbracket : lit "[" = [LBRACKET] ∧ lit "] " = [RBRACKET, SPACE] := by decide
  have hbracketEnd : ∀ c ∈ [LBRACKET, RBRACKET, SPACE, DQUOTE], e.isEnd c = false :=
    isEnd_of_printable e (by decide)
  have hhead : ∀ c ∈ (LBRACKET :: tp ++ [RBRACKET]), e.isEnd c = false := fun c hc => by
    simp only [List.mem_cons, List.mem_append, List.not_mem_nil, or_false] at hc hbracketEnd
    rcases hc with (rfl | hc) | rfl
    · exact hbracketEnd _ (by simp)
    · exact htp c hc
    · exact hbracketEnd _ (by simp)
  have hwhite : ∀ c ∈ (LBRACKET :: tp ++ [RBRACKET]).head?, ExecLine.isWhitespace c = false := fun c hc => by
    rw [← Option.some.inj hc]
    decide
  have hdescription : Tame e (lit "[" ++ tp ++ lit "] " ++ j.lineQuote ++ describeLine j.line ++ j.lineQuote) ↔
      (∀ c ∈ describeLine j.line, e.isEnd c = false) ∧
      (j.line.head? = some SLASH → TameEnd e (describeLine j.line)) := by
    rw [hbracket.1, hbracket.2, lineQuote]
    split
    next hslash =>
      rw [show [LBRACKET] ++ tp ++ [RBRACKET, SPACE] ++ [] ++ describeLine j.line ++ [] =
        (LBRACKET :: tp ++ [RBRACKET]) ++ SPACE :: describeLine j.line by simp,
        tame_append_iff (by simp) hhead hwhite]
      exact ⟨fun h => ⟨h.noEnd, fun _ => h⟩, fun h => h.2 hslash⟩
    next hslash =>
      have hfront : ∀ c ∈ (LBRACKET :: tp ++ [RBRACKET]) ++ [SPACE, DQUOTE], e.isEnd c = false := fun c hc => by
        rcases List.mem_append.1 hc with hc | hc
        · exact hhead c hc
        · exact hbracketEnd c (by
            simp only [List.mem_cons, List.not_mem_nil, or_false] at hc ⊢
            exact .inr (.inr hc))
      rw [show [LBRACKET] ++ tp ++ [RBRACKET, SPACE] ++ [DQUOTE] ++ describeLine j.line ++ [DQUOTE] =
        ((LBRACKET :: tp ++ [RBRACKET]) ++ [SPACE, DQUOTE]) ++ describeLine j.line ++ [DQUOTE] by simp,
        tame_quoted_iff (by simp) hfront fun c hc => hwhite c hc]
      exact (and_iff_left fun h => absurd h hslash).symm
  rw [unitEntries, allTame_append_iff, allTame_cons_iff, allTame_singleton_iff, allTame_ite_not_iff,
    allTame_singleton_iff, hdescription, and_iff_left (tame_of_isPlain e (by decide)), and_assoc]

theorem allTame_fixedEntries {e : Manager} {cfg : Config} (hcfg : cfg.Legible e) : AllTame e (fixedEntries cfg) := by
  refine List.forall_mem_cons.2 ⟨?_, ?_⟩
  · split
    · exact hcfg.PAMNAME
    · exact tame_of_isPlain e (by decide)
  · have hall : ∀ i ∈ [Entry.setting (lit "WorkingDirectory") (lit "-~"), .setting (lit "Type") (lit "oneshot"),
        .setting (lit "IgnoreSIGPIPE") (lit "false"), .setting (lit "SyslogFacility") (lit "cron")],
        isPlain i.value := by decide
    exact fun i hi => tame_of_isPlain e (hall i hi)

theorem isDigit_spec {c : UInt8} (h : isDigit c) : 32 < c ∧ c < 127 ∧ c ≠ BACKSLASH := by
  revert h
  revert c
  decide +kernel

theorem tameEnd_decimal (e : Manager) (n : Nat) : TameEnd e (decimal n) := by
  have htame : Tame e (decimal n) := tame_of_solid e fun c hc => isDigit_spec (isDigit_of_mem_decimal hc)
  obtain ⟨w, c, hw⟩ := (List.eq_nil_or_concat' (decimal n)).resolve_left (decimal_ne_nil n)
  refine ⟨htame.noEnd, htame.closed, w, c, hw, (strip_eq_iff.1 htame.stripped).2 c ?_⟩
  rw [hw]
  exact List.getLast?_concat ..

/-- The path of a helper after its prefix character. -/
theorem noEnd_helperPath {e : Manager} {cfg : Config} (hcfg : cfg.Legible e) {c : UInt8} {path : Bytes}
    (hc : 32 ≤ c ∧ c < 127) (hpath : path.all fun c => 32 ≤ c && c < 127) :
    ∀ d ∈ c :: (cfg.libexecdir ++ path), e.isEnd d = false := by
  intro d hd
  rcases List.mem_cons.1 hd with rfl | hd
  · exact e.printable _ hc.1 hc.2
  · exact (List.mem_append.1 hd).elim (hcfg.libexecdir d) (isEnd_of_printable e hpath d)

theorem allTame_bootDelayEntries {e : Manager} {cfg : Config} (hcfg : cfg.Legible e) (host : Host) (j : Job) :
    AllTame e (j.bootDelayEntries cfg host) := by
  have hdash : lit "-" = [DASH] := by decide
  refine allTame_ite_iff.2 fun _ => allTame_singleton_iff.2 ?_
  rw [hdash, List.append_assoc]
  refine (tame_append_iff (List.cons_ne_nil _ _) ?_ fun c hc => ?_).2 (tameEnd_decimal e _)
  · exact noEnd_helperPath hcfg (by decide) (by decide)
  · rw [← Option.some.inj hc]
    decide

theorem allTame_helperEntries_iff {e : Manager} {cfg : Config} (hcfg : cfg.Legible e) (j : Job) :
    AllTame e (j.helperEntries cfg) ↔
      (j.cronBatchThrottleGroup ≠ [] ∨ j.cronBatchLoadavgBelow ≠ [] → TameEnd e j.helperArguments) := by
  have hbang : lit "!" = [BANG] := by decide
  have hvalue {path : Bytes} (hpath : path.all fun c => 32 ≤ c && c < 127) (v : Bytes) :
      Tame e (BANG :: (cfg.libexecdir ++ path) ++ SPACE :: v) ↔ TameEnd e v := by
    refine tame_append_iff (List.cons_ne_nil _ _) ?_ fun c hc => ?_
    · exact noEnd_helperPath hcfg (by decide) hpath
    · rw [← Option.some.inj hc]
      decide
  unfold helperEntries helperCommand helperArguments
  by_cases hgroup : j.cronBatchThrottleGroup ≠ []
  · rw [if_pos hgroup, if_pos hgroup, forall_prop_of_true (.inl hgroup), hbang]
    refine Iff.trans ?_ (@hvalue (lit "/systemd-cron/throttle_group") (by decide) _)
    refine allTame_singleton_iff.trans (iff_of_eq (congrArg (Tame e) ?_))
    simp only [Config.THROTTLE_GROUP, List.append_assoc, List.cons_append, List.nil_append]
  · rw [if_neg hgroup, if_neg hgroup]
    by_cases hload : j.cronBatchLoadavgBelow ≠ []
    · rw [if_pos hload, forall_prop_of_true (.inr hload), hbang]
      refine Iff.trans ?_ (@hvalue (lit "/systemd-cron/loadavg_dam") (by decide) _)
      refine allTame_singleton_iff.trans (iff_of_eq (congrArg (Tame e) ?_))
      simp only [Config.LOADAVG_DAM, List.append_assoc, List.cons_append, List.nil_append]
    · rw [if_neg hload]
      exact iff_of_true allTame_nil fun h => (h.elim hgroup hload).elim

/-- What the writer of base64 writes is solid. -/
theorem allTame_inputEntries (e : Manager) (j : Job) : AllTame e j.inputEntries := by
  refine allTame_ite_not_iff.2 fun _ => allTame_cons_iff.2 ⟨tame_of_isPlain e (by decide), ?_⟩
  refine allTame_singleton_iff.2 (tame_of_solid e fun c hc => ?_)
  rw [B64.finish_foldl_feed] at hc
  have halphabet : ∀ d : Fin 64, 32 < B64.alphabet.getD d 0 ∧ B64.alphabet.getD d 0 < 127 ∧
      B64.alphabet.getD d 0 ≠ BACKSLASH := by decide +kernel
  rcases List.mem_append.1 hc with hc | hc
  · obtain ⟨d, hd, rfl⟩ := List.mem_map.1 hc
    exact halphabet ⟨d, Base64.digit_lt d hd⟩
  · have hpadding := (Base64.padding_spec j.inputChunks.flatten).1
    have hequals : ∀ p ∈ [[], [EQUALS], [EQUALS, EQUALS]], ∀ c ∈ p, c = EQUALS := by simp
    rw [hequals _ hpadding c hc]
    decide

theorem allTame_commandEntries_iff {e : Manager} {cfg : Config} (hcfg : cfg.Legible e) (host : Host) (j : Job) :
    AllTame e (j.commandEntries cfg host) ↔
      (j.cronLogNamespace ≠ [] → Tame e (cstr j.cronLogNamespace)) ∧
      (j.cronBatchThrottleGroup ≠ [] ∨ j.cronBatchLoadavgBelow ≠ [] → TameEnd e j.helperArguments) ∧
      Tame e (cstr j.execstart) ∧
      (j.environment.isEmpty = false → Tame e (environmentWrite j.environment)) := by
  have hfixed := iff_true_intro (allTame_fixedEntries hcfg)
  have hlevel : AllTame e (levelEntries cfg) ↔ True :=
    iff_true_intro (allTame_ite_iff.2 fun _ => allTame_singleton_iff.2 hcfg.USE_LOGLEVELMAX)
  have hboot := iff_true_intro (allTame_bootDelayEntries hcfg host j)
  have htimeout : AllTame e (j.timeoutEntries cfg host) ↔ True :=
    iff_true_intro (allTame_ite_iff.2 fun _ => allTame_singleton_iff.2 (tame_of_isPlain e (by decide)))
  have hshim := iff_true_intro (allTame_mailEntries e cfg host j).2
  have hinput := iff_true_intro (allTame_inputEntries e j)
  have hidle : isPlain (lit "idle") := by decide
  have hbatch : AllTame e j.batchEntries ↔ True := iff_true_intro <| allTame_ite_iff.2 fun _ =>
    allTame_cons_iff.2 ⟨tame_of_isPlain e hidle, allTame_singleton_iff.2 (tame_of_isPlain e hidle)⟩
  unfold commandEntries namespaceEntries environmentEntries
  simp only [allTame_append_iff, allTame_ite_iff, allTame_ite_not_iff, allTame_singleton_iff,
    allTame_helperEntries_iff hcfg, hfixed, hlevel, hboot, htimeout, hshim, hinput, hbatch, true_and, and_true,
    and_assoc, Bool.not_eq_true]

theorem allTame_dependencyEntries_iff (e : Manager) (cfg : Config) (j : Job) :
    AllTame e (j.dependencyEntries cfg) ↔
      (j.user ≠ lit "root" ∨ Bytes.contains j.filename cfg.STATEDIR → ∀ home ∈ j.userHome, Tame e (cstr home)) := by
  refine allTame_ite_iff.trans (imp_congr_right fun _ => ?_)
  rw [allTame_cons_iff, and_iff_right (tame_of_isPlain e (by decide))]
  cases j.userHome with
  | none => exact iff_of_true allTame_nil fun home hhome => by cases hhome
  | some home => exact allTame_singleton_iff.trans (by simp)

theorem allTame_triggerEntries_iff (e : Manager) (j : Job) :
    AllTame e (j.triggerEntry :: (j.randomDelayEntries ++ j.persistentEntries)) ↔
      (j.schedule ≠ lit "reboot" → Tame e j.onCalendar) := by
  have hminutes (n : Nat) : Tame e (decimal n ++ lit "m") := tame_of_solid e fun c hc => by
    rcases List.mem_append.1 hc with hc | hc
    · exact isDigit_spec (isDigit_of_mem_decimal hc)
    · have hm : ∀ c ∈ lit "m", 32 < c ∧ c < 127 ∧ c ≠ BACKSLASH := by decide +kernel
      exact hm c hc
  have hdelay : AllTame e j.randomDelayEntries :=
    allTame_ite_iff.2 fun _ => allTame_singleton_iff.2 (hminutes _)
  have hpersistent : AllTame e j.persistentEntries :=
    allTame_ite_iff.2 fun _ => allTame_singleton_iff.2 (tame_of_isPlain e (by decide))
  refine List.forall_mem_cons.trans ((and_iff_left (allTame_append_iff.2 ⟨hdelay, hpersistent⟩)).trans ?_)
  unfold triggerEntry
  split
  next h => exact iff_of_true (hminutes _) fun hne => absurd h hne
  next h => exact ⟨fun ht _ => ht, fun ht => ht h⟩

/-! ### The law -/

theorem named_sections {part : Bytes} (hpart : (Entry.header part).Named) {keys : List Bytes} (hkeys : Keys keys)
    {is js : List Entry} (his : ∀ i ∈ is, i.Keyed unitKeys) (hjs : ∀ j ∈ js, j.Keyed keys) :
    ∀ i ∈ is ++ .blank :: .header part :: js, i.Named :=
  List.forall_mem_append.2 ⟨fun i hi => (his i hi).named keys_unitKeys,
    List.forall_mem_cons.2 ⟨trivial, List.forall_mem_cons.2 ⟨hpart, fun i hi => (hjs i hi).named hkeys⟩⟩⟩

theorem allTame_sections_iff {e : Manager} {part : Bytes} {is js : List Entry} :
    AllTame e (is ++ .blank :: .header part :: js) ↔ AllTame e is ∧ AllTame e js :=
  allTame_append_iff.trans <| and_congr_right fun _ =>
    ⟨fun h => (List.forall_mem_cons.1 (List.forall_mem_cons.1 h).2).2,
      fun h => List.forall_mem_cons.2 ⟨tame_nil e, List.forall_mem_cons.2 ⟨tame_nil e, h⟩⟩⟩

/-- The names of the second section of a service. -/
theorem keys_user : Keys (lit "User" :: serviceKeys) :=
  List.forall_mem_cons.2 ⟨@keys_of_all [lit "User"] (by decide) _ (List.mem_singleton_self _),
    keys_serviceKeys⟩

theorem logEntry_keyed (j : Job) : j.logEntry.Keyed serviceKeys := by
  change lit "LogExtraFields" ∈ serviceKeys
  simp [serviceKeys]

theorem ownEntries_keyed (cfg : Config) (host : Host) (j : Job) :
    ∀ i ∈ [] ++ j.logEntry :: .setting (lit "User") (cstr j.user) :: j.commandEntries cfg host,
      i.Keyed (lit "User" :: serviceKeys) := by
  have hmono {i : Entry} (h : i.Keyed serviceKeys) : i.Keyed (lit "User" :: serviceKeys) := by
    cases i with
    | header part => exact h
    | setting key value => exact List.mem_cons_of_mem _ h
    | blank => trivial
  exact List.forall_mem_cons.2 ⟨hmono (logEntry_keyed j), List.forall_mem_cons.2 ⟨List.mem_cons_self,
    fun i hi => hmono (commandEntries_keyed cfg host j i hi)⟩⟩

theorem named_unit : (Entry.header (lit "Unit")).Named ∧ (Entry.header (lit "Service")).Named ∧
    (Entry.header (lit "Timer")).Named := by
  have hall : ∀ w ∈ [lit "Unit", lit "Service", lit "Timer"], w.all isAlnum := by decide
  exact ⟨List.all_eq_true.1 (hall _ (by simp)), List.all_eq_true.1 (hall _ (by simp)),
    List.all_eq_true.1 (hall _ (by simp))⟩

/-- **The files of a job are read as they stand** exactly if its texts are legible. -/
theorem units_read_iff (e : Manager) {cfg : Config} (hcfg : cfg.Legible e) (host : Host) (j : Job) :
    (read e (unlines j.generateTimer) = some (spelled [] j.generateTimer) ∧
      read e (unlines (j.generateService cfg host)) = some (spelled [] (j.generateService cfg host))) ↔
    j.Legible e cfg host := by
  obtain ⟨hunit, hservice, htimer⟩ := named_unit
  have hcron : ∀ c ∈ lit "Cron", e.isEnd c = false := isEnd_of_printable e (by decide)
  have htimerEnd : ∀ c ∈ lit "Timer", e.isEnd c = false := isEnd_of_printable e (by decide)
  have hpartOf : AllTame e [.setting (lit "PartOf") (lit "cron.target")] :=
    allTame_singleton_iff.2 (tame_of_isPlain e (by decide))
  have hread {part : Bytes} {is : List Entry} {ls : List Bytes} (hpart : (Entry.header part).Named)
      (his : ∀ i ∈ is, i.Named) (hls : ls = (Entry.header part :: is).map Entry.line) :
      read e (unlines ls) = some (spelled [] ls) ↔ AllTame e is ∧ ∀ l ∈ ls, l ≠ [] → e.valid l := by
    rw [hls, unlines_eq_text, spelled_map_line (List.forall_mem_cons.2 ⟨hpart, his⟩), List.forall_mem_map]
    exact read_iff e hpart his
  rw [hread hunit (named_sections htimer keys_timerKeys (timerUnitEntries_keyed j) (triggerEntries_keyed j))
      j.generateTimer_eq,
    hread hunit (named_sections hservice keys_user (serviceUnitEntries_keyed cfg host j)
      (ownEntries_keyed cfg host j)) (j.generateService_eq cfg host),
    allTame_sections_iff, allTame_sections_iff, timerUnitEntries, serviceUnitEntries,
    allTame_append_iff, allTame_append_iff, allTame_append_iff, allTame_unitEntries_iff htimerEnd,
    allTame_unitEntries_iff hcron, and_iff_left hpartOf, and_iff_left (allTame_mailEntries e cfg host j).1,
    allTame_dependencyEntries_iff, allTame_triggerEntries_iff, List.nil_append]
  constructor
  · rintro ⟨⟨⟨⟨hline, hpath, hfile⟩, htrigger⟩, hvalidTimer⟩, ⟨⟨-, hhome⟩, hown⟩, hvalidService⟩
    obtain ⟨-, hown⟩ := List.forall_mem_cons.1 hown
    obtain ⟨huser, hcommand⟩ := allTame_cons_iff.1 hown
    obtain ⟨hnamespace, hhelper, hexec, henv⟩ := (allTame_commandEntries_iff hcfg host j).1 hcommand
    exact ⟨hline, hpath, hfile, huser, hhome, hnamespace, hhelper, hexec, henv, htrigger,
      List.forall_mem_append.2 ⟨hvalidTimer, hvalidService⟩⟩
  · intro h
    obtain ⟨hvalidTimer, hvalidService⟩ := List.forall_mem_append.1 h.valid
    exact ⟨⟨⟨⟨h.line, h.path, h.filename⟩, h.onCalendar⟩, hvalidTimer⟩, ⟨⟨⟨h.line, h.path, h.filename⟩, h.home⟩,
      List.forall_mem_cons.2 ⟨tame_logEntry h.line, allTame_cons_iff.2 ⟨h.user,
        (allTame_commandEntries_iff hcfg host j).2 ⟨h.logNamespace, h.helper, h.execstart, h.environment⟩⟩⟩⟩,
      hvalidService⟩

end Job

/-- A reader for which a carriage return and a NUL end a line too, and which refuses a line that is longer than a
mebibyte or is no UTF-8. -/
def systemdManager : Manager where
  isEnd c := c == LF || c == CR || c == NUL
  newline := rfl
  printable := by decide +kernel
  valid l := l.length ≤ 1048576 && ByteArray.validateUTF8 ⟨l.toArray⟩

theorem Config.legible_default : Config.Legible systemdManager {} :=
  ⟨isEnd_of_printable _ (by decide), tame_nil _, tame_of_isPlain _ (by decide)⟩

/-- A job whose log namespace ends in a backslash. -/
def backslashJob : Job :=
  (systemJobs (lit "CRON_LOG_NAMESPACE=a\\\n* * * * * root true")).get ⟨0, by decide⟩

/-- The command of the job goes into its log namespace. -/
theorem units_read_iff_backslash :
    ¬ (read systemdManager (unlines backslashJob.generateTimer) = some (spelled [] backslashJob.generateTimer) ∧
      read systemdManager (unlines (backslashJob.generateService {} .bare)) =
        some (spelled [] (backslashJob.generateService {} .bare))) := by
  have hnamespace : backslashJob.cronLogNamespace = lit "a\\" := by decide
  have hopen : Assignments.continued (cstr (lit "a\\")) = true := by decide
  rw [Job.units_read_iff systemdManager Config.legible_default]
  intro h
  have hclosed := (h.logNamespace (by rw [hnamespace]; decide)).closed
  rw [hnamespace, hopen] at hclosed
  cases hclosed

end SystemdCron
