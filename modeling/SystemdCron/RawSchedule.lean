import SystemdCron.FieldItems
import SystemdCron.Generator
import SystemdCron.Render

/-!
# The raw schedule

The hash in the name of a persistent unit is made of `schedule_raw`, which `generate_schedule_from_timespec`
builds beside the schedule with the text of every field that uses `~` in place of the values drawn. Two
parses of a line with different draws then differ in nothing that goes into the hash
(`parseJob_sameHash`), and without a `~` the two schedules are the same (`scheduleRaw_eq_schedule`).
-/

namespace SystemdCron

open Bytes

/-! ### One field -/

section
variable {T : Type} [Ord T]

/-- Two parses of a field that differ in the draws: what is noted for the hash is the same, and if
nothing is noted then the values are. -/
structure SameField (persistent : Bool) (value : Bytes) (u u' : TimeUnit T) : Prop where
  error : u'.error.isNone = u.error.isNone
  raw : Job.fieldRaw persistent value u' = Job.fieldRaw persistent value u
  empty : u'.set.isEmpty = u.set.isEmpty
  values : persistent → Job.fieldRaw persistent value u = none → ∀ x, x ∈ u'.set ↔ x ∈ u.set

variable [Std.TransOrd T] [Std.LawfulEqOrd T] {F : TimeField T}

/-- The values of an accepted field without draws do not depend on them. -/
theorem mem_set_of_not_hasDraws (hF : F.Table) {value : Bytes} (hacc : F.accepts value)
    (hdraws : F.hasDraws value = false) {rng rng' : Rng} {u u' : TimeUnit T}
    (h : parseTimeUnit F value rng = .ok u) (h' : parseTimeUnit F value rng' = .ok u') (x : T) :
    x ∈ u'.set ↔ x ∈ u.set := by
  unfold parseTimeUnit at h h'
  by_cases hv : value = [STAR]
  · rw [if_pos hv] at h h'
    cases h
    cases h'
    rfl
  · rw [if_neg hv] at h h'
    have hplain : ∀ t ∈ softTokenise (· == COMMA) value, F.Plain t := by
      intro t ht
      obtain ⟨it, hit, hruns⟩ := acceptsItem_iff.1 (acceptsItem_of_accepts hacc t ht)
      refine ⟨it, hit, hruns, ?_⟩
      have hany : (softTokenise (· == COMMA) value).any F.draws = false := by
        simpa [TimeField.hasDraws, hv] using hdraws
      have := List.any_eq_false.1 hany t ht
      simpa [TimeField.draws, hit] using this
    obtain ⟨out, hout, hmem⟩ := parseItems_plain hF hplain {} false rng
    obtain ⟨out', hout', hmem'⟩ := parseItems_plain hF hplain {} false rng'
    rw [hout] at h
    rw [hout'] at h'
    cases h
    cases h'
    exact (hmem' x).trans (hmem x).symm

theorem parseTimeUnit_same (hF : F.Table) (persistent : Bool) {value : Bytes} {rng rng' : Rng}
    {u u' : TimeUnit T} (h : parseTimeUnit F value rng = .ok u)
    (h' : parseTimeUnit F value rng' = .ok u') : SameField persistent value u u' := by
  cases hacc : F.accepts value with
  | false =>
    obtain ⟨he, hs⟩ := parseTimeUnit_refused hF h hacc
    obtain ⟨he', hs'⟩ := parseTimeUnit_refused hF h' hacc
    refine ⟨?_, ?_, by rw [hs, hs'], fun _ _ x => by rw [hs, hs']⟩
    · rw [Option.isNone_eq_false_iff.2 (Option.isSome_iff_ne_none.2 he'),
        Option.isNone_eq_false_iff.2 (Option.isSome_iff_ne_none.2 he)]
    · rw [Job.fieldRaw, Job.fieldRaw, if_neg fun h => he' h.1, if_neg fun h => he h.1]
  | true =>
    obtain ⟨v, hv, he, hraw, hempty⟩ := parseTimeUnit_accepted hF hacc rng
    obtain ⟨v', hv', he', hraw', hempty'⟩ := parseTimeUnit_accepted hF hacc rng'
    rw [h] at hv
    rw [h'] at hv'
    cases hv
    cases hv'
    refine ⟨by rw [he, he'], by simp only [Job.fieldRaw, he, he', hraw, hraw'], ?_, fun hp hn => ?_⟩
    · exact Bool.eq_iff_iff.2 (hempty'.trans hempty.symm)
    · have hdraws : F.hasDraws value = false := by
        simpa [Job.fieldRaw, he, hraw, hp] using hn
      exact mem_set_of_not_hasDraws hF hacc hdraws h h'

/-- The range of an item is a part of the item. -/
theorem splitStep_range {value range : Bytes} {step : Nat} (h : splitStep value = .ok (range, step)) :
    ∀ c ∈ range, c ∈ value := by
  unfold splitStep at h
  split at h
  · cases h
    exact fun _ hc => hc
  next hs =>
    obtain ⟨rfl, -⟩ := splitFirst_eq_some.1 hs
    split at h
    · cases h
    · extract_lets r at h
      split at h
      · cases h
      · cases h
        exact fun _ hc => List.mem_append_left _ hc

theorem isDraw_spanItem {T : Type} {F : TimeField T} {start stop : Bytes} {step : Nat} {it : Item}
    (h : F.spanItem start stop step = .ok it) : it.isDraw = false := by
  unfold TimeField.spanItem at h
  extract_lets s e at h
  split at h
  · cases h
  · split at h
    · cases h; rfl
    · cases h

/-- Only an item with a `~` draws. -/
theorem draws_of_tilde_notMem {T : Type} (F : TimeField T) {value : Bytes} (ht : TILDE ∉ value) :
    F.draws value = false := by
  unfold TimeField.draws TimeField.item
  cases hs : splitStep value with
  | error e => rfl
  | ok r =>
    obtain ⟨range, step⟩ := r
    dsimp only
    rw [splitFirst_eq_none.2 fun hc => ht (splitStep_range hs _ hc)]
    split_ifs
    · rfl
    · cases splitRange range with
      | error e => rfl
      | ok p =>
        dsimp only
        cases hspan : F.spanItem p.1 p.2 step with
        | error e => rfl
        | ok it => exact isDraw_spanItem hspan

/-- A field without `~` is not noted. -/
theorem fieldRaw_of_tilde_notMem (hF : F.Table) (persistent : Bool) {value : Bytes} (ht : TILDE ∉ value)
    {rng : Rng} {u : TimeUnit T} (h : parseTimeUnit F value rng = .ok u) :
    Job.fieldRaw persistent value u = none := by
  refine if_neg ?_
  rintro ⟨he, hraw, -⟩
  obtain ⟨v, hv, -, hraw', -⟩ :=
    parseTimeUnit_accepted hF ((accepts_iff hF value rng).2 ⟨u, h, he⟩) rng
  rw [h] at hv
  cases hv
  rw [hraw', TimeField.hasDraws, Bool.and_eq_true, List.any_eq_true] at hraw
  obtain ⟨-, t, htok, hdraw⟩ := hraw
  have htilde : TILDE ∉ t := fun hc => ht (mem_of_mem_tokens (softTokenise_eq _ _ ▸ htok) hc)
  rw [draws_of_tilde_notMem F htilde] at hdraw
  cases hdraw

theorem SameField.toList_eq {persistent : Bool} {value : Bytes} {u u' : TimeUnit T}
    (h : SameField persistent value u u') (hp : persistent) (hn : Job.fieldRaw persistent value u = none) :
    u'.set.toList = u.set.toList :=
  Std.TreeSet.Equiv.toList_eq (.of_forall_mem_iff (h.values hp hn))

end

/-! ### The text for the hash -/

/-- The text that goes into the hash of a persistent job: the texts that are noted, and the values of
the other fields. -/
def Job.rawText (j : Job) : Bytes :=
  (j.timespecDowRaw.getD (j.timespecDows) ++ lit "*-") ++
    j.timespecMonthRaw.getD (timespecComma j.timespecMonth) ++
    (if j.lastDow || j.lastDom then [TILDE] else [DASH]) ++
    j.timespecDomRaw.getD (timespecComma j.timespecDom) ++ (if j.lastDow then lit "/1" else []) ++
    [SPACE] ++ j.timespecHourRaw.getD (timespecComma j.timespecHour) ++ [COLON] ++
    j.timespecMinuteRaw.getD (timespecComma j.timespecMinute) ++ lit ":00"

theorem Job.generateScheduleFromTimespec_scheduleRaw (p : Job) :
    p.generateScheduleFromTimespec.scheduleRaw =
      if p.persistent ∧ p.generateScheduleFromTimespec.lacksValues = false then
        p.generateScheduleFromTimespec.rawText
      else p.scheduleRaw := by
  unfold generateScheduleFromTimespec
  extract_lets q dows month dom hour minute sep step schedule dowsRaw scheduleRaw
  by_cases hl : q.lacksValues
  · rw [if_pos hl, if_neg fun h => Bool.false_ne_true (h.2.symm.trans hl)]
  · rw [if_neg hl]
    have hdows : dowsRaw = q.timespecDowRaw.getD q.timespecDows ++ lit "*-" := by
      simp only [dowsRaw, dows]
      cases q.timespecDowRaw <;> rfl
    change (if p.persistent then scheduleRaw else p.scheduleRaw) = _
    by_cases hp : p.persistent
    · refine Eq.trans ?_ (if_pos ⟨hp, Bool.eq_false_iff.2 hl⟩).symm
      rw [if_pos hp]
      simp only [scheduleRaw, hdows]
      rfl
    · exact (if_neg hp).trans (if_neg fun h => hp h.1).symm

/-! ### Two parses of one line -/

/-- Two parses of the five fields of a line. -/
structure SameFields (parts : List Bytes) (j j' : Job) (m h d n m' h' d' n' : TimeUnit Nat)
    (w w' : TimeUnit Bytes) : Prop where
  lastDom : j'.lastDom = j.lastDom
  lastDow : j'.lastDow = j.lastDow
  sundayIsSeven : j'.sundayIsSeven = j.sundayIsSeven
  minute : SameField j.persistent (parts.getD 0 []) m m'
  hour : SameField j.persistent (parts.getD 1 []) h h'
  day : SameField j.persistent (if j.lastDom then lit "1" else if j.lastDow then lit "7/1"
    else parts.getD 2 []) d d'
  dow : SameField j.persistent (if !j.lastDom && j.lastDow then (parts.getD 4 []).take 1
    else parts.getD 4 []) w w'
  month : SameField j.persistent (parts.getD 3 []) n n'

section
variable {parts : List Bytes} {rng rng' : Rng} {j j' : Job} {m h d n m' h' d' n' : TimeUnit Nat}
  {w w' : TimeUnit Bytes}

theorem ParsedFields.same (hj : ParsedFields parts rng j m h d n w)
    (hj' : ParsedFields parts rng' j' m' h' d' n' w') :
    SameFields parts j j' m h d n m' h' d' n' w w' := by
  have hdom : j'.lastDom = j.lastDom := hj'.lastDom.trans hj.lastDom.symm
  have hdow : j'.lastDow = j.lastDow := hj'.lastDow.trans hj.lastDow.symm
  have hday' := hj'.day
  have hdow' := hj'.dow
  rw [hdom, hdow] at hday' hdow'
  exact {
    lastDom := hdom
    lastDow := hdow
    sundayIsSeven := by rw [hj'.sundayIsSeven, hj.sundayIsSeven, hdom, hdow]
    minute := parseTimeUnit_same minuteField_table _ hj.minute hj'.minute
    hour := parseTimeUnit_same hourField_table _ hj.hour hj'.hour
    day := parseTimeUnit_same dayField_table _ hj.day hday'
    dow := parseTimeUnit_same dowField_table _ hj.dow hdow'
    month := parseTimeUnit_same monthField_table _ hj.month hj'.month }

theorem isEmpty_of_toList {T : Type} [Ord T] {s t : Std.TreeSet T} (h : s.toList = t.toList) :
    s.isEmpty = t.isEmpty := by
  rw [← Std.TreeSet.isEmpty_toList, ← Std.TreeSet.isEmpty_toList, h]

theorem SameFields.lacksValues (hs : SameFields parts j j' m h d n m' h' d' n' w w')
    (hj : ParsedFields parts rng j m h d n w) (hj' : ParsedFields parts rng' j' m' h' d' n' w') :
    j'.lacksValues = j.lacksValues := by
  simp only [Job.lacksValues, hj.timespecMinute, hj'.timespecMinute, hj.timespecHour, hj'.timespecHour,
    isEmpty_of_toList hj.timespecDom, isEmpty_of_toList hj'.timespecDom,
    isEmpty_of_toList hj.timespecMonth, isEmpty_of_toList hj'.timespecMonth, hs.minute.empty,
    hs.hour.empty, hs.day.empty, hs.month.empty]

theorem getD_same {raw raw' : Option Bytes} {text text' : Bytes} (hr : raw' = raw)
    (ht : raw = none → text' = text) : raw'.getD text' = raw.getD text := by
  subst hr
  cases raw' with
  | none => exact ht rfl
  | some r => rfl

/-- The text for the hash does not depend on the draws. -/
theorem SameFields.rawText (hs : SameFields parts j j' m h d n m' h' d' n' w w')
    (hj : ParsedFields parts rng j m h d n w) (hj' : ParsedFields parts rng' j' m' h' d' n' w')
    (hn : NotedFields parts j m h d n w) (hn' : NotedFields parts j' m' h' d' n' w')
    (hp : j.persistent) (hp' : j'.persistent) : j'.rawText = j.rawText := by
  obtain ⟨hdom, hdow, hseven, sm, sh, sd, sw, sn⟩ := hs
  obtain ⟨nm, nh, nd, nw, nn⟩ := hn
  obtain ⟨nm', nh', nd', nw', nn'⟩ := hn'
  rw [hp] at sm sh sd sw sn nm nh nd nw nn
  rw [hp', hdom, hdow] at nd' nw'
  rw [hp'] at nm' nh' nn'
  have comma : ∀ {s t s' t' : Std.TreeSet Nat} {raw : Option Bytes}, s.toList = t.toList →
      s'.toList = t'.toList → (raw = none → t'.toList = t.toList) → raw = none →
      Job.timespecComma s' = Job.timespecComma s := by
    intro s t s' t' raw h h' heq hr
    rw [Job.timespecComma, Job.timespecComma, h, h', heq hr]
  have em := getD_same (nm'.trans (sm.raw.trans nm.symm)) <| comma (congrArg _ hj.timespecMinute)
    (congrArg _ hj'.timespecMinute) fun hr => sm.toList_eq rfl (nm ▸ hr)
  have eh := getD_same (nh'.trans (sh.raw.trans nh.symm)) <| comma (congrArg _ hj.timespecHour)
    (congrArg _ hj'.timespecHour) fun hr => sh.toList_eq rfl (nh ▸ hr)
  have ed := getD_same (nd'.trans (sd.raw.trans nd.symm)) <| comma hj.timespecDom hj'.timespecDom
    fun hr => sd.toList_eq rfl (nd ▸ hr)
  have en := getD_same (nn'.trans (sn.raw.trans nn.symm)) <| comma hj.timespecMonth hj'.timespecMonth
    fun hr => sn.toList_eq rfl (nn ▸ hr)
  have ew : j'.timespecDowRaw.getD j'.timespecDows = j.timespecDowRaw.getD j.timespecDows :=
    getD_same (nw'.trans (sw.raw.trans nw.symm)) fun hr => by
      have hmem := sw.values rfl (nw ▸ hr)
      have hl : j'.timespecDow.toList = j.timespecDow.toList := by
        rw [hj.timespecDow, hj'.timespecDow]
        exact Std.TreeSet.Equiv.toList_eq (.of_forall_mem_iff hmem)
      have hc : ∀ dow, j'.timespecDow.contains dow = j.timespecDow.contains dow := by
        intro dow
        rw [hj.timespecDow, hj'.timespecDow]
        exact Bool.eq_iff_iff.2 (hmem dow)
      simp only [Job.timespecDows, hl, hseven, hc]
  unfold Job.rawText
  rw [em, eh, ed, en, ew, hdom, hdow]

end

/-! ### The end of a parse -/

section
variable {T : Type} [Ord T] [Std.TransOrd T] [Std.LawfulEqOrd T] {F : TimeField T}

theorem Job.parseTimeUnit_ends (hF : F.Table) (j : Job) (value : Bytes) (rng : Rng) :
    (∃ r, j.parseTimeUnit F value rng = .ok r) ↔ ¬ F.Hangs value := by
  rw [← SystemdCron.parseTimeUnit_ends hF value rng]
  unfold Job.parseTimeUnit
  cases SystemdCron.parseTimeUnit F value rng with
  | error f => simp
  | ok u => cases he : u.error <;> simp [he]

end

/-- The five fields of a line are parsed to an end exactly if each of them is. -/
theorem Job.parseFields_ends (j : Job) (minutes hours days months dows : Bytes) (rng : Rng) :
    let lastDom := days == lit "L"
    let lastDow := dows.length == 2 && dows.getLast? == some 76
    (∃ r, j.parseFields minutes hours days months dows rng = .ok r) ↔
      ¬ minuteField.Hangs minutes ∧ ¬ hourField.Hangs hours ∧
      ¬ dayField.Hangs (if lastDom then lit "1" else if lastDow then lit "7/1" else days) ∧
      ¬ dowField.Hangs (if !lastDom && lastDow then dows.take 1 else dows) ∧
      ¬ monthField.Hangs months := by
  intro lastDom lastDow
  constructor
  · rintro ⟨r, hr⟩
    obtain ⟨m, h, d, w, n, hm, hh, hd, hw, hn, -⟩ := parseFields_ok hr
    exact ⟨(SystemdCron.parseTimeUnit_ends minuteField_table _ _).1 ⟨m, hm⟩,
      (SystemdCron.parseTimeUnit_ends hourField_table _ _).1 ⟨h, hh⟩,
      (SystemdCron.parseTimeUnit_ends dayField_table _ _).1 ⟨d, hd⟩,
      (SystemdCron.parseTimeUnit_ends dowField_table _ _).1 ⟨w, hw⟩,
      (SystemdCron.parseTimeUnit_ends monthField_table _ _).1 ⟨n, hn⟩⟩
  · rintro ⟨hm, hh, hd, hw, hn⟩
    simp only [parseFields, bind, Except.bind]
    obtain ⟨⟨m, j1, rng1⟩, e1⟩ := (parseTimeUnit_ends minuteField_table _ _ _).2 hm
    rw [e1]
    dsimp only
    obtain ⟨⟨h, j2, rng2⟩, e2⟩ := (parseTimeUnit_ends hourField_table _ _ _).2 hh
    rw [e2]
    dsimp only
    obtain ⟨⟨d, j3, rng3⟩, e3⟩ := (parseTimeUnit_ends dayField_table _ _ _).2 hd
    rw [e3]
    dsimp only
    obtain ⟨⟨w, j4, rng4⟩, e4⟩ := (parseTimeUnit_ends dowField_table _ _ _).2 hw
    rw [e4]
    dsimp only
    obtain ⟨⟨n, j5, rng5⟩, e5⟩ := (parseTimeUnit_ends monthField_table _ _ _).2 hn
    rw [e5]
    exact ⟨_, rfl⟩

/-- The time fields of a line, parsed. -/
def lineFields (host : Host) (kind : CrontabKind) (environment : Env) (line : Bytes) (rng : Rng) :
    Except Fault (Job × Rng) :=
  let parts := tokens isFieldDelim line
  (newJob host kind environment line).parseFields (parts.getD 0 []) (parts.getD 1 []) (parts.getD 2 [])
    (parts.getD 3 []) (parts.getD 4 []) rng

theorem lineFields_ends (host : Host) (kind : CrontabKind) (environment : Env) (line : Bytes)
    (rng rng' : Rng) : (∃ r, lineFields host kind environment line rng = .ok r) ↔
      ∃ r, lineFields host kind environment line rng' = .ok r :=
  (Job.parseFields_ends _ _ _ _ _ _ rng).trans (Job.parseFields_ends _ _ _ _ _ _ rng').symm

/-- A line without time fields is parsed without a draw. -/
theorem parseLine_cases (host : Host) (kind : CrontabKind) (environment : Env) (line : Bytes) :
    (∃ p, ∀ rng, parseLine host kind environment line rng = .ok (p, rng)) ∨
    kind.anacrontab = false ∧ line.head? ≠ some AT ∧
      6 + (if kind.withuser = .fromCmd0 then 1 else 0) ≤ (tokens isFieldDelim line).length ∧
      ∃ f : Job → Job, ∀ rng,
      parseLine host kind environment line rng =
        (lineFields host kind environment line rng).map fun r => (f r.1, r.2) := by
  have hparts := newJob_parts host kind environment line
  unfold parseLine lineFields
  generalize newJob host kind environment line = j at hparts
  dsimp only
  cases kind.anacrontab with
  | true => exact .inl ⟨_, fun _ => if_pos rfl⟩
  | false =>
    simp only [Bool.false_eq_true, if_false]
    by_cases hat : line.head? = some AT
    · exact .inl ⟨_, fun _ => if_pos hat⟩
    · simp only [if_neg hat]
      unfold Job.parseCrontabTimespec
      rw [hparts]
      dsimp only
      by_cases hlen : (tokens isFieldDelim line).length < 6 + (if kind.withuser = .fromCmd0 then 1 else 0)
      · exact .inl ⟨_, fun _ => if_pos hlen⟩
      · refine .inr ⟨trivial, hat, not_lt.1 hlen, fun f => f.parseUserCommand kind.withuser 5, fun rng => ?_⟩
        rw [if_neg hlen]
        rfl

theorem exists_map_eq_ok {α β : Type} {x : Except Fault α} {f : α → β} :
    (∃ r, x.map f = .ok r) ↔ ∃ r, x = .ok r := by
  cases x <;> simp [Except.map]

theorem parseJob_isOk {host : Host} {kind : CrontabKind} {environment : Env} {line : Bytes} {rng : Rng} :
    (∃ r, parseJob host kind environment line rng = .ok r) ↔
      ∃ r, parseLine host kind environment line rng = .ok r := by
  simp only [parseJob, bind, Except.bind]
  cases parseLine host kind environment line rng with
  | error f => simp
  | ok r => exact iff_of_true ⟨_, rfl⟩ ⟨_, rfl⟩

/-- Whether the parse of a line ends does not depend on the draws. -/
theorem parseJob_ends (host : Host) (kind : CrontabKind) (environment : Env) (line : Bytes)
    (rng rng' : Rng) : (∃ r, parseJob host kind environment line rng = .ok r) ↔
      ∃ r, parseJob host kind environment line rng' = .ok r := by
  rw [parseJob_isOk, parseJob_isOk]
  rcases parseLine_cases host kind environment line with ⟨p, hp⟩ | ⟨-, -, -, f, hf⟩
  · rw [hp, hp]
    exact iff_of_true ⟨_, rfl⟩ ⟨_, rfl⟩
  · rw [hf, hf, exists_map_eq_ok, exists_map_eq_ok]
    exact lineFields_ends host kind environment line rng rng'

/-! ### Names -/

/-- Two parses of a line: a hashed job has one raw schedule and one name. -/
structure SameHash (j j' : Job) : Prop where
  valid : j'.valid = j.valid
  persistent : j'.persistent = j.persistent
  cronUniqueUnits : j'.cronUniqueUnits = j.cronUniqueUnits
  jobid : j'.jobid = j.jobid
  command : j'.command = j.command
  scheduleRaw : j.sequential = false → j'.scheduleRaw = j.scheduleRaw

theorem SameHash.refl (j : Job) : SameHash j j := ⟨rfl, rfl, rfl, rfl, rfl, fun _ => rfl⟩

theorem SameHash.unitName {j j' : Job} (h : SameHash j j') (hj : j.sequential = false) (md5 : Md5)
    (seq seq' : Nat) :
    (j'.generateUnitName md5 seq').1.unitName = (j.generateUnitName md5 seq).1.unitName := by
  have hj' : j'.sequential = false := by
    rw [← hj, Job.sequential, Job.sequential, h.persistent, h.cronUniqueUnits]
  simp only [Job.generateUnitName, hj, hj', Bool.false_eq_true, if_false, Job.stem, Job.hashInput, h.jobid,
    h.command, h.scheduleRaw hj]

theorem NotedFields.generate {parts : List Bytes} {p : Job} {m h d n : TimeUnit Nat}
    {w : TimeUnit Bytes} (hn : NotedFields parts p m h d n w) :
    NotedFields parts p.generateScheduleFromTimespec m h d n w := by
  obtain ⟨_, _, _, heq⟩ := p.generateScheduleFromTimespec_eq
  rw [heq]
  exact { hn with }

theorem generateScheduleFromTimespec_valid {p p' : Job} (hv : p'.valid = p.valid)
    (hl : p'.generateScheduleFromTimespec.lacksValues = p.generateScheduleFromTimespec.lacksValues) :
    p'.generateScheduleFromTimespec.valid = p.generateScheduleFromTimespec.valid := by
  rcases Job.generateScheduleFromTimespec_cases (p := p) rfl with ⟨h1, h2, -⟩ | ⟨h1, h2, -⟩ <;>
    rcases Job.generateScheduleFromTimespec_cases (p := p') rfl with ⟨k1, k2, -⟩ | ⟨k1, k2, -⟩
  · rw [h2, k2]
  · rw [hl, h1] at k1; cases k1
  · rw [hl, h1] at k1; cases k1
  · rw [h2, k2, hv]

/-- Two parses of a line differ in nothing that the name of a hashed job is made of. -/
theorem parseJob_sameHash {host : Host} {kind : CrontabKind} {environment : Env} {line : Bytes}
    {rng rng' r r' : Rng} {j j' : Job} (h : parseJob host kind environment line rng = .ok (j, r))
    (h' : parseJob host kind environment line rng' = .ok (j', r')) : SameHash j j' := by
  rcases parseLine_cases host kind environment line with ⟨p, hp⟩ | ⟨hk, hat, hlen, -⟩
  · simp only [parseJob, hp, bind, Except.bind, pure, Except.pure, Except.ok.injEq, Prod.mk.injEq] at h h'
    rw [← h.1, ← h'.1]
    exact .refl _
  obtain ⟨p, rfl, ⟨-, hn⟩ | ⟨m, hh, d, n, w, hfields, hvalid, -, hnoted, hwithout⟩⟩ :=
    parseJob_fields h hk hat
  · omega
  obtain ⟨p', rfl, ⟨-, hn⟩ | ⟨m', hh', d', n', w', hfields', hvalid', -, hnoted', hwithout'⟩⟩ :=
    parseJob_fields h' hk hat
  · omega
  have hw : p'.withoutFields = p.withoutFields := hwithout'.trans hwithout.symm
  have hpersistent : p'.persistent = p.persistent := (congrArg Job.persistent hw :)
  have hsame := hfields.generate.same hfields'.generate
  have hlacks := hsame.lacksValues hfields.generate hfields'.generate
  have hgen := p.generateScheduleFromTimespec_eq
  have hgen' := p'.generateScheduleFromTimespec_eq
  have hpgen : p.generateScheduleFromTimespec.persistent = p.persistent := by
    obtain ⟨_, _, _, heq⟩ := hgen
    rw [heq]
  have hpgen' : p'.generateScheduleFromTimespec.persistent = p'.persistent := by
    obtain ⟨_, _, _, heq⟩ := hgen'
    rw [heq]
  have hs := p.generateScheduleFromTimespec_scheduled
  have hs' := p'.generateScheduleFromTimespec_scheduled
  refine ⟨generateScheduleFromTimespec_valid ?_ hlacks, by rw [hpgen, hpgen', hpersistent], ?_, ?_, ?_,
    fun _ => ?_⟩
  · rw [hvalid, hvalid', hsame.minute.error, hsame.hour.error, hsame.day.error, hsame.dow.error,
      hsame.month.error]
  · rw [hs.cronUniqueUnits, hs'.cronUniqueUnits]
    exact (congrArg Job.cronUniqueUnits hw :)
  · rw [hs.jobid, hs'.jobid]
    exact (congrArg Job.jobid hw :)
  · rw [hs.command, hs'.command]
    exact (congrArg Job.command hw :)
  · rw [p.generateScheduleFromTimespec_scheduleRaw, p'.generateScheduleFromTimespec_scheduleRaw,
      hpersistent, hlacks, show p'.scheduleRaw = p.scheduleRaw from (congrArg Job.scheduleRaw hw :)]
    split
    next hc =>
      exact hsame.rawText hfields.generate hfields'.generate hnoted.generate hnoted'.generate
        (hpgen.trans hc.1) (hpgen'.trans (hpersistent.trans hc.1))
    next => rfl

theorem notMem_getD {c : UInt8} {parts : List Bytes} (h : ∀ t ∈ parts.take 5, c ∉ t) {i : Nat} (hi : i < 5) :
    c ∉ parts.getD i [] := by
  rw [List.getD_eq_getElem?_getD]
  cases hget : parts[i]? with
  | none => simp
  | some t =>
    exact h t (List.mem_of_getElem? (i := i) (by rw [List.getElem?_take_of_lt hi, hget]))

/-- Without a `~` no text is noted. -/
theorem ParsedFields.not_noted {parts : List Bytes} {rng : Rng} {j : Job} {m h d n : TimeUnit Nat}
    {w : TimeUnit Bytes} (hj : ParsedFields parts rng j m h d n w) (hn : NotedFields parts j m h d n w)
    (ht : ∀ t ∈ parts.take 5, TILDE ∉ t) : j.timespecMinuteRaw = none ∧ j.timespecHourRaw = none ∧
      j.timespecDomRaw = none ∧ j.timespecDowRaw = none ∧ j.timespecMonthRaw = none := by
  have hget : ∀ i < 5, TILDE ∉ parts.getD i [] := fun i hi => notMem_getD ht hi
  refine ⟨?_, ?_, ?_, ?_, ?_⟩
  · exact hn.minute.trans (fieldRaw_of_tilde_notMem minuteField_table _ (hget 0 (by decide)) hj.minute)
  · exact hn.hour.trans (fieldRaw_of_tilde_notMem hourField_table _ (hget 1 (by decide)) hj.hour)
  · refine hn.day.trans (fieldRaw_of_tilde_notMem dayField_table _ ?_ hj.day)
    split
    · decide
    · split
      · decide
      · exact hget 2 (by decide)
  · refine hn.dow.trans (fieldRaw_of_tilde_notMem dowField_table _ ?_ hj.dow)
    split
    · exact fun hc => hget 4 (by decide) (List.mem_of_mem_take hc)
    · exact hget 4 (by decide)
  · exact hn.month.trans (fieldRaw_of_tilde_notMem monthField_table _ (hget 3 (by decide)) hj.month)

/-- Without a `~` the two schedules are the same. -/
theorem scheduleRaw_eq_schedule {host : Host} {kind : CrontabKind} {environment : Env} {line : Bytes}
    {rng r : Rng} {j : Job} (h : parseJob host kind environment line rng = .ok (j, r))
    (hk : kind.anacrontab = false) (hat : line.head? ≠ some AT) (hvalid : j.valid) (hp : j.persistent)
    (ht : ∀ t ∈ (tokens isFieldDelim line).take 5, TILDE ∉ t) : j.scheduleRaw = j.schedule := by
  obtain ⟨p, rfl, hcases⟩ := parseJob_fields h hk hat
  rcases Job.generateScheduleFromTimespec_cases (p := p) rfl with ⟨-, hv, -⟩ | ⟨hlacks, -, hs⟩
  · rw [hv] at hvalid
    cases hvalid
  have hpp : p.persistent := p.generateScheduleFromTimespec_scheduled.persistent hp
  rw [p.generateScheduleFromTimespec_scheduleRaw, if_pos ⟨hpp, hlacks⟩, hs]
  rcases hcases with ⟨hmin, -⟩ | ⟨m, hh, d, n, w, hfields, -, -, hnoted, -⟩
  · obtain ⟨_, _, _, heq⟩ := p.generateScheduleFromTimespec_eq
    rw [heq] at hlacks
    simp [Job.lacksValues, hmin] at hlacks
  · obtain ⟨em, eh, ed, ew, en⟩ := hfields.generate.not_noted hnoted.generate ht
    simp only [Job.rawText, em, eh, ed, ew, en, Option.getD_none]

/-- The name of a hashed job does not depend on the draws, and without a `~` its raw schedule is its
schedule. -/
theorem hashed_names_fixed (host : Host) (kind : CrontabKind) (environment : Env) (line : Bytes)
    (rng rng' : Rng) :
    ((∃ r, parseJob host kind environment line rng = .ok r) ↔
      ∃ r, parseJob host kind environment line rng' = .ok r) ∧
    ∀ j r, parseJob host kind environment line rng = .ok (j, r) →
      (∀ j' r', parseJob host kind environment line rng' = .ok (j', r') →
        j'.valid = j.valid ∧ j'.persistent = j.persistent ∧ j'.cronUniqueUnits = j.cronUniqueUnits ∧
        (j.persistent || j.cronUniqueUnits → j'.scheduleRaw = j.scheduleRaw ∧ ∀ md5 seq seq',
          (j'.generateUnitName md5 seq').1.unitName = (j.generateUnitName md5 seq).1.unitName)) ∧
      (kind.anacrontab = false → line.head? ≠ some AT → j.valid → j.persistent →
        (∀ t ∈ (softTokenise isFieldDelim line).take 5, TILDE ∉ t) → j.scheduleRaw = j.schedule) := by
  refine ⟨parseJob_ends host kind environment line rng rng', fun j r h => ⟨fun j' r' h' => ?_, ?_⟩⟩
  · have hs := parseJob_sameHash h h'
    refine ⟨hs.valid, hs.persistent, hs.cronUniqueUnits, fun hhash => ?_⟩
    have hseq : j.sequential = false := by rw [Job.sequential, hhash, Bool.not_true]
    exact ⟨hs.scheduleRaw hseq, fun md5 seq seq' => hs.unitName hseq md5 seq seq'⟩
  · intro hk hat hvalid hp ht
    exact scheduleRaw_eq_schedule h hk hat hvalid hp (softTokenise_eq isFieldDelim line ▸ ht)

/-- A line of `/etc/crontab` after `PERSISTENT=yes`, with all draws the same. -/
def parsePersistent (line : Bytes) (n : Nat) : Except Fault (Job × Rng) :=
  parseJob .bare systemKind (Std.TreeMap.insert {} (lit "PERSISTENT") (lit "yes")) line fun _ => n

def persistentJob (line : Bytes) (n : Nat) : Job :=
  match parsePersistent line n with
  | .ok r => r.1
  | .error _ => .new [] []

theorem parsePersistent_ok {line : Bytes} {n : Nat} (h : (parsePersistent line n).toBool) :
    ∃ r, parsePersistent line n = .ok (persistentJob line n, r) := by
  unfold persistentJob
  cases hp : parsePersistent line n with
  | error f => rw [hp] at h; cases h
  | ok r => exact ⟨r.2, rfl⟩

/-- Two draws of `~ 5 * * *` have different schedules and one name, and the schedules of `0 5 * * *` are the
same. -/
theorem hashed_names_fixed_draw :
    let draw := persistentJob (lit "~ 5 * * * root true")
    let plain := persistentJob (lit "0 5 * * * root true") 0
    (draw 0).schedule ≠ (draw 1).schedule ∧ (draw 1).scheduleRaw = (draw 0).scheduleRaw ∧
    (∀ md5 seq seq', ((draw 1).generateUnitName md5 seq').1.unitName =
      ((draw 0).generateUnitName md5 seq).1.unitName) ∧
    plain.scheduleRaw = plain.schedule := by
  intro draw plain
  obtain ⟨r, hr⟩ := @parsePersistent_ok (lit "~ 5 * * * root true") 0 (by decide +kernel)
  obtain ⟨r', hr'⟩ := @parsePersistent_ok (lit "~ 5 * * * root true") 1 (by decide +kernel)
  obtain ⟨q, hq⟩ := @parsePersistent_ok (lit "0 5 * * * root true") 0 (by decide +kernel)
  have hdraw := (((hashed_names_fixed _ _ _ _ _ _).2 _ _ hr).1 _ _ hr').2.2.2 (by decide +kernel)
  have hplain := ((hashed_names_fixed _ _ _ _ _ fun _ => 0).2 _ _ hq).2 rfl (by decide) (by decide +kernel)
    (by decide +kernel) (by decide)
  exact ⟨by decide +kernel, hdraw.1, hdraw.2, hplain⟩

end SystemdCron
