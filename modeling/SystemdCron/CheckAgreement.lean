import SystemdCron.Environment
import SystemdCron.NumberList
import SystemdCron.Periods
import SystemdCron.RawSchedule
import SystemdCron.Run

/-!
# `crontab -T` and the generator

`check` looks at the jobs of a file before they get units. What it lets through is compared with the jobs that
get a calendar, line by line: `Overlooked` are the lines that it lets through although their jobs get none,
`Spurned` those that it does not although they do, and `Hopeless` those that fail in both.
-/

namespace SystemdCron

open Bytes OnCalendar

/-! ### Lines with a period -/

namespace Job

/-- What `generate_schedule_from_period` changes. -/
theorem generateScheduleFromPeriod_eq (j : Job) : ∃ boot schedule persistent raw log,
    j.generateScheduleFromPeriod = { j with
      period := normalPeriod j.period, bootDelay := boot, schedule, persistent, scheduleRaw := raw,
      log } := by
  have hite : ∀ {c : Prop} [Decidable c] {a b : Job},
      (∃ boot schedule persistent raw log, a = { j with
        period := normalPeriod j.period, bootDelay := boot, schedule, persistent, scheduleRaw := raw, log }) →
      (∃ boot schedule persistent raw log, b = { j with
        period := normalPeriod j.period, bootDelay := boot, schedule, persistent, scheduleRaw := raw, log }) →
      ∃ boot schedule persistent raw log, (if c then a else b) = { j with
        period := normalPeriod j.period, bootDelay := boot, schedule, persistent, scheduleRaw := raw, log } := by
    intro c _ a b ha hb
    split
    · exact ha
    · exact hb
  unfold generateScheduleFromPeriod
  extract_lets p hour hashed
  have hhashed : ∀ boot schedule persistent, ∃ boot' schedule' persistent' raw log,
      hashed { p with bootDelay := boot, schedule, persistent } = { j with
        period := normalPeriod j.period, bootDelay := boot', schedule := schedule', persistent := persistent'
        scheduleRaw := raw, log } :=
    fun boot schedule persistent => hite ⟨_, _, _, _, _, rfl⟩ ⟨_, _, _, _, _, rfl⟩
  refine hite (hhashed _ _ _) <| hite (hhashed _ _ _) <| hite (hhashed _ _ _) <| hite (hhashed _ _ _) <|
    hite (hhashed _ _ _) <| hite (hhashed _ _ _) <| hite (hhashed _ _ _) ?_
  split
  · exact hhashed _ _ _
  · exact hite ⟨_, _, _, _, _, rfl⟩ (hhashed _ _ _)

end Job

/-- The first word of a line. -/
def firstWord (line : Bytes) : Bytes := (tokens isFieldDelim line).getD 0 []

/-- The job of a line with an `@`. -/
theorem parseJob_at (host : Host) {kind : CrontabKind} (environment : Env) {line : Bytes} (rng : Rng)
    (hk : kind.anacrontab = false) (hat : line.head? = some AT) :
    ∃ j, parseJob host kind environment line rng = .ok (j, rng) ∧
      if 2 + (if kind.withuser = .fromCmd0 then 1 else 0) ≤ (tokens isFieldDelim line).length then
        j.valid ∧ j.period = normalPeriod (firstWord line) ∧
          j.schedule = periodText (normalPeriod (firstWord line)) (newJob host kind environment line).startHour
            (newJob host kind environment line).bootDelay ∧
          j.timespecMonth = {} ∧ j.timespecDom = {} ∧ j.timespecHour = {}
      else j.valid = false := by
  have hparts := newJob_parts host kind environment line
  have hsame := newJob_sameLine host kind environment line
  unfold parseJob parseLine firstWord
  simp only [hk, hat, Bool.false_eq_true, if_false, if_true, bind, Except.bind]
  generalize newJob host kind environment line = n at hparts hsame
  refine ⟨_, rfl, ?_⟩
  have hneed : n.parts.length < 2 + (if kind.withuser = .fromCmd0 then 1 else 0) ↔
      (tokens isFieldDelim line).length < 2 + (if kind.withuser = .fromCmd0 then 1 else 0) := by rw [hparts]
  by_cases hlen : (tokens isFieldDelim line).length < 2 + (if kind.withuser = .fromCmd0 then 1 else 0)
  · have hvalid : (n.parseCrontabAt kind.withuser).valid = false := by
      unfold Job.parseCrontabAt
      rw [if_pos (hneed.2 hlen)]
    rw [if_neg (not_le.2 hlen), Bool.eq_false_iff]
    intro hv
    have hbefore := (Job.generateSchedule_scheduled _).valid hv
    obtain ⟨_, _, _, _, _, _, _, hdecode⟩ := Job.decodeCommand_eq host { n.parseCrontabAt kind.withuser with
      jobid := (n.parseCrontabAt kind.withuser).jobid.filter isAsciiAlnum }
    rw [Job.decode, hdecode] at hbefore
    exact Bool.false_ne_true (hvalid.symm.trans hbefore)
  · -- The word in front is no blank, so that the schedule comes from it.
    rw [if_pos (not_lt.1 hlen)]
    set w := (tokens isFieldDelim line).getD 0 [] with hword
    have hne : w ≠ [] := by
      rcases h : tokens isFieldDelim line with - | ⟨w', rest⟩
      · rw [h] at hlen
        exact absurd (Nat.add_pos_left (by decide) _) hlen
      · rw [hword, h]
        exact ne_nil_of_mem_tokens (p := isFieldDelim) (s := line) (by rw [h]; simp)
    obtain ⟨user, ws, id, input, hp⟩ : ∃ user ws id input, n.parseCrontabAt kind.withuser = { n with
        period := w, user, command := { n.command with command := ws }, jobid := id, inputData := input } := by
      unfold Job.parseCrontabAt
      rw [if_neg (hneed.not.2 hlen)]
      obtain ⟨user, ws, id, input, hu⟩ := Job.parseUserCommand_eq { n with period := n.parts.getD 0 [] }
        kind.withuser 1
      exact ⟨user, ws, id, input, hu.trans (by rw [hword, ← hparts])⟩
    obtain ⟨_, _, _, _, _, _, _, hdecode⟩ := Job.decodeCommand_eq host { n.parseCrontabAt kind.withuser with
      jobid := (n.parseCrontabAt kind.withuser).jobid.filter isAsciiAlnum }
    rw [hp] at hdecode
    rw [hp, Job.decode, hdecode, Job.generateSchedule, if_pos hne]
    set j : Job := { n with
      period := w, user, command := _, jobid := _, inputData := input, userHome := _, userUid := _
      userGid := _, environment := _, environmentPATHStorage := _ }
    have hschedule := generateScheduleFromPeriod_schedule j
    obtain ⟨_, _, _, _, _, heq⟩ := j.generateScheduleFromPeriod_eq
    rw [heq] at hschedule ⊢
    exact ⟨hsame.valid, rfl, hschedule, hsame.timespecMonth, hsame.timespecDom, hsame.timespecHour⟩

/-! ### Periods -/

/-- A period is a keyword, under its own name. -/
def IsKeyword (p : Bytes) : Prop := ∃ k : Keyword, p = k.name

theorem isKeyword_iff {p : Bytes} : IsKeyword p ↔ p ∈ [lit "reboot", lit "minutely", lit "hourly",
    lit "midnight", lit "daily", lit "weekly", lit "monthly", lit "quarterly", lit "semi-annually",
    lit "yearly"] := by
  constructor
  · rintro ⟨k, rfl⟩
    cases k <;> decide
  · have hall : ∀ p ∈ [lit "reboot", lit "minutely", lit "hourly", lit "midnight", lit "daily", lit "weekly",
        lit "monthly", lit "quarterly", lit "semi-annually", lit "yearly"],
        ∃ k ∈ [Keyword.reboot, .minutely, .hourly, .midnight, .daily, .weekly, .monthly, .quarterly,
          .semiAnnually, .yearly], p = k.name := by decide
    exact fun hp => (hall p hp).imp fun _ h => h.2

theorem Keyword.name_injective : Function.Injective Keyword.name := by
  intro k k'
  cases k <;> cases k' <;> decide

instance (p : Bytes) : Decidable (IsKeyword p) := decidable_of_iff _ isKeyword_iff.symm

/-- A text that was replaced is not replaced again. -/
theorem lookup_normalPeriod (w : Bytes) : replacements.lookup (normalPeriod w) = none := by
  unfold normalPeriod
  extract_lets p
  cases h : replacements.lookup p with
  | none => exact h
  | some v =>
    have hall : ∀ q ∈ replacements, replacements.lookup q.2 = none := by decide
    obtain ⟨l, r, hq, -⟩ := List.lookup_eq_some_iff.1 h
    exact hall (p, v) (by simp [hq])

theorem mem_validPeriods_iff (w : Bytes) : normalPeriod w ∈ validPeriods ↔ IsKeyword (normalPeriod w) := by
  have hall : ∀ p ∈ validPeriods, replacements.lookup p = none → IsKeyword p := by decide +kernel
  refine ⟨fun h => hall _ h (lookup_normalPeriod w), ?_⟩
  rintro ⟨k, hk⟩
  rw [hk]
  cases k <;> decide

theorem space_notMem_normalPeriod {w : Bytes} (h : SPACE ∉ w) : SPACE ∉ normalPeriod w := by
  have hlower : ∀ c : UInt8, toLower c = SPACE → c = SPACE := by decide +kernel
  unfold normalPeriod
  extract_lets p
  cases hl : replacements.lookup p with
  | none =>
    intro hc
    obtain ⟨c, hc, he⟩ := List.mem_map.1 hc
    exact h (hlower c he ▸ (List.dropWhile_sublist _).subset hc)
  | some v =>
    have hall : ∀ q ∈ replacements, SPACE ∉ q.2 := by decide
    obtain ⟨l, r, hq, -⟩ := List.lookup_eq_some_iff.1 hl
    exact hall (p, v) (by simp [hq])

/-- The text for a period that is no keyword. -/
theorem periodText_other {p : Bytes} (h : ¬ IsKeyword p) (hour delay : Nat) :
    periodText p hour delay =
      if (intMap p false false).2 then p else daysDate (intMap p false false).1 ++ hourDelay hour delay := by
  have hne {q : Bytes} (hq : IsKeyword q) : p ≠ q := fun he => h (he ▸ hq)
  have hunits : p ∉ TIME_UNITS_SET := fun hmem => by
    have hall : ∀ w ∈ TIME_UNITS_SET, IsKeyword w := by decide +kernel
    exact h (hall p hmem)
  have hdate : periodDate p = none := by
    rw [periodDate, if_neg (hne (by decide)), if_neg (hne (by decide)), if_neg (hne (by decide)),
      if_neg (hne (by decide)), if_neg (hne (by decide)), if_neg (hne (by decide))]
  rw [periodText, if_neg (not_or.2 ⟨hne (by decide), hne (by decide)⟩), if_neg (hne (by decide)),
    if_neg (hne (by decide)), if_neg (fun h => hunits h.1), hdate]

/-- A period is a number of days, and the hour and the delay are an hour and a minute. -/
def IsDays (hour delay : Nat) (p : Bytes) : Prop := ∃ n, LooseNumber p n ∧ 1 ≤ n ∧ hour ≤ 23 ∧ delay ≤ 59

/-- The schedule of a period is a calendar if it is a keyword or a number of days, and the hour and the delay
fit. -/
theorem calendar_period_iff {w : Bytes} (hw : SPACE ∉ w) (hour delay : Nat) :
    (periodText (normalPeriod w) hour delay = lit "reboot" ∨
      WellFormed (periodText (normalPeriod w) hour delay)) ↔
    (∃ k : Keyword, normalPeriod w = k.name ∧ (Recognised.keyword k).Fits hour delay) ∨
      ¬ IsKeyword (normalPeriod w) ∧ IsDays hour delay (normalPeriod w) := by
  by_cases hkey : IsKeyword (normalPeriod w)
  · obtain ⟨k, hk⟩ := hkey
    rw [hk, calendar_keyword_iff]
    constructor
    · exact fun h => .inl ⟨k, rfl, h⟩
    · rintro (⟨k', hk', h⟩ | ⟨h, -⟩)
      · rw [Keyword.name_injective hk']
        exact h
      · exact absurd ⟨k, rfl⟩ h
  have hnumber : ((∃ k : Keyword, normalPeriod w = k.name ∧ (Recognised.keyword k).Fits hour delay) ∨
      ¬ IsKeyword (normalPeriod w) ∧ IsDays hour delay (normalPeriod w)) ↔
      IsDays hour delay (normalPeriod w) := by
    rw [or_iff_right (by rintro ⟨k, hk, -⟩; exact hkey ⟨k, hk⟩), and_iff_right hkey]
  rw [hnumber, periodText_other hkey]
  rcases hmap : intMap (normalPeriod w) false false with ⟨n, err⟩
  cases err with
  | true =>
    have hnone : ¬ IsDays hour delay (normalPeriod w) := by
      rintro ⟨n, hn, -⟩
      have heq := (@intMap_eq_iff _ _ false).2 hn
      rw [hmap] at heq
      cases heq
    refine iff_of_false ?_ hnone
    rw [if_pos rfl]
    rintro (h | h | ⟨e, he, -⟩)
    · exact hkey ⟨.reboot, h⟩
    · have hall : ∀ p ∈ keywords, replacements.lookup p = none → IsKeyword p := by decide +kernel
      exact hkey (hall _ h (lookup_normalPeriod w))
    · rw [parse_of_space_notMem (space_notMem_normalPeriod hw)] at he
      cases he
  | false =>
    have hn := intMap_eq_iff.1 hmap
    have hsame : ∀ m, LooseNumber (normalPeriod w) m → m = n := fun m hm => by
      have heq := (@intMap_eq_iff _ _ false).2 hm
      rw [hmap] at heq
      cases heq
      rfl
    rw [if_neg Bool.false_ne_true]
    have hreboot : daysDate n ++ hourDelay hour delay ≠ lit "reboot" := by
      intro h
      have hmeaning := (writes_days n hour delay).meaning
      rw [h, meaning_reboot] at hmeaning
      cases hmeaning
    rw [or_iff_right hreboot, (writes_days n hour delay).wellFormed]
    by_cases h1 : 1 ≤ n
    · rw [daysExpr_wf_iff h1]
      exact ⟨fun h => ⟨n, hn, h1, h⟩, fun ⟨_, _, _, h⟩ => h⟩
    · refine iff_of_false ?_ ?_
      · rw [Nat.lt_one_iff.1 (not_le.1 h1), daysExpr, if_neg (by decide), atTime_wf_iff (by decide) (by decide)]
        rintro ⟨⟨-, h⟩, -⟩
        exact absurd (h (.every 1 0) (by simp)).2 (by decide)
      · rintro ⟨m, hm, hm1, -⟩
        rw [hsame m hm] at hm1
        exact h1 hm1

/-! ### Lines with five fields -/

/-- The marker for the last days of the month on the weekday. -/
def hasLastDow (parts : List Bytes) : Bool :=
  (parts.getD 4 []).length == 2 && (parts.getD 4 []).getLast? == some 76

/-- The text that is parsed for the day of the month. -/
def dayText (parts : List Bytes) : Bytes :=
  if parts.getD 2 [] = lit "L" then lit "1" else if hasLastDow parts then lit "7/1" else parts.getD 2 []

/-- The text that is parsed for the weekday. -/
def dowText (parts : List Bytes) : Bytes :=
  if parts.getD 2 [] ≠ lit "L" ∧ hasLastDow parts then (parts.getD 4 []).take 1 else parts.getD 4 []

/-- The fields are accepted, and all but the weekdays have an item. -/
structure FieldsRead (parts : List Bytes) : Prop where
  minute : minuteField.accepts (parts.getD 0 [])
  hour : hourField.accepts (parts.getD 1 [])
  day : dayField.accepts (dayText parts)
  dow : dowField.accepts (dowText parts)
  month : monthField.accepts (parts.getD 3 [])
  items : ∀ text ∈ [parts.getD 0 [], parts.getD 1 [], dayText parts, parts.getD 3 []], ∃ c ∈ text, c ≠ COMMA

section
variable {T : Type} [Ord T] [Std.TransOrd T] [Std.LawfulEqOrd T] {F : TimeField T} {value : Bytes} {rng : Rng}
  {u : TimeUnit T}

/-- An accepted text has no error, whatever is drawn. -/
theorem error_of_accepts (hF : F.Table) (hacc : F.accepts value) (h : parseTimeUnit F value rng = .ok u) :
    u.error = none := by
  obtain ⟨v, hv, he⟩ := (accepts_iff hF value rng).1 hacc
  rw [h] at hv
  cases hv
  exact he

/-- A field that was parsed without an error. -/
theorem parseTimeUnit_isEmpty (hF : F.Table) (h : parseTimeUnit F value rng = .ok u) (he : u.error = none) :
    F.accepts value ∧ (u.set.isEmpty = false ↔ ∃ c ∈ value, c ≠ COMMA) := by
  have hacc : F.accepts value := (accepts_iff hF value rng).2 ⟨u, h, he⟩
  obtain ⟨v, hv, -, -, hempty⟩ := parseTimeUnit_accepted hF hacc rng
  rw [h] at hv
  cases hv
  refine ⟨hacc, ?_⟩
  rw [← Bool.not_eq_true, hempty]
  push Not
  rfl

end

theorem ParsedFields.texts {parts : List Bytes} {rng : Rng} {j : Job} {m h d n : TimeUnit Nat}
    {w : TimeUnit Bytes} (hp : ParsedFields parts rng j m h d n w) :
    parseTimeUnit dayField (dayText parts) h.rng = .ok d ∧
      parseTimeUnit dowField (dowText parts) d.rng = .ok w := by
  have hday := hp.day
  have hdow := hp.dow
  rw [hp.lastDom, hp.lastDow] at hday hdow
  unfold dayText dowText hasLastDow
  by_cases hL : parts.getD 2 [] = lit "L"
  · simp only [hL, beq_self_eq_true, if_true, Bool.not_true, Bool.false_and, Bool.false_eq_true,
      if_false] at hday hdow
    simp only [hL, if_true, ne_eq, not_true_eq_false, false_and, if_false]
    exact ⟨hday, hdow⟩
  · have hfalse : (parts.getD 2 [] == lit "L") = false := beq_false_of_ne hL
    simp only [hfalse, Bool.false_eq_true, if_false, Bool.not_false, Bool.true_and] at hday hdow
    simp only [hL, if_false, ne_eq, not_false_eq_true, true_and]
    exact ⟨hday, hdow⟩

/-- The job of a line is valid exactly if its fields are read. -/
theorem ParsedFields.valid_iff {parts : List Bytes} {rng : Rng} {p : Job} {m h d n : TimeUnit Nat}
    {w : TimeUnit Bytes} (hp : ParsedFields parts rng p m h d n w)
    (hvalid : p.valid = (m.error.isNone && h.error.isNone && d.error.isNone && w.error.isNone &&
      n.error.isNone)) : p.generateScheduleFromTimespec.valid ↔ FieldsRead parts := by
  obtain ⟨hday, hdow⟩ := hp.texts
  have hj := hp.generate
  set j := p.generateScheduleFromTimespec with hjp
  have hsets : j.lacksValues = false ↔ n.set.isEmpty = false ∧ d.set.isEmpty = false ∧
      h.set.isEmpty = false ∧ m.set.isEmpty = false := by
    simp only [Job.lacksValues, Bool.or_eq_false_iff, hj.timespecMinute, hj.timespecHour,
      isEmpty_of_toList hj.timespecDom, isEmpty_of_toList hj.timespecMonth, and_assoc]
  have hboth : j.valid ↔ j.lacksValues = false ∧ p.valid := by
    rcases Job.generateScheduleFromTimespec_cases hjp with ⟨hl, hv, -⟩ | ⟨hl, hv, -⟩
    · rw [hl, hv]
      exact iff_of_false Bool.false_ne_true fun h => Bool.false_ne_true h.1.symm
    · rw [hl, hv]
      exact (and_iff_right rfl).symm
  rw [hboth, hsets, hvalid]
  simp only [Bool.and_eq_true, Option.isNone_iff_eq_none]
  constructor
  · rintro ⟨⟨hn0, hd0, hh0, hm0⟩, ⟨⟨⟨hme, hhe⟩, hde⟩, hwe⟩, hne⟩
    obtain ⟨hma, hmi⟩ := parseTimeUnit_isEmpty minuteField_table hp.minute hme
    obtain ⟨hha, hhi⟩ := parseTimeUnit_isEmpty hourField_table hp.hour hhe
    obtain ⟨hda, hdi⟩ := parseTimeUnit_isEmpty dayField_table hday hde
    obtain ⟨hwa, -⟩ := parseTimeUnit_isEmpty dowField_table hdow hwe
    obtain ⟨hna, hni⟩ := parseTimeUnit_isEmpty monthField_table hp.month hne
    refine ⟨hma, hha, hda, hwa, hna, ?_⟩
    simp only [List.mem_cons, List.not_mem_nil, or_false, forall_eq_or_imp, forall_eq]
    exact ⟨hmi.1 hm0, hhi.1 hh0, hdi.1 hd0, hni.1 hn0⟩
  · intro hr
    have hme := error_of_accepts minuteField_table hr.minute hp.minute
    have hhe := error_of_accepts hourField_table hr.hour hp.hour
    have hde := error_of_accepts dayField_table hr.day hday
    have hwe := error_of_accepts dowField_table hr.dow hdow
    have hne := error_of_accepts monthField_table hr.month hp.month
    refine ⟨⟨?_, ?_, ?_, ?_⟩, ⟨⟨⟨hme, hhe⟩, hde⟩, hwe⟩, hne⟩
    · exact (parseTimeUnit_isEmpty monthField_table hp.month hne).2.2 (hr.items _ (by simp))
    · exact (parseTimeUnit_isEmpty dayField_table hday hde).2.2 (hr.items _ (by simp))
    · exact (parseTimeUnit_isEmpty hourField_table hp.hour hhe).2.2 (hr.items _ (by simp))
    · exact (parseTimeUnit_isEmpty minuteField_table hp.minute hme).2.2 (hr.items _ (by simp))

/-- The job of a valid line without an `@`: its fields are read and have values. -/
theorem parseJob_valid_fields {host : Host} {kind : CrontabKind} {environment : Env} {line : Bytes}
    {rng rng' : Rng} {j : Job} (h : parseJob host kind environment line rng = .ok (j, rng'))
    (hk : kind.anacrontab = false) (hat : line.head? ≠ some AT) (hv : j.valid) :
    ∃ p : Job, j = p.generateScheduleFromTimespec ∧ p.generateScheduleFromTimespec.lacksValues = false ∧
      FieldsRead (tokens isFieldDelim line) ∧
      ∃ m h d n w, ParsedFields (tokens isFieldDelim line) rng p m h d n w := by
  obtain ⟨p, rfl, hp⟩ := parseJob_fields h hk hat
  have hlacks := Job.lacksValues_of_valid hv
  refine ⟨p, rfl, hlacks, ?_⟩
  rcases hp with ⟨hmin, -⟩ | ⟨m, h, d, n, w, hp, hvalid, -⟩
  · obtain ⟨_, _, _, heq⟩ := p.generateScheduleFromTimespec_eq
    rw [heq] at hlacks
    simp [Job.lacksValues, hmin] at hlacks
  · exact ⟨(hp.valid_iff hvalid).1 hv, m, h, d, n, w, hp⟩

/-- Fields that are read are parsed to an end. -/
theorem FieldsRead.isOk {host : Host} {kind : CrontabKind} {environment : Env} {line : Bytes}
    (hr : FieldsRead (tokens isFieldDelim line)) (rng : Rng) :
    ∃ r, parseJob host kind environment line rng = .ok r := by
  rw [parseJob_isOk]
  rcases parseLine_cases host kind environment line with ⟨p, hp⟩ | ⟨-, -, -, f, hf⟩
  · exact ⟨_, hp rng⟩
  rw [hf, exists_map_eq_ok]
  have hends : ∀ {T : Type} [Ord T] [Std.TransOrd T] [Std.LawfulEqOrd T] {F : TimeField T} {value : Bytes},
      F.Table → F.accepts value → ¬ F.Hangs value := by
    intro T _ _ _ F value hF hacc
    obtain ⟨u, hu, -⟩ := (accepts_iff hF value rng).1 hacc
    exact (parseTimeUnit_ends hF value rng).1 ⟨u, hu⟩
  have hday := hends dayField_table hr.day
  have hdow := hends dowField_table hr.dow
  unfold dayText hasLastDow at hday
  unfold dowText hasLastDow at hdow
  unfold lineFields
  generalize tokens isFieldDelim line = parts at hr hday hdow
  refine (Job.parseFields_ends _ _ _ _ _ _ rng).2 ⟨hends minuteField_table hr.minute,
    hends hourField_table hr.hour, ?_, ?_, hends monthField_table hr.month⟩
  · simpa only [beq_iff_eq] using hday
  · simpa only [Bool.and_eq_true, Bool.not_eq_true', beq_eq_false_iff_ne] using hdow

/-- The values of a parsed field are in its range. -/
theorem elementOf_wf {F : TimeField Nat} {value : Bytes} {rng : Rng} {u : TimeUnit Nat} {lo hi : Nat}
    (hF : ∀ x ∈ F.values, lo ≤ x ∧ x ≤ hi) (ha : F.asterisk = TIMESPEC_ASTERISK)
    (h : parseTimeUnit F value rng = .ok u) : ∀ e ∈ u.set.toList.map elementOf, e.WF lo hi := by
  intro e he
  obtain ⟨f, hf, rfl⟩ := List.mem_map.1 he
  rw [Std.TreeSet.mem_toList] at hf
  unfold elementOf
  split
  · trivial
  next hne =>
    rcases parseTimeUnit_values h with ⟨-, hset⟩ | hset
    · rw [hset, ha, Std.TreeSet.ofList_singleton, mem_insert_iff] at hf
      exact absurd (hf.resolve_right (by simp)) hne
    · exact hF f (hset f hf)

namespace ParsedFields

variable {parts : List Bytes} {rng : Rng} {j : Job} {m h d n : TimeUnit Nat} {w : TimeUnit Bytes}

/-- The expression of a job has every number in its range. -/
theorem scheduleExpr_wf (hj : ParsedFields parts rng j m h d n w) (hne : j.lacksValues = false) :
    (scheduleExpr j).WF := by
  refine ⟨scheduleExpr_nonempty hne, ?_, ?_, ?_, ?_⟩
  · simp only [scheduleExpr, hj.timespecMonth]
    exact elementOf_wf (by decide) rfl hj.month
  · cases hl : j.lastDow with
    | false =>
      simp only [scheduleExpr, hl, Bool.false_eq_true, if_false, hj.timespecDom]
      exact elementOf_wf (by decide) rfl hj.texts.1
    | true =>
      have hlast := hj.timespecDom_last (by rw [hl]; rfl)
      simp only [scheduleExpr, hl, if_true, hlast, List.map_cons, List.map_nil]
      cases j.lastDom <;> decide
  · simp only [scheduleExpr, hj.timespecHour]
    exact elementOf_wf (by decide) rfl hj.hour
  · simp only [scheduleExpr, hj.timespecMinute]
    exact elementOf_wf (by decide) rfl hj.minute

/-- The schedule of a job is a calendar unless its weekdays are missing. -/
theorem calendar_iff {p : Job} (hp : ParsedFields parts rng p m h d n w)
    (hne : p.generateScheduleFromTimespec.lacksValues = false) :
    (p.generateScheduleFromTimespec.schedule = lit "reboot" ∨
      WellFormed p.generateScheduleFromTimespec.schedule) ↔ w.set.isEmpty = false := by
  have hj := hp.generate
  set j := p.generateScheduleFromTimespec with hjp
  have hlast : j.lastDow → ∃ d, d ≠ TIMESPEC_ASTERISK ∧ j.timespecDom.toList = [d] := by
    intro hl
    refine ⟨_, ?_, hj.timespecDom_last (by rw [hl]; rfl)⟩
    cases j.lastDom <;> decide
  have hs := schedule_eq hjp hne hj.timespecDow_values hlast
  have hspace := (scheduleExpr j).space_mem_render (lit "00")
  have hreboot : j.schedule ≠ lit "reboot" := by
    intro h
    rw [hs] at h
    have hmem : SPACE ∈ lit "reboot" := h ▸ List.mem_append_right _ hspace
    revert hmem
    decide
  rw [or_iff_right hreboot, hs, hj.timespecDow]
  cases hdow : w.set.isEmpty with
  | false =>
    rw [if_neg Bool.false_ne_true, List.nil_append, wellFormed_render (scheduleExpr_nonempty hne)
      (show parseDecimal (lit "00") = some 0 by decide)]
    exact iff_of_true (hj.scheduleExpr_wf hne) rfl
  | true =>
    -- The blank in front is taken for the end of a list of weekdays.
    rw [if_pos rfl]
    refine iff_of_false ?_ (by decide)
    rintro (hkey | ⟨e, he, -⟩)
    · have hall : ∀ k ∈ keywords, SPACE ∉ k := by decide
      exact hall _ hkey (by simp)
    · rw [List.singleton_append, parse_space_cons] at he
      cases he

end ParsedFields

theorem zero_notMem_of_toList {F : TimeField Nat} {value : Bytes} {rng : Rng} {u : TimeUnit Nat}
    {s : Std.TreeSet Nat} (h : parseTimeUnit F value rng = .ok u) (hF : 0 ∉ F.values) (ha : F.asterisk ≠ 0)
    (hs : s.toList = u.set.toList) : s.contains 0 = false := by
  rw [Bool.eq_false_iff]
  intro hmem
  have h0 : 0 ∈ u.set := by rwa [← Std.TreeSet.mem_toList, ← hs, Std.TreeSet.mem_toList]
  rcases parseTimeUnit_values h with ⟨-, hset⟩ | hset
  · rw [hset, Std.TreeSet.ofList_singleton, mem_insert_iff] at h0
    exact h0.elim (fun h => ha h.symm) (by simp)
  · exact hF (hset 0 h0)

/-- A job has a calendar. -/
def Job.Timed (j : Job) : Prop := j.schedule = lit "reboot" ∨ WellFormed j.schedule

/-- The job of a line without an `@`. -/
theorem parseJob_timespec {host : Host} {kind : CrontabKind} {environment : Env} {line : Bytes}
    (hk : kind.anacrontab = false) (hw : kind.withuser ≠ .fromCmd0) (hat : line.head? ≠ some AT) (rng : Rng) :
    (6 ≤ (tokens isFieldDelim line).length ∧ FieldsRead (tokens isFieldDelim line) ∧
      ∃ j rng', parseJob host kind environment line rng = .ok (j, rng') ∧ j.valid ∧ checkRejects j = false ∧
        (j.Timed ↔ ∃ c ∈ dowText (tokens isFieldDelim line), c ≠ COMMA)) ∨
    (¬ (6 ≤ (tokens isFieldDelim line).length ∧ FieldsRead (tokens isFieldDelim line)) ∧
      ∀ j rng', parseJob host kind environment line rng = .ok (j, rng') → j.valid = false) := by
  by_cases hr : 6 ≤ (tokens isFieldDelim line).length ∧ FieldsRead (tokens isFieldDelim line)
  · obtain ⟨hlen, hread⟩ := hr
    obtain ⟨⟨j, rng'⟩, hok⟩ := @FieldsRead.isOk host kind environment _ hread rng
    refine .inl ⟨hlen, hread, j, rng', hok, ?_⟩
    obtain ⟨p, rfl, ⟨-, hshort⟩ | ⟨m, h, d, n, w, hp, hvalid, -, -, hwithout⟩⟩ := parseJob_fields hok hk hat
    · rw [if_neg hw] at hshort
      exact absurd hlen (not_le.2 hshort)
    have hv := (hp.valid_iff hvalid).2 hread
    have hlacks := Job.lacksValues_of_valid hv
    have hperiod : p.generateScheduleFromTimespec.period = [] := by
      obtain ⟨_, _, _, heq⟩ := p.generateScheduleFromTimespec_eq
      rw [heq]
      refine (congrArg Job.period hwithout :).trans ?_
      set q := (newJob host kind environment line).withoutFields.parseUserCommand kind.withuser 5 with hq
      obtain ⟨_, _, _, _, _, _, _, hdecode⟩ :=
        Job.decodeCommand_eq host { q with jobid := q.jobid.filter isAsciiAlnum }
      obtain ⟨_, _, _, _, huser⟩ := (newJob host kind environment line).withoutFields.parseUserCommand_eq
        kind.withuser 5
      rw [Job.decode, hdecode]
      change q.period = []
      rw [hq, huser]
      exact (newJob_sameLine host kind environment line).period
    refine ⟨hv, ?_, ?_⟩
    · rw [checkRejects, hv, hperiod]
      simp only [Bool.not_true, Bool.false_eq_true, if_false, ne_eq, not_true_eq_false,
        zero_notMem_of_toList hp.month (by decide) (by decide) hp.generate.timespecMonth,
        zero_notMem_of_toList hp.texts.1 (by decide) (by decide) hp.generate.timespecDom, Bool.or_self]
    · have hwe := error_of_accepts dowField_table hread.dow hp.texts.2
      exact (hp.calendar_iff hlacks).trans (parseTimeUnit_isEmpty dowField_table hp.texts.2 hwe).2
  · refine .inr ⟨hr, fun j rng' hok => ?_⟩
    obtain ⟨p, rfl, ⟨hmin, -⟩ | ⟨m, h, d, n, w, hp, hvalid, hlen, -⟩⟩ := parseJob_fields hok hk hat
    · rcases Job.generateScheduleFromTimespec_cases (p := p) rfl with ⟨-, hfalse, -⟩ | ⟨hl, -, -⟩
      · exact hfalse
      · obtain ⟨_, _, _, heq⟩ := p.generateScheduleFromTimespec_eq
        rw [heq] at hl
        simp [Job.lacksValues, hmin] at hl
    · rw [if_neg hw] at hlen
      rw [Bool.eq_false_iff]
      exact fun hv => hr ⟨hlen, (hp.valid_iff hvalid).1 hv⟩

/-! ### What becomes of a line -/

/-- A line that `check` lets through though its job gets no calendar: a period that consists of `@`s only, a
keyword with an hour or a delay that is none, or fields without a weekday. -/
def Overlooked (hour delay : Nat) (line : Bytes) : Prop :=
  if line.head? = some AT then
    2 ≤ (tokens isFieldDelim line).length ∧ (normalPeriod (firstWord line) = [] ∨
      ∃ k : Keyword, normalPeriod (firstWord line) = k.name ∧ ¬ (Recognised.keyword k).Fits hour delay)
  else
    6 ≤ (tokens isFieldDelim line).length ∧ FieldsRead (tokens isFieldDelim line) ∧
      ∀ c ∈ dowText (tokens isFieldDelim line), c = COMMA

/-- A line that `check` does not let through though its job gets a calendar: a number of days other than those
that stand for a keyword. -/
def Spurned (hour delay : Nat) (line : Bytes) : Prop :=
  line.head? = some AT ∧ 2 ≤ (tokens isFieldDelim line).length ∧ ¬ IsKeyword (normalPeriod (firstWord line)) ∧
    IsDays hour delay (normalPeriod (firstWord line))

/-- A line that neither `check` nor the generator can do anything with. -/
def Hopeless (hour delay : Nat) (line : Bytes) : Prop :=
  if line.head? = some AT then
    (tokens isFieldDelim line).length < 2 ∨
      normalPeriod (firstWord line) ≠ [] ∧ ¬ IsKeyword (normalPeriod (firstWord line)) ∧
        ¬ IsDays hour delay (normalPeriod (firstWord line))
  else (tokens isFieldDelim line).length < 6 ∨ ¬ FieldsRead (tokens isFieldDelim line)

theorem not_isKeyword_nil : ¬ IsKeyword [] := by decide

theorem not_isDays_nil (hour delay : Nat) : ¬ IsDays hour delay [] := by
  have hnil : (intMap [] false false).2 = true := by decide
  rintro ⟨n, hn, -⟩
  rw [(@intMap_eq_iff _ _ false).2 hn] at hnil
  cases hnil

/-- What `check` lets through. -/
theorem check_line_iff (host : Host) (cronFile : Bytes) (environment : Env) (line : Bytes) (rng : Rng)
    (hour delay : Nat) :
    (∃ j rng', parseJob host (checkKind cronFile) environment line rng = .ok (j, rng') ∧
      checkRejects j = false) ↔ ¬ Hopeless hour delay line ∧ ¬ Spurned hour delay line := by
  have hreject {j : Job} (h : j.valid = false) : checkRejects j = true := by rw [checkRejects, h]; rfl
  by_cases hat : line.head? = some AT
  · obtain ⟨j, hok, hj⟩ := parseJob_at host environment rng (rfl : (checkKind cronFile).anacrontab = _) hat
    rw [if_neg (show (checkKind cronFile).withuser ≠ .fromCmd0 from nofun)] at hj
    have hiff : (∃ j rng', parseJob host (checkKind cronFile) environment line rng = .ok (j, rng') ∧
        checkRejects j = false) ↔ checkRejects j = false := by
      rw [hok]
      constructor
      · rintro ⟨_, _, h, hr⟩
        cases h
        exact hr
      · exact fun hr => ⟨j, rng, rfl, hr⟩
    rw [hiff, Hopeless, if_pos hat, Spurned]
    by_cases hlen : 2 ≤ (tokens isFieldDelim line).length
    · rw [if_pos hlen] at hj
      obtain ⟨hvalid, hperiod, -, hmonth, hdom, -⟩ := hj
      have hcheck : checkRejects j = false ↔
          normalPeriod (firstWord line) = [] ∨ IsKeyword (normalPeriod (firstWord line)) := by
        rw [checkRejects, hvalid, hperiod, hmonth, hdom, ← mem_validPeriods_iff]
        by_cases hnil : normalPeriod (firstWord line) = []
        · simp [hnil]
        · simp [hnil]
      rw [hcheck, and_iff_right hat, and_iff_right hlen, or_iff_right (not_lt.2 hlen)]
      generalize normalPeriod (firstWord line) = p
      by_cases hnil : p = []
      · refine iff_of_true (.inl hnil) ⟨fun h => h.1 hnil, fun h => ?_⟩
        rw [hnil] at h
        exact not_isDays_nil hour delay h.2
      · rw [or_iff_right hnil, and_iff_right hnil]
        by_cases hkey : IsKeyword p
        · exact iff_of_true hkey ⟨fun h => h.1 hkey, fun h => h.1 hkey⟩
        · rw [and_iff_right hkey, and_iff_right hkey]
          exact iff_of_false hkey fun h => h.1 h.2
    · rw [if_neg hlen] at hj
      refine iff_of_false ?_ fun h => h.1 (.inl (not_le.1 hlen))
      rw [hreject hj]
      decide
  · rw [Hopeless, if_neg hat, Spurned]
    rcases @parseJob_timespec host (checkKind cronFile) environment _ rfl
      (show WithUser.initial ≠ .fromCmd0 by decide) hat rng with
      ⟨hlen, hread, j, rng', hok, -, hr, -⟩ | ⟨hn, hinvalid⟩
    · refine iff_of_true ⟨j, rng', hok, hr⟩ ⟨?_, fun h => hat h.1⟩
      rintro (h | h)
      · exact absurd hlen (not_le.2 h)
      · exact h hread
    · refine iff_of_false ?_ ?_
      · rintro ⟨j, rng', hok, hr⟩
        rw [hreject (hinvalid j rng' hok)] at hr
        cases hr
      · rintro ⟨h, -⟩
        push Not at h
        exact hn h

/-- The jobs that get a calendar. -/
theorem timed_line_iff {host : Host} {kind : CrontabKind} {environment : Env} {line : Bytes} {hour delay : Nat}
    (hk : kind.anacrontab = false) (hw : kind.withuser ≠ .fromCmd0)
    (hhour : (newJob host kind environment line).startHour = hour)
    (hdelay : (newJob host kind environment line).bootDelay = delay) (rng : Rng) :
    (∃ j rng', parseJob host kind environment line rng = .ok (j, rng') ∧ j.valid ∧ j.Timed) ↔
      ¬ Hopeless hour delay line ∧ ¬ Overlooked hour delay line := by
  by_cases hat : line.head? = some AT
  · obtain ⟨j, hok, hj⟩ := parseJob_at host environment rng hk hat
    rw [if_neg hw] at hj
    have hiff : (∃ j rng', parseJob host kind environment line rng = .ok (j, rng') ∧ j.valid ∧ j.Timed) ↔
        j.valid ∧ j.Timed := by
      rw [hok]
      constructor
      · rintro ⟨_, _, h, hr⟩
        cases h
        exact hr
      · exact fun hr => ⟨j, rng, rfl, hr⟩
    rw [hiff, Hopeless, if_pos hat, Overlooked, if_pos hat]
    by_cases hlen : 2 ≤ (tokens isFieldDelim line).length
    · rw [if_pos hlen] at hj
      obtain ⟨hvalid, -, hschedule, -⟩ := hj
      have hspace : SPACE ∉ firstWord line := by
        rcases htok : tokens isFieldDelim line with - | ⟨w, rest⟩
        · simp [firstWord, htok]
        · have hmem : w ∈ tokens isFieldDelim line := by rw [htok]; exact List.mem_cons_self
          rw [firstWord, htok]
          intro hc
          exact absurd (no_delim_of_mem_tokens hmem _ hc) (by decide)
      rw [hvalid, and_iff_right rfl, Job.Timed, hschedule, hhour, hdelay, calendar_period_iff hspace,
        and_iff_right hlen, or_iff_right (not_lt.2 hlen)]
      generalize normalPeriod (firstWord line) = p
      by_cases hkey : IsKeyword p
      · obtain ⟨k, rfl⟩ := hkey
        have hnil : k.name ≠ [] := fun h => not_isKeyword_nil ⟨k, h.symm⟩
        have hunique {P : Keyword → Prop} : (∃ k' : Keyword, k.name = k'.name ∧ P k') ↔ P k :=
          ⟨fun ⟨k', h, hp⟩ => Keyword.name_injective h ▸ hp, fun hp => ⟨k, rfl, hp⟩⟩
        rw [hunique, hunique, or_iff_right hnil, not_not]
        exact ⟨fun h => ⟨fun hn => hn.2.1 ⟨k, rfl⟩, h.resolve_right fun hn => hn.1 ⟨k, rfl⟩⟩, fun h => .inl h.2⟩
      · have hnone {P : Keyword → Prop} : ¬ ∃ k : Keyword, p = k.name ∧ P k := fun ⟨k, h, _⟩ => hkey ⟨k, h⟩
        rw [or_iff_right hnone, or_iff_left hnone, and_iff_right hkey, and_iff_right hkey]
        constructor
        · exact fun h => ⟨fun hn => hn.2 h, fun hn => not_isDays_nil hour delay (hn ▸ h)⟩
        · exact fun h => not_not.1 fun hn => h.1 ⟨h.2, hn⟩
    · rw [if_neg hlen] at hj
      rw [hj]
      exact iff_of_false (fun h => Bool.false_ne_true h.1) fun h => h.1 (.inl (not_le.1 hlen))
  · rw [Hopeless, if_neg hat, Overlooked, if_neg hat]
    rcases @parseJob_timespec host kind environment _ hk hw hat rng with
      ⟨hlen, hread, j, rng', hok, hvalid, -, htimed⟩ | ⟨hn, hinvalid⟩
    · have hfine : ¬ ((tokens isFieldDelim line).length < 6 ∨ ¬ FieldsRead (tokens isFieldDelim line)) := by
        rintro (h | h)
        · exact absurd hlen (not_le.2 h)
        · exact h hread
      rw [and_iff_right hfine, and_iff_right hlen, and_iff_right hread]
      push Not
      rw [← htimed, hok]
      constructor
      · rintro ⟨_, _, h, -, ht⟩
        cases h
        exact ht
      · exact fun ht => ⟨j, rng', rfl, hvalid, ht⟩
    · refine iff_of_false ?_ ?_
      · rintro ⟨j, rng', hok, hv, -⟩
        rw [hinvalid j rng' hok] at hv
        cases hv
      · rintro ⟨h, -⟩
        push Not at h
        exact hn h

/-! ### Files -/

/-- All jobs of a file have a property if each of its lines does, whatever is drawn. -/
theorem crontabLoop_all {host : Host} {kind : CrontabKind} {environment : Env} {P : Job → Prop}
    {L : List Bytes × Bytes → Prop}
    (hL : ∀ p rng, (∃ j rng', parseJob host kind (environmentBelow environment p.1) p.2 rng = .ok (j, rng') ∧
      P j) ↔ L p) (lines above : List Bytes) (s : CrontabState)
    (henv : s.environment = environmentBelow environment above) :
    (∃ s', crontabLoop host kind s lines = .ok s' ∧ ∀ j ∈ s'.jobs, P j) ↔
      (∀ j ∈ s.jobs, P j) ∧ ∀ p ∈ jobLinesBelow above lines, L p := by
  induction lines generalizing s above with
  | nil => simp [crontabLoop, jobLinesBelow]
  | cons line lines ih =>
    have hbelow := environmentBelow_append_singleton environment above line
    rw [crontabLoop, crontabStep, jobLinesBelow]
    rcases hm : matchEnvvar line with - | ⟨key, value⟩
    · have hs := setting_eq_none.2 hm
      rw [if_pos hs, List.forall_mem_cons, ← hL (above, line) s.rng, ← henv]
      rw [hs, ← henv] at hbelow
      dsimp only
      rcases hp : parseJob host kind s.environment line s.rng with f | ⟨j, rng'⟩
      · simp
      · have hrest := ih (above ++ [line]) { s with jobs := s.jobs ++ [j], rng := rng' } hbelow.symm
        dsimp only at hrest ⊢
        have hone : (∃ j' r, Except.ok (j, rng') = (.ok (j', r) : Except Fault (Job × Rng)) ∧ P j') ↔ P j := by
          constructor
          · rintro ⟨_, _, h, hj⟩
            cases h
            exact hj
          · exact fun hj => ⟨j, rng', rfl, hj⟩
        rw [hrest, List.forall_mem_append, List.forall_mem_singleton, hone, and_assoc]
    · have hs := setting_of_matchEnvvar hm
      rw [if_neg (by rw [hs]; exact Option.some_ne_none _)]
      rw [hs, ← henv] at hbelow
      dsimp only at hbelow ⊢
      refine ih (above ++ [line]) _ ?_
      rw [hbelow]
      exact applySetting_fst ..

theorem parseCrontab_all {host : Host} {kind : CrontabKind} {environment : Env} {P : Job → Prop}
    {L : List Bytes × Bytes → Prop}
    (hL : ∀ p rng, (∃ j rng', parseJob host kind (environmentBelow environment p.1) p.2 rng = .ok (j, rng') ∧
      P j) ↔ L p) (content : Bytes) (rng : Rng) :
    (∃ r, parseCrontab host kind environment (some content) rng = .ok r ∧ ∀ j ∈ r.jobs, P j) ↔
      ∀ p ∈ jobLines (crontabLines content), L p := by
  unfold parseCrontab
  dsimp only
  by_cases hc : content = []
  · subst hc
    simp [crontabLines, softTokenise_eq, jobLinesBelow]
  · rw [if_neg hc]
    have hloop := crontabLoop_all hL (crontabLines content) []
      { environment, cronInheritVariables := [], jobs := [], rng } rfl
    have hnil : ∀ j ∈ ([] : List Job), P j := fun _ hj => absurd hj List.not_mem_nil
    rw [and_iff_right hnil] at hloop
    rw [← hloop]
    rcases crontabLoop host kind { environment, cronInheritVariables := [], jobs := [], rng }
      (crontabLines content) with e | s
    · simp
    · simp

/-- The exit status of `check` is success. -/
theorem check_ok_iff (host : Host) (cronFile content : Bytes) (rng : Rng) :
    check host cronFile (some content) rng = .ok false ↔
      ∃ r, parseCrontab host (checkKind cronFile) {} (some content) rng = .ok r ∧
        ∀ j ∈ r.jobs, checkRejects j = false := by
  unfold check
  rcases h : parseCrontab host (checkKind cronFile) {} (some content) rng with e | r
  · simp
  · have hok : r.ok = true := by
      unfold parseCrontab at h
      dsimp only at h
      split at h
      · cases h; rfl
      · split at h
        · cases h
        · cases h; rfl
    simp [hok]

variable (host : Host) (cfg : Config) (top : Toplevel) (name : Bytes)

/-- The job of a line, with the settings above it, before the line is parsed. -/
def settledJob (p : List Bytes × Bytes) : Job :=
  newJob host (spoolKind cfg top name) (environmentBelow top.inheritVariables p.1) p.2

/-- What becomes of a line of the crontab of a user, with the hour and the delay that are set above it. -/
def OfUser (P : Nat → Nat → Bytes → Prop) (p : List Bytes × Bytes) : Prop :=
  P (settledJob host cfg top name p).startHour (settledJob host cfg top name p).bootDelay p.2

/-- **`crontab -T`** agrees with the generator on a file exactly if the file has a line that fails in both, or
if it has lines of both kinds that they differ on, or of neither. -/
theorem check_agrees_iff (cronFile content : Bytes) (rng rng' : Rng) :
    (check host cronFile (some content) rng = .ok false ↔
      ∃ r, parseCrontab host (spoolKind cfg top name) top.inheritVariables (some content) rng' = .ok r ∧
        ∀ j ∈ r.jobs, j.valid ∧ (j.schedule = lit "reboot" ∨ WellFormed j.schedule)) ↔
    (∃ p ∈ jobLines (crontabLines content), OfUser host cfg top name Hopeless p) ∨
      ((∃ p ∈ jobLines (crontabLines content), OfUser host cfg top name Overlooked p) ↔
        ∃ p ∈ jobLines (crontabLines content), OfUser host cfg top name Spurned p) := by
  have hcheck := parseCrontab_all (fun p rng => check_line_iff host cronFile (environmentBelow {} p.1) p.2 rng
    (settledJob host cfg top name p).startHour (settledJob host cfg top name p).bootDelay) content rng
  have htimed := @parseCrontab_all host (spoolKind cfg top name) top.inheritVariables _ _
    (fun p rng => timed_line_iff rfl (show WithUser.fromBasename ≠ .fromCmd0 by decide) rfl rfl rng) content
    rng'
  rw [check_ok_iff, hcheck]
  refine (iff_congr Iff.rfl htimed).trans ?_
  change ((∀ p ∈ jobLines (crontabLines content), ¬ OfUser host cfg top name Hopeless p ∧
    ¬ OfUser host cfg top name Spurned p) ↔ ∀ p ∈ jobLines (crontabLines content),
    ¬ OfUser host cfg top name Hopeless p ∧ ¬ OfUser host cfg top name Overlooked p) ↔ _
  generalize jobLines (crontabLines content) = l
  generalize OfUser host cfg top name Hopeless = H
  generalize OfUser host cfg top name Overlooked = O
  generalize OfUser host cfg top name Spurned = S
  by_cases hH : ∃ p ∈ l, H p
  · obtain ⟨p, hp, hHp⟩ := hH
    exact iff_of_true (iff_of_false (fun h => (h p hp).1 hHp) fun h => (h p hp).1 hHp) (.inl ⟨p, hp, hHp⟩)
  · have hnone {Q : List Bytes × Bytes → Prop} : (∀ p ∈ l, ¬ H p ∧ ¬ Q p) ↔ ¬ ∃ p ∈ l, Q p :=
      ⟨fun h ⟨p, hp, hq⟩ => (h p hp).2 hq, fun h p hp => ⟨fun hh => hH ⟨p, hp, hh⟩, fun hq => h ⟨p, hp, hq⟩⟩⟩
    rw [hnone, hnone, or_iff_right hH, not_iff_not]
    exact Iff.comm

/-- The jobs of the crontab of a user on a bare host. -/
def userJobs (content : Bytes) : List Job :=
  crontabJobs .bare (spoolKind {} {} (lit "user")) {} content fun _ => 0

/-- Fields without a weekday pass the check and get no calendar, and every second day gets one and does not
pass. -/
theorem check_differs :
    check .bare (lit "user") (some (lit "0 9 * * , true")) (fun _ => 0) = .ok false ∧
    (userJobs (lit "0 9 * * , true")).map (·.schedule) = [lit " *-*-* 9:0:00"] ∧
    check .bare (lit "user") (some (lit "@2 true")) (fun _ => 0) = .ok true ∧
    (userJobs (lit "@2 true")).map (fun j => (j.valid, j.schedule)) = [(true, lit "*-*-1/2 0:0:0")] ∧
    ¬ ∀ content, (check .bare (lit "user") (some content) (fun _ => 0) = .ok false ↔
      ∃ r, parseCrontab .bare (spoolKind {} {} (lit "user")) {} (some content) (fun _ => 0) = .ok r ∧
        ∀ j ∈ r.jobs, j.valid ∧ (j.schedule = lit "reboot" ∨ WellFormed j.schedule)) := by
  have hcheck : check .bare (lit "user") (some (lit "0 9 * * , true")) (fun _ => 0) = .ok false := by
    decide +kernel
  have hschedule : (userJobs (lit "0 9 * * , true")).map (·.schedule) = [lit " *-*-* 9:0:00"] := by
    decide +kernel
  refine ⟨hcheck, hschedule, by decide +kernel, by decide +kernel, fun h => ?_⟩
  obtain ⟨r, hr, hall⟩ := (h (lit "0 9 * * , true")).1 hcheck
  have hjobs : userJobs (lit "0 9 * * , true") = r.jobs := by rw [userJobs, crontabJobs, hr]
  have hmem : lit " *-*-* 9:0:00" ∈ r.jobs.map (·.schedule) := by
    rw [← hjobs, hschedule]
    exact List.mem_singleton_self _
  obtain ⟨j, hj, hs⟩ := List.mem_map.1 hmem
  rcases (hall j hj).2 with hreboot | hkey | ⟨e, he, -⟩
  · rw [hs] at hreboot
    revert hreboot
    decide
  · rw [hs] at hkey
    revert hkey
    decide
  · rw [hs] at he
    have hnone : parse (lit " *-*-* 9:0:00") = none := parse_space_cons (lit "*-*-* 9:0:00")
    rw [hnone] at he
    cases he

end SystemdCron
