import SystemdCron.Crontab
import SystemdCron.FieldValues
import SystemdCron.Lib.OnCalendar

/-!
# The calendar expression of five fields

`generate_schedule_from_timespec` writes a calendar event expression (`schedule_eq`): `scheduleExpr` is
read off the parsed sets, and its text is the schedule. That the text determines the sets is then the
round trip of the grammar.
-/

namespace SystemdCron

open Bytes OnCalendar

/-! ### The job of a five-field line -/

/-- What the first five words of a line are parsed to, in the job of the line. -/
structure ParsedFields (parts : List Bytes) (rng : Rng) (j : Job) (m h d n : TimeUnit Nat)
    (w : TimeUnit Bytes) : Prop where
  lastDom : j.lastDom = (parts.getD 2 [] == lit "L")
  lastDow : j.lastDow = ((parts.getD 4 []).length == 2 && (parts.getD 4 []).getLast? == some 76)
  minute : parseTimeUnit minuteField (parts.getD 0 []) rng = .ok m
  hour : parseTimeUnit hourField (parts.getD 1 []) m.rng = .ok h
  day : parseTimeUnit dayField (if j.lastDom then lit "1" else if j.lastDow then lit "7/1"
    else parts.getD 2 []) h.rng = .ok d
  dow : parseTimeUnit dowField (if !j.lastDom && j.lastDow then (parts.getD 4 []).take 1
    else parts.getD 4 []) d.rng = .ok w
  month : parseTimeUnit monthField (parts.getD 3 []) w.rng = .ok n
  timespecMinute : j.timespecMinute = m.set
  timespecHour : j.timespecHour = h.set
  timespecDom : j.timespecDom.toList = d.set.toList
  timespecDow : j.timespecDow = w.set
  timespecMonth : j.timespecMonth.toList = n.set.toList
  sundayIsSeven : j.sundayIsSeven = Job.endsInSunday
    (if !j.lastDom && j.lastDow then (parts.getD 4 []).take 1 else parts.getD 4 [])

/-- The texts of the first five words of a line that are noted for the hash. -/
structure NotedFields (parts : List Bytes) (j : Job) (m h d n : TimeUnit Nat) (w : TimeUnit Bytes) :
    Prop where
  minute : j.timespecMinuteRaw = Job.fieldRaw j.persistent (parts.getD 0 []) m
  hour : j.timespecHourRaw = Job.fieldRaw j.persistent (parts.getD 1 []) h
  day : j.timespecDomRaw = Job.fieldRaw j.persistent (if j.lastDom then lit "1" else
    if j.lastDow then lit "7/1" else parts.getD 2 []) d
  dow : j.timespecDowRaw = Job.fieldRaw j.persistent (if !j.lastDom && j.lastDow then
    (parts.getD 4 []).take 1 else parts.getD 4 []) w
  month : j.timespecMonthRaw = Job.fieldRaw j.persistent (parts.getD 3 []) n

/-- The zero that is erased before a schedule is generated is in no set that was parsed. -/
theorem toList_erase_zero {F : TimeField Nat} {text : Bytes} {rng : Rng} {u : TimeUnit Nat}
    {s : Std.TreeSet Nat} (h : parseTimeUnit F text rng = .ok u) (hF : 0 ∉ F.values)
    (ha : F.asterisk ≠ 0) (hs : s.toList = u.set.toList) : (s.erase 0).toList = u.set.toList := by
  have h0 : 0 ∉ s := by
    rw [← Std.TreeSet.mem_toList, hs, Std.TreeSet.mem_toList]
    rcases parseTimeUnit_values h with ⟨-, hset⟩ | hset
    · rw [hset]
      simpa [Std.TreeSet.ofList_singleton, mem_insert_iff] using ha
    · exact fun hmem => hF (hset 0 hmem)
  refine (Std.TreeSet.Equiv.toList_eq (.of_forall_mem_iff fun k => ?_)).trans hs
  rw [Std.TreeSet.mem_erase]
  refine ⟨fun h => h.2, fun h => ⟨fun heq => h0 ?_, h⟩⟩
  rwa [Std.LawfulEqCmp.compare_eq_iff_eq.1 heq]

theorem Job.generateScheduleFromTimespec_eq (p : Job) : ∃ schedule raw valid,
    p.generateScheduleFromTimespec = { p with
      timespecMonth := p.timespecMonth.erase 0, timespecDom := p.timespecDom.erase 0
      schedule, scheduleRaw := raw, valid } := by
  unfold generateScheduleFromTimespec
  extract_lets q
  split
  · exact ⟨_, _, _, rfl⟩
  · exact ⟨_, _, _, rfl⟩

/-- The schedule is generated from the sets that were parsed, and leaves them. -/
theorem ParsedFields.generate {parts : List Bytes} {rng : Rng} {p : Job} {m h d n : TimeUnit Nat}
    {w : TimeUnit Bytes} (hp : ParsedFields parts rng p m h d n w) :
    ParsedFields parts rng p.generateScheduleFromTimespec m h d n w := by
  obtain ⟨_, _, _, heq⟩ := p.generateScheduleFromTimespec_eq
  rw [heq]
  exact { hp with
    timespecDom := toList_erase_zero hp.day (by decide) (by decide) hp.timespecDom
    timespecMonth := toList_erase_zero hp.month (by decide) (by decide) hp.timespecMonth }

/-- The job of a line that has no `@` gets its schedule from the fields, and has none if there are too few
of them. -/
theorem parseJob_fields {host : Host} {kind : CrontabKind} {environment : Env} {line : Bytes}
    {rng rng' : Rng} {j : Job} (h : parseJob host kind environment line rng = .ok (j, rng'))
    (hk : kind.anacrontab = false) (hat : line.head? ≠ some AT) :
    ∃ p : Job, j = p.generateScheduleFromTimespec ∧
      ((p.timespecMinute.isEmpty ∧
        (tokens isFieldDelim line).length < 6 + (if kind.withuser = .fromCmd0 then 1 else 0)) ∨
      ∃ m h d n w, ParsedFields (tokens isFieldDelim line) rng p m h d n w ∧
        p.valid = (m.error.isNone && h.error.isNone && d.error.isNone && w.error.isNone &&
          n.error.isNone) ∧
        6 + (if kind.withuser = .fromCmd0 then 1 else 0) ≤ (tokens isFieldDelim line).length ∧
        NotedFields (tokens isFieldDelim line) p m h d n w ∧
        p.withoutFields = ((newJob host kind environment line).withoutFields.parseUserCommand
          kind.withuser 5).decode host) := by
  obtain ⟨p, hp, rfl⟩ := parseJob_ok h
  have hparts := newJob_parts host kind environment line
  have hsame := newJob_sameLine host kind environment line
  simp only [parseLine] at hp
  rw [if_neg (by simp [hk]), if_neg hat] at hp
  generalize newJob host kind environment line = j at hp hparts hsame
  obtain ⟨_, _, _, _, _, _, _, hdecode⟩ :=
    Job.decodeCommand_eq host { p with jobid := p.jobid.filter isAsciiAlnum }
  rcases Job.parseCrontabTimespec_ok hp with ⟨hlen, log, rfl⟩ | ⟨f, hf, hlen, rfl⟩
  · refine ⟨_, if_neg (not_not.2 ?_), .inl ⟨?_, hparts ▸ hlen⟩⟩ <;> rw [Job.decode, hdecode]
    · exact hsame.period
    · exact (congrArg Std.TreeSet.isEmpty hsame.timespecMinute).trans rfl
  · obtain ⟨_, _, _, _, heq⟩ := f.parseUserCommand_eq kind.withuser 5
    obtain ⟨m, h, d, w, n, hm, hh, hd, hw, hn, hrng, _, hfields⟩ :=
      Job.parseFields_ok hf
    generalize hmraw : Job.fieldRaw _ _ m = mraw, hhraw : Job.fieldRaw _ _ h = hraw,
      hdraw : Job.fieldRaw _ _ d = draw, hwraw : Job.fieldRaw _ _ w = wraw,
      hnraw : Job.fieldRaw _ _ n = nraw at hfields
    have hwithout : ((f.parseUserCommand kind.withuser 5).decode host).withoutFields =
        (j.withoutFields.parseUserCommand kind.withuser 5).decode host := by
      rw [Job.withoutFields_decode, Job.withoutFields_parseUserCommand, hfields]
      rfl
    rw [heq, hfields] at hdecode
    rw [Job.decode, heq, hfields, hdecode] at hwithout
    rw [Job.decode, heq, hfields, hdecode, ← hparts]
    refine ⟨_, if_neg (not_not.2 hsame.period), .inr ⟨m, h, d, n, w, ?_, ?_, hlen, ?_, hwithout⟩⟩
    · exact ⟨rfl, rfl, hm, hh, hd, hw, hn, rfl, rfl, rfl, rfl, rfl, rfl⟩
    · simp [hsame.valid, Job.new]
    · exact ⟨hmraw.symm, hhraw.symm, hdraw.symm, hwraw.symm, hnraw.symm⟩

/-! ### The expression -/

/-- The weekdays in the order the renderer goes through them. -/
def spanWeekdays (sundayIsSeven : Bool) : List Weekday :=
  if sundayIsSeven then [.mon, .tue, .wed, .thu, .fri, .sat, .sun] else Weekday.all

theorem dowSpan_eq (sundayIsSeven : Bool) :
    Job.dowSpan sundayIsSeven = (spanWeekdays sundayIsSeven).map Weekday.name := by
  cases sundayIsSeven <;> decide

theorem mem_spanWeekdays (sundayIsSeven : Bool) (d : Weekday) : d ∈ spanWeekdays sundayIsSeven := by
  cases sundayIsSeven <;> cases d <;> decide

theorem nodup_spanWeekdays (sundayIsSeven : Bool) : (spanWeekdays sundayIsSeven).Nodup := by
  cases sundayIsSeven <;> decide

theorem exists_name_of_mem_DOWS_SET {w : Bytes} (h : w ∈ DOWS_SET) : ∃ d : Weekday, d.name = w := by
  have : ∀ w ∈ DOWS_SET, ∃ d ∈ Weekday.all, d.name = w := by decide
  obtain ⟨d, -, hd⟩ := this w h
  exact ⟨d, hd⟩

def elementOf (f : Nat) : Element := if f = TIMESPEC_ASTERISK then .any else .value f

theorem elementOf_injective : Function.Injective elementOf := by
  intro a b h
  unfold elementOf at h
  split at h <;> split at h
  · omega
  · cases h
  · cases h
  · exact Element.value.inj h

theorem timespecComma_eq (s : Std.TreeSet Nat) :
    Job.timespecComma s = renderList (s.toList.map elementOf) := by
  rw [Job.timespecComma, renderList, List.map_map]
  congr 1
  refine List.map_congr_left fun f _ => ?_
  simp only [Job.timespecValue, elementOf, Function.comp_apply]
  split <;> rfl

/-- The expression that the sets of a job stand for. -/
def scheduleExpr (j : Job) : Expr where
  weekdays :=
    if j.timespecDow.toList = [[STAR]] then []
    else (spanWeekdays j.sundayIsSeven).filter fun d => j.timespecDow.contains d.name
  months := j.timespecMonth.toList.map elementOf
  fromEnd := j.lastDow || j.lastDom
  days := j.timespecDom.toList.map fun f => if j.lastDow then .every f 1 else elementOf f
  hours := j.timespecHour.toList.map elementOf
  minutes := j.timespecMinute.toList.map elementOf
  second := 0

/-- The weekdays of a set that has some, and has names only. -/
theorem scheduleExpr_weekdays_ne_nil {j : Job} (hd : ∀ x ∈ j.timespecDow, x ∈ DOWS_SET)
    (hne : j.timespecDow.isEmpty = false) : (scheduleExpr j).weekdays ≠ [] := by
  obtain ⟨w, hw⟩ : ∃ w, w ∈ j.timespecDow := by
    by_contra hn
    push Not at hn
    rw [Std.TreeSet.isEmpty_eq_false_iff_exists_mem] at hne
    obtain ⟨w, hw⟩ := hne
    exact hn w hw
  have hstar : j.timespecDow.toList ≠ [[STAR]] := by
    intro h
    have hmem : [STAR] ∈ j.timespecDow := by rw [← Std.TreeSet.mem_toList, h]; simp
    exact absurd (hd _ hmem) (by decide)
  obtain ⟨d, rfl⟩ := exists_name_of_mem_DOWS_SET (hd w hw)
  have : d ∈ (scheduleExpr j).weekdays := by
    simp only [scheduleExpr, if_neg hstar, List.mem_filter]
    exact ⟨mem_spanWeekdays _ _, hw⟩
  exact List.ne_nil_of_mem this

/-- What the renderer writes for the weekdays. -/
theorem timespecDows_eq {j : Job}
    (hd : j.timespecDow.toList = [[STAR]] ∨ ∀ x ∈ j.timespecDow, x ∈ DOWS_SET) :
    j.timespecDows = (if j.timespecDow.isEmpty then [SPACE] else []) ++
      (if (scheduleExpr j).weekdays = [] then []
        else renderWeekdays (scheduleExpr j).weekdays ++ [SPACE]) := by
  unfold Job.timespecDows
  split
  next hs =>
    have hne : j.timespecDow.isEmpty = false := by
      rw [← Std.TreeSet.isEmpty_toList, hs]; rfl
    simp [scheduleExpr, hs, hne]
  next hs =>
    have hd := hd.resolve_left hs
    have hw : (scheduleExpr j).weekdays =
        (spanWeekdays j.sundayIsSeven).filter fun d => j.timespecDow.contains d.name := by
      simp [scheduleExpr, hs]
    have hr : [COMMA].intercalate ((Job.dowSpan j.sundayIsSeven).filter fun dow =>
        j.timespecDow.contains dow) = renderWeekdays (scheduleExpr j).weekdays := by
      rw [hw, renderWeekdays, dowSpan_eq, List.filter_map]
      rfl
    rw [hr]
    cases he : j.timespecDow.isEmpty with
    | false => rw [if_neg (scheduleExpr_weekdays_ne_nil hd he)]; simp
    | true =>
      have h0 : (scheduleExpr j).weekdays = [] := by
        rw [hw, List.filter_eq_nil_iff]
        intro d _
        simp [Std.TreeSet.contains_of_isEmpty he]
      simp [h0, renderWeekdays]

/-- The days, with the step that stands for the last days of the month. -/
theorem renderDays_eq {j : Job}
    (hlast : j.lastDow → ∃ d, d ≠ TIMESPEC_ASTERISK ∧ j.timespecDom.toList = [d]) :
    renderList (scheduleExpr j).days =
      Job.timespecComma j.timespecDom ++ (if j.lastDow then lit "/1" else []) := by
  cases hl : j.lastDow with
  | false => simp [scheduleExpr, hl, timespecComma_eq]
  | true =>
    obtain ⟨d, hne, hd⟩ := hlast hl
    have hone : decimal 1 = [49] := by decide
    have hlit : lit "/1" = [SLASH, 49] := by decide
    simp [scheduleExpr, hl, timespecComma_eq, hd, renderList, elementOf, hne, Element.render, hone,
      hlit]

/-- The schedule of a job whose sets are not empty is the text of its expression. An empty set of
weekdays leaves the blank that separates it. -/
theorem schedule_eq {p j : Job} (hj : j = p.generateScheduleFromTimespec)
    (hne : j.lacksValues = false)
    (hd : j.timespecDow.toList = [[STAR]] ∨ ∀ x ∈ j.timespecDow, x ∈ DOWS_SET)
    (hlast : j.lastDow → ∃ d, d ≠ TIMESPEC_ASTERISK ∧ j.timespecDom.toList = [d]) :
    j.schedule = (if j.timespecDow.isEmpty then [SPACE] else []) ++
      (scheduleExpr j).render (lit "00") := by
  have hlit : lit ":00" = COLON :: lit "00" := by decide
  have hdash : lit "*-" = [STAR, DASH] := by decide
  rcases Job.generateScheduleFromTimespec_cases hj with ⟨h, -, -⟩ | ⟨-, -, hs⟩
  · rw [hne] at h; cases h
  have hmonths : Job.timespecComma j.timespecMonth = renderList (scheduleExpr j).months :=
    timespecComma_eq _
  have hhours : Job.timespecComma j.timespecHour = renderList (scheduleExpr j).hours :=
    timespecComma_eq _
  have hminutes : Job.timespecComma j.timespecMinute = renderList (scheduleExpr j).minutes :=
    timespecComma_eq _
  have hsep : (if j.lastDow || j.lastDom then [TILDE] else [DASH]) =
      [if (scheduleExpr j).fromEnd then TILDE else DASH] := by
    rw [show (scheduleExpr j).fromEnd = (j.lastDow || j.lastDom) from rfl]
    cases j.lastDow || j.lastDom <;> rfl
  rw [hs, timespecDows_eq hd, hlit, hdash, Expr.render, Expr.renderDate, Expr.renderTime,
    renderDays_eq hlast, hmonths, hhours, hminutes, hsep]
  simp only [List.append_assoc, List.cons_append, List.nil_append]

theorem toList_map_ne_nil {s : Std.TreeSet Nat} {α : Type} (f : Nat → α) (h : s.isEmpty = false) :
    s.toList.map f ≠ [] := by
  intro h0
  rw [← Std.TreeSet.isEmpty_toList, List.map_eq_nil_iff.1 h0] at h
  cases h

theorem scheduleExpr_nonempty {j : Job} (hne : j.lacksValues = false) :
    (scheduleExpr j).Nonempty := by
  simp only [Job.lacksValues, Bool.or_eq_false_iff] at hne
  exact ⟨toList_map_ne_nil _ hne.1.1.1, toList_map_ne_nil _ hne.1.1.2, toList_map_ne_nil _ hne.1.2,
    toList_map_ne_nil _ hne.2⟩

/-! ### Reading the schedule back -/

/-- The expression has exactly the sets and the markers of the job, every weekday once. -/
structure Decodes (e : Expr) (j : Job) : Prop where
  weekdays_nodup : e.weekdays.Nodup
  anyWeekday : e.weekdays = [] ↔ j.timespecDow.toList = [[STAR]]
  weekdays : ∀ d, d ∈ e.weekdays ↔ d.name ∈ j.timespecDow
  names : e.weekdays ≠ [] → ∀ w ∈ j.timespecDow, ∃ d ∈ e.weekdays, d.name = w
  months : e.months = j.timespecMonth.toList.map elementOf
  days : e.days = j.timespecDom.toList.map fun f => if j.lastDow then .every f 1 else elementOf f
  hours : e.hours = j.timespecHour.toList.map elementOf
  minutes : e.minutes = j.timespecMinute.toList.map elementOf
  second : e.second = 0
  fromEnd : e.fromEnd = (j.lastDow || j.lastDom)
  lastDow : j.lastDow ↔ ∃ f, .every f 1 ∈ e.days
  lastDom : j.lastDom ↔ e.fromEnd ∧ (.value 1 ∈ e.days ∨ .every 1 1 ∈ e.days)

/-- The fields of a job are parsed to nonempty sets. -/
structure Job.HasValues (j : Job) : Prop where
  minute : j.timespecMinute.isEmpty = false
  hour : j.timespecHour.isEmpty = false
  dom : j.timespecDom.isEmpty = false
  dow : j.timespecDow.isEmpty = false
  month : j.timespecMonth.isEmpty = false

theorem Job.HasValues.lacksValues {j : Job} (h : j.HasValues) : j.lacksValues = false := by
  simp [Job.lacksValues, h.minute, h.hour, h.dom, h.month]

/-- A job of a five-field line of some crontab, with values for every field. -/
def IsFieldJob (j : Job) : Prop :=
  ∃ host kind environment content rng r, parseCrontab host kind environment content rng = .ok r ∧
    j ∈ r.jobs ∧ kind.anacrontab = false ∧ j.line.head? ≠ some AT ∧ j.HasValues

/-- Two jobs were parsed to the same sets and markers. -/
structure Job.SameSets (a b : Job) : Prop where
  minute : b.timespecMinute.toList = a.timespecMinute.toList
  hour : b.timespecHour.toList = a.timespecHour.toList
  dom : b.timespecDom.toList = a.timespecDom.toList
  dow : b.timespecDow.toList = a.timespecDow.toList
  month : b.timespecMonth.toList = a.timespecMonth.toList
  lastDow : b.lastDow = a.lastDow
  lastDom : b.lastDom = a.lastDom

theorem IsFieldJob.parsed {j : Job} (hj : IsFieldJob j) : ∃ p : Job, j = p.generateScheduleFromTimespec ∧
    ∃ rng m h d n w, ParsedFields (tokens isFieldDelim j.line) rng j m h d n w := by
  obtain ⟨host, kind, environment, content, rng, r, hr, hmem, hk, hat, hne⟩ := hj
  obtain ⟨text, -, line, -, env, rng1, rng2, -, hp⟩ := mem_jobs_parseCrontab hr hmem
  have hline := parseJob_line hp
  obtain ⟨p, rfl, ⟨hmin, -⟩ | ⟨m, h, d, n, w, hfields, -, -⟩⟩ := parseJob_fields hp hk (hline ▸ hat)
  · obtain ⟨_, _, _, heq⟩ := p.generateScheduleFromTimespec_eq
    have := hne.minute
    rw [heq] at this
    exact absurd hmin (by simp [this])
  · exact ⟨p, rfl, rng1, m, h, d, n, w, by rw [hline]; exact hfields.generate⟩

namespace ParsedFields

variable {parts : List Bytes} {rng : Rng} {j : Job} {m h d n : TimeUnit Nat} {w : TimeUnit Bytes}

theorem timespecDow_values (hp : ParsedFields parts rng j m h d n w) :
    j.timespecDow.toList = [[STAR]] ∨ ∀ x ∈ j.timespecDow, x ∈ DOWS_SET := by
  rw [hp.timespecDow]
  rcases parseTimeUnit_values hp.dow with ⟨-, hset⟩ | hset
  · exact .inl (by rw [hset]; rfl)
  · exact .inr hset

/-- With a marker for the last days, the days of the month have one value. -/
theorem timespecDom_last (hp : ParsedFields parts rng j m h d n w) (hl : j.lastDow || j.lastDom) :
    j.timespecDom.toList = [if j.lastDom then 1 else 7] := by
  have hday := hp.day
  rw [hp.timespecDom]
  cases hdom : j.lastDom with
  | true =>
    rw [hdom] at hday
    exact parseTimeUnit_lastDay (.inl ⟨rfl, rfl⟩) hday
  | false =>
    have hdow : j.lastDow = true := by simpa [hdom] using hl
    rw [hdom, hdow] at hday
    exact parseTimeUnit_lastDay (.inr ⟨rfl, rfl⟩) hday

/-- The expression of a job has its sets. -/
theorem decodes (hp : ParsedFields parts rng j m h d n w) (hne : j.HasValues) :
    Decodes (scheduleExpr j) j := by
  have hdow := hp.timespecDow_values
  have hstar : j.timespecDow.toList = [[STAR]] → ∀ d : Weekday, d.name ∉ j.timespecDow := by
    intro hs d hd
    rw [← Std.TreeSet.mem_toList, hs, List.mem_singleton] at hd
    revert hd; cases d <;> decide
  have hdays : (scheduleExpr j).days = j.timespecDom.toList.map
      fun f => if j.lastDow then .every f 1 else elementOf f := rfl
  refine ⟨?_, ⟨fun he => ?_, fun hs => if_pos hs⟩, fun d => ?_, fun hn w hw => ?_, rfl, rfl, rfl, rfl, rfl,
    rfl, ?_, ?_⟩
  · simp only [scheduleExpr]
    split
    · exact .nil
    · exact (nodup_spanWeekdays _).filter _
  · exact hdow.resolve_right fun hd => scheduleExpr_weekdays_ne_nil hd hne.dow he
  · by_cases hs : j.timespecDow.toList = [[STAR]]
    · simp [scheduleExpr, hs, hstar hs d]
    · simp only [scheduleExpr, if_neg hs, List.mem_filter]
      exact ⟨fun h => h.2, fun h => ⟨mem_spanWeekdays _ _, h⟩⟩
  · have hs : j.timespecDow.toList ≠ [[STAR]] := fun hs => hn (if_pos hs)
    obtain ⟨d, rfl⟩ := exists_name_of_mem_DOWS_SET (hdow.resolve_left hs w hw)
    simp only [scheduleExpr, if_neg hs, List.mem_filter]
    exact ⟨d, ⟨mem_spanWeekdays _ _, hw⟩, rfl⟩
  · rw [hdays]
    cases hl : j.lastDow with
    | true =>
      obtain ⟨f, hf⟩ := List.exists_mem_of_ne_nil _ (toList_map_ne_nil id hne.dom)
      rw [List.map_id] at hf
      exact iff_of_true rfl ⟨f, List.mem_map.2 ⟨f, hf, by simp⟩⟩
    | false =>
      simp only [Bool.false_eq_true, if_false, List.mem_map, false_iff, not_exists, not_and]
      intro f f' _ h
      unfold elementOf at h
      split at h <;> cases h
  · have hfrom : (scheduleExpr j).fromEnd = (j.lastDow || j.lastDom) := rfl
    rw [hdays, hfrom]
    cases hdom : j.lastDom with
    | true =>
      have hlast := hp.timespecDom_last (by simp [hdom])
      rw [hlast, hdom]
      cases j.lastDow <;> decide
    | false =>
      cases hl : j.lastDow with
      | false => simp
      | true =>
        have hlast := hp.timespecDom_last (by simp [hl])
        rw [hlast, hdom]
        decide

end ParsedFields

/-- An expression determines the sets of a job. -/
theorem Decodes.sameSets {e : Expr} {a b : Job} (ha : Decodes e a) (hb : Decodes e b) :
    a.SameSets b := by
  have hlow : b.lastDow = a.lastDow := Bool.eq_iff_iff.2 (hb.lastDow.trans ha.lastDow.symm)
  have hinj := List.map_injective_iff.2 elementOf_injective
  refine ⟨hinj (hb.minutes.symm.trans ha.minutes), hinj (hb.hours.symm.trans ha.hours), ?_, ?_,
    hinj (hb.months.symm.trans ha.months), hlow,
    Bool.eq_iff_iff.2 (hb.lastDom.trans ha.lastDom.symm)⟩
  · have hdays := hb.days.symm.trans ha.days
    rw [hlow] at hdays
    refine List.map_injective_iff.2 (fun f g h => ?_) hdays
    revert h
    cases a.lastDow
    · exact fun h => elementOf_injective h
    · exact fun h => (Element.every.inj h).1
  · by_cases hw : e.weekdays = []
    · rw [ha.anyWeekday.1 hw, hb.anyWeekday.1 hw]
    · have hmem : ∀ {j : Job}, Decodes e j → ∀ k, k ∈ j.timespecDow ↔
          ∃ d ∈ e.weekdays, d.name = k := fun hj k =>
        ⟨hj.names hw k, by rintro ⟨d, hd, rfl⟩; exact (hj.weekdays d).1 hd⟩
      exact Std.TreeSet.Equiv.toList_eq
        (.of_forall_mem_iff fun k => (hmem hb k).trans (hmem ha k).symm)

/-- The schedule of a five-field line decodes to the sets that its fields were parsed to, and two lines
with one schedule have the same sets. -/
theorem schedule_decodes {j : Job} (hj : IsFieldJob j) :
    (∃ rng m h d n w, ParsedFields (tokens isFieldDelim j.line) rng j m h d n w) ∧
    (∃ e, parse j.schedule = some e ∧ Decodes e j) ∧
    ∀ j', IsFieldJob j' → j'.schedule = j.schedule → j.SameSets j' := by
  have hparse : ∀ {j : Job}, IsFieldJob j → ∃ e, parse j.schedule = some e ∧ Decodes e j := by
    intro j hj
    obtain ⟨p, hp, rng, m, h, d, n, w, hfields⟩ := hj.parsed
    obtain ⟨_, _, _, _, _, _, _, _, _, _, hne⟩ := hj
    refine ⟨scheduleExpr j, ?_, hfields.decodes hne⟩
    have hlast : j.lastDow → ∃ d, d ≠ TIMESPEC_ASTERISK ∧ j.timespecDom.toList = [d] := by
      intro hl
      refine ⟨_, ?_, hfields.timespecDom_last (by simp [hl])⟩
      cases j.lastDom <;> decide
    have hs := schedule_eq hp hne.lacksValues hfields.timespecDow_values hlast
    rw [hne.dow, if_neg (by simp), List.nil_append] at hs
    rw [hs]
    exact Expr.parse_render (scheduleExpr_nonempty hne.lacksValues)
      (show parseDecimal (lit "00") = some 0 by decide)
  obtain ⟨e, he, hdec⟩ := hparse hj
  obtain ⟨p, -, hfields⟩ := hj.parsed
  refine ⟨hfields, ⟨e, he, hdec⟩, fun j' hj' hs => ?_⟩
  obtain ⟨e', he', hdec'⟩ := hparse hj'
  rw [hs, he] at he'
  cases he'
  exact hdec.sameSets hdec'

/-- The job of `0 9 L * 1,7 root true`. -/
def lastDayJob : Job := (systemJobs (lit "0 9 L * 1,7 root true")).get ⟨0, by decide +kernel⟩

example : lastDayJob.schedule = lit "Mon,Sun *-*~1 9:0:00" := by decide +kernel

theorem schedule_decodes_last_day :
    (∃ rng m h d n w, ParsedFields (tokens isFieldDelim lastDayJob.line) rng lastDayJob m h d n w) ∧
    (∃ e, parse lastDayJob.schedule = some e ∧ Decodes e lastDayJob) ∧
    ∀ j', IsFieldJob j' → j'.schedule = lastDayJob.schedule → lastDayJob.SameSets j' :=
  schedule_decodes ⟨_, _, _, _, _, _, (mem_crontabJobs (List.get_mem _ _)).choose_spec.1,
    (mem_crontabJobs (List.get_mem _ _)).choose_spec.2, rfl, by decide +kernel,
    by constructor <;> decide +kernel⟩

end SystemdCron
