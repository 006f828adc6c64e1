import SystemdCron.Crontab
import SystemdCron.FieldWords
import SystemdCron.Lib.Elapse

/-!
# The calendar expression of a period

`generate_schedule_from_period` writes a keyword of systemd or an expression with the hour and the delay of
the job (`calendar_keyword_iff`, `calendar_days_iff`). The hour and the delay are printed as they are, so that the
expression is well formed only where they are an hour and a minute (`period_usable_iff`).
-/

namespace SystemdCron

open Bytes OnCalendar

/-- The periods that have a name. -/
inductive Keyword where
  | reboot | minutely | hourly | midnight | daily | weekly | monthly | quarterly | semiAnnually | yearly
  deriving DecidableEq, Repr

/-- The texts for a period, without an `@` and in lower case. -/
def Keyword.names : Keyword → List Bytes
  | reboot => [lit "reboot", lit "boot"]
  | minutely => [lit "minutely"]
  | hourly => [lit "hourly"]
  | midnight => [lit "midnight"]
  | daily => [lit "daily"]
  | weekly => [lit "weekly"]
  | monthly => [lit "monthly"]
  | quarterly => [lit "quarterly"]
  | semiAnnually => [lit "semi-annually", lit "semiannually", lit "bi-annually", lit "biannually"]
  | yearly => [lit "yearly", lit "annually", lit "anually"]

/-- The name that the others are replaced by. -/
def Keyword.name (k : Keyword) : Bytes := k.names.headD []

/-- The periods that are recognised. -/
inductive Recognised where
  | keyword (k : Keyword)
  | days (n : Nat)
  deriving DecidableEq, Repr

/-- What a text is recognised as: a keyword, or a positive number of days. -/
def Recognises (text : Bytes) : Recognised → Prop
  | .keyword k => (text.dropWhile (· == AT)).map toLower ∈ k.names
  | .days n => 1 ≤ n ∧ parseDecimal ((text.dropWhile (· == AT)).map toLower) = some n

/-! ### The expressions -/

/-- The expression for a keyword at an hour and after a delay in minutes. -/
def Keyword.expr : Keyword → Nat → Nat → Option Expr
  | reboot, _, _ => none
  | minutely, _, _ => some everyMinute
  | hourly, _, delay => some (everyMinute.atMinute delay)
  | midnight, _, delay => some ((midnights [] [.any] [.any]).atTime 0 delay)
  | daily, hour, delay => some ((midnights [] [.any] [.any]).atTime hour delay)
  | weekly, hour, delay => some ((midnights [.mon] [.any] [.any]).atTime hour delay)
  | monthly, hour, delay => some ((midnights [] [.any] [.value 1]).atTime hour delay)
  | quarterly, hour, delay =>
    some ((midnights [] [.value 1, .value 4, .value 7, .value 10] [.value 1]).atTime hour delay)
  | semiAnnually, hour, delay => some ((midnights [] [.value 1, .value 7] [.value 1]).atTime hour delay)
  | yearly, hour, delay => some ((midnights [] [.value 1] [.value 1]).atTime hour delay)

/-- The expression for a number of days. -/
def daysExpr (n hour delay : Nat) : Expr :=
  (if 31 < n then midnights [] [.every 1 (Binary32.roundDiv (Binary32.ofNat n) 30)] [.value 1]
    else midnights [] [.any] [.every 1 n]).atTime hour delay

/-- A text for an expression, which is well formed if the expression is. -/
structure Writes (s : Bytes) (e : Expr) : Prop where
  meaning : meaning s = some e
  wellFormed : WellFormed s ↔ e.WF

theorem writes_render {e : Expr} (h : e.Nonempty) (hs : e.second = 0) : Writes (e.render (lit "0")) e :=
  have hd : parseDecimal (lit "0") = some e.second := by rw [hs]; decide
  ⟨meaning_render h hd, wellFormed_render h hd⟩

/-- The keywords stand for well-formed expressions. -/
theorem writes_shorthand {s : Bytes} {e : Expr} (h : shorthands.lookup s = some e) : Writes s e := by
  obtain ⟨l, r, hl, -⟩ := List.lookup_eq_some_iff.1 h
  have hmem : (s, e) ∈ shorthands := by simp [hl]
  have hkey : s ∈ keywords := keys_shorthands ▸ List.mem_map_of_mem (f := Prod.fst) hmem
  exact ⟨by rw [OnCalendar.meaning, h]; rfl, iff_of_true (.inl hkey) (wf_shorthands _ hmem)⟩

theorem atTime_wf_iff {weekdays : List Weekday} {months days : List Element} (hm : months ≠ [])
    (hd : days ≠ []) {hour delay : Nat} : ((midnights weekdays months days).atTime hour delay).WF ↔
      ((∀ x ∈ months, x.WF 1 12) ∧ ∀ x ∈ days, x.WF 1 31) ∧ hour ≤ 23 ∧ delay ≤ 59 := by
  constructor
  · rintro ⟨-, h1, h2, h3, h4⟩
    exact ⟨⟨h1, h2⟩, (h3 (.value hour) (List.mem_singleton_self _)).2,
      (h4 (.value delay) (List.mem_singleton_self _)).2⟩
  · rintro ⟨⟨h1, h2⟩, h3, h4⟩
    refine ⟨⟨hm, hd, by simp [Expr.atTime], by simp [Expr.atTime]⟩, h1, h2, ?_, ?_⟩
    · simpa [Expr.atTime, Element.WF] using h3
    · simpa [Expr.atTime, Element.WF] using h4

theorem atMinute_wf_iff {delay : Nat} : (everyMinute.atMinute delay).WF ↔ delay ≤ 59 := by
  constructor
  · rintro ⟨-, -, -, -, h⟩
    exact (h (.value delay) (List.mem_singleton_self _)).2
  · intro h
    refine ⟨⟨List.cons_ne_nil _ _, List.cons_ne_nil _ _, List.cons_ne_nil _ _, List.cons_ne_nil _ _⟩,
      by decide +revert, by decide +revert, by decide +revert, ?_⟩
    simpa [Expr.atMinute, Element.WF] using h

theorem nonempty_atTime {weekdays : List Weekday} {months days : List Element} (hm : months ≠ [])
    (hd : days ≠ []) (hour delay : Nat) : ((midnights weekdays months days).atTime hour delay).Nonempty :=
  ⟨hm, hd, List.cons_ne_nil _ _, List.cons_ne_nil _ _⟩

/-- The text of an expression with one time of the day. -/
theorem render_atTime (e : Expr) (hour delay : Nat) : (e.atTime hour delay).render (lit "0") =
    (if e.weekdays = [] then [] else renderWeekdays e.weekdays ++ [SPACE]) ++ e.renderDate ++
      SPACE :: hourDelay hour delay := by
  have hsecond : lit ":0" = COLON :: lit "0" := by decide
  have htime : (e.atTime hour delay).renderTime (lit "0") = hourDelay hour delay := by
    simp [Expr.renderTime, Expr.atTime, renderList, Element.render, hourDelay, hsecond]
  change _ ++ e.renderDate ++ SPACE :: (e.atTime hour delay).renderTime (lit "0") = _
  rw [htime]
  rfl

/-! ### The schedules -/

/-- The schedule as a text of the period, the hour and the delay. -/
def periodText (p : Bytes) (hour delay : Nat) : Bytes :=
  if p = lit "reboot" ∨ p = lit "minutely" then p
  else if p = lit "hourly" then
    if delay = 0 then p else lit "*-*-* *:" ++ decimal delay ++ lit ":0"
  else if p = lit "midnight" then
    if delay = 0 then lit "daily" else lit "*-*-* 0:" ++ decimal delay ++ lit ":0"
  else if p ∈ TIME_UNITS_SET ∧ hour = 0 ∧ delay = 0 then p
  else
    match periodDate p with
    | some date => date ++ hourDelay hour delay
    | none =>
      let prd := intMap p false false
      if prd.2 then p else daysDate prd.1 ++ hourDelay hour delay

theorem generateScheduleFromPeriod_schedule (j : Job) : j.generateScheduleFromPeriod.schedule =
    periodText (normalPeriod j.period) j.startHour j.bootDelay := by
  unfold Job.generateScheduleFromPeriod
  extract_lets p hour hashed
  have hschedule : ∀ q, (hashed q).schedule = q.schedule := by
    intro q
    simp only [hashed]
    split <;> rfl
  change _ = periodText p.period hour p.bootDelay
  clear_value hashed hour
  unfold periodText
  by_cases h1 : p.period = lit "reboot"
  · rw [if_pos h1, hschedule, if_pos (.inl h1)]
  by_cases h2 : p.period = lit "minutely"
  · rw [if_neg h1, if_pos h2, hschedule, if_pos (.inr h2)]
  rw [if_neg h1, if_neg h2, if_neg (not_or.2 ⟨h1, h2⟩)]
  by_cases h3 : p.period = lit "hourly"
  · by_cases hd : p.bootDelay = 0
    · rw [if_pos ⟨h3, hd⟩, hschedule, if_pos h3, if_pos hd]
      exact h3.symm
    · rw [if_neg (fun h => hd h.2), if_pos h3, hschedule, if_pos h3, if_neg hd]
  rw [if_neg (fun h => h3 h.1), if_neg h3, if_neg h3]
  by_cases h4 : p.period = lit "midnight"
  · by_cases hd : p.bootDelay = 0
    · rw [if_pos ⟨h4, hd⟩, hschedule, if_pos h4, if_pos hd]
    · rw [if_neg (fun h => hd h.2), if_pos h4, hschedule, if_pos h4, if_neg hd]
  rw [if_neg (fun h => h4 h.1), if_neg h4, if_neg h4]
  by_cases h5 : p.period ∈ TIME_UNITS_SET ∧ hour = 0 ∧ p.bootDelay = 0
  · rw [if_pos h5, if_pos h5, hschedule]
  rw [if_neg h5, if_neg h5]
  rcases periodDate p.period with - | date
  · dsimp only
    split
    · rfl
    · rw [hschedule]
  · rw [hschedule]

/-- The text of a keyword with an hour and a delay. -/
theorem writes_unit {p date : Bytes} {weekdays : List Weekday} {months days : List Element}
    (hp : p ∈ TIME_UNITS_SET) (hlookup : shorthands.lookup p = some (midnights weekdays months days))
    (hne : months ≠ [] ∧ days ≠ []) (hdate : periodDate p = some date)
    (htext : (if weekdays = [] then [] else renderWeekdays weekdays ++ [SPACE]) ++
      (midnights weekdays months days).renderDate ++ [SPACE] = date) (hour delay : Nat) :
    Writes (periodText p hour delay) ((midnights weekdays months days).atTime hour delay) := by
  have hother : ∀ p ∈ TIME_UNITS_SET, ¬ (p = lit "reboot" ∨ p = lit "minutely") ∧ p ≠ lit "hourly" ∧
      p ≠ lit "midnight" := by decide
  obtain ⟨h1, h2, h3⟩ := hother p hp
  rw [periodText, if_neg h1, if_neg h2, if_neg h3]
  by_cases h0 : hour = 0 ∧ delay = 0
  · rw [if_pos ⟨hp, h0⟩, h0.1, h0.2]
    exact writes_shorthand hlookup
  · rw [if_neg (fun h => h0 h.2), hdate]
    have hrender := render_atTime (midnights weekdays months days) hour delay
    dsimp only
    rw [← htext, List.append_assoc, List.singleton_append]
    exact hrender ▸ writes_render (nonempty_atTime hne.1 hne.2 hour delay) rfl

/-- The text of a keyword is `reboot` or one for its expression. -/
theorem periodText_keyword (k : Keyword) (hour delay : Nat) :
    (k = .reboot ∧ periodText k.name hour delay = lit "reboot") ∨
      ∃ e, k.expr hour delay = some e ∧ Writes (periodText k.name hour delay) e := by
  cases k with
  | reboot => exact .inl ⟨rfl, rfl⟩
  | minutely => exact .inr ⟨_, rfl, writes_shorthand rfl⟩
  | hourly =>
    refine .inr ⟨_, rfl, ?_⟩
    change Writes (if delay = 0 then lit "hourly" else lit "*-*-* *:" ++ decimal delay ++ lit ":0") _
    split
    next h => rw [h]; exact writes_shorthand rfl
    next =>
      have hrender : (everyMinute.atMinute delay).render (lit "0") =
          lit "*-*-* *:" ++ decimal delay ++ lit ":0" := by
        have hsecond : lit ":0" = COLON :: lit "0" := by decide
        have hdate : lit "*-*-* *:" = everyMinute.renderDate ++ [SPACE, STAR, COLON] := by decide
        rw [hsecond, hdate]
        simp [Expr.render, Expr.renderTime, Expr.atMinute, renderList, Element.render, everyMinute]
        rfl
      have hne : (everyMinute.atMinute delay).Nonempty :=
        ⟨List.cons_ne_nil _ _, List.cons_ne_nil _ _, List.cons_ne_nil _ _, List.cons_ne_nil _ _⟩
      exact hrender ▸ writes_render hne rfl
  | midnight =>
    refine .inr ⟨_, rfl, ?_⟩
    change Writes (if delay = 0 then lit "daily" else lit "*-*-* 0:" ++ decimal delay ++ lit ":0") _
    split
    next h => rw [h]; exact writes_shorthand rfl
    next =>
      have htext : lit "*-*-* 0:" ++ decimal delay ++ lit ":0" =
          ((midnights [] [.any] [.any]).atTime 0 delay).render (lit "0") := by
        have hdate : lit "*-*-* 0:" =
            (midnights [] [.any] [.any]).renderDate ++ SPACE :: decimal 0 ++ [COLON] := by decide
        rw [render_atTime, hdate, hourDelay]
        simp [midnights, everyMinute, Expr.atTime]
      rw [htext]
      exact writes_render (nonempty_atTime (by decide) (by decide) 0 delay) rfl
  | daily =>
    exact .inr ⟨_, rfl, writes_unit (by decide) rfl (by decide) rfl (by decide) hour delay⟩
  | weekly => exact .inr ⟨_, rfl, writes_unit (by decide) rfl (by decide) rfl (by decide) hour delay⟩
  | monthly => exact .inr ⟨_, rfl, writes_unit (by decide) rfl (by decide) rfl (by decide) hour delay⟩
  | quarterly => exact .inr ⟨_, rfl, writes_unit (by decide) rfl (by decide) rfl (by decide) hour delay⟩
  | semiAnnually => exact .inr ⟨_, rfl, writes_unit (by decide) rfl (by decide) rfl (by decide) hour delay⟩
  | yearly => exact .inr ⟨_, rfl, writes_unit (by decide) rfl (by decide) rfl (by decide) hour delay⟩

/-- A number is no word with a letter in it. -/
theorem ne_of_parseDecimal {p w : Bytes} {n : Nat} (h : parseDecimal p = some n)
    (hw : w.all isDigit = false) : p ≠ w := by
  rintro rfl
  obtain ⟨-, hd, -⟩ := parseDecimal_eq_some h
  rw [List.all_eq_true.2 hd] at hw
  cases hw

/-- The text of a number of days that stands for no keyword. -/
theorem periodText_days {p : Bytes} {n : Nat} (h : parseDecimal p = some n) (hour delay : Nat) :
    periodText p hour delay = if n < SIZE then daysDate n ++ hourDelay hour delay else p := by
  have hne := fun {w : Bytes} (hw : w.all isDigit = false) => ne_of_parseDecimal h hw
  have hunits : p ∉ TIME_UNITS_SET := by
    have hall : ∀ w ∈ TIME_UNITS_SET, w.all isDigit = false := by decide +kernel
    exact fun hmem => hne (hall p hmem) rfl
  have hdate : periodDate p = none := by
    rw [periodDate, if_neg (hne (by decide +kernel)), if_neg (hne (by decide +kernel)),
      if_neg (hne (by decide +kernel)), if_neg (hne (by decide +kernel)), if_neg (hne (by decide +kernel)),
      if_neg (hne (by decide +kernel))]
  rw [periodText, if_neg (not_or.2 ⟨hne (by decide +kernel), hne (by decide +kernel)⟩),
    if_neg (hne (by decide +kernel)), if_neg (hne (by decide +kernel)), if_neg (fun h => hunits h.1), hdate]
  dsimp only
  rw [intMap_number h]
  by_cases hn : n < SIZE
  · simp [hn]
  · simp [hn]

theorem writes_days (n hour delay : Nat) :
    Writes (daysDate n ++ hourDelay hour delay) (daysExpr n hour delay) := by
  unfold daysDate daysExpr
  split
  next =>
    set step := Binary32.roundDiv (Binary32.ofNat n) 30
    have htext : lit "*-1/" ++ decimal step ++ lit "-1 " ++ hourDelay hour delay =
        ((midnights [] [.every 1 step] [.value 1]).atTime hour delay).render (lit "0") := by
      have h1 : lit "*-1/" = [STAR, DASH] ++ decimal 1 ++ [SLASH] := by decide
      have h2 : lit "-1 " = DASH :: (decimal 1 ++ [SPACE]) := by decide
      rw [render_atTime, h1, h2]
      simp [midnights, everyMinute, Expr.atTime, Expr.renderDate, renderList, Element.render]
    exact htext ▸ writes_render (nonempty_atTime (by simp) (by simp) hour delay) rfl
  next =>
    have htext : lit "*-*-1/" ++ decimal n ++ [SPACE] ++ hourDelay hour delay =
        ((midnights [] [.any] [.every 1 n]).atTime hour delay).render (lit "0") := by
      have h1 : lit "*-*-1/" = [STAR, DASH, STAR, DASH] ++ decimal 1 ++ [SLASH] := by decide
      rw [render_atTime, h1]
      simp [midnights, everyMinute, Expr.atTime, Expr.renderDate, renderList, Element.render]
    exact htext ▸ writes_render (nonempty_atTime (by simp) (by simp) hour delay) rfl

/-- A number of days gives a step of days or of months that is at least one. -/
theorem daysExpr_wf_iff {n : Nat} (h1 : 1 ≤ n) (hour delay : Nat) :
    (daysExpr n hour delay).WF ↔ hour ≤ 23 ∧ delay ≤ 59 := by
  unfold daysExpr
  split
  next h =>
    have hlog : 5 ≤ n.log2 := (Nat.le_log2 (by omega)).2 (by omega)
    have hfloat : 30 ≤ Binary32.ofNat n := calc
      30 ≤ 2 ^ 5 := by norm_num
      _ ≤ 2 ^ n.log2 := Nat.pow_le_pow_right (by norm_num) hlog
      _ ≤ Binary32.ofNat n := Binary32.le_ofNat h1
    have hstep := Binary32.one_le_roundDiv (by norm_num) hfloat
    rw [atTime_wf_iff (by simp) (by simp)]
    exact and_iff_right ⟨by simpa [Element.WF] using hstep, by simp [Element.WF]⟩
  next =>
    rw [atTime_wf_iff (by simp) (by simp)]
    exact and_iff_right ⟨by simp [Element.WF], by simpa [Element.WF] using h1⟩

/-! ### Recognised periods -/

/-- The hour that a keyword takes of the hour of the job. -/
def Keyword.hour : Keyword → Nat → Nat
  | .hourly, _ | .midnight, _ => 0
  | _, hour => hour

/-- The hour and the delay of a job are an hour and a minute, where they are written. -/
def Recognised.Fits : Recognised → Nat → Nat → Prop
  | .keyword .reboot, _, _ | .keyword .minutely, _, _ => True
  | .keyword .hourly, _, delay | .keyword .midnight, _, delay => delay ≤ 59
  | .keyword _, hour, delay => hour ≤ 23 ∧ delay ≤ 59
  | .days n, hour, delay => n < SIZE ∧ hour ≤ 23 ∧ delay ≤ 59

/-- The schedule of a job is a calendar, and that of a keyword elapses as the keyword does, moved later by the
hour and the delay. -/
structure Job.Usable (j : Job) (r : Recognised) : Prop where
  calendar : j.generateScheduleFromPeriod.schedule = lit "reboot" ∨
    WellFormed j.generateScheduleFromPeriod.schedule
  elapses : ∀ k, r = .keyword k → k ≠ .reboot → ∃ e base,
    meaning j.generateScheduleFromPeriod.schedule = some e ∧
    shorthands.lookup ({ j with startHour := 0, bootDelay := 0 } : Job).generateScheduleFromPeriod.schedule =
      some base ∧
    ∀ cal t, e.Elapses cal t ↔ base.Elapses cal (t - (3600 * k.hour j.startHour + 60 * j.bootDelay))

/-- Every other text for a period is replaced by its name. -/
theorem normalPeriod_keyword {text : Bytes} {k : Keyword} (h : Recognises text (.keyword k)) :
    normalPeriod text = k.name := by
  have hall : ∀ k : Keyword, ∀ w ∈ k.names, (replacements.lookup w).getD w = k.name := by
    intro k
    cases k <;> decide
  exact hall k _ h

/-- The numbers of days that stand for a keyword. -/
theorem normalPeriod_days {text : Bytes} {n : Nat} (h : Recognises text (.days n)) :
    (parseDecimal (normalPeriod text) = some n) ∨ n < SIZE ∧
      ∃ k ∈ [Keyword.daily, .weekly, .monthly, .yearly], normalPeriod text = k.name := by
  obtain ⟨-, hn⟩ := h
  unfold normalPeriod
  extract_lets p
  change parseDecimal p = some n at hn
  cases hl : replacements.lookup p with
  | none => exact .inl hn
  | some v =>
    have hall : ∀ q ∈ replacements, ∀ n ∈ parseDecimal q.1, n < SIZE ∧
        ∃ k ∈ [Keyword.daily, .weekly, .monthly, .yearly], q.2 = k.name := by decide +kernel
    obtain ⟨l, r, hq, -⟩ := List.lookup_eq_some_iff.1 hl
    exact .inr (hall (p, v) (by simp [hq]) n hn)

theorem meaning_reboot : meaning (lit "reboot") = none := by decide

/-- The schedule of a keyword is a calendar if the hour and the delay fit. -/
theorem calendar_keyword_iff (k : Keyword) (hour delay : Nat) :
    (periodText k.name hour delay = lit "reboot" ∨ WellFormed (periodText k.name hour delay)) ↔
      (Recognised.keyword k).Fits hour delay := by
  rcases periodText_keyword k hour delay with ⟨rfl, h⟩ | ⟨e, he, hw⟩
  · exact iff_of_true (.inl h) trivial
  have hne : periodText k.name hour delay ≠ lit "reboot" := by
    intro h0
    have hmeaning := hw.meaning
    rw [h0, meaning_reboot] at hmeaning
    cases hmeaning
  rw [or_iff_right hne, hw.wellFormed]
  cases k with
  | reboot => cases he
  | minutely => cases he; exact iff_of_true (by decide) trivial
  | hourly => cases he; exact atMinute_wf_iff
  | midnight =>
    cases he
    exact (atTime_wf_iff (by decide) (by decide)).trans ⟨fun h => h.2.2, fun h => ⟨by decide, by omega, h⟩⟩
  | daily | weekly | monthly | quarterly | semiAnnually | yearly =>
    cases he
    exact (atTime_wf_iff (by decide) (by decide)).trans (and_iff_right (by decide))

/-- What a keyword elapses at is moved by the hour and the delay. -/
theorem elapses_keyword {k : Keyword} {hour delay : Nat} (hfit : (Recognised.keyword k).Fits hour delay)
    {e : Expr} (he : k.expr hour delay = some e) : ∃ base, k.expr 0 0 = some base ∧
      ∀ cal t, e.Elapses cal t ↔ base.Elapses cal (t - (3600 * k.hour hour + 60 * delay)) := by
  cases k with
  | reboot => cases he
  | minutely =>
    cases he
    refine ⟨_, rfl, fun cal t => ?_⟩
    rw [elapses_everyMinute, elapses_everyMinute]
    omega
  | hourly =>
    cases he
    refine ⟨_, rfl, fun cal t => ?_⟩
    rw [Expr.elapses_atMinute matchesDate_everyMinute hfit]
    simp [Keyword.hour]
  | midnight =>
    cases he
    exact ⟨_, rfl, fun cal t => Expr.elapses_atTime (by omega) hfit t⟩
  | daily | weekly | monthly | quarterly | semiAnnually | yearly =>
    cases he
    exact ⟨_, rfl, fun cal t => Expr.elapses_atTime hfit.1 hfit.2 t⟩

/-- Without an hour and a delay a keyword of systemd is written. -/
theorem lookup_keyword {k : Keyword} (h : k ≠ .reboot) :
    shorthands.lookup (periodText k.name 0 0) = k.expr 0 0 := by
  cases k with
  | reboot => exact absurd rfl h
  | minutely | hourly | midnight | daily | weekly | monthly | quarterly | semiAnnually | yearly => rfl

/-- The schedule of a number of days is a calendar if the number is one, and the hour and the delay fit. -/
theorem calendar_days_iff {p : Bytes} {n : Nat} (hn : parseDecimal p = some n) (h1 : 1 ≤ n)
    (hour delay : Nat) :
    (periodText p hour delay = lit "reboot" ∨ WellFormed (periodText p hour delay)) ↔
      (Recognised.days n).Fits hour delay := by
  rw [periodText_days hn]
  change _ ↔ (n < SIZE ∧ hour ≤ 23 ∧ delay ≤ 59)
  by_cases hlt : n < SIZE
  · rw [if_pos hlt, and_iff_right hlt, ← daysExpr_wf_iff h1, ← (writes_days n hour delay).wellFormed]
    refine or_iff_right fun h => ?_
    have hmeaning := (writes_days n hour delay).meaning
    rw [h, meaning_reboot] at hmeaning
    cases hmeaning
  · rw [if_neg hlt]
    refine iff_of_false ?_ fun h => hlt h.1
    rintro (h | h | ⟨e, he, -⟩)
    · exact ne_of_parseDecimal hn (by decide +kernel) h
    · have hall : ∀ w ∈ keywords, w.all isDigit = false := by decide +kernel
      exact ne_of_parseDecimal hn (hall p h) rfl
    · have hspace : SPACE ∉ p := fun hc => by
        have := (parseDecimal_eq_some hn).2.1 _ hc
        revert this
        decide
      rw [parse_of_space_notMem hspace] at he
      cases he

/-- **Periods** have a usable calendar exactly if the hour and the delay of the job are an hour and a minute,
where the calendar has them. -/
theorem period_usable_iff {j : Job} {r : Recognised} (h : Recognises j.period r) :
    j.Usable r ↔ r.Fits j.startHour j.bootDelay := by
  have hiff : (j.generateScheduleFromPeriod.schedule = lit "reboot" ∨
      WellFormed j.generateScheduleFromPeriod.schedule) ↔ r.Fits j.startHour j.bootDelay := by
    rw [generateScheduleFromPeriod_schedule]
    cases r with
    | keyword k => rw [normalPeriod_keyword h]; exact calendar_keyword_iff k _ _
    | days n =>
      rcases normalPeriod_days h with hn | ⟨hlt, k, hk, hp⟩
      · exact calendar_days_iff hn h.1 _ _
      · rw [hp, calendar_keyword_iff]
        simp only [List.mem_cons, List.not_mem_nil, or_false] at hk
        rcases hk with rfl | rfl | rfl | rfl <;> exact (and_iff_right hlt).symm
  refine ⟨fun hj => hiff.1 hj.calendar, fun hfit => ⟨hiff.2 hfit, ?_⟩⟩
  rintro k rfl hk
  simp only [generateScheduleFromPeriod_schedule, normalPeriod_keyword h]
  rcases periodText_keyword k j.startHour j.bootDelay with ⟨rfl, -⟩ | ⟨e, he, hw⟩
  · exact absurd rfl hk
  · obtain ⟨base, hbase, hmoved⟩ := elapses_keyword hfit he
    exact ⟨e, base, hw.meaning, (lookup_keyword hk).trans hbase, hmoved⟩

/-- The job of `@daily root true` with a `DELAY=90`. -/
def lateJob : Job := (systemJobs (lit "DELAY=90\n@daily root true")).get ⟨0, by decide +kernel⟩

theorem lateJob_recognised : Recognises lateJob.period (.keyword .daily) := by
  have hdaily : lateJob.period = lit "daily" := by decide +kernel
  have hname : (lit "daily").map toLower ∈ Keyword.daily.names := by decide
  rw [hdaily]
  exact hname

theorem period_usable_iff_late :
    lateJob.Usable (.keyword .daily) ↔ (Recognised.keyword .daily).Fits lateJob.startHour lateJob.bootDelay :=
  period_usable_iff lateJob_recognised

/-- The calendar of `@daily` with a delay of 90 minutes is `*-*-* 0:90:0`. -/
theorem period_usable_ninety : lateJob.schedule = lit "*-*-* 0:90:0" ∧
    ¬ ∀ (j : Job) (r : Recognised), Recognises j.period r → j.Usable r := by
  refine ⟨by decide +kernel, fun h => ?_⟩
  have hlate : lateJob.bootDelay = 90 := by decide +kernel
  have hcal := (h lateJob _ lateJob_recognised).calendar
  rw [generateScheduleFromPeriod_schedule, normalPeriod_keyword lateJob_recognised, calendar_keyword_iff,
    hlate] at hcal
  exact absurd hcal.2 (by decide)

end SystemdCron
