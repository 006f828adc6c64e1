import SystemdCron.CheckAgreement

/-!
# The buffer of `Job::log`

The overload of `Job::log` for a format prints into a buffer of 128 octets and hands on a view that is as long
as `snprintf` says, which is the length of the whole text. The messages of a file are those of the lines that are
parsed, up to one whose loops do not end (`parseCrontab_formatted`), and `log_buffer_iff` says for
which files all of them fit. The `int` that `snprintf` returns is modelled, the ones that `FORMAT_SV` passes for the
lengths of the texts are not: a field of `2 ^ 31` octets is taken to be printed whole.
-/

namespace SystemdCron

open Bytes

/-! ### The view -/

/-- `sizeof(buf)`. -/
def LOG_BUFFER : Nat := 128

/-- `snprintf` into a buffer of so many octets: what it stores in front of the NUL, and what it returns. -/
def snprintf (size : Nat) (text : Bytes) : Bytes × Int :=
  (text.take (size - 1), if text.length < 2 ^ 31 then text.length else -1)

/-- The length of the view. -/
def logView (text : Bytes) : Nat := ((snprintf LOG_BUFFER text).2 % SIZE).toNat

/-- The view covers stored octets only. -/
def InBuffer (text : Bytes) : Prop :=
  logView text < LOG_BUFFER ∧ logView text ≤ (snprintf LOG_BUFFER text).1.length

theorem inBuffer_iff {text : Bytes} : InBuffer text ↔ text.length < LOG_BUFFER := by
  have hsize : (SIZE : Int) = 2 ^ 64 := by rw [SIZE_eq]; rfl
  unfold InBuffer logView snprintf LOG_BUFFER
  rw [List.length_take, hsize]
  dsimp only
  split
  · omega
  · omega

/-! ### The messages of a line -/

section
variable {T : Type}

/-- The item the loop over the items stops at. -/
def TimeField.stop (F : TimeField T) (value : Bytes) : Option Bytes :=
  if value = [STAR] then none else (softTokenise (· == COMMA) value).find? fun item => !F.acceptsItem item

/-- The item that is refused, and why. -/
def TimeField.refused (F : TimeField T) (value : Bytes) : Option (Bytes × PeriodError) :=
  (F.stop value).bind fun item =>
    match F.item item with
    | .error e => some (item, e)
    | .ok _ => none

/-- Whether the loop over the items gets to one whose own loop does not end. -/
def TimeField.stuck (F : TimeField T) (value : Bytes) : Bool :=
  (F.stop value).any fun item =>
    match F.item item with
    | .error _ => false
    | .ok _ => true

/-- The messages from a field on. -/
def TimeField.messages (F : TimeField T) (value : Bytes) (rest : List Bytes) : List Bytes :=
  ((F.refused value).map fun r => Job.timeUnitMessage F value r.1 r.2).toList ++
    if F.stuck value then [] else rest

/-- The part of a refused item that is printed. -/
def printedItem (item : Bytes) : PeriodError → Bytes
  | .message _ => item
  | .range => item.takeWhile (· != SLASH)

/-- The octets of a message beside the field and the item. -/
def TimeField.wording (F : TimeField T) : PeriodError → Nat
  | .message text => 12 + F.field.length + text.length
  | .range => 24 + F.field.length + F.range.length

/-- The message about the item that is refused, if any, fits into the buffer. -/
def TimeField.Fits (F : TimeField T) (value : Bytes) : Prop :=
  ∀ item e, F.refused value = some (item, e) →
    F.wording e + (cstr value).length + (cstr (printedItem item e)).length < LOG_BUFFER

/-- The messages fit, from a field on. -/
def TimeField.FitsOn (F : TimeField T) (value : Bytes) (rest : Prop) : Prop :=
  F.Fits value ∧ (F.stuck value = false → rest)

end

/-- The messages about the five fields. -/
def fieldMessages (parts : List Bytes) : List Bytes :=
  minuteField.messages (parts.getD 0 []) <| hourField.messages (parts.getD 1 []) <|
    dayField.messages (dayText parts) <| dowField.messages (dowText parts) <|
    monthField.messages (parts.getD 3 []) []

/-- Whether the parse of one of the five fields does not end. -/
def fieldsStuck (parts : List Bytes) : Bool :=
  minuteField.stuck (parts.getD 0 []) || hourField.stuck (parts.getD 1 []) ||
    dayField.stuck (dayText parts) || dowField.stuck (dowText parts) || monthField.stuck (parts.getD 3 [])

/-- The messages about the five fields fit. -/
def FieldsFit (parts : List Bytes) : Prop :=
  minuteField.FitsOn (parts.getD 0 []) <| hourField.FitsOn (parts.getD 1 []) <|
    dayField.FitsOn (dayText parts) <| dowField.FitsOn (dowText parts) <|
    monthField.FitsOn (parts.getD 3 []) True

/-- Lines whose five fields are parsed. -/
def HasFields (kind : CrontabKind) (line : Bytes) : Prop :=
  kind.anacrontab = false ∧ line.head? ≠ some AT ∧
    6 + (if kind.withuser = .fromCmd0 then 1 else 0) ≤ (tokens isFieldDelim line).length

instance (kind : CrontabKind) (line : Bytes) : Decidable (HasFields kind line) :=
  inferInstanceAs (Decidable (_ ∧ _ ∧ _))

/-- The formatted messages about a line. -/
def lineMessages (kind : CrontabKind) (line : Bytes) : List Bytes :=
  let parts := tokens isFieldDelim line
  let more := if kind.withuser = .fromCmd0 then 1 else 0
  let user := if kind.withuser = .fromCmd0 then lit " user" else []
  if HasFields kind line then fieldMessages parts
  else if kind.anacrontab then []
  else if line.head? = some AT then
    if parts.length < 2 + more then [Job.fieldCountMessage parts.length (2 + more) (lit "@timespec") user] else []
  else [Job.fieldCountMessage parts.length (6 + more) (lit "minute hour day dow month") user]

/-- Whether the parse of a line does not end. -/
def lineStuck (kind : CrontabKind) (line : Bytes) : Bool :=
  decide (HasFields kind line) && fieldsStuck (tokens isFieldDelim line)

/-- The job lines that are parsed, up to one whose parse does not end. -/
def reachedLines (kind : CrontabKind) : List Bytes → List Bytes
  | [] => []
  | line :: lines =>
    if setting line = none then line :: if lineStuck kind line then [] else reachedLines kind lines
    else reachedLines kind lines

/-- The formatted messages of a file. -/
def crontabMessages (kind : CrontabKind) (lines : List Bytes) : List Bytes :=
  (reachedLines kind lines).flatMap (lineMessages kind)

/-- The messages of a job that went through the buffer. -/
def Job.formatted (j : Job) : List Bytes := (j.log.filter LogEntry.formatted).map LogEntry.message

/-! ### The messages of a field -/

section
variable {T : Type}

theorem stop_eq_some_iff {F : TimeField T} {value item : Bytes} : F.stop value = some item ↔
    value ≠ [STAR] ∧ F.acceptsItem item = false ∧
      ∃ pre post, softTokenise (· == COMMA) value = pre ++ item :: post ∧ pre.all F.acceptsItem := by
  unfold TimeField.stop
  split
  next h => exact iff_of_false nofun fun hn => hn.1 h
  next h =>
    rw [List.find?_eq_some_iff_append, Bool.not_eq_true', and_iff_right h]
    simp only [Bool.not_not, List.all_eq_true]

theorem stuck_iff {F : TimeField T} {value : Bytes} : F.stuck value ↔ F.Hangs value := by
  unfold TimeField.stuck TimeField.Hangs
  rw [Option.any_eq_true]
  constructor
  · rintro ⟨item, hstop, hok⟩
    obtain ⟨hv, hacc, pre, post, hitems, hpre⟩ := stop_eq_some_iff.1 hstop
    rcases hit : F.item item with e | it
    · rw [hit] at hok
      cases hok
    · refine ⟨hv, pre, item, post, hitems, hpre, it, hit, fun hruns => ?_⟩
      rw [acceptsItem_iff.2 ⟨it, hit, hruns⟩] at hacc
      cases hacc
  · rintro ⟨hv, pre, item, post, hitems, hpre, it, hit, hruns⟩
    refine ⟨item, stop_eq_some_iff.2 ⟨hv, ?_, pre, post, hitems, hpre⟩, by rw [hit]⟩
    rw [TimeField.acceptsItem, hit]
    exact decide_eq_false hruns

theorem stuck_eq_false_iff {F : TimeField T} {value : Bytes} : F.stuck value = false ↔ ¬ F.Hangs value := by
  rw [← stuck_iff, Bool.not_eq_true]

variable [Ord T] [Std.TransOrd T] [Std.LawfulEqOrd T] {F : TimeField T}

/-- The error of a field is the refused item. -/
theorem parseTimeUnit_error (hF : F.Table) {value : Bytes} {rng : Rng} {u : TimeUnit T}
    (h : parseTimeUnit F value rng = .ok u) : u.error = F.refused value := by
  unfold parseTimeUnit at h
  split at h
  next hv =>
    cases h
    rw [TimeField.refused, TimeField.stop, if_pos hv]
    rfl
  next hv =>
  rcases parseItems_cases hF (softTokenise (· == COMMA) value) {} false rng with
    ⟨hall, u', hu, he⟩ | ⟨pre, item, post, hitems, hpre, ⟨e, hit, u', hu, he⟩ | ⟨it, hit, -, f, hf⟩⟩
  · rw [hu] at h
    cases h
    have hnone : F.stop value = none := by
      rw [TimeField.stop, if_neg hv, List.find?_eq_none]
      intro item hitem
      rw [List.all_eq_true.1 hall item hitem]
      exact Bool.false_ne_true
    rw [he, TimeField.refused, hnone]
    rfl
  · rw [hu] at h
    cases h
    have hsome : F.stop value = some item := by
      refine stop_eq_some_iff.2 ⟨hv, ?_, pre, post, hitems, hpre⟩
      rw [TimeField.acceptsItem, hit]
    rw [he, TimeField.refused, hsome, Option.bind_some, hit]
  · rw [hf] at h
    cases h

/-- A field that is parsed to its end logs the message about the item that is refused. -/
theorem Job.parseTimeUnit_formatted (hF : F.Table) {j j' : Job} {value : Bytes} {rng rng' : Rng}
    {r : Std.TreeSet T × Option Bytes} (h : j.parseTimeUnit F value rng = .ok (r, j', rng')) (rest : List Bytes) :
    j'.formatted ++ rest = j.formatted ++ F.messages value rest := by
  have hstuck : F.stuck value = false := by
    rw [stuck_eq_false_iff, ← j.parseTimeUnit_ends hF value rng]
    exact ⟨_, h⟩
  unfold Job.parseTimeUnit at h
  split at h
  · cases h
  next u hu =>
  have he := parseTimeUnit_error hF hu
  rw [TimeField.messages, hstuck, if_neg Bool.false_ne_true, ← he]
  split at h
  next item e hrefused =>
    cases h
    simp [hrefused, Job.formatted, Job.errorf]
  next hrefused =>
    cases h
    rw [hrefused]
    rfl

end

/-! ### The messages of a job -/

namespace Job

@[simp] theorem formatted_warn (j : Job) (m : Bytes) : (j.warn m).formatted = j.formatted := by
  simp [formatted, warn]

@[simp] theorem formatted_error (j : Job) (m : Bytes) : (j.error m).formatted = j.formatted := by
  simp [formatted, error]

@[simp] theorem formatted_errorf (j : Job) (m : Bytes) : (j.errorf m).formatted = j.formatted ++ [m] := by
  simp [formatted, errorf]

theorem formatted_ite {j a b : Job} {c : Prop} [Decidable c] (ha : a.formatted = j.formatted)
    (hb : b.formatted = j.formatted) : (if c then a else b).formatted = j.formatted := by
  split
  · exact ha
  · exact hb

theorem formatted_decodeEntry (host : Host) (ds : CronMailSuccess) (df : CronMailFormat) (j : Job) (k v : Bytes) :
    (j.decodeEntry host ds df k v).formatted = j.formatted := by
  have hwarn : ∀ {j' : Job} {b : Bool} {m : Bytes}, j'.formatted = j.formatted →
      (if b then j'.warn m else j').formatted = j.formatted :=
    fun h => formatted_ite ((formatted_warn _ _).trans h) h
  unfold decodeEntry
  refine formatted_ite rfl <| formatted_ite rfl <| formatted_ite (hwarn rfl) <| formatted_ite ?_ <|
    formatted_ite (hwarn rfl) <| formatted_ite rfl <| formatted_ite rfl <| formatted_ite rfl <|
    formatted_ite rfl <| formatted_ite ?_ <| formatted_ite ?_ ?_
  · split
    · exact formatted_warn _ _
    · exact hwarn rfl
  · exact formatted_ite rfl <| formatted_ite rfl <| formatted_ite rfl <| formatted_ite rfl (formatted_warn _ _)
  · exact formatted_ite rfl <| formatted_ite rfl <| formatted_ite rfl (formatted_warn _ _)
  · unfold decodeVariable
    extract_lets j1 j2 j3
    have h1 : j1.formatted = j.formatted := formatted_ite rfl rfl
    have h2 : j2.formatted = j1.formatted := by
      refine formatted_ite ?_ rfl
      exact formatted_ite rfl <| formatted_ite rfl rfl
    have h3 : j3.formatted = j2.formatted := formatted_ite (formatted_warn _ _) rfl
    exact h3.trans (h2.trans h1)

theorem formatted_generateSchedule (j : Job) : j.generateSchedule.formatted = j.formatted := by
  unfold generateSchedule
  refine formatted_ite ?_ ?_
  · unfold generateScheduleFromPeriod
    extract_lets p hour hashed
    have hhashed : ∀ boot schedule persistent,
        (hashed { p with bootDelay := boot, schedule, persistent }).formatted = j.formatted :=
      fun boot schedule persistent => formatted_ite rfl rfl
    refine formatted_ite (hhashed _ _ _) <| formatted_ite (hhashed _ _ _) <| formatted_ite (hhashed _ _ _) <|
      formatted_ite (hhashed _ _ _) <| formatted_ite (hhashed _ _ _) <| formatted_ite (hhashed _ _ _) <|
      formatted_ite (hhashed _ _ _) ?_
    split
    · exact hhashed _ _ _
    · exact formatted_ite (formatted_error _ _) (hhashed _ _ _)
  · obtain ⟨_, _, _, heq⟩ := j.generateScheduleFromTimespec_eq
    rw [heq]
    rfl

theorem formatted_decode (host : Host) (j : Job) : (j.decode host).formatted = j.formatted := by
  obtain ⟨_, _, _, _, _, _, _, h⟩ := decodeCommand_eq host { j with jobid := j.jobid.filter isAsciiAlnum }
  rw [decode, h]
  rfl

theorem formatted_parseUserCommand (j : Job) (withuser : WithUser) (skip : Nat) :
    (j.parseUserCommand withuser skip).formatted = j.formatted := by
  obtain ⟨_, _, _, _, h⟩ := j.parseUserCommand_eq withuser skip
  rw [h]
  rfl

theorem dayText_eq (parts : List Bytes) :
    (if (parts.getD 2 [] == lit "L") = true then lit "1" else
      if ((parts.getD 4 []).length == 2 && (parts.getD 4 []).getLast? == some 76) = true then lit "7/1"
      else parts.getD 2 []) = dayText parts :=
  if_congr beq_iff_eq rfl rfl

theorem dowText_eq (parts : List Bytes) :
    (if (!(parts.getD 2 [] == lit "L") && ((parts.getD 4 []).length == 2 &&
      (parts.getD 4 []).getLast? == some 76)) = true then (parts.getD 4 []).take 1 else parts.getD 4 []) =
      dowText parts := by
  simp only [dowText, hasLastDow, Bool.and_eq_true, Bool.not_eq_true', beq_eq_false_iff_ne]

/-- The messages about the five fields are logged one after the other. -/
theorem parseFields_formatted {j j' : Job} {parts : List Bytes} {rng rng' : Rng}
    (h : j.parseFields (parts.getD 0 []) (parts.getD 1 []) (parts.getD 2 []) (parts.getD 3 []) (parts.getD 4 [])
      rng = .ok (j', rng')) : j'.formatted = j.formatted ++ fieldMessages parts := by
  simp only [parseFields, bind, Except.bind, dayText_eq, dowText_eq] at h
  unfold fieldMessages
  split at h
  · cases h
  next r1 h1 =>
  have e1 := parseTimeUnit_formatted minuteField_table h1
  split at h
  · cases h
  next r2 h2 =>
  have e2 := parseTimeUnit_formatted hourField_table h2
  split at h
  · cases h
  next r3 h3 =>
  have e3 := parseTimeUnit_formatted dayField_table h3
  split at h
  · cases h
  next r4 h4 =>
  have e4 := parseTimeUnit_formatted dowField_table h4
  split at h
  · cases h
  next r5 h5 =>
  have e5 := parseTimeUnit_formatted monthField_table h5 []
  simp only [pure, Except.pure, Except.ok.injEq, Prod.mk.injEq] at h
  obtain ⟨rfl, -⟩ := h
  rw [List.append_nil] at e5
  exact e5.trans ((e4 _).trans ((e3 _).trans ((e2 _).trans (e1 _))))

end Job

theorem newJob_formatted (host : Host) (kind : CrontabKind) (environment : Env) (line : Bytes) :
    (newJob host kind environment line).formatted = [] := by
  unfold newJob Job.decodeEnvironment
  extract_lets j0
  rw [Std.TreeMap.foldl_eq_foldl_toList]
  have h : ∀ (l : List (Bytes × Bytes)) (j : Job), (l.foldl (fun j kv =>
      j.decodeEntry host kind.dfltSuccess kind.dfltFormat kv.1 kv.2) j).formatted = j.formatted := by
    intro l
    induction l with
    | nil => exact fun _ => rfl
    | cons kv l ih => exact fun j => (ih _).trans (Job.formatted_decodeEntry ..)
  exact (h _ _).trans rfl

/-! ### The messages of a line -/

theorem parseLine_formatted {host : Host} {kind : CrontabKind} {environment : Env} {line : Bytes}
    {rng rng' : Rng} {j : Job} (h : parseLine host kind environment line rng = .ok (j, rng')) :
    j.formatted = lineMessages kind line := by
  have hparts := newJob_parts host kind environment line
  have hnone := newJob_formatted host kind environment line
  unfold parseLine at h
  unfold lineMessages
  generalize newJob host kind environment line = n at h hparts hnone
  dsimp only at h ⊢
  split at h
  next hk =>
    cases h
    have hfields : ¬ HasFields kind line := fun hf => Bool.false_ne_true (hf.1.symm.trans hk)
    rw [if_neg hfields, if_pos hk]
    unfold Job.parseAnacrontab
    split
    · exact (Job.formatted_ite (Job.formatted_warn _ _) rfl).trans hnone
    · exact hnone
  next hk =>
  split at h
  next hat =>
    cases h
    have hfields : ¬ HasFields kind line := fun hf => hf.2.1 hat
    rw [if_neg hfields, if_neg hk, if_pos hat]
    unfold Job.parseCrontabAt
    rw [hparts]
    dsimp only
    by_cases hlen : (tokens isFieldDelim line).length < 2 + (if kind.withuser = .fromCmd0 then 1 else 0)
    · rw [if_pos hlen, if_pos hlen]
      exact (Job.formatted_errorf n _).trans (by rw [hnone]; rfl)
    · rw [if_neg hlen, if_neg hlen]
      exact (Job.formatted_parseUserCommand _ _ _).trans hnone
  next hat =>
    unfold Job.parseCrontabTimespec at h
    rw [hparts] at h
    dsimp only at h
    by_cases hlen : (tokens isFieldDelim line).length < 6 + (if kind.withuser = .fromCmd0 then 1 else 0)
    · rw [if_pos hlen] at h
      cases h
      have hfields : ¬ HasFields kind line := fun hf => absurd hf.2.2 (not_le.2 hlen)
      rw [if_neg hfields, if_neg hk, if_neg hat]
      exact (Job.formatted_errorf n _).trans (by rw [hnone]; rfl)
    · have hfields : HasFields kind line := ⟨Bool.eq_false_iff.2 hk, hat, not_lt.1 hlen⟩
      rw [if_neg hlen] at h
      rw [if_pos hfields]
      simp only [bind, Except.bind, pure, Except.pure] at h
      split at h
      · cases h
      next r hr =>
        cases h
        rw [Job.formatted_parseUserCommand, Job.parseFields_formatted hr, hnone, List.nil_append]

/-- The formatted messages of a job are those of its line. -/
theorem parseJob_formatted {host : Host} {kind : CrontabKind} {environment : Env} {line : Bytes}
    {rng rng' : Rng} {j : Job} (h : parseJob host kind environment line rng = .ok (j, rng')) :
    j.formatted = lineMessages kind line := by
  obtain ⟨p, hp, rfl⟩ := parseJob_ok h
  rw [Job.formatted_generateSchedule, Job.formatted_decode]
  exact parseLine_formatted hp

theorem parseFields_isOk_iff (j : Job) (parts : List Bytes) (rng : Rng) :
    (∃ r, j.parseFields (parts.getD 0 []) (parts.getD 1 []) (parts.getD 2 []) (parts.getD 3 []) (parts.getD 4 [])
      rng = .ok r) ↔ fieldsStuck parts = false := by
  have hends := j.parseFields_ends (parts.getD 0 []) (parts.getD 1 []) (parts.getD 2 []) (parts.getD 3 [])
    (parts.getD 4 []) rng
  dsimp only at hends
  rw [Job.dayText_eq, Job.dowText_eq] at hends
  rw [hends]
  simp only [fieldsStuck, Bool.or_eq_false_iff, stuck_eq_false_iff, and_assoc]

/-- A line is parsed to an end exactly if it is not stuck. -/
theorem parseJob_isOk_iff (host : Host) (kind : CrontabKind) (environment : Env) (line : Bytes) (rng : Rng) :
    (∃ r, parseJob host kind environment line rng = .ok r) ↔ lineStuck kind line = false := by
  have hparts := newJob_parts host kind environment line
  rw [parseJob_isOk]
  unfold parseLine lineStuck
  generalize newJob host kind environment line = n at hparts
  rw [Bool.and_eq_false_imp, decide_eq_true_eq]
  dsimp only
  split
  next hk => exact iff_of_true ⟨_, rfl⟩ fun hf => absurd (hf.1.symm.trans hk) (by decide)
  next hk =>
  split
  next hat => exact iff_of_true ⟨_, rfl⟩ fun hf => absurd hat hf.2.1
  next hat =>
    unfold Job.parseCrontabTimespec
    rw [hparts]
    dsimp only
    by_cases hlen : (tokens isFieldDelim line).length < 6 + (if kind.withuser = .fromCmd0 then 1 else 0)
    · rw [if_pos hlen]
      exact iff_of_true ⟨_, rfl⟩ fun hf => absurd hf.2.2 (not_le.2 hlen)
    · have hfields : HasFields kind line := ⟨Bool.eq_false_iff.2 hk, hat, not_lt.1 hlen⟩
      rw [if_neg hlen, forall_prop_of_true hfields, ← parseFields_isOk_iff n _ rng]
      exact @exists_map_eq_ok _ _ _ fun r : Job × Rng => (r.1.parseUserCommand kind.withuser 5, r.2)

/-! ### The messages of a file -/

theorem crontabLoop_formatted {host : Host} {kind : CrontabKind} {lines : List Bytes} {s s' : CrontabState}
    (h : crontabLoop host kind s lines = .ok s') :
    s'.jobs.flatMap Job.formatted = s.jobs.flatMap Job.formatted ++ crontabMessages kind lines := by
  induction lines generalizing s with
  | nil =>
    cases h
    exact (List.append_nil _).symm
  | cons line lines ih =>
    rw [crontabLoop, crontabStep] at h
    rw [crontabMessages, reachedLines]
    rcases hm : matchEnvvar line with - | ⟨key, value⟩
    · rw [hm] at h
      rw [if_pos (setting_eq_none.2 hm)]
      rcases hp : parseJob host kind s.environment line s.rng with f | ⟨j, rng'⟩
      · rw [hp] at h
        cases h
      · rw [hp] at h
        have hstuck := (parseJob_isOk_iff host kind s.environment line s.rng).1 ⟨_, hp⟩
        rw [ih h, hstuck, if_neg Bool.false_ne_true, List.flatMap_append, List.flatMap_singleton,
          parseJob_formatted hp, List.flatMap_cons, List.append_assoc]
        rfl
    · rw [hm] at h
      rw [if_neg (by rw [setting_of_matchEnvvar hm]; exact Option.some_ne_none _)]
      have hrest := ih h
      exact hrest

/-- The messages of a file that is parsed to its end are those of its jobs. -/
theorem parseCrontab_formatted {host : Host} {kind : CrontabKind} {environment : Env} {content : Bytes} {rng : Rng}
    {r : Crontab} (h : parseCrontab host kind environment (some content) rng = .ok r) :
    r.jobs.flatMap Job.formatted = crontabMessages kind (crontabLines content) := by
  unfold parseCrontab at h
  dsimp only at h
  split at h
  next hc =>
    cases h
    subst hc
    rfl
  next =>
    split at h
    · cases h
    next s hloop =>
      cases h
      exact crontabLoop_formatted hloop

/-! ### The lengths of the messages -/

section
variable {T : Type} {F : TimeField T}

theorem length_timeUnitMessage (F : TimeField T) (value item : Bytes) (e : PeriodError) :
    (Job.timeUnitMessage F value item e).length =
      F.wording e + (cstr value).length + (cstr (printedItem item e)).length := by
  have hfield : (lit "field ").length = 6 := by decide
  have hopen : (lit " (").length = 2 := by decide
  have hclose : (lit "): ").length = 3 := by decide
  have hmay : (lit "), may be * or ").length = 15 := by decide
  cases e with
  | message text =>
    simp only [Job.timeUnitMessage, TimeField.wording, printedItem, List.length_append, List.length_singleton,
      hfield, hopen, hclose]
    omega
  | range =>
    simp only [Job.timeUnitMessage, TimeField.wording, printedItem, List.length_append, List.length_singleton,
      hfield, hopen, hmay]
    omega

/-- The messages from a field on fit exactly if its own does, and those of the next fields unless it is stuck. -/
theorem messages_inBuffer_iff {value : Bytes} {rest : List Bytes} {p : Prop}
    (h : (∀ m ∈ rest, InBuffer m) ↔ p) : (∀ m ∈ F.messages value rest, InBuffer m) ↔ F.FitsOn value p := by
  rw [TimeField.messages, TimeField.FitsOn, List.forall_mem_append]
  refine and_congr ?_ ?_
  · simp only [Option.mem_toList, Option.map_eq_some_iff, TimeField.Fits, inBuffer_iff]
    constructor
    · intro hall item e hr
      rw [← length_timeUnitMessage]
      exact hall _ ⟨(item, e), hr, rfl⟩
    · rintro hall m ⟨⟨item, e⟩, hr, rfl⟩
      rw [length_timeUnitMessage]
      exact hall item e hr
  · cases F.stuck value with
    | true => simp
    | false => simpa using h

end

theorem fieldMessages_inBuffer_iff (parts : List Bytes) :
    (∀ m ∈ fieldMessages parts, InBuffer m) ↔ FieldsFit parts := by
  refine messages_inBuffer_iff <| messages_inBuffer_iff <| messages_inBuffer_iff <| messages_inBuffer_iff <|
    messages_inBuffer_iff ?_
  exact iff_of_true nofun trivial

/-- The messages about missing fields are short. -/
theorem fieldCountMessage_inBuffer {n k : Nat} (hn : n < k) (hk : k ≤ 7) {what user : Bytes}
    (hwhat : what.length ≤ 25) (huser : user.length ≤ 5) :
    InBuffer (Job.fieldCountMessage n k what user) := by
  have hdigit : ∀ n < 8, (decimal n).length = 1 := by decide
  have hplural : (if n = 1 then [] else lit "s").length ≤ 1 := by split <;> decide
  have hhave : (lit "have ").length = 5 := by decide
  have hneed : (lit ", need ≥").length = 10 := by decide
  have hprogram : (lit " program)").length = 9 := by decide
  have hwords : (lit " field").length = 6 ∧ (lit " (").length = 2 := by decide
  rw [inBuffer_iff, LOG_BUFFER, Job.fieldCountMessage]
  simp only [List.length_append, hdigit n (by omega), hdigit k (by omega), hhave, hneed, hprogram, hwords]
  omega

theorem lineMessages_inBuffer_iff (kind : CrontabKind) (line : Bytes) :
    (∀ m ∈ lineMessages kind line, InBuffer m) ↔
      (HasFields kind line → FieldsFit (tokens isFieldDelim line)) := by
  unfold lineMessages
  extract_lets parts more user
  have hmore : more ≤ 1 := by
    unfold more
    split <;> decide
  have huser : user.length ≤ 5 := by
    unfold user
    split <;> decide
  by_cases hfields : HasFields kind line
  · rw [if_pos hfields, forall_prop_of_true hfields]
    exact fieldMessages_inBuffer_iff parts
  rw [if_neg hfields]
  refine iff_of_true ?_ fun h => absurd h hfields
  split
  next => exact nofun
  next hk =>
  split
  next =>
    split
    next hlen =>
      rw [List.forall_mem_singleton]
      exact fieldCountMessage_inBuffer hlen (by omega) (by decide) huser
    next => exact nofun
  next hat =>
    have hlen : parts.length < 6 + more := by
      by_contra hlen
      exact hfields ⟨Bool.eq_false_iff.2 hk, hat, not_lt.1 hlen⟩
    rw [List.forall_mem_singleton]
    exact fieldCountMessage_inBuffer hlen (by omega) (by decide) huser

/-- **The views of the messages** of a file cover stored octets only exactly if, on the lines with five fields
that are parsed, the field and the item that is refused are short enough for the wording. The messages are those
the jobs have logged if the file is parsed to its end. -/
theorem log_buffer_iff (host : Host) (kind : CrontabKind) (environment : Env) (content : Bytes) (rng : Rng) :
    (∀ r, parseCrontab host kind environment (some content) rng = .ok r →
      r.jobs.flatMap Job.formatted = crontabMessages kind (crontabLines content)) ∧
    ((∀ m ∈ crontabMessages kind (crontabLines content), InBuffer m) ↔
      ∀ line ∈ reachedLines kind (crontabLines content),
        HasFields kind line → FieldsFit (tokens isFieldDelim line)) := by
  refine ⟨fun r h => parseCrontab_formatted h, ?_⟩
  rw [crontabMessages, List.forall_mem_flatMap]
  exact forall₂_congr fun line _ => lineMessages_inBuffer_iff kind line

/-- A minute of fifty digits. -/
theorem log_buffer_minute :
    ¬ ∀ (host : Host) (kind : CrontabKind) (environment : Env) (content : Bytes) (rng : Rng) (r : Crontab),
      parseCrontab host kind environment (some content) rng = .ok r →
        ∀ m ∈ r.jobs.flatMap Job.formatted, InBuffer m := by
  intro h
  let content := List.replicate 50 57 ++ lit " * * * * root true\n"
  have hlong : ¬ ∀ m ∈ crontabMessages systemKind (crontabLines content), m.length < LOG_BUFFER := by
    decide +kernel
  have hends : (parseCrontab .bare systemKind {} (some content) fun _ => 0).isOk := by decide +kernel
  rcases hr : parseCrontab .bare systemKind {} (some content) fun _ => 0 with f | r
  · rw [hr] at hends
    cases hends
  · rw [← parseCrontab_formatted hr] at hlong
    exact hlong fun m hm => inBuffer_iff.1 (h _ _ _ _ _ r hr m hm)

end SystemdCron
