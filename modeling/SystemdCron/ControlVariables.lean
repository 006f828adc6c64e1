import SystemdCron.Environment
import SystemdCron.FieldWords
import SystemdCron.Settings

/-!
# The control variables

What `decode_environment` makes of each of the variables that control the generator (`Controls.set`), against
what `crontab(5)` says of them: a number of minutes or hours is a string of digits, a flag is one of six words
or the beginning of one, a mail mode is one of the words listed for it, and any other value changes nothing.
-/

namespace SystemdCron

open Bytes

/-! ### What the code does -/

/-- The fields that the control variables set. -/
@[ext] structure Controls where
  persistent : Bool
  cronUniqueUnits : Bool
  randomDelay : Nat
  startHour : Nat
  bootDelay : Nat
  batch : Bool
  cronMailSuccess : CronMailSuccess
  cronMailFormat : CronMailFormat

def Job.controls (j : Job) : Controls where
  persistent := j.persistent
  cronUniqueUnits := j.cronUniqueUnits
  randomDelay := j.randomDelay
  startHour := j.startHour
  bootDelay := j.bootDelay
  batch := j.batch
  cronMailSuccess := j.cronMailSuccess
  cronMailFormat := j.cronMailFormat

/-- The mode that `CRON_MAIL_SUCCESS` sets. -/
def mailSuccessOf (ds : CronMailSuccess) (v : Bytes) (before : CronMailSuccess) : CronMailSuccess :=
  (mailSuccess v).getD (if v = lit "inherit" then ds else before)

/-- The mode that `CRON_MAIL_FORMAT` sets. -/
def mailFormatOf (df : CronMailFormat) (v : Bytes) (before : CronMailFormat) : CronMailFormat :=
  (mailFormat v).getD (if v = lit "inherit" then df else before)

/-- What a variable does to these fields. -/
def Controls.set (ds : CronMailSuccess) (df : CronMailFormat) (c : Controls) (k v : Bytes) : Controls :=
  if k = lit "PERSISTENT" then { c with persistent := systemdBool v }
  else if k = lit "CRON_UNIQUE_UNITS" then { c with cronUniqueUnits := systemdBool v }
  else if k = lit "RANDOM_DELAY" then { c with randomDelay := (intMap v false false).1 }
  else if k = lit "START_HOURS_RANGE" then { c with startHour := Job.startOfRange v c.startHour }
  else if k = lit "DELAY" then { c with bootDelay := (intMap v false false).1 }
  else if k = lit "BATCH" then { c with batch := systemdBool v }
  else if k = lit "CRON_MAIL_SUCCESS" then
    { c with cronMailSuccess := mailSuccessOf ds v c.cronMailSuccess }
  else if k = lit "CRON_MAIL_FORMAT" then { c with cronMailFormat := mailFormatOf df v c.cronMailFormat }
  else c

namespace Job

variable (host : Host) (j : Job) (ds : CronMailSuccess) (df : CronMailFormat)

theorem controls_decodeMailSuccess (v : Bytes) :
    (j.decodeMailSuccess v ds).controls =
      { j.controls with cronMailSuccess := mailSuccessOf ds v j.cronMailSuccess } := by
  unfold decodeMailSuccess mailSuccessOf mailSuccess
  split
  · rfl
  split
  · rfl
  split
  · rfl
  split <;> rfl

theorem controls_decodeMailFormat (v : Bytes) :
    (j.decodeMailFormat v df).controls =
      { j.controls with cronMailFormat := mailFormatOf df v j.cronMailFormat } := by
  unfold decodeMailFormat mailFormatOf mailFormat
  split
  · rfl
  split
  · rfl
  split <;> rfl

theorem controls_decodeVariable (k v : Bytes) : (j.decodeVariable host k v).controls = j.controls := by
  unfold decodeVariable
  extract_lets j1 j2 j3
  have h1 : j1.controls = j.controls := by
    change (if _ then _ else _ : Job).controls = _
    split <;> rfl
  have h2 : j2.controls = j1.controls := by
    change (if _ then _ else _ : Job).controls = _
    split
    · unfold decodeTimezone
      extract_lets tz
      split
      · rfl
      · split <;> rfl
    · rfl
  have h3 : j3.controls = j2.controls := by
    change (if _ then _ else _ : Job).controls = _
    split <;> rfl
  exact h3.trans (h2.trans h1)

/-- One variable. -/
theorem controls_decodeEntry (k v : Bytes) :
    (j.decodeEntry host ds df k v).controls = j.controls.set ds df k v := by
  have hwarn : ∀ {j' : Job} {b : Bool} {m : Bytes},
      (if b then j'.warn m else j').controls = j'.controls := by
    intro j' b m
    split <;> rfl
  have hite : ∀ {p : Prop} [Decidable p] {a b : Job} {c c' : Controls},
      a.controls = c → b.controls = c' → (if p then a else b).controls = if p then c else c' := by
    intro p _ a b c c' ha hb
    split
    · exact ha
    · exact hb
  -- The variables of the batch helpers and of the journal set none of these fields.
  have hother : ∀ {p : Prop} [Decidable p] {a b : Job} {c : Controls},
      (p → a.controls = c) → b.controls = c → (if p then a else b).controls = c := by
    intro p _ a b c ha hb
    split
    next hp => exact ha hp
    next => exact hb
  unfold decodeEntry Controls.set
  refine hite rfl <| hite rfl <| hite hwarn <| hite ?_ <| hite hwarn <| hite rfl <|
    hother (fun h => ?_) <| hother (fun h => ?_) <| hother (fun h => ?_) <|
    hite (controls_decodeMailSuccess j ds v) <| hite (controls_decodeMailFormat j df v) <|
    controls_decodeVariable host j k v
  · unfold startOfRange
    rcases splitFirst DASH v with - | ⟨start, rest⟩
    · rfl
    · exact hwarn
  all_goals
    rw [if_neg (by rw [h]; decide), if_neg (by rw [h]; decide)]
    rfl

end Job

/-! ### What the manual says -/

def trueWords : List Bytes := [lit "yes", lit "true", lit "1"]

def falseWords : List Bytes := [lit "no", lit "false", lit "0"]

/-- Whether a text is the beginning of a word, in any case, and not empty. -/
def begins (v word : Bytes) : Bool := v ≠ [] && (v.map toLower).isPrefixOf word

def documentedFlag (dflt : Bool) (v : Bytes) : Bool :=
  if trueWords.any (begins v) then true
  else if falseWords.any (begins v) then false
  else dflt

def documentedNumber (v : Bytes) : Nat := (parseDecimal v).getD 0

/-- The start of a range of hours. -/
def documentedStart (v : Bytes) : Nat :=
  match splitFirst DASH v with
  | none => 0
  | some (start, _) => documentedNumber start

def documentedMailSuccess (dflt : CronMailSuccess) (v : Bytes) : CronMailSuccess :=
  if v ∈ lit "never" :: falseWords then .never
  else if v ∈ lit "always" :: trueWords then .always
  else if v ∈ [lit "nonempty", lit "non-empty"] then .nonempty
  else dflt

def documentedMailFormat (dflt : CronMailFormat) (v : Bytes) : CronMailFormat :=
  if v = lit "normal" then .normal
  else if v ∈ [lit "nometadata", lit "no-metadata"] then .nometadata
  else dflt

/-- What an environment makes of the defaults. -/
def documented (dfltPersistent : Bool) (ds : CronMailSuccess) (df : CronMailFormat) (env : Env) : Controls where
  persistent := (env[lit "PERSISTENT"]?).elim dfltPersistent (documentedFlag dfltPersistent)
  cronUniqueUnits := (env[lit "CRON_UNIQUE_UNITS"]?).elim false (documentedFlag false)
  randomDelay := (env[lit "RANDOM_DELAY"]?).elim 0 documentedNumber
  startHour := (env[lit "START_HOURS_RANGE"]?).elim 0 documentedStart
  bootDelay := (env[lit "DELAY"]?).elim 0 documentedNumber
  batch := (env[lit "BATCH"]?).elim false (documentedFlag false)
  cronMailSuccess := (env[lit "CRON_MAIL_SUCCESS"]?).elim ds (documentedMailSuccess ds)
  cronMailFormat := (env[lit "CRON_MAIL_FORMAT"]?).elim df (documentedMailFormat df)

/-! ### Where they agree -/

/-- A number that the code reads as the manual does: digits for a number of 64 bits, or a text at whose
beginning, after blanks and a sign, there is no number but zero. -/
def NumberKept (v : Bytes) : Prop :=
  match parseDecimal v with
  | some n => n < SIZE
  | none => cstr v ≠ [] ∧ (cstr v).head? ≠ some DASH ∧ (strtoull (cstr v)).value = 0

/-- A text that the comparison of a flag takes for one of some words: the beginning of one, even an empty one,
or all of it with a NUL behind. -/
def Resembles (words : List Bytes) (v : Bytes) : Prop :=
  ∃ word ∈ words, v.map toLower <+: word ∨ word ++ [NUL] <+: v.map toLower

/-- A flag that the code reads as the manual does: one of the six words or the beginning of one, or any other
text of which it makes the default. -/
def FlagKept (dflt : Bool) (v : Bytes) : Prop :=
  (trueWords ++ falseWords).any (begins v) ∨ (dflt = true ↔ Resembles trueWords v)

/-- The words listed for `CRON_MAIL_SUCCESS`. -/
def mailSuccessWords : List Bytes :=
  lit "never" :: falseWords ++ lit "always" :: trueWords ++ [lit "nonempty", lit "non-empty"]

/-- A mail mode that the code reads as the manual does: a listed word, or any other text of which it makes the
default. -/
def MailSuccessKept (dflt : CronMailSuccess) (v : Bytes) : Prop :=
  v ∈ mailSuccessWords ∨
    (Resembles falseWords v → dflt = .never) ∧
      (¬ Resembles falseWords v → Resembles trueWords v → dflt = .always)

theorem NUL_mem_map_toLower {v : Bytes} : NUL ∈ v.map toLower ↔ NUL ∈ v := by
  have hzero : ∀ c : UInt8, toLower c = NUL ↔ c = NUL := by decide +kernel
  rw [List.mem_map]
  exact ⟨fun ⟨c, hc, he⟩ => (hzero c).1 he ▸ hc, fun h => ⟨NUL, h, rfl⟩⟩

/-- A NUL ends the part of the text that is compared. -/
theorem strncaseeq_iff {word : Bytes} (hword : NUL ∉ word) (v : Bytes) :
    strncaseeq v word ↔ v.map toLower <+: word ∨ word ++ [NUL] <+: v.map toLower := by
  unfold strncaseeq
  rw [beq_iff_eq]
  by_cases hnul : NUL ∈ v
  · obtain ⟨rest, hv⟩ : ∃ rest, splitFirst NUL v = some (cstr v, rest) := ⟨_, if_pos hnul⟩
    obtain ⟨hv, hc⟩ := splitFirst_eq_some.1 hv
    have hlower : v.map toLower = (cstr v).map toLower ++ NUL :: rest.map toLower := by
      conv_lhs => rw [hv]
      rw [List.map_append, List.map_cons]
      rfl
    have hlen : (cstr v).length < v.length := by
      conv_rhs => rw [hv]
      simp
    constructor
    · intro h
      have htake : word.take v.length = word := by
        have := congrArg List.length h
        rw [List.length_map, List.length_take] at this
        exact List.take_of_length_le (by omega)
      refine .inr ⟨rest.map toLower, ?_⟩
      rw [hlower, h, htake, List.append_assoc, List.singleton_append]
    · rintro (h | ⟨t, h⟩)
      · exact absurd (h.subset (NUL_mem_map_toLower.2 hnul)) hword
      · rw [hlower, List.append_assoc, List.singleton_append] at h
        have h1 := splitFirst_eq_some.2 ⟨h.symm, hword⟩
        have h2 := @splitFirst_eq_some NUL _ ((cstr v).map toLower) (rest.map toLower) |>.2
          ⟨rfl, fun h => hc (NUL_mem_map_toLower.1 h)⟩
        obtain ⟨he, -⟩ := Prod.mk.inj (Option.some.inj (h2.symm.trans h1))
        have := congrArg List.length he
        rw [List.length_map] at this
        rw [he, List.take_of_length_le (by omega)]
  · rw [cstr_eq_iff.2 hnul, List.prefix_iff_eq_take, List.length_map]
    refine ⟨.inl, fun h => h.resolve_right fun h => hnul (NUL_mem_map_toLower.1 (h.subset (by simp)))⟩

theorem systemdBool_iff (v : Bytes) : systemdBool v ↔ Resembles trueWords v := by
  unfold systemdBool Resembles trueWords
  rw [Bool.or_eq_true, Bool.or_eq_true, strncaseeq_iff (by decide), strncaseeq_iff (by decide),
    strncaseeq_iff (by decide)]
  simp only [List.mem_cons, List.not_mem_nil, or_false, exists_eq_or_imp, exists_eq_left]
  tauto

theorem systemdBoolFalse_iff (v : Bytes) : systemdBoolFalse v ↔ Resembles falseWords v := by
  unfold systemdBoolFalse Resembles falseWords
  rw [Bool.or_eq_true, Bool.or_eq_true, strncaseeq_iff (by decide), strncaseeq_iff (by decide),
    strncaseeq_iff (by decide)]
  simp only [List.mem_cons, List.not_mem_nil, or_false, exists_eq_or_imp, exists_eq_left]
  tauto

theorem resembles_of_begins {words : List Bytes} {v : Bytes} (h : words.any (begins v)) :
    Resembles words v := by
  obtain ⟨word, hword, h⟩ := List.any_eq_true.1 h
  unfold begins at h
  rw [Bool.and_eq_true, List.isPrefixOf_iff_prefix] at h
  exact ⟨word, hword, .inl h.2⟩

/-- What begins one of the words for false does not resemble one of those for true: they have other first
letters. -/
theorem not_resembles_of_begins {v : Bytes} (h : falseWords.any (begins v)) : ¬ Resembles trueWords v := by
  obtain ⟨word, hword, h⟩ := List.any_eq_true.1 h
  unfold begins at h
  rw [Bool.and_eq_true, List.isPrefixOf_iff_prefix, decide_eq_true_eq] at h
  obtain ⟨hne, t, ht⟩ := h
  obtain ⟨c, r, rfl⟩ := List.exists_cons_of_ne_nil hne
  rw [List.map_cons, List.cons_append] at ht
  rintro ⟨word', hword', h'⟩
  have hhead : ∀ x ∈ falseWords, ∀ y ∈ trueWords, x.head? ≠ y.head? ∧ y ≠ [] := by decide
  obtain ⟨h1, h2⟩ := hhead word hword word' hword'
  rw [← ht, List.head?_cons] at h1
  obtain ⟨d, r', rfl⟩ := List.exists_cons_of_ne_nil h2
  rcases h' with ⟨u, hu⟩ | ⟨u, hu⟩
  · rw [List.map_cons, List.cons_append] at hu
    exact h1 (congrArg List.head? hu)
  · rw [List.map_cons, List.cons_append, List.cons_append] at hu
    exact h1 (congrArg List.head? hu).symm

/-! ### One variable at a time -/

theorem flagKept_iff (dflt : Bool) (v : Bytes) :
    systemdBool v = documentedFlag dflt v ↔ FlagKept dflt v := by
  unfold documentedFlag FlagKept
  rw [List.any_append, Bool.or_eq_true]
  split
  next h => exact iff_of_true ((systemdBool_iff v).2 (resembles_of_begins h)) (.inl (.inl h))
  next ht =>
    split
    next h =>
      refine iff_of_true (Bool.eq_false_iff.2 fun hb => ?_) (.inl (.inr h))
      exact not_resembles_of_begins h ((systemdBool_iff v).1 hb)
    next hf =>
      rw [or_iff_right (not_or.2 ⟨ht, hf⟩), ← systemdBool_iff, Bool.eq_iff_iff]
      exact iff_comm

theorem numberKept_iff (v : Bytes) : (intMap v false false).1 = documentedNumber v ↔ NumberKept v := by
  unfold documentedNumber NumberKept
  rcases h : parseDecimal v with - | n
  · change (parseUint (cstr v)).out.getD (SIZE - 1) = 0 ↔ _
    have hsize : SIZE - 1 ≠ 0 := by decide
    unfold parseUint
    by_cases hnil : cstr v = []
    · rw [if_pos hnil]
      exact iff_of_false hsize fun h => h.1 hnil
    · rw [if_neg hnil]
      by_cases hdash : (cstr v).head? = some DASH
      · rw [if_pos hdash]
        exact iff_of_false hsize fun h => h.2.1 hdash
      · rw [if_neg hdash]
        exact ⟨fun h => ⟨hnil, hdash, h⟩, fun h => h.2.2⟩
  · rw [intMap_number h]
    by_cases hn : n < SIZE
    · rw [if_pos hn]
      exact iff_of_true rfl hn
    · rw [if_neg hn]
      refine iff_of_false (fun he => hn ?_) hn
      change SIZE - 1 = n at he
      rw [← he]
      decide

theorem startKept_iff (v : Bytes) :
    Job.startOfRange v 0 = documentedStart v ↔
      ∀ start rest, splitFirst DASH v = some (start, rest) → NumberKept start := by
  unfold Job.startOfRange documentedStart
  rcases splitFirst DASH v with - | ⟨start, rest⟩
  · exact iff_of_true rfl nofun
  · refine (numberKept_iff start).trans ⟨fun h _ _ he => ?_, fun h => h start rest rfl⟩
    cases he
    exact h

theorem mailSuccess_listed {v : Bytes} (h : v ∈ mailSuccessWords) (ds : CronMailSuccess) :
    mailSuccess v = some (documentedMailSuccess ds v) := by
  cases ds <;> revert v <;> decide +kernel

theorem mailSuccessKept_iff (ds : CronMailSuccess) (v : Bytes) :
    mailSuccessOf ds v ds = documentedMailSuccess ds v ↔ MailSuccessKept ds v := by
  by_cases hlisted : v ∈ mailSuccessWords
  · refine iff_of_true ?_ (.inl hlisted)
    rw [mailSuccessOf, mailSuccess_listed hlisted ds]
    rfl
  · rw [MailSuccessKept, or_iff_right hlisted]
    unfold mailSuccessWords at hlisted
    rw [List.mem_append, List.mem_append, not_or, not_or] at hlisted
    obtain ⟨⟨hnever, halways⟩, hnonempty⟩ := hlisted
    have hdoc : documentedMailSuccess ds v = ds := by
      rw [documentedMailSuccess, if_neg hnever, if_neg halways, if_neg hnonempty]
    have hne : v ≠ lit "never" := fun h => hnever (h ▸ List.mem_cons_self)
    have hal : v ≠ lit "always" := fun h => halways (h ▸ List.mem_cons_self)
    have hempty : ¬ (v = lit "nonempty" ∨ v = lit "non-empty") := fun h => hnonempty (by simpa using h)
    have hfalse : v = lit "never" ∨ systemdBoolFalse v ↔ Resembles falseWords v :=
      (or_iff_right hne).trans (systemdBoolFalse_iff v)
    have htrue : v = lit "always" ∨ systemdBool v ↔ Resembles trueWords v :=
      (or_iff_right hal).trans (systemdBool_iff v)
    rw [hdoc, mailSuccessOf, mailSuccess, if_neg hempty, ite_self]
    by_cases hf : Resembles falseWords v
    · rw [if_pos (hfalse.2 hf)]
      exact ⟨fun h => ⟨fun _ => h.symm, fun h => absurd hf h⟩, fun h => (h.1 hf).symm⟩
    · rw [if_neg (mt hfalse.1 hf)]
      by_cases ht : Resembles trueWords v
      · rw [if_pos (htrue.2 ht)]
        exact ⟨fun h => ⟨fun h => absurd h hf, fun _ _ => h.symm⟩, fun h => (h.2 hf ht).symm⟩
      · rw [if_neg (mt htrue.1 ht)]
        exact iff_of_true rfl ⟨fun h => absurd h hf, fun _ h => absurd h ht⟩

theorem mailFormatOf_eq (df : CronMailFormat) (v : Bytes) :
    mailFormatOf df v df = documentedMailFormat df v := by
  unfold mailFormatOf documentedMailFormat mailFormat
  split
  · rfl
  · by_cases h : v ∈ [lit "nometadata", lit "no-metadata"]
    · rw [if_pos h, if_pos (by simpa using h)]
      rfl
    · rw [if_neg h, if_neg (fun h' => h (by simpa using h')), ite_self]
      rfl

/-! ### All of them -/

/-- A field that one variable sets. -/
def IsField {α : Type} (ds : CronMailSuccess) (df : CronMailFormat) (f : Controls → α) (key : Bytes)
    (g : Bytes → α → α) : Prop :=
  ∀ (c : Controls) k v, f (c.set ds df k v) = if k = key then g v (f c) else f c

/-- A variable keeps what each of the updates keeps, if its name is theirs. -/
theorem Controls.set_eq_of {α : Type} {ds : CronMailSuccess} {df : CronMailFormat} {f : Controls → α}
    {c : Controls} {k v : Bytes}
    (h1 : k = lit "PERSISTENT" → f { c with persistent := systemdBool v } = f c)
    (h2 : k = lit "CRON_UNIQUE_UNITS" → f { c with cronUniqueUnits := systemdBool v } = f c)
    (h3 : k = lit "RANDOM_DELAY" → f { c with randomDelay := (intMap v false false).1 } = f c)
    (h4 : k = lit "START_HOURS_RANGE" → f { c with startHour := Job.startOfRange v c.startHour } = f c)
    (h5 : k = lit "DELAY" → f { c with bootDelay := (intMap v false false).1 } = f c)
    (h6 : k = lit "BATCH" → f { c with batch := systemdBool v } = f c)
    (h7 : k = lit "CRON_MAIL_SUCCESS" →
      f { c with cronMailSuccess := mailSuccessOf ds v c.cronMailSuccess } = f c)
    (h8 : k = lit "CRON_MAIL_FORMAT" →
      f { c with cronMailFormat := mailFormatOf df v c.cronMailFormat } = f c) :
    f (c.set ds df k v) = f c := by
  have hite : ∀ {p : Prop} [Decidable p] {a b : Controls}, (p → f a = f c) → f b = f c →
      f (if p then a else b) = f c := by
    intro p _ a b ha hb
    split
    next hp => exact ha hp
    next => exact hb
  exact hite h1 <| hite h2 <| hite h3 <| hite h4 <| hite h5 <| hite h6 <| hite h7 <| hite h8 rfl

theorem isField_persistent (ds : CronMailSuccess) (df : CronMailFormat) :
    IsField ds df Controls.persistent (lit "PERSISTENT") fun v _ => systemdBool v := by
  intro c k v
  split
  next h => rw [h]; rfl
  next h =>
    exact Controls.set_eq_of (fun h' => absurd h' h) (fun _ => rfl) (fun _ => rfl) (fun _ => rfl)
      (fun _ => rfl) (fun _ => rfl) (fun _ => rfl) (fun _ => rfl)

theorem isField_cronUniqueUnits (ds : CronMailSuccess) (df : CronMailFormat) :
    IsField ds df Controls.cronUniqueUnits (lit "CRON_UNIQUE_UNITS") fun v _ => systemdBool v := by
  intro c k v
  split
  next h => rw [h]; rfl
  next h =>
    exact Controls.set_eq_of (fun _ => rfl) (fun h' => absurd h' h) (fun _ => rfl) (fun _ => rfl)
      (fun _ => rfl) (fun _ => rfl) (fun _ => rfl) (fun _ => rfl)

theorem isField_randomDelay (ds : CronMailSuccess) (df : CronMailFormat) :
    IsField ds df Controls.randomDelay (lit "RANDOM_DELAY") fun v _ => (intMap v false false).1 := by
  intro c k v
  split
  next h => rw [h]; rfl
  next h =>
    exact Controls.set_eq_of (fun _ => rfl) (fun _ => rfl) (fun h' => absurd h' h) (fun _ => rfl)
      (fun _ => rfl) (fun _ => rfl) (fun _ => rfl) (fun _ => rfl)

theorem isField_startHour (ds : CronMailSuccess) (df : CronMailFormat) :
    IsField ds df Controls.startHour (lit "START_HOURS_RANGE") Job.startOfRange := by
  intro c k v
  split
  next h => rw [h]; rfl
  next h =>
    exact Controls.set_eq_of (fun _ => rfl) (fun _ => rfl) (fun _ => rfl) (fun h' => absurd h' h)
      (fun _ => rfl) (fun _ => rfl) (fun _ => rfl) (fun _ => rfl)

theorem isField_bootDelay (ds : CronMailSuccess) (df : CronMailFormat) :
    IsField ds df Controls.bootDelay (lit "DELAY") fun v _ => (intMap v false false).1 := by
  intro c k v
  split
  next h => rw [h]; rfl
  next h =>
    exact Controls.set_eq_of (fun _ => rfl) (fun _ => rfl) (fun _ => rfl) (fun _ => rfl)
      (fun h' => absurd h' h) (fun _ => rfl) (fun _ => rfl) (fun _ => rfl)

theorem isField_batch (ds : CronMailSuccess) (df : CronMailFormat) :
    IsField ds df Controls.batch (lit "BATCH") fun v _ => systemdBool v := by
  intro c k v
  split
  next h => rw [h]; rfl
  next h =>
    exact Controls.set_eq_of (fun _ => rfl) (fun _ => rfl) (fun _ => rfl) (fun _ => rfl)
      (fun _ => rfl) (fun h' => absurd h' h) (fun _ => rfl) (fun _ => rfl)

theorem isField_cronMailSuccess (ds : CronMailSuccess) (df : CronMailFormat) :
    IsField ds df Controls.cronMailSuccess (lit "CRON_MAIL_SUCCESS") (mailSuccessOf ds) := by
  intro c k v
  split
  next h => rw [h]; rfl
  next h =>
    exact Controls.set_eq_of (fun _ => rfl) (fun _ => rfl) (fun _ => rfl) (fun _ => rfl)
      (fun _ => rfl) (fun _ => rfl) (fun h' => absurd h' h) (fun _ => rfl)

theorem isField_cronMailFormat (ds : CronMailSuccess) (df : CronMailFormat) :
    IsField ds df Controls.cronMailFormat (lit "CRON_MAIL_FORMAT") (mailFormatOf df) := by
  intro c k v
  split
  next h => rw [h]; rfl
  next h =>
    exact Controls.set_eq_of (fun _ => rfl) (fun _ => rfl) (fun _ => rfl) (fun _ => rfl)
      (fun _ => rfl) (fun _ => rfl) (fun _ => rfl) (fun h' => absurd h' h)

/-- The fields before any variable. -/
def Controls.start (dp : Bool) (ds : CronMailSuccess) (df : CronMailFormat) : Controls where
  persistent := dp
  cronUniqueUnits := false
  randomDelay := 0
  startHour := 0
  bootDelay := 0
  batch := false
  cronMailSuccess := ds
  cronMailFormat := df

/-- A field after `decode_environment`. -/
theorem IsField.decodeEnvironment {α : Type} {ds : CronMailSuccess} {df : CronMailFormat} {f : Controls → α}
    {key : Bytes} {g : Bytes → α → α} (h : IsField ds df f key g) (host : Host) (filename line : Bytes)
    (env : Env) (dp : Bool) :
    f ((Job.new filename line).decodeEnvironment host env dp ds df).controls =
      (env[key]?).elim (f (.start dp ds df)) fun v => g v (f (.start dp ds df)) := by
  refine foldl_setting (f := fun j => f j.controls) (fun j k v => ?_) env _
  rw [Job.controls_decodeEntry]
  exact h _ k v

/-- A setting that may be absent is kept if its value is. -/
theorem elim_eq_elim_iff {α : Type} {v : Option Bytes} {dflt : α} {g g' : Bytes → α} {P : Bytes → Prop}
    (h : ∀ v, g v = g' v ↔ P v) : v.elim dflt g = v.elim dflt g' ↔ ∀ w, v = some w → P w := by
  rcases v with - | w
  · exact iff_of_true rfl nofun
  · refine (h w).trans ⟨fun hw _ he => ?_, fun hw => hw w rfl⟩
    cases he
    exact hw

/-- **Bad control settings**: `decode_environment` makes of an environment what the manual says exactly if
every control variable that is set has a value that is kept. -/
theorem decodeEnvironment_documented_iff (host : Host) (filename line : Bytes) (env : Env) (dp : Bool)
    (ds : CronMailSuccess) (df : CronMailFormat) :
    ((Job.new filename line).decodeEnvironment host env dp ds df).controls = documented dp ds df env ↔
      (∀ v, env[lit "PERSISTENT"]? = some v → FlagKept dp v) ∧
      (∀ v, env[lit "CRON_UNIQUE_UNITS"]? = some v → FlagKept false v) ∧
      (∀ v, env[lit "RANDOM_DELAY"]? = some v → NumberKept v) ∧
      (∀ v, env[lit "START_HOURS_RANGE"]? = some v →
        ∀ start rest, splitFirst DASH v = some (start, rest) → NumberKept start) ∧
      (∀ v, env[lit "DELAY"]? = some v → NumberKept v) ∧
      (∀ v, env[lit "BATCH"]? = some v → FlagKept false v) ∧
      ∀ v, env[lit "CRON_MAIL_SUCCESS"]? = some v → MailSuccessKept ds v := by
  rw [Controls.ext_iff, (isField_persistent ds df).decodeEnvironment,
    (isField_cronUniqueUnits ds df).decodeEnvironment, (isField_randomDelay ds df).decodeEnvironment,
    (isField_startHour ds df).decodeEnvironment, (isField_bootDelay ds df).decodeEnvironment,
    (isField_batch ds df).decodeEnvironment, (isField_cronMailSuccess ds df).decodeEnvironment,
    (isField_cronMailFormat ds df).decodeEnvironment]
  refine and_congr (elim_eq_elim_iff (flagKept_iff dp)) <|
    and_congr (elim_eq_elim_iff (flagKept_iff false)) <| and_congr (elim_eq_elim_iff numberKept_iff) <|
    and_congr (elim_eq_elim_iff startKept_iff) <| and_congr (elim_eq_elim_iff numberKept_iff) <|
    and_congr (elim_eq_elim_iff (flagKept_iff false)) <|
    (and_iff_left ?_).trans (elim_eq_elim_iff (mailSuccessKept_iff ds))
  exact (elim_eq_elim_iff (P := fun _ => True) fun v => iff_of_true (mailFormatOf_eq df v) trivial).2
    fun _ _ => trivial

/-- An empty flag is true, and a number is stored although there is something after it. -/
theorem decodeEnvironment_bad_values :
    (newJob .bare systemKind (.ofList [(lit "BATCH", []), (lit "RANDOM_DELAY", lit "5min")])
        (lit "* * * * * root true")).batch = true ∧
      (documented false .dflt .dflt (.ofList [(lit "BATCH", []), (lit "RANDOM_DELAY", lit "5min")])).batch =
        false ∧
      (newJob .bare systemKind (.ofList [(lit "BATCH", []), (lit "RANDOM_DELAY", lit "5min")])
        (lit "* * * * * root true")).randomDelay = 5 ∧
      (documented false .dflt .dflt
        (.ofList [(lit "BATCH", []), (lit "RANDOM_DELAY", lit "5min")])).randomDelay = 0 := by
  decide +kernel

end SystemdCron
