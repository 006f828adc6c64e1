import SystemdCron.Environment
import SystemdCron.Lib.Assignments

/-!
# The line of the environment

`environment_write` puts the variables of a job on the `Environment=` line of its service as they are, with
double quotes around those that have a blank. `environment_reads_iff` says which environments a service
manager reads back from it.
-/

namespace SystemdCron

open Bytes ExecLine Assignments

/-- A value that is read back from the line as it was written. -/
structure Kept (letter : UInt8 → Bool) (v : Bytes) : Prop where
  noQuote : DQUOTE ∉ v
  noBackslash : BACKSLASH ∉ v
  noNewline : LF ∉ v
  noNul : NUL ∉ v
  noSpecifier : hasSpecifier letter v = false
  /-- Without a blank there are no quotes around the value. -/
  unquoted : SPACE ∉ v → ∀ c ∈ v, isWhitespace c = false ∧ c ≠ SQUOTE

/-! ### Names -/

/-- The octets that an assignment has no use for, and that end no word. -/
def isOrdinary (c : UInt8) : Bool :=
  !isWhitespace c && c != DQUOTE && c != SQUOTE && c != BACKSLASH && c != NUL && c != PERCENT

theorem isOrdinary_of_isNameChar {c : UInt8} (h : isNameChar c) : isOrdinary c ∧ c ≠ EQUALS := by
  have : ∀ c : UInt8, isNameChar c → isOrdinary c ∧ c ≠ EQUALS := by decide +kernel
  exact this c h

theorem IsName.notMem_equals {k : Bytes} (h : IsName k) : EQUALS ∉ k := fun hk =>
  (isOrdinary_of_isNameChar (h.2 _ hk)).2 rfl

/-- A specifier has to begin in the value. -/
theorem hasSpecifier_append {letter : UInt8 → Bool} {u : Bytes} (hu : PERCENT ∉ u) (v : Bytes) :
    hasSpecifier letter (u ++ v) = hasSpecifier letter v := by
  induction u with
  | nil => rfl
  | cons c u ih =>
    have hc : (c == PERCENT) = false := beq_false_of_ne fun h => hu (h ▸ List.mem_cons_self)
    have ih := ih fun h => hu (List.mem_cons_of_mem c h)
    rw [List.cons_append, ← ih]
    rcases u ++ v with - | ⟨d, r⟩
    · rfl
    · rw [hasSpecifier, hc, Bool.false_and, Bool.false_or]

/-- An assignment is plain if its value is kept. -/
theorem plain_word_iff {letter : UInt8 → Bool} {k v : Bytes} (hk : IsName k) :
    Plain letter (decide (SPACE ∈ v)) (word (k, v)) ↔ Kept letter v := by
  have hord : ∀ c ∈ k ++ [EQUALS], isOrdinary c := by
    intro c hc
    rcases List.mem_append.1 hc with hc | hc
    · exact (isOrdinary_of_isNameChar (hk.2 c hc)).1
    · rw [List.mem_singleton.1 hc]
      decide
  have hword : word (k, v) = (k ++ [EQUALS]) ++ v := by simp [word]
  have hmem : ∀ {c : UInt8}, isOrdinary c = false → (c ∈ word (k, v) ↔ c ∈ v) := by
    intro c hc
    rw [hword, List.mem_append]
    refine or_iff_right fun h => ?_
    rw [hord c h] at hc
    cases hc
  have hspecifier : hasSpecifier letter (word (k, v)) = hasSpecifier letter v := by
    rw [hword]
    refine hasSpecifier_append (fun h => ?_) v
    exact absurd (hord _ h) (by decide)
  have hunquoted : (∀ c ∈ word (k, v), isWhitespace c = false ∧ c ≠ SQUOTE) ↔
      ∀ c ∈ v, isWhitespace c = false ∧ c ≠ SQUOTE := by
    rw [hword]
    refine ⟨fun h c hc => h c (List.mem_append_right _ hc), fun h c hc => ?_⟩
    rcases List.mem_append.1 hc with hc | hc
    · have hc := hord c hc
      unfold isOrdinary at hc
      simp only [Bool.and_eq_true, Bool.not_eq_true', bne_iff_ne] at hc
      exact ⟨hc.1.1.1.1.1, hc.1.1.1.2⟩
    · exact h c hc
  constructor
  · intro h
    refine ⟨fun hm => h.noQuote ((hmem (by decide)).2 hm), fun hm => h.noBackslash ((hmem (by decide)).2 hm),
      fun hm => h.noNewline ((hmem (by decide)).2 hm), fun hm => h.noNul ((hmem (by decide)).2 hm),
      hspecifier ▸ h.noSpecifier, fun hs => hunquoted.1 (h.unquoted (decide_eq_false hs))⟩
  · intro h
    refine ⟨fun hm => h.noQuote ((hmem (by decide)).1 hm), fun hm => h.noBackslash ((hmem (by decide)).1 hm),
      fun hm => h.noNewline ((hmem (by decide)).1 hm), fun hm => h.noNul ((hmem (by decide)).1 hm),
      hspecifier.trans h.noSpecifier, fun hs => hunquoted.2 (h.unquoted (of_decide_eq_false hs))⟩

/-! ### Writing and reading -/

/-- The line is made of the assignments, in the order of the names. -/
theorem environmentWrite_eq (env : Env) :
    environmentWrite env = joinWords (env.toList.map fun a => piece (decide (SPACE ∈ a.2)) (word a)) := by
  unfold environmentWrite
  congr 1
  refine List.map_congr_left fun a _ => ?_
  obtain ⟨k, v⟩ := a
  by_cases hs : SPACE ∈ v
  · simp [hs, piece, word]
  · simp [hs, piece, word]

/-- **The environment survives the unit file** exactly if all of its values are kept: whatever the
specifiers stand for, the line of a job of a crontab is read as assignments that give every name the value
it has, and no others. -/
theorem environment_reads_iff (e : Escapes) (letter : UInt8 → Bool) {host : Host} {kind : CrontabKind}
    {environment : Env} (henv : environment.Named) {content : Option Bytes} {rng : Rng} {r : Crontab}
    (h : parseCrontab host kind environment content rng = .ok r) {j : Job} (hj : j ∈ r.jobs) :
    (∀ value, ∃ read, assignments e ⟨letter, value⟩ (environmentWrite j.environment) = some read ∧
      ∀ k v : Bytes, get read k = some v ↔ j.environment[k]? = some v) ↔
    ∀ k v : Bytes, j.environment[k]? = some v → Kept letter v := by
  have hnamed := parseCrontab_named henv h hj
  generalize j.environment = env at hnamed
  have hmem : ∀ k v : Bytes, (k, v) ∈ env.toList ↔ env[k]? = some v := fun k v =>
    Std.TreeMap.mem_toList_iff_getElem?_eq_some
  have hname : ∀ a ∈ env.toList, IsName a.1 := fun a ha => hnamed a.1 a.2 ((hmem a.1 a.2).1 ha)
  have hnodup : (env.toList.map Prod.fst).Nodup :=
    List.pairwise_map.2 <| Std.TreeMap.distinct_keys_toList.imp fun hne he =>
      hne (by rw [he]; exact Std.ReflCmp.compare_self)
  have hquoted : ∀ a ∈ env.toList, decide (SPACE ∈ a.2) = false → SPACE ∉ word a := by
    intro a ha hs h
    rw [word, List.mem_append, List.mem_cons] at h
    rcases h with h | h | h
    · exact absurd (isOrdinary_of_isNameChar ((hname a ha).2 _ h)).1 (by decide)
    · exact absurd h (by decide)
    · exact of_decide_eq_false hs h
  have hlaw := @get_assignments_iff e letter _ _ hnodup
    (fun a ha => (hname a ha).notMem_equals) hquoted
  simp only [← environmentWrite_eq, hmem] at hlaw
  rw [hlaw]
  constructor
  · exact fun h k v hk => (plain_word_iff (hnamed k v hk)).1 (h (k, v) hk)
  · exact fun h a ha => (plain_word_iff (hnamed a.1 a.2 ha)).2 (h a.1 a.2 ha)

/-- What a letter after a backslash stands for, as in C. -/
def escapeLetter (c : UInt8) : Option UInt8 :=
  ((lit "abfnrtvs\\").zip [7, 8, 12, LF, CR, HT, 11, SPACE, BACKSLASH]).lookup c

theorem isAlnum_of_escapeLetter : ∀ c, (escapeLetter c).isSome → isAlnum c ∨ c = BACKSLASH := by decide +kernel

/-- The escapes of quotes and of single letters. -/
def letterEscapes : Escapes where
  read
    | [] => none
    | c :: r => if c = DQUOTE ∨ c = SQUOTE then some ([c], r) else (escapeLetter c).map fun x => ([x], r)
  read_spec := by
    intro s x r h
    cases s with
    | nil => cases h
    | cons c s =>
      dsimp only at h
      split at h
      next hc => cases h; exact .inl ⟨c, hc, rfl, rfl⟩
      next =>
        obtain ⟨y, hy, he⟩ := Option.map_eq_some_iff.1 h
        cases he
        refine .inr ⟨[c], rfl, by simp, by simp, fun d hd => ?_⟩
        rw [List.mem_singleton.1 hd]
        exact isAlnum_of_escapeLetter c (by rw [hy]; rfl)

/-- A job with a value that has quotes inside. -/
def sayJob : Job :=
  (systemJobs (lit "MSG=say \"hi\" now\n* * * * * root true")).get ⟨0, by decide +kernel⟩

/-- The inner quotes end the outer ones and are lost. -/
theorem environment_loses_quotes :
    sayJob.environment[lit "MSG"]? = some (lit "say \"hi\" now") ∧
      lit "Environment=" ++ environmentWrite sayJob.environment ∈ sayJob.generateService {} .bare ∧
      (∀ value, assignments letterEscapes ⟨isAlnum, value⟩ (environmentWrite sayJob.environment) =
        some [(lit "MSG", lit "say hi now")]) ∧
      ¬ ∀ k v : Bytes, get [(lit "MSG", lit "say hi now")] k = some v ↔ sayJob.environment[k]? = some v := by
  have hvalue : sayJob.environment[lit "MSG"]? = some (lit "say \"hi\" now") := by decide +kernel
  have hwrite : environmentWrite sayJob.environment = lit "\"MSG=say \"hi\" now\"" := by decide +kernel
  refine ⟨hvalue, by decide +kernel, fun value => ?_, fun h => ?_⟩
  · rw [hwrite]
    rfl
  · rw [(h (lit "MSG") (lit "say hi now")).1 (by decide)] at hvalue
    exact absurd hvalue (by decide)

/-- A job with two values, one of them with blanks and a quote inside. -/
def clockJob : Job :=
  (systemJobs (lit "GREETING=\"five o'clock, 100%\"\nA=1\n* * * * * root true")).get ⟨0, by decide +kernel⟩

theorem environment_reads_iff_clock :
    (∀ value, ∃ read,
      assignments letterEscapes ⟨isAlnum, value⟩ (environmentWrite clockJob.environment) = some read ∧
      ∀ k v : Bytes, get read k = some v ↔ clockJob.environment[k]? = some v) ↔
    ∀ k v : Bytes, clockJob.environment[k]? = some v → Kept isAlnum v := by
  obtain ⟨r, hr, hj⟩ := mem_crontabJobs (List.get_mem _ _ : clockJob ∈ _)
  exact environment_reads_iff letterEscapes isAlnum Env.named_empty hr hj

end SystemdCron
