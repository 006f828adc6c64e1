import SystemdCron.Crontab

/-!
# Percent signs

What `%` means in a command, read off the text of the line: the first `%` without a backslash before it
ends the command, what follows it is the standard input with its other `%`s for newlines, and `\%` is a
percent sign on both sides. The code looks for the dividing `%` word by word; `percentWord_tokens`
relates this to the text, by the induction that follows the words.
-/

namespace SystemdCron

open Bytes

/-! ### The meaning of a percent sign -/

/-- Whether a text is divided at a place: at a `%` that has no backslash immediately before it. -/
def dividesAt (s : Bytes) (i : Nat) : Bool :=
  s[i]? == some PERCENT && (i == 0 || s[i - 1]? != some BACKSLASH)

def firstPercent (c : Bytes) : Option Nat := (List.range c.length).find? (dividesAt c)

/-- What comes before the dividing `%`: all of the text if there is none. -/
def commandPart (c : Bytes) : Bytes :=
  match firstPercent c with
  | some i => c.take i
  | none => c

/-- What comes after the dividing `%`. -/
def inputPart (c : Bytes) : Bytes :=
  match firstPercent c with
  | some i => c.drop (i + 1)
  | none => []

/-- A text with every `\%` turned into `%`. -/
def unescape : Bytes → Bytes
  | BACKSLASH :: PERCENT :: r => PERCENT :: unescape r
  | c :: r => c :: unescape r
  | [] => []

/-- A text with every `\%` turned into `%` and every other `%` into a newline. -/
def inputText : Bytes → Bytes
  | BACKSLASH :: PERCENT :: r => PERCENT :: inputText r
  | c :: r => (if c = PERCENT then LF else c) :: inputText r
  | [] => []

/-- The number of fields before the command of a line. -/
def commandField (kind : CrontabKind) (line : Bytes) : Nat :=
  if kind.anacrontab then 3
  else (if line.head? = some AT then 1 else 5) + (if kind.withuser = .fromCmd0 then 1 else 0)

/-- The text of a line from its first command word on. -/
def commandText (kind : CrontabKind) (line : Bytes) : Bytes :=
  (dropFields (commandField kind line) line).dropWhile isFieldDelim

/-! ### The segments of a text -/

theorem unescape_cons {c : UInt8} {r : Bytes} (h : ∀ r', c :: r ≠ BACKSLASH :: PERCENT :: r') :
    unescape (c :: r) = c :: unescape r := by
  rw [unescape.eq_def]
  split
  next r' he => exact absurd he (h r')
  next he => cases he; rfl
  next he => cases he

theorem inputText_cons {c : UInt8} {r : Bytes} (h : ∀ r', c :: r ≠ BACKSLASH :: PERCENT :: r') :
    inputText (c :: r) = (if c = PERCENT then LF else c) :: inputText r := by
  rw [inputText.eq_def]
  split
  next r' he => exact absurd he (h r')
  next he => cases he; rfl
  next he => cases he

theorem findBackpct_cons {c : UInt8} {r : Bytes} (h : ∀ r', c :: r ≠ BACKSLASH :: PERCENT :: r') :
    findBackpct (c :: r) = (findBackpct r).map fun p => (c :: p.1, p.2) := by
  rw [findBackpct.eq_def]
  split
  next r' he => exact absurd he (h r')
  next he => cases he; rfl
  next he => cases he

/-- Without `\%`, a text is its own unescaped form, and its `%`s are newlines. -/
theorem findBackpct_none {s : Bytes} (h : findBackpct s = none) :
    unescape s = s ∧ inputText s = s.map fun c => if c = PERCENT then LF else c := by
  induction s using findBackpct.induct with
  | case1 r => cases h
  | case2 c r hne ih =>
    rw [findBackpct_cons (fun r' he => by cases he; exact hne _ rfl rfl)] at h
    obtain ⟨h1, h2⟩ := ih (by simpa using h)
    have hne' : ∀ r', c :: r ≠ BACKSLASH :: PERCENT :: r' := fun r' he => by
      cases he; exact hne _ rfl rfl
    rw [unescape_cons hne', inputText_cons hne', h1, h2]
    exact ⟨rfl, rfl⟩
  | case3 => exact ⟨rfl, rfl⟩

/-- At its first `\%` a text is unescaped in two halves. -/
theorem findBackpct_some {s a b : Bytes} (h : findBackpct s = some (a, b)) :
    unescape s = a ++ PERCENT :: unescape b ∧
      inputText s = (a.map fun c => if c = PERCENT then LF else c) ++ PERCENT :: inputText b ∧
      a.length + b.length + 2 = s.length := by
  induction s using findBackpct.induct generalizing a with
  | case1 r => cases h; exact ⟨rfl, rfl, by simp⟩
  | case2 c r hne ih =>
    have hne' : ∀ r', c :: r ≠ BACKSLASH :: PERCENT :: r' := fun r' he => by
      cases he; exact hne _ rfl rfl
    rw [findBackpct_cons hne', Option.map_eq_some_iff] at h
    obtain ⟨⟨a', b'⟩, hr, he⟩ := h
    cases he
    obtain ⟨h1, h2, h3⟩ := ih hr
    rw [unescape_cons hne', inputText_cons hne', h1, h2]
    refine ⟨rfl, rfl, ?_⟩
    simp only [List.length_cons] at h3 ⊢
    omega
  | case3 => cases h

/-- The segments of `debackslashpercentise`, put together, are the unescaped text. -/
theorem flatMap_backslashpercentSegments {n : Nat} {s : Bytes} (h : s.length ≤ n) :
    (backslashpercentSegments n s).flatMap (·.1) = unescape s := by
  induction n generalizing s with
  | zero => rw [List.length_eq_zero_iff.1 (Nat.le_zero.1 h)]; rfl
  | succ n ih =>
    simp only [backslashpercentSegments]
    split
    next he => rw [he]; rfl
    split
    next hn => simp [(findBackpct_none hn).1]
    next a b hs =>
      obtain ⟨h1, -, h3⟩ := findBackpct_some hs
      simp [h1, ih (s := b) (by omega)]

/-- A segment is fed with its percent signs for newlines, or as it is. -/
theorem flatten_feedSegment (segment : Bytes) (replacePercent : Bool) :
    (Job.feedSegment segment replacePercent).flatten =
      if replacePercent then segment.map fun c => if c = PERCENT then LF else c else segment := by
  cases replacePercent with
  | false => simp [Job.feedSegment]
  | true =>
    have key : ∀ s : Bytes, ((s.splitOn PERCENT).intersperse [LF]).flatten =
        s.map fun c => if c = PERCENT then LF else c := by
      intro s
      induction s with
      | nil => simp
      | cons c s ih =>
        obtain ⟨w, ws, hw⟩ : ∃ w ws, s.splitOn PERCENT = w :: ws :=
          List.exists_cons_of_ne_nil (by simp)
        rw [hw] at ih
        rw [List.splitOn_cons_eq_if_modifyHead, hw]
        by_cases hc : c = PERCENT
        · simp [hc, ih]
        · rcases ws with - | ⟨v, ws⟩
          · simp_all
          · simp_all
    simpa [Job.feedSegment] using key segment

/-- The chunks fed to the encoder, put together, are the input text. -/
theorem flatten_inputChunks {n : Nat} {s : Bytes} (h : s.length ≤ n) :
    ((backslashpercentSegments n s).flatMap fun p => Job.feedSegment p.1 p.2).flatten = inputText s := by
  induction n generalizing s with
  | zero => rw [List.length_eq_zero_iff.1 (Nat.le_zero.1 h)]; rfl
  | succ n ih =>
    simp only [backslashpercentSegments]
    split
    next he => rw [he]; rfl
    split
    next hn => simp [(findBackpct_none hn).2, flatten_feedSegment]
    next a b hs =>
      obtain ⟨-, h2, h3⟩ := findBackpct_some hs
      simp [h2, flatten_feedSegment, ih (s := b) (by omega)]

/-! ### The dividing percent sign -/

theorem cutPercent_of_ne {prev : Option UInt8} (h : prev ≠ some BACKSLASH) (s : Bytes) :
    cutPercent prev s = cutPercent none s := by
  cases s with
  | nil => rfl
  | cons c r => simp [cutPercent, h]

/-- The search from left to right finds the first place that divides. -/
theorem cutPercent_eq (s : Bytes) :
    cutPercent none s = (firstPercent s).map fun i => (s.take i, s.drop (i + 1)) := by
  -- The octet before the text is a parameter of the search.
  suffices h : ∀ (s : Bytes) (prev : Option UInt8), cutPercent prev s =
      ((List.range s.length).find? fun i => s[i]? == some PERCENT &&
        (if i = 0 then prev else s[i - 1]?) != some BACKSLASH).map fun i =>
          (s.take i, s.drop (i + 1)) by
    rw [h s none, firstPercent]
    congr 2
    funext i
    rcases i with - | i <;> simp [dividesAt]
  intro s
  induction s with
  | nil => intro prev; rfl
  | cons c r ih =>
    intro prev
    rw [cutPercent, List.length_cons, List.range_succ_eq_map, List.find?_cons]
    by_cases hc : c = PERCENT ∧ prev ≠ some BACKSLASH
    · have h1 : (prev != some BACKSLASH) = true := by simpa using hc.2
      simp [hc.1, hc.2, h1]
    · have h0 : ((c :: r)[0]? == some PERCENT &&
          (if (0 : Nat) = 0 then prev else (c :: r)[0 - 1]?) != some BACKSLASH) = false := by
        rw [Bool.eq_false_iff]
        intro h
        simp only [List.getElem?_cons_zero, if_true, Bool.and_eq_true, beq_iff_eq,
          Option.some.injEq, bne_iff_ne] at h
        exact hc h
      rw [if_neg hc, h0, ih, List.find?_map]
      have hp : ((fun i => (c :: r)[i]? == some PERCENT &&
          (if i = 0 then prev else (c :: r)[i - 1]?) != some BACKSLASH) ∘ Nat.succ) =
          fun i => r[i]? == some PERCENT && (if i = 0 then some c else r[i - 1]?) != some BACKSLASH := by
        funext i
        rcases i with - | i <;> simp
      simp only [hp, Option.map_map]
      rfl

theorem cutPercent_append {prev : Option UInt8} {w a b : Bytes} (h : cutPercent prev w = some (a, b))
    (r : Bytes) : cutPercent prev (w ++ r) = some (a, b ++ r) := by
  induction w generalizing prev a with
  | nil => cases h
  | cons c w ih =>
    simp only [cutPercent, List.cons_append] at h ⊢
    split at h
    next hc => cases h; rw [if_pos hc]
    next hc =>
      rw [if_neg hc]
      obtain ⟨⟨a', b'⟩, hw, he⟩ := Option.map_eq_some_iff.1 h
      cases he
      rw [ih hw]
      rfl

theorem isFieldDelim_ne {c : UInt8} (h : isFieldDelim c) : c ≠ PERCENT ∧ c ≠ BACKSLASH := by
  constructor <;> rintro rfl <;> revert h <;> decide

/-- Past a word without a dividing `%` the search goes on as from the start. -/
theorem cutPercent_word {prev : Option UInt8} {w : Bytes} (h : cutPercent prev w = none) {c : UInt8}
    (hc : isFieldDelim c) (b : Bytes) :
    cutPercent prev (w ++ c :: b) = (cutPercent none b).map fun p => (w ++ c :: p.1, p.2) := by
  induction w generalizing prev with
  | nil =>
    obtain ⟨h1, h2⟩ := isFieldDelim_ne hc
    rw [List.nil_append, cutPercent, if_neg (fun h => h1 h.1), cutPercent_of_ne (by simpa using h2)]
    rfl
  | cons d w ih =>
    simp only [cutPercent, List.cons_append] at h ⊢
    split at h
    next => cases h
    next hd =>
      rw [if_neg hd, ih (by simpa using h), Option.map_map]
      rfl

/-- What is before the dividing `%` is not divided again. -/
theorem cutPercent_left {prev : Option UInt8} {s a b : Bytes} (h : cutPercent prev s = some (a, b)) :
    cutPercent prev a = none := by
  induction s generalizing prev a with
  | nil => cases h
  | cons c r ih =>
    simp only [cutPercent] at h
    split at h
    next => cases h; rfl
    next hc =>
      obtain ⟨⟨a', b'⟩, hr, he⟩ := Option.map_eq_some_iff.1 h
      cases he
      rw [cutPercent, if_neg hc, ih hr]
      rfl

theorem cutPercent_subset {prev : Option UInt8} {s a b : Bytes} (h : cutPercent prev s = some (a, b)) :
    ∀ c ∈ a, c ∈ s := by
  induction s generalizing prev a with
  | nil => cases h
  | cons c r ih =>
    simp only [cutPercent] at h
    split at h
    next => cases h; simp
    next hc =>
      obtain ⟨⟨a', b'⟩, hr, he⟩ := Option.map_eq_some_iff.1 h
      cases he
      intro x hx
      rcases List.mem_cons.1 hx with rfl | hx
      · simp
      · simp [ih hr x hx]

/-- The words of a text up to its dividing `%`, and what follows it: the word that has the `%` comes
last, and may be empty once it is cut. -/
theorem percentWord_tokens (t : Bytes) (k : Nat) :
    (cutPercent none t = none → percentWord (tokens isFieldDelim t) k = none) ∧
    ∀ a b, cutPercent none t = some (a, b) → ∃ ws after i,
      percentWord (tokens isFieldDelim t) k = some (ws, after, k + i) ∧
      (ws = tokens isFieldDelim a ∨ ws = tokens isFieldDelim a ++ [[]]) ∧
      b = after ++ dropFields (i + 1) t := by
  induction t using tokens_induction (p := isFieldDelim) generalizing k with
  | nil => exact ⟨fun _ => rfl, nofun⟩
  | delimiter c t hc ih =>
    have hcut := @cutPercent_word none [] rfl _ hc t
    simp only [List.nil_append] at hcut
    rw [tokens_cons_delim t hc, hcut]
    refine ⟨fun h => (ih k).1 (by simpa using h), ?_⟩
    intro a b h
    obtain ⟨⟨a', b'⟩, ht, he⟩ := Option.map_eq_some_iff.1 h
    cases he
    obtain ⟨ws, after, i, h1, h2, h3⟩ := (ih k).2 a' b' ht
    exact ⟨ws, after, i, h1, by rwa [tokens_cons_delim a' hc], by rwa [dropFields_cons_delim hc]⟩
  | last w hne hw =>
    rw [tokens_of_no_delim hw hne]
    refine ⟨fun h => by simp [percentWord, h], ?_⟩
    intro a b h
    refine ⟨[a], b, 0, by simp [percentWord, h], ?_, by simp [dropFields_last hne hw]⟩
    by_cases ha : a = []
    · exact .inr (by simp [ha])
    · exact .inl (tokens_of_no_delim (fun x hx => hw x (cutPercent_subset h x hx)) ha).symm
  | word w c t hne hw hc ih =>
    rw [tokens_append_word t hw hne hc]
    cases hcw : cutPercent none w with
    | none =>
      rw [cutPercent_word hcw hc]
      refine ⟨fun h => ?_, ?_⟩
      · simp [percentWord, hcw, (ih (k + 1)).1 (by simpa using h)]
      intro a b h
      obtain ⟨⟨a', b'⟩, ht, he⟩ := Option.map_eq_some_iff.1 h
      cases he
      obtain ⟨ws, after, i, h1, h2, h3⟩ := (ih (k + 1)).2 a' b' ht
      refine ⟨w :: ws, after, i + 1, ?_, ?_, ?_⟩
      · simp [percentWord, hcw, h1]; omega
      · simpa [tokens_append_word a' hw hne hc] using h2
      · rw [dropFields_word hne hw hc, dropFields_cons_delim hc]; exact h3
    | some p =>
      obtain ⟨a', b'⟩ := p
      rw [cutPercent_append hcw]
      refine ⟨nofun, ?_⟩
      intro a b h
      cases h
      refine ⟨[a'], b', 0, by simp [percentWord, hcw], ?_, by simp [dropFields_word hne hw hc]⟩
      by_cases ha : a' = []
      · exact .inr (by simp [ha])
      · exact .inl (tokens_of_no_delim (fun x hx => hw x (cutPercent_subset hcw x hx)) ha).symm

theorem cutPercent_parts (c : Bytes) :
    (cutPercent none c = none ∧ commandPart c = c ∧ inputPart c = []) ∨
      cutPercent none c = some (commandPart c, inputPart c) := by
  rw [cutPercent_eq]
  cases h : firstPercent c with
  | none => exact .inl ⟨rfl, by simp [commandPart, h], by simp [inputPart, h]⟩
  | some i => exact .inr (by simp [commandPart, inputPart, h])

/-! ### The command and the input of a line -/

/-- `parse_percent` on the words of a text. -/
theorem Job.parsePercent_tokens {j : Job} {skip : Nat} {c : Bytes}
    (hw : j.command.command = tokens isFieldDelim c)
    (hd : ∀ i, dropFields (skip + i + 1) j.line = dropFields (i + 1) c) (hi : j.inputData = []) :
    ((j.parsePercent skip).command.command = tokens isFieldDelim (commandPart c) ∨
      (j.parsePercent skip).command.command = tokens isFieldDelim (commandPart c) ++ [[]]) ∧
    (j.parsePercent skip).inputData = inputPart c := by
  obtain ⟨h0, h1⟩ := percentWord_tokens c skip
  unfold Job.parsePercent
  rw [hw]
  rcases cutPercent_parts c with ⟨hn, hc, hp⟩ | hs
  · rw [h0 hn]
    exact ⟨.inl (by rw [hc, hw]), by rw [hi, hp]⟩
  · obtain ⟨ws, after, i, hpw, hws, hb⟩ := h1 _ _ hs
    rw [hpw]
    exact ⟨hws, by rw [hb, ← hd]⟩

theorem dropFields_dropWhile (n : Nat) (s : Bytes) :
    dropFields (n + 1) (s.dropWhile isFieldDelim) = dropFields (n + 1) s := by
  simp [dropFields, List.dropWhile_idempotent]

theorem tokens_commandText (kind : CrontabKind) (line : Bytes) :
    tokens isFieldDelim (commandText kind line) =
      (tokens isFieldDelim line).drop (commandField kind line) := by
  rw [commandText, tokens_dropWhile, tokens_dropFields]

theorem commandText_eq_nil {kind : CrontabKind} {line : Bytes}
    (h : (tokens isFieldDelim line).length ≤ commandField kind line) : commandText kind line = [] := by
  rw [commandText]
  apply dropWhile_eq_nil_of_tokens
  rw [tokens_dropFields, List.drop_eq_nil_of_le h]

/-- The last part of the two crontab parsers, on a job that has the words of the line. -/
theorem Job.parseUserCommand_tokens {j : Job} {kind : CrontabKind} {skip : Nat}
    (hp : j.parts = tokens isFieldDelim j.line) (hi : j.inputData = [])
    (hskip : commandField kind j.line = skip + (if kind.withuser = .fromCmd0 then 1 else 0)) :
    ((j.parseUserCommand kind.withuser skip).command.command =
        tokens isFieldDelim (commandPart (commandText kind j.line)) ∨
      (j.parseUserCommand kind.withuser skip).command.command =
        tokens isFieldDelim (commandPart (commandText kind j.line)) ++ [[]]) ∧
    (j.parseUserCommand kind.withuser skip).inputData = inputPart (commandText kind j.line) := by
  unfold Job.parseUserCommand
  extract_lets r c j'
  have hr : r.2 = commandField kind j.line := by
    rw [hskip]
    simp only [r]
    cases kind.withuser <;> rfl
  refine Job.parsePercent_tokens (j := j') ?_ (fun i => ?_) hi
  · rw [tokens_commandText, ← hr, ← hp]
  · rw [hr, Nat.add_assoc, dropFields_add, commandText, dropFields_dropWhile]

/-- The command words and the input of a parsed crontab line. -/
theorem parseLine_tokens {host : Host} {kind : CrontabKind} {environment : Env} {line : Bytes}
    {rng rng' : Rng} {p : Job} (h : parseLine host kind environment line rng = .ok (p, rng'))
    (hk : kind.anacrontab = false) :
    p.command.nopercent = false ∧
    (p.command.command = tokens isFieldDelim (commandPart (commandText kind line)) ∨
      p.command.command = tokens isFieldDelim (commandPart (commandText kind line)) ++ [[]]) ∧
    p.inputData = inputPart (commandText kind line) := by
  have hparts := newJob_parts host kind environment line
  have hsame := newJob_sameLine host kind environment line
  simp only [parseLine] at h
  generalize newJob host kind environment line = j at h hparts hsame
  have hline : j.line = line := hsame.line
  have hnop : j.command.nopercent = false := by rw [hsame.command]; rfl
  have hempty : (tokens isFieldDelim line).length ≤ commandField kind line → ∀ {b : Job},
      b.command = j.command → b.inputData = j.inputData → b.command.nopercent = false ∧
      (b.command.command = tokens isFieldDelim (commandPart (commandText kind line)) ∨
        b.command.command = tokens isFieldDelim (commandPart (commandText kind line)) ++ [[]]) ∧
      b.inputData = inputPart (commandText kind line) := by
    intro hlen b hb1 hb2
    rw [commandText_eq_nil hlen, hb1, hb2, hsame.command, hsame.inputData]
    exact ⟨rfl, .inl rfl, rfl⟩
  rw [if_neg (by simp [hk])] at h
  split at h
  next hat =>
    have hfield : commandField kind j.line = 1 + (if kind.withuser = .fromCmd0 then 1 else 0) := by
      simp [commandField, hk, hline, hat]
    cases h
    unfold Job.parseCrontabAt
    extract_lets need user _ j1
    split
    next hlen =>
      refine hempty ?_ rfl rfl
      rw [← hparts, ← hline, hfield]
      simp only [need] at hlen
      omega
    next =>
      obtain ⟨_, _, _, _, heq⟩ := j1.parseUserCommand_eq kind.withuser 1
      refine ⟨by rw [heq]; exact hnop, ?_⟩
      have := @Job.parseUserCommand_tokens j1 kind 1 (hparts.trans (by rw [← hline]))
        hsame.inputData hfield
      rwa [show j1.line = line from hline] at this
  next hat =>
    have hfield : commandField kind j.line = 5 + (if kind.withuser = .fromCmd0 then 1 else 0) := by
      simp [commandField, hk, hline, hat]
    rcases Job.parseCrontabTimespec_ok h with ⟨hlen, log, rfl⟩ | ⟨f, hf, -, rfl⟩
    · refine hempty ?_ rfl rfl
      rw [← hparts, ← hline, hfield]
      omega
    · obtain ⟨_, _, _, _, heq⟩ := f.parseUserCommand_eq kind.withuser 5
      obtain ⟨hfp, hfl, hfi, hfn⟩ : f.parts = j.parts ∧ f.line = j.line ∧
          f.inputData = j.inputData ∧ f.command = j.command := by
        obtain ⟨_, _, _, _, _, _, _, _, _, _, _, _, rfl⟩ := Job.parseFields_ok hf
        exact ⟨rfl, rfl, rfl, rfl⟩
      refine ⟨by rw [heq, hfn]; exact hnop, ?_⟩
      have := @Job.parseUserCommand_tokens f kind 5
        (by rw [hfp, hfl, hline, hparts]) (by rw [hfi, hsame.inputData]; rfl) (by rw [hfl, hfield])
      rwa [hfl, hline] at this

/-- The command words and the input of a parsed anacrontab line. -/
theorem parseLine_anacrontab {host : Host} {kind : CrontabKind} {environment : Env} {line : Bytes}
    {rng rng' : Rng} {p : Job} (h : parseLine host kind environment line rng = .ok (p, rng'))
    (hk : kind.anacrontab = true) :
    (p.command.command = [] ∨ p.command.nopercent = true) ∧
    p.command.command = tokens isFieldDelim (commandText kind line) ∧ p.inputData = [] := by
  have hparts := newJob_parts host kind environment line
  have hsame := newJob_sameLine host kind environment line
  simp only [parseLine] at h
  generalize newJob host kind environment line = j at h hparts hsame
  have hfield : commandField kind line = 3 := by simp [commandField, hk]
  rw [if_pos hk] at h
  cases h
  obtain ⟨_, _, _, _, _, _, _, heq⟩ := j.parseAnacrontab_eq
  have hi : j.parseAnacrontab.inputData = [] := by rw [heq]; exact hsame.inputData
  rw [tokens_commandText, hfield, ← hparts]
  refine ⟨?_, ?_, hi⟩ <;> unfold Job.parseAnacrontab <;> split
  · exact .inr rfl
  · exact .inl (by simp [hsame.command, Job.new])
  next period delay ident c cs hp =>
    rw [hp]
    rfl
  next hp =>
    have hlen : j.parts.length ≤ 3 := by
      rcases hj : j.parts with - | ⟨a, - | ⟨b, - | ⟨d, - | ⟨e, r⟩⟩⟩⟩
      · simp
      · simp
      · simp
      · simp
      · exact absurd hj (hp a b d e r)
    rw [List.drop_eq_nil_of_le hlen]
    simp [hsame.command, Job.new]

/-- The word that was cut does not count if nothing is left of it. -/
theorem filter_expandTilde (home : Option Bytes) {ws vs : List Bytes} (hvs : ∀ w ∈ vs, w ≠ [])
    (h : ws = vs ∨ ws = vs ++ [[]]) :
    (Job.expandTilde home ws).filter (· ≠ []) = Job.expandTilde home vs := by
  have htilde : lit "~/" = [TILDE, SLASH] := by decide
  have hne : ∀ {w : Bytes}, w ≠ [] → ∀ home : Bytes,
      (if (lit "~/").isPrefixOf w then home ++ w.drop 1 else w) ≠ [] := by
    intro w hw home
    split
    next hp =>
      obtain ⟨t, rfl⟩ := List.isPrefixOf_iff_prefix.1 hp
      simp [htilde]
    next => exact hw
  have hfilter : ∀ {us : List Bytes}, (∀ w ∈ us, w ≠ []) → us.filter (· ≠ []) = us :=
    fun hus => List.filter_eq_self.2 fun w hw => by simpa using hus w hw
  -- The words after the first are the same on both sides, but for the empty one.
  have hcons : ∀ {u : Bytes} {us : List Bytes}, u ≠ [] →
      (u :: (us ++ [[]])).filter (· ≠ []) = (u :: us).filter (· ≠ []) := by
    intro u us hu; simp [hu]
  rcases vs with - | ⟨v, vs⟩
  · rcases h with rfl | rfl <;> cases home <;> simp [Job.expandTilde, htilde]
  have hv := hvs v (by simp)
  have hvs' : ∀ w ∈ vs, w ≠ [] := fun w hw => hvs w (by simp [hw])
  rcases h with rfl | rfl <;> rcases home with - | home
  · exact hfilter hvs
  · exact hfilter fun w hw => by
      rcases List.mem_cons.1 hw with rfl | hw
      · exact hne hv home
      · exact hvs' w hw
  · exact (hcons hv).trans (hfilter hvs)
  · exact (hcons (hne hv home)).trans (hfilter fun w hw => by
      rcases List.mem_cons.1 hw with rfl | hw
      · exact hne hv home
      · exact hvs' w hw)

/-- The nonempty words of a job, from the words it was parsed with. -/
theorem parseJob_command {host : Host} {kind : CrontabKind} {environment : Env} {line : Bytes}
    {rng rng' : Rng} {j : Job} (h : parseJob host kind environment line rng = .ok (j, rng')) :
    ∃ p, parseLine host kind environment line rng = .ok (p, rng') ∧ j.line = line ∧
      j.inputData = p.inputData ∧ j.command.nopercent = p.command.nopercent ∧
      j.command.hunks = Job.expandTilde j.userHome p.command.command := by
  obtain ⟨p, hp, rfl⟩ := parseJob_ok h
  have hs := (p.decode host).generateSchedule_scheduled
  have hset := parseLine_sameSettings hp
  have hsame := newJob_sameLine host kind environment line
  have hc0 : p.command.command0 = none := by rw [hset.command0, hsame.command]; rfl
  refine ⟨p, hp, ?_⟩
  rw [hs.line, hs.inputData, hs.command, hs.userHome]
  have hunks := Job.decodeCommand_hunks host
    (j := { p with jobid := p.jobid.filter isAsciiAlnum }) hc0
  obtain ⟨_, _, _, _, _, _, _, hd⟩ :=
    Job.decodeCommand_eq host { p with jobid := p.jobid.filter isAsciiAlnum }
  refine ⟨?_, ?_, ?_, hunks⟩ <;> rw [Job.decode, hd]
  exact hset.line.trans hsame.line

theorem Job.unescaped_eq (j : Job) (hunk : Bytes) :
    j.unescaped hunk = if j.command.nopercent then hunk else unescape hunk := by
  unfold Job.unescaped Job.debackslashpercentise
  split
  · simp
  · exact flatMap_backslashpercentSegments le_rfl

/-- The words and the input of the job of a crontab line. -/
theorem parseJob_crontab {host : Host} {kind : CrontabKind} {environment : Env} {line : Bytes}
    {rng rng' : Rng} {j : Job} (h : parseJob host kind environment line rng = .ok (j, rng'))
    (hk : kind.anacrontab = false) :
    j.line = line ∧ j.command.nopercent = false ∧
      j.command.hunks.filter (· ≠ []) = Job.expandTilde j.userHome
        (tokens isFieldDelim (commandPart (commandText kind line))) ∧
      j.inputData = inputPart (commandText kind line) := by
  obtain ⟨p, hp, hline, hinput, hnop, hhunks⟩ := parseJob_command h
  obtain ⟨hp1, hp2, hp3⟩ := parseLine_tokens hp hk
  rw [hhunks]
  exact ⟨hline, hnop.trans hp1, filter_expandTilde _ (fun w => ne_nil_of_mem_tokens) hp2,
    hinput.trans hp3⟩

/-- The words of the job of an anacrontab line, whose percent signs are left alone. -/
theorem parseJob_anacrontab {host : Host} {kind : CrontabKind} {environment : Env} {line : Bytes}
    {rng rng' : Rng} {j : Job} (h : parseJob host kind environment line rng = .ok (j, rng'))
    (hk : kind.anacrontab = true) :
    j.line = line ∧ (j.command.hunks.filter (· ≠ []) = [] ∨ j.command.nopercent = true) ∧
      j.command.hunks.filter (· ≠ []) =
        Job.expandTilde j.userHome (tokens isFieldDelim (commandText kind line)) ∧
      j.inputData = [] := by
  obtain ⟨p, hp, hline, hinput, hnop, hhunks⟩ := parseJob_command h
  obtain ⟨hp1, hp2, hp3⟩ := parseLine_anacrontab hp hk
  have hwords : j.command.hunks.filter (· ≠ []) =
      Job.expandTilde j.userHome (tokens isFieldDelim (commandText kind line)) := by
    rw [hhunks, hp2]
    exact filter_expandTilde _ (fun w => ne_nil_of_mem_tokens) (.inl rfl)
  refine ⟨hline, ?_, hwords, hinput.trans hp3⟩
  rcases hp1 with hp1 | hp1
  · rw [hwords, ← hp2, hp1]; exact .inl rfl
  · exact .inr (hnop.trans hp1)

/-- A scriptlet of some words. -/
def scriptOf (ws : List Bytes) : Bytes := if ws = [] then [] else joinWords ws ++ [LF]

theorem Job.scriptletText_eq {j : Job} {f : Bytes → Bytes}
    (h : ∀ w ∈ j.command.hunks.filter (· ≠ []), j.unescaped w = f w) :
    j.scriptletText = scriptOf ((j.command.hunks.filter (· ≠ [])).map f) := by
  simp only [Job.scriptletText, scriptOf, List.map_eq_nil_iff, List.map_congr_left h]

/-- **Percent semantics.** Of a crontab line, the nonempty command words are the words before its
dividing `%`, each written to the scriptlet with `\%` turned into `%`, and what is after the dividing `%`
is fed to the encoder with its other `%`s for newlines. Of an anacrontab line nothing is interpreted. -/
theorem parseCrontab_percent {host : Host} {kind : CrontabKind} {environment : Env}
    {content : Option Bytes} {rng : Rng} {r : Crontab}
    (h : parseCrontab host kind environment content rng = .ok r) {j : Job} (hj : j ∈ r.jobs) :
    let c := commandText kind j.line
    let words := j.command.hunks.filter (· ≠ [])
    if kind.anacrontab then
      words = Job.expandTilde j.userHome (tokens isFieldDelim c) ∧
        j.scriptletText = scriptOf words ∧ j.inputData = []
    else
      words = Job.expandTilde j.userHome (tokens isFieldDelim (commandPart c)) ∧
        j.scriptletText = scriptOf (words.map unescape) ∧
        j.inputChunks.flatten = inputText (inputPart c) := by
  intro c words
  obtain ⟨_, -, line, -, env, _, _, -, hjob⟩ := mem_jobs_parseCrontab h hj
  split
  next hk =>
    obtain ⟨hline, hraw, hwords, hinput⟩ := parseJob_anacrontab hjob hk
    refine ⟨by simp only [words, c, hwords, hline], ?_, hinput⟩
    have hraw : ∀ w ∈ words, j.unescaped w = id w := by
      intro w hw
      rw [Job.unescaped_eq]
      rcases hraw with hraw | hraw
      · simp only [words, hraw] at hw; cases hw
      · rw [if_pos hraw, id_eq]
    rw [Job.scriptletText_eq hraw, List.map_id]
  next hk =>
    obtain ⟨hline, hnop, hwords, hinput⟩ := parseJob_crontab hjob (by simpa using hk)
    refine ⟨by simp only [words, c, hwords, hline], Job.scriptletText_eq fun w _ => ?_, ?_⟩
    · rw [Job.unescaped_eq, hnop]; rfl
    · rw [Job.inputChunks, Job.debackslashpercentise, hnop, hinput, ← hline]
      exact flatten_inputChunks le_rfl

theorem parseCrontab_percent_mail :
    ∃ j ∈ systemJobs (lit "0 9 * * 1 root mail -s \\% x%in\\%put%two"),
      j.scriptletText = lit "mail -s % x\n" ∧ j.inputChunks.flatten = lit "in%put\ntwo" ∧
      j.inputChunks.flatten = inputText (inputPart (commandText systemKind j.line)) := by
  have hmem := List.getElem_mem
    (by decide +kernel : 0 < (systemJobs (lit "0 9 * * 1 root mail -s \\% x%in\\%put%two")).length)
  obtain ⟨r, hr, hj⟩ := mem_crontabJobs hmem
  exact ⟨_, hmem, by decide +kernel, by decide +kernel, (parseCrontab_percent hr hj).2.2⟩

end SystemdCron
