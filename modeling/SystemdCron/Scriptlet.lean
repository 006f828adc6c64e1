import SystemdCron.Percent

/-!
# Scriptlets

How far the scriptlet of a crontab line is the command as it stands in the line. The words of the
command are joined by single blanks, so the text comes out unchanged exactly if single blanks are what
separates them (`joinWords_tokens_iff`); the percent signs do not matter, because `unescape` can be
undone on a text without dividing percent signs (`escape_unescape`).
-/

namespace SystemdCron

open Bytes

/-- Every blank has something other than a blank after it. -/
def SingleBlanks (s : Bytes) : Prop := ∀ a b, s = a ++ SPACE :: b → ∃ c r, b = c :: r ∧ c ≠ SPACE

/-! ### Blanks -/

theorem joinWords_head {ws : List Bytes} {c : UInt8} {r : Bytes} (hne : ∀ w ∈ ws, w ≠ [])
    (h : joinWords ws = c :: r) : ∃ w t, ws = (c :: w) :: t := by
  rcases ws with - | ⟨w, ws⟩
  · cases h
  obtain ⟨d, w, rfl⟩ := List.exists_cons_of_ne_nil (hne w (by simp))
  by_cases hws : ws = []
  · subst hws
    rw [joinWords_singleton] at h
    cases h
    exact ⟨_, _, rfl⟩
  · rw [joinWords_cons_of_ne hws] at h
    cases h
    exact ⟨_, _, rfl⟩

theorem singleBlanks_append {w : Bytes} (hw : SPACE ∉ w) (b : Bytes) :
    SingleBlanks (w ++ SPACE :: b) ↔ (∃ c r, b = c :: r ∧ c ≠ SPACE) ∧ SingleBlanks b := by
  constructor
  · refine fun h => ⟨h w b rfl, fun x y he => h (w ++ SPACE :: x) y (by simp [he])⟩
  · rintro ⟨h0, h⟩ x y he
    rcases List.append_eq_append_iff.1 he with ⟨z, rfl, hz⟩ | ⟨z, rfl, hz⟩
    · rcases z with - | ⟨d, z⟩
      · cases hz; exact h0
      · cases hz; exact h z y rfl
    · rcases z with - | ⟨d, z⟩
      · cases hz; exact h0
      · cases hz; exact absurd (by simp : SPACE ∈ x ++ SPACE :: z) hw

theorem isFieldDelim_iff {c : UInt8} : isFieldDelim c ↔ c = SPACE ∨ c = HT ∨ c = LF := by
  simp [isFieldDelim, or_assoc]

/-- The words of a line, joined again, are the line exactly if only single blanks separate them. -/
theorem joinWords_tokens_iff {s : Bytes} (hlf : LF ∉ s) :
    joinWords (tokens isFieldDelim s) = s ↔
      (∀ c ∈ s.head?, isFieldDelim c = false) ∧ HT ∉ s ∧ SingleBlanks s := by
  have hne : ∀ {t : Bytes}, ∀ w ∈ tokens isFieldDelim t, w ≠ [] := fun w => ne_nil_of_mem_tokens
  induction s using tokens_induction (p := isFieldDelim) with
  | nil => simp [SingleBlanks]
  | delimiter c b hc ih =>
    -- What is joined does not start with a delimiter.
    rw [tokens_cons_delim b hc]
    refine iff_of_false (fun h => ?_) fun h => by simp [hc] at h
    obtain ⟨w, t, hw⟩ := joinWords_head hne h
    have hmem : (c :: w) ∈ tokens isFieldDelim b := by simp [hw]
    have := no_delim_of_mem_tokens hmem c (by simp)
    rw [hc] at this
    cases this
  | last w hwne hw =>
    rw [tokens_of_no_delim hw hwne, joinWords_singleton]
    refine iff_of_true rfl ⟨fun c hc => hw c (List.mem_of_mem_head? hc), fun h => ?_, ?_⟩
    · exact absurd (hw _ h) (by decide)
    · rintro a b rfl
      exact absurd (hw SPACE (by simp)) (by decide)
  | word w c b hwne hw hc ih =>
    have hlf' : LF ∉ b := fun h => hlf (by simp [h])
    have hsp : SPACE ∉ w := fun h => absurd (hw _ h) (by decide)
    have hht : HT ∉ w := fun h => absurd (hw _ h) (by decide)
    have hhead : ∀ x ∈ (w ++ c :: b).head?, isFieldDelim x = false := by
      obtain ⟨d, v, rfl⟩ := List.exists_cons_of_ne_nil hwne
      intro x hx
      simp only [List.cons_append, List.head?_cons, Option.mem_some_iff] at hx
      exact hx ▸ hw d (by simp)
    rw [tokens_append_word b hw hwne hc]
    rcases isFieldDelim_iff.1 hc with rfl | rfl | rfl
    · rw [singleBlanks_append hsp]
      by_cases hb : tokens isFieldDelim b = []
      · refine iff_of_false (fun h => ?_) ?_
        · rw [hb, joinWords_singleton] at h
          simpa using congrArg List.length h
        · rintro ⟨-, htab, ⟨d, r, rfl, hd⟩, -⟩
          have h0 := dropWhile_eq_nil_of_tokens hb
          have hdd : isFieldDelim d := List.dropWhile_eq_nil_iff.1 h0 d (by simp)
          rcases isFieldDelim_iff.1 hdd with rfl | rfl | rfl
          · exact hd rfl
          · exact htab (by simp)
          · exact hlf' (by simp)
      · rw [joinWords_cons_of_ne hb, List.append_cancel_left_eq, List.cons_eq_cons,
          and_iff_right rfl]
        refine (ih hlf').trans ?_
        have hbne : b ≠ [] := by rintro rfl; exact hb tokens_nil
        obtain ⟨d, r, rfl⟩ := List.exists_cons_of_ne_nil hbne
        constructor
        · rintro ⟨h1, h2, h3⟩
          have hd : isFieldDelim d = false := h1 d (by simp)
          refine ⟨hhead, ?_, ⟨d, r, rfl, ?_⟩, h3⟩
          · simp only [List.mem_append, List.mem_cons, not_or] at h2 ⊢
            exact ⟨hht, by decide, h2.1, h2.2⟩
          · rintro rfl; revert hd; decide
        · rintro ⟨-, h2, ⟨d', r', he, hd'⟩, h3⟩
          cases he
          simp only [List.mem_append, List.mem_cons, not_or] at h2 hlf'
          refine ⟨?_, by simp [h2.2.2.1, h2.2.2.2], h3⟩
          simp only [List.head?_cons, Option.mem_some_iff, forall_eq']
          by_contra hd
          rcases isFieldDelim_iff.1 (by simpa using hd) with rfl | rfl | rfl
          · exact hd' rfl
          · exact h2.2.2.1 rfl
          · exact hlf'.1 rfl
    · refine iff_of_false (fun h => ?_) (fun h => h.2.1 (by simp))
      by_cases hb : tokens isFieldDelim b = []
      · rw [hb, joinWords_singleton] at h
        simpa using congrArg List.length h
      · rw [joinWords_cons_of_ne hb, List.append_cancel_left_eq, List.cons_eq_cons] at h
        exact absurd h.1 (by decide)
    · exact absurd (by simp : LF ∈ w ++ LF :: b) hlf

/-! ### Percent signs -/

/-- A text with a backslash before every `%`. -/
def escape (s : Bytes) : Bytes := s.flatMap fun c => if c = PERCENT then [BACKSLASH, PERCENT] else [c]

/-- On a text that no `%` divides, `unescape` can be undone. -/
theorem escape_unescape {s : Bytes} {prev : Option UInt8} (h : cutPercent prev s = none)
    (hp : prev ≠ some BACKSLASH ∨ s.head? ≠ some PERCENT) : escape (unescape s) = s := by
  induction s using unescape.induct generalizing prev with
  | case1 r ih =>
    have h1 : cutPercent (some PERCENT) r = none := by
      change cutPercent prev (BACKSLASH :: PERCENT :: r) = none at h
      rw [cutPercent, if_neg (fun h => absurd h.1 (by decide)), Option.map_eq_none_iff, cutPercent,
        if_neg (fun h => h.2 rfl), Option.map_eq_none_iff] at h
      exact h
    have := ih h1 (.inl (by decide))
    change escape (PERCENT :: unescape r) = _
    rw [escape, List.flatMap_cons, ← escape, this]
    rfl
  | case2 c r hne ih =>
    have hne' : ∀ r', c :: r ≠ BACKSLASH :: PERCENT :: r' := fun r' he => by
      cases he; exact hne _ rfl rfl
    simp only [cutPercent] at h
    split at h
    next => cases h
    next hc =>
      have hcp : c ≠ PERCENT := by
        rintro rfl
        rcases hp with hp | hp
        · exact hc ⟨rfl, hp⟩
        · exact hp rfl
      have hr : some c ≠ some BACKSLASH ∨ r.head? ≠ some PERCENT := by
        by_cases hcb : c = BACKSLASH
        · subst hcb
          refine .inr fun he => ?_
          obtain ⟨t, rfl⟩ := List.head?_eq_some_iff.1 he
          exact hne' t rfl
        · exact .inl (by simpa using hcb)
      rw [unescape_cons hne', escape, List.flatMap_cons, ← escape, ih (by simpa using h) hr,
        if_neg hcp]
      rfl
  | case3 => rfl

theorem unescape_append_space (a b : Bytes) :
    unescape (a ++ SPACE :: b) = unescape a ++ SPACE :: unescape b := by
  induction a using unescape.induct with
  | case1 r ih => exact congrArg (PERCENT :: ·) ih
  | case2 c r hne ih =>
    have h1 : ∀ r', c :: r ≠ BACKSLASH :: PERCENT :: r' := fun r' he => by
      cases he; exact hne _ rfl rfl
    have h2 : ∀ r', c :: (r ++ SPACE :: b) ≠ BACKSLASH :: PERCENT :: r' := by
      intro r' he
      rcases r with - | ⟨d, r⟩
      · cases he
      · cases he; exact hne _ rfl rfl
    rw [List.cons_append, unescape_cons h2, unescape_cons h1, ih, List.cons_append]
  | case3 => exact unescape_cons (by intro r' he; cases he)

theorem unescape_joinWords (ws : List Bytes) :
    unescape (joinWords ws) = joinWords (ws.map unescape) := by
  induction ws with
  | nil => rfl
  | cons w ws ih =>
    by_cases h : ws = []
    · simp [h]
    · rw [joinWords_cons_of_ne h, unescape_append_space, ih, List.map_cons,
        joinWords_cons_of_ne (by simpa using h)]

/-- No `%` divides the words of a text that none divides, nor the words joined again. -/
theorem cutPercent_joinWords {s : Bytes} (h : cutPercent none s = none) :
    cutPercent none (joinWords (tokens isFieldDelim s)) = none := by
  induction s using tokens_induction (p := isFieldDelim) with
  | nil => rfl
  | delimiter c b hc ih =>
    rw [tokens_cons_delim b hc]
    have := @cutPercent_word none [] rfl _ hc b
    rw [List.nil_append, h] at this
    exact ih (by simpa using this.symm)
  | last w hne hw => rwa [tokens_of_no_delim hw hne, joinWords_singleton]
  | word w c b hne hw hc ih =>
    rw [tokens_append_word b hw hne hc]
    cases hcw : cutPercent none w with
    | some p => rw [cutPercent_append (a := p.1) (b := p.2) hcw] at h; cases h
    | none =>
      rw [cutPercent_word hcw hc] at h
      by_cases hb : tokens isFieldDelim b = []
      · rwa [hb, joinWords_singleton]
      · rw [joinWords_cons_of_ne hb, cutPercent_word hcw (by decide), ih (by simpa using h)]
        rfl

/-! ### The scriptlet of a line -/

theorem isPrefixOf_head_tokens {s w : Bytes} {ws : List Bytes}
    (hs : ∀ c ∈ s.head?, isFieldDelim c = false) (h : tokens isFieldDelim s = w :: ws) : w <+: s := by
  induction s using tokens_induction (p := isFieldDelim) with
  | nil => cases h
  | delimiter c b hc ih => simp [hc] at hs
  | last v hne hv => rw [tokens_of_no_delim hv hne] at h; cases h; exact List.prefix_rfl
  | word v c b hne hv hc ih => rw [tokens_append_word b hv hne hc] at h; cases h; exact ⟨_, rfl⟩

theorem expandTilde_of_not_isPrefix (home : Option Bytes) {ws : List Bytes}
    (h : ∀ w t, ws = w :: t → (lit "~/").isPrefixOf w = false) : Job.expandTilde home ws = ws := by
  rcases ws with - | ⟨w, ws⟩
  · rfl
  · cases home with
    | none => rfl
    | some home => simp [Job.expandTilde, h w ws rfl]

theorem commandPart_isPrefix (c : Bytes) : commandPart c <+: c := by
  unfold commandPart
  split
  · exact List.take_prefix _ _
  · exact List.prefix_rfl

theorem mem_of_mem_dropFields {n : Nat} {s : Bytes} {c : UInt8} (h : c ∈ dropFields n s) : c ∈ s := by
  induction n generalizing s with
  | zero => exact h
  | succ n ih =>
    exact (List.dropWhile_sublist _).subset ((List.dropWhile_sublist _).subset (ih h))

theorem mem_of_mem_commandText {kind : CrontabKind} {line : Bytes} {c : UInt8}
    (h : c ∈ commandText kind line) : c ∈ line :=
  mem_of_mem_dropFields ((List.dropWhile_sublist _).subset h)

theorem commandText_head (kind : CrontabKind) (line : Bytes) :
    ∀ c ∈ (commandPart (commandText kind line)).head?, isFieldDelim c = false := by
  intro c hc
  obtain ⟨t, ht⟩ := commandPart_isPrefix (commandText kind line)
  have hmem : c ∈ (commandText kind line).head? := by
    rw [← ht]
    obtain ⟨r, hr⟩ := List.head?_eq_some_iff.1 hc
    simp [hr]
  obtain ⟨r, hr⟩ := List.head?_eq_some_iff.1 hmem
  have hne : (dropFields (commandField kind line) line).dropWhile isFieldDelim ≠ [] := by
    rw [← commandText, hr]; simp
  have := List.head_dropWhile_not (p := isFieldDelim) hne
  unfold commandText at hr
  simpa [hr] using this

/-- The text of a scriptlet, for a command outside of the home. -/
theorem Job.scriptletText_command {host : Host} {kind : CrontabKind} {environment : Env} {line : Bytes}
    {rng rng' : Rng} {j : Job} (h : parseJob host kind environment line rng = .ok (j, rng'))
    (hk : kind.anacrontab = false)
    (htilde : (lit "~/").isPrefixOf (commandText kind line) = false) :
    j.scriptletText = scriptOf
      ((tokens isFieldDelim (commandPart (commandText kind line))).map unescape) := by
  obtain ⟨-, hnop, hwords, -⟩ := parseJob_crontab h hk
  rw [expandTilde_of_not_isPrefix] at hwords
  · rw [← hwords]
    exact Job.scriptletText_eq fun w _ => by rw [Job.unescaped_eq, hnop]; rfl
  · intro w t hw
    rw [Bool.eq_false_iff]
    intro hp
    have hp := List.isPrefixOf_iff_prefix.1 hp
    have := (hp.trans (isPrefixOf_head_tokens (commandText_head kind line) hw)).trans
      (commandPart_isPrefix _)
    rw [List.isPrefixOf_iff_prefix.2 this] at htilde
    cases htilde

/-- The words of a command, unescaped and joined, are the unescaped command exactly if single blanks
separate them. -/
theorem scriptOf_eq_iff {s : Bytes} (hlf : LF ∉ s) (hhead : ∀ c ∈ s.head?, isFieldDelim c = false)
    (hcut : cutPercent none s = none) :
    scriptOf ((tokens isFieldDelim s).map unescape) = unescape s ++ [LF] ↔
      s ≠ [] ∧ HT ∉ s ∧ SingleBlanks s := by
  by_cases hs : tokens isFieldDelim s = []
  · have : s = [] := by
      rcases s with - | ⟨c, s⟩
      · rfl
      · have := List.dropWhile_eq_nil_iff.1 (dropWhile_eq_nil_of_tokens hs) c (by simp)
        simp [hhead c (by simp)] at this
    subst this
    exact iff_of_false (by simp [scriptOf]) (fun h => h.1 rfl)
  · have hne : s ≠ [] := by rintro rfl; exact hs tokens_nil
    have hinj : unescape (joinWords (tokens isFieldDelim s)) = unescape s ↔
        joinWords (tokens isFieldDelim s) = s := by
      refine ⟨fun h => ?_, fun h => by rw [h]⟩
      rw [← escape_unescape (cutPercent_joinWords hcut) (.inl (by decide)), h,
        escape_unescape hcut (.inl (by decide))]
    rw [scriptOf, if_neg (by simpa using hs), List.append_cancel_right_eq, ← unescape_joinWords, hinj,
      joinWords_tokens_iff hlf]
    exact ⟨fun h => ⟨hne, h.2⟩, fun h => ⟨hhead, h.2⟩⟩

theorem cutPercent_commandPart (c : Bytes) : cutPercent none (commandPart c) = none := by
  rcases cutPercent_parts c with ⟨h, hc, -⟩ | h
  · rwa [hc]
  · exact cutPercent_left h

/-- The scriptlet is the only file of a job under its path. -/
theorem Job.mem_output_scriptlet {cfg : Config} {host : Host} {targetDir : Bytes} {j : Job}
    {path : Bytes} (h : (j.generateScriptlet host targetDir).2 = some path) (content : Bytes) :
    { path, content } ∈ j.output cfg host targetDir ↔ j.scriptletText = content := by
  obtain ⟨⟨_, _, _, _, heq⟩, hpath⟩ := j.generateScriptlet_eq host targetDir
  have hp := hpath path h
  have htext : (j.generateScriptlet host targetDir).1.scriptletText = j.scriptletText := by
    rw [heq]; rfl
  have hname : (j.generateScriptlet host targetDir).1.unitName = j.unitName := by rw [heq]
  have hother : ∀ ext ∈ [lit ".timer", lit ".service"],
      path ≠ targetDir ++ [SLASH] ++ j.unitName ++ ext := by
    intro ext hext he
    rw [hp, List.append_cancel_left_eq] at he
    subst he
    revert hext; decide
  unfold Job.output
  simp only [h, htext, hname, List.mem_append, List.mem_cons, UnitFile.mk.injEq,
    true_and, List.not_mem_nil, or_false]
  constructor
  · rintro (he | ⟨he, -⟩ | ⟨he, -⟩)
    · exact he.symm
    · exact absurd he (hother _ (by simp))
    · exact absurd he (hother _ (by simp))
  · exact fun he => .inl he.symm

/-- **Scriptlets.** The scriptlet of a crontab line, whose command is not in the home, is the command up
to its dividing `%`, unescaped, with a newline, exactly if this part of the line is not empty, has no tab,
and has no blank at its end or before another blank. -/
theorem scriptlet_unchanged_iff {host : Host} {kind : CrontabKind} {environment : Env}
    {content : Option Bytes} {rng : Rng} {r : Crontab}
    (h : parseCrontab host kind environment content rng = .ok r) (hk : kind.anacrontab = false)
    {j : Job} (hj : j ∈ r.jobs) (cfg : Config) (targetDir name : Bytes)
    (htilde : (lit "~/").isPrefixOf (commandText kind j.line) = false) {path : Bytes}
    (hpath : ({ j with unitName := name }.generateScriptlet host targetDir).2 = some path) :
    { path, content := unescape (commandPart (commandText kind j.line)) ++ [LF] } ∈
        { j with unitName := name }.output cfg host targetDir ↔
      commandPart (commandText kind j.line) ≠ [] ∧ HT ∉ commandPart (commandText kind j.line) ∧
        SingleBlanks (commandPart (commandText kind j.line)) := by
  obtain ⟨_, -, line, hmem, env, _, _, -, hjob⟩ := mem_jobs_parseCrontab h hj
  obtain rfl : j.line = line := (parseJob_crontab hjob hk).1
  have htext : { j with unitName := name }.scriptletText = j.scriptletText := rfl
  rw [Job.mem_output_scriptlet hpath, htext, Job.scriptletText_command hjob hk htilde]
  refine scriptOf_eq_iff ?_ (commandText_head kind _) (cutPercent_commandPart _)
  exact fun hlf => LF_notMem_crontabLines hmem
    (mem_of_mem_commandText ((commandPart_isPrefix _).subset hlf))

/-- Two blanks between quotes come out as one. -/
theorem scriptlet_two_blanks :
    ∃ j ∈ systemJobs (lit "0 9 * * * root echo \"a  b\""), j.valid ∧
      (lit "~/").isPrefixOf (commandText systemKind j.line) = false ∧
      ∃ path, ({ j with unitName := lit "x" }.generateScriptlet .bare (lit "/run")).2 = some path ∧
        ¬ { path, content := unescape (commandPart (commandText systemKind j.line)) ++ [LF] } ∈
          { j with unitName := lit "x" }.output {} .bare (lit "/run") := by
  refine ⟨_, List.getElem_mem
    (by decide +kernel : 0 < (systemJobs (lit "0 9 * * * root echo \"a  b\"")).length),
    by decide +kernel, by decide +kernel, lit "/run/x.sh", by decide +kernel, by decide +kernel⟩

theorem scriptlet_unchanged_echo :
    ∃ j ∈ systemJobs (lit "0 9 * * * root echo \"a b\""),
      ({ path := lit "/run/x.sh", content := unescape (commandPart (commandText systemKind j.line)) ++ [LF] } ∈
          { j with unitName := lit "x" }.output {} .bare (lit "/run") ↔
        commandPart (commandText systemKind j.line) ≠ [] ∧
          HT ∉ commandPart (commandText systemKind j.line) ∧
          SingleBlanks (commandPart (commandText systemKind j.line))) := by
  have hmem := List.getElem_mem
    (by decide +kernel : 0 < (systemJobs (lit "0 9 * * * root echo \"a b\"")).length)
  obtain ⟨r, hr, hj⟩ := mem_crontabJobs hmem
  exact ⟨_, hmem, scriptlet_unchanged_iff hr rfl hj {} (lit "/run") (lit "x") (by decide +kernel)
    (by decide +kernel)⟩

end SystemdCron
