import SystemdCron.Lib.Assignments

/-!
# Command lines with quotes and variables

The rule by which a service manager reads a command: the words of its line, with quotes and escapes anywhere in
them, then the specifiers of each word, then its variables. `argv_eq_singleton_iff` is the law for a writer that
puts the path of a program on such a line as it is.
-/

namespace CommandLine

open Bytes ExecLine Assignments

def DOLLAR : UInt8 := 36
def LBRACE : UInt8 := 123
def RBRACE : UInt8 := 125

/-- The names that are variables; their values inside of a word, and the words that a variable becomes which is
a word of its own. -/
structure Variables where
  isName : Bytes → Bool
  value : Bytes → Bytes
  words : Bytes → List Bytes

/-- The name between the brace that was read and the next closing one, and the rest of the text. -/
def bracedName (isName : Bytes → Bool) (s : Bytes) : Option (Bytes × Bytes) :=
  (splitFirst RBRACE s).filter fun p => isName p.1

/-- The variables inside of a word: `$$` is a dollar sign, `${x}` the value of `x`, and any other dollar sign is
kept. -/
def substitute (v : Variables) : Nat → Bytes → Bytes
  | _, [] => []
  | _, [c] => [c]
  | 0, s => s
  | fuel + 1, c :: d :: r =>
    if c = DOLLAR ∧ d = DOLLAR then DOLLAR :: substitute v fuel r
    else if c = DOLLAR ∧ d = LBRACE then
      match bracedName v.isName r with
      | some (x, r') => v.value x ++ substitute v fuel r'
      | none => c :: substitute v fuel (d :: r)
    else c :: substitute v fuel (d :: r)

/-- The words that a word becomes: `$x` becomes those of `x`. -/
def expandWord (v : Variables) (w : Bytes) : List Bytes :=
  if w.head? = some DOLLAR ∧ v.isName w.tail then v.words w.tail else [substitute v w.length w]

/-- The words of the command that a line denotes. -/
def argv (e : Escapes) (s : Specifiers) (v : Variables) (text : Bytes) : List Bytes :=
  let line := text.takeWhile fun c => c != LF && c != NUL
  ((words e line.length none none line).map (expand s)).flatMap (expandWord v)

/-- Whether a text has a variable inside, or `$$`. -/
def hasVariable (isName : Bytes → Bool) : Bytes → Bool
  | [] => false
  | [_] => false
  | c :: d :: r =>
    (c == DOLLAR && (d == DOLLAR || (d == LBRACE && (bracedName isName r).isSome))) ||
      hasVariable isName (d :: r)

/-- A word that is read as it was written. -/
structure PlainWord (letter : UInt8 → Bool) (isName : Bytes → Bool) (w : Bytes) : Prop where
  nonempty : w ≠ []
  noNul : NUL ∉ w
  noWhitespace : ∀ c ∈ w, isWhitespace c = false
  noQuote : ∀ c ∈ w, c ≠ DQUOTE ∧ c ≠ SQUOTE
  noBackslash : BACKSLASH ∉ w
  noSpecifier : hasSpecifier letter w = false
  noVariable : hasVariable isName w = false
  notVariable : ¬ (w.head? = some DOLLAR ∧ isName w.tail)

/-! ### Words -/

/-- An octet that a word has as it stands in the line. -/
def IsOrdinary (c : UInt8) : Prop :=
  c ≠ BACKSLASH ∧ c ≠ DQUOTE ∧ c ≠ SQUOTE ∧ isWhitespace c = false

theorem length_read (e : Escapes) {s x r : Bytes} (h : e.read s = some (x, r)) :
    x.length + r.length ≤ s.length := by
  rcases e.read_spec h with ⟨c, -, rfl, rfl⟩ | ⟨w, rfl, -, hlen, -⟩
  · simp; omega
  · rw [List.length_append]; omega

/-- The words have no more octets than their line, and fewer if one of them is not ordinary. -/
theorem length_words_le (e : Escapes) {fuel : Nat} (q : Option UInt8) (w : Option Bytes) {s : Bytes}
    (hfuel : s.length ≤ fuel) :
    (words e fuel q w s).flatten.length ≤ (w.getD []).length + s.length ∧
      (q = none → (words e fuel q w s).flatten.length = (w.getD []).length + s.length →
        ∀ c ∈ s, IsOrdinary c) := by
  induction fuel generalizing q w s with
  | zero =>
    obtain rfl := List.length_eq_zero_iff.1 (Nat.le_zero.1 hfuel)
    cases q <;> cases w <;> simp [words]
  | succ fuel ih =>
    cases s with
    | nil => cases q <;> cases w <;> simp [words]
    | cons c r =>
      have hr : r.length ≤ fuel := by simpa using hfuel
      rw [words, List.length_cons]
      by_cases hb : c = BACKSLASH
      · rw [if_pos hb]
        split
        · simp
        next x r' hread =>
          have hlen := length_read e hread
          have := (ih q (add w x) (s := r') (by omega)).1
          rw [getD_add, List.length_append] at this
          exact ⟨by omega, fun _ h => by omega⟩
      rw [if_neg hb]
      by_cases hq : q = some c
      · rw [if_pos hq]
        have := (ih none (add w []) hr).1
        rw [getD_add, List.append_nil] at this
        exact ⟨by omega, fun _ h => by omega⟩
      rw [if_neg hq]
      by_cases hopen : q.isSome
      · rw [if_pos hopen]
        have := (ih q (add w [c]) hr).1
        rw [getD_add, List.length_append, List.length_singleton] at this
        exact ⟨by omega, fun hnone => by rw [hnone] at hopen; cases hopen⟩
      rw [if_neg hopen]
      by_cases hquote : c = DQUOTE ∨ c = SQUOTE
      · rw [if_pos hquote]
        have := (ih (some c) (add w []) hr).1
        rw [getD_add, List.append_nil] at this
        exact ⟨by omega, fun _ h => by omega⟩
      rw [if_neg hquote]
      by_cases hwhite : isWhitespace c
      · rw [if_pos hwhite, List.flatten_append, List.length_append]
        have := (ih none none hr).1
        have hw : w.toList.flatten.length = (w.getD []).length := by cases w <;> simp
        simp only [Option.getD_none, List.length_nil] at this
        exact ⟨by omega, fun _ h => by omega⟩
      · rw [if_neg hwhite]
        obtain ⟨hle, heq⟩ := ih none (add w [c]) hr
        rw [getD_add, List.length_append, List.length_singleton] at hle heq
        refine ⟨by omega, fun _ h d hd => ?_⟩
        rcases List.mem_cons.1 hd with rfl | hd
        · exact ⟨hb, fun h => hquote (.inl h), fun h => hquote (.inr h), by simpa using hwhite⟩
        · exact heq rfl (by omega) d hd

/-! ### Variables -/

/-- The values are empty. -/
def emptyVariables (isName : Bytes → Bool) : Variables := ⟨isName, fun _ => [], fun _ => []⟩

theorem bracedName_length {isName : Bytes → Bool} {s x r : Bytes} (h : bracedName isName s = some (x, r)) :
    r.length < s.length := by
  obtain ⟨hsplit, -⟩ := Option.filter_eq_some_iff.1 h
  rw [(splitFirst_eq_some.1 hsplit).1, List.length_append, List.length_cons]
  omega

theorem substitute_of_hasVariable {v : Variables} {fuel : Nat} {w : Bytes}
    (h : hasVariable v.isName w = false) : substitute v fuel w = w := by
  induction fuel generalizing w with
  | zero => rcases w with - | ⟨c, - | ⟨d, r⟩⟩ <;> rfl
  | succ fuel ih =>
    rcases w with - | ⟨c, - | ⟨d, r⟩⟩
    · rfl
    · rfl
    · simp only [hasVariable, Bool.or_eq_false_iff, Bool.and_eq_false_iff, beq_eq_false_iff_ne] at h
      obtain ⟨h, hrest⟩ := h
      rw [substitute]
      by_cases hc : c = DOLLAR
      · obtain ⟨hd, hbrace⟩ := h.resolve_left fun hne => hne hc
        rw [if_neg fun h' => hd h'.2, ih hrest]
        split
        next hboth =>
          have hnone : bracedName v.isName r = none := by
            simpa using hbrace.resolve_left fun hne => hne hboth.2
          rw [hnone]
        · rfl
      · rw [if_neg fun h' => hc h'.1, if_neg fun h' => hc h'.1, ih hrest]

theorem length_substitute_le (isName : Bytes → Bool) {fuel : Nat} {w : Bytes} (hfuel : w.length ≤ fuel) :
    (substitute (emptyVariables isName) fuel w).length < w.length ∨ hasVariable isName w = false := by
  induction fuel generalizing w with
  | zero =>
    obtain rfl := List.length_eq_zero_iff.1 (Nat.le_zero.1 hfuel)
    exact .inr rfl
  | succ fuel ih =>
    rcases w with - | ⟨c, - | ⟨d, r⟩⟩
    · exact .inr rfl
    · exact .inr rfl
    have hle {u : Bytes} (hu : u.length ≤ fuel) :
        (substitute (emptyVariables isName) fuel u).length ≤ u.length := by
      rcases ih hu with h | h
      · exact h.le
      · rw [substitute_of_hasVariable (v := emptyVariables isName) h]
    simp only [List.length_cons] at hfuel
    have hr := hle (u := r) (by omega)
    rw [substitute]
    by_cases hdd : c = DOLLAR ∧ d = DOLLAR
    · rw [if_pos hdd]
      exact .inl (by simp only [List.length_cons]; omega)
    rw [if_neg hdd]
    have hkeep : (c :: substitute (emptyVariables isName) fuel (d :: r)).length < (c :: d :: r).length ∨
        hasVariable isName (d :: r) = false := by
      refine (ih (w := d :: r) (by simp only [List.length_cons]; omega)).imp_left fun h => ?_
      simpa using h
    by_cases hbrace : c = DOLLAR ∧ d = LBRACE
    · rw [if_pos hbrace]
      cases hname : bracedName (emptyVariables isName).isName r with
      | some p =>
        have hlen := bracedName_length hname
        have := hle (u := p.2) (by omega)
        refine .inl ?_
        dsimp only
        rw [List.length_append]
        simp only [emptyVariables, List.length_nil, List.length_cons] at this ⊢
        omega
      | none =>
        refine hkeep.imp_right fun h => ?_
        have hdne : d ≠ DOLLAR := fun hd => hdd ⟨hbrace.1, hd⟩
        have hnone : bracedName isName r = none := hname
        simp [hasVariable, h, hnone, hdne]
    · rw [if_neg hbrace]
      refine hkeep.imp_right fun h => ?_
      by_cases hc : c = DOLLAR
      · have hdne : d ≠ DOLLAR := fun hd => hdd ⟨hc, hd⟩
        have hlne : d ≠ LBRACE := fun hd => hbrace ⟨hc, hd⟩
        simp [hasVariable, h, hdne, hlne]
      · simp [hasVariable, h, hc]

/-- Variables without values make a word shorter, if there are any in it. -/
theorem length_expandWord_le (isName : Bytes → Bool) (w : Bytes) :
    (expandWord (emptyVariables isName) w).flatten.length ≤ w.length ∧
      ((expandWord (emptyVariables isName) w).flatten.length = w.length →
        hasVariable isName w = false ∧ ¬ (w.head? = some DOLLAR ∧ isName w.tail)) := by
  unfold expandWord
  split
  next h =>
    refine ⟨Nat.zero_le _, fun hlen => ?_⟩
    obtain rfl := List.length_eq_zero_iff.1 hlen.symm
    cases h.1
  next h =>
    simp only [List.flatten_cons, List.flatten_nil, List.append_nil]
    rcases length_substitute_le isName (le_refl w.length) with hlt | hno
    · exact ⟨hlt.le, fun heq => absurd heq hlt.ne⟩
    · rw [substitute_of_hasVariable (v := emptyVariables isName) hno]
      exact ⟨le_rfl, fun _ => ⟨hno, h⟩⟩

theorem length_flatMap_expandWord_le (isName : Bytes → Bool) (ws : List Bytes) :
    (ws.flatMap (expandWord (emptyVariables isName))).flatten.length ≤ ws.flatten.length ∧
      ((ws.flatMap (expandWord (emptyVariables isName))).flatten.length = ws.flatten.length →
        ∀ w ∈ ws, hasVariable isName w = false ∧ ¬ (w.head? = some DOLLAR ∧ isName w.tail)) := by
  induction ws with
  | nil => simp
  | cons w ws ih =>
    obtain ⟨hle, heq⟩ := length_expandWord_le isName w
    simp only [List.flatMap_cons, List.flatten_append, List.flatten_cons, List.length_append,
      List.forall_mem_cons]
    exact ⟨by omega, fun h => ⟨heq (by omega), ih.2 (by omega)⟩⟩

/-! ### The law -/

theorem words_of_isOrdinary (e : Escapes) {w : Bytes} (hne : w ≠ []) (h : ∀ c ∈ w, IsOrdinary c) :
    words e w.length none none w = [w] := by
  have := words_of_unquoted e hne h 0 none []
  rw [List.append_nil, Nat.add_zero] at this
  rw [this]
  rfl

theorem takeWhile_line {w : Bytes} (hnul : NUL ∉ w) (hwhite : ∀ c ∈ w, isWhitespace c = false) :
    w.takeWhile (fun c => c != LF && c != NUL) = w := by
  rw [List.takeWhile_eq_self_iff]
  intro c hc
  have hlf : c ≠ LF := by rintro rfl; exact absurd (hwhite _ hc) (by decide)
  have h0 : c ≠ NUL := fun h => hnul (h ▸ hc)
  simp [hlf, h0]

theorem argv_of_plainWord (e : Escapes) {s : Specifiers} {v : Variables} {w : Bytes}
    (h : PlainWord s.letter v.isName w) : argv e s v w = [w] := by
  have hord : ∀ c ∈ w, IsOrdinary c := fun c hc =>
    ⟨fun hb => h.noBackslash (hb ▸ hc), (h.noQuote c hc).1, (h.noQuote c hc).2, h.noWhitespace c hc⟩
  rw [argv, takeWhile_line h.noNul h.noWhitespace, words_of_isOrdinary e h.nonempty hord, List.map_singleton,
    expand_of_hasSpecifier h.noSpecifier, List.flatMap_singleton, expandWord, if_neg h.notVariable,
    substitute_of_hasVariable h.noVariable]

/-- **A word on a command line**: a text denotes the one word that it is, whatever the specifiers and the
variables stand for, if and only if it is plain. -/
theorem argv_eq_singleton_iff (e : Escapes) (letter : UInt8 → Bool) (isName : Bytes → Bool) (w : Bytes) :
    (∀ value values wordsOf, argv e ⟨letter, value⟩ ⟨isName, values, wordsOf⟩ w = [w]) ↔
      PlainWord letter isName w := by
  refine ⟨fun h => ?_, fun h _ _ _ => argv_of_plainWord e h⟩
  have hempty := h (fun _ => []) (fun _ => []) (fun _ => [])
  rw [argv] at hempty
  set line := w.takeWhile fun c => c != LF && c != NUL with hline
  obtain ⟨hwords, hordinary⟩ := length_words_le e none none (le_refl line.length)
  obtain ⟨hexpand, hspecifier⟩ := length_flatten_expand_le letter (words e line.length none none line)
  obtain ⟨hvars, hvariable⟩ := length_flatMap_expandWord_le isName
    ((words e line.length none none line).map (expand ⟨letter, fun _ => []⟩))
  rw [emptyVariables, hempty] at hvars hvariable
  have hprefix : line <+: w := List.takeWhile_prefix _
  have hlen := hprefix.length_le
  simp only [List.flatten_cons, List.flatten_nil, List.append_nil, Option.getD_none, List.length_nil] at *
  -- No step has dropped an octet.
  have hw : line = w := hprefix.eq_of_length (by omega)
  clear_value line
  subst hw
  have hord := hordinary trivial (by omega)
  have hne : line ≠ [] := by rintro rfl; simp [words] at hempty
  have hall := List.takeWhile_eq_self_iff.1 hline.symm
  rw [words_of_isOrdinary e hne hord] at hspecifier hvariable hexpand hvars
  simp only [List.flatten_cons, List.flatten_nil, List.append_nil] at hspecifier hexpand hvars
  have hspec := hspecifier (by omega) line (List.mem_singleton_self line)
  rw [List.map_singleton, expand_of_hasSpecifier hspec] at hvariable
  obtain ⟨hno, hnot⟩ := hvariable (by simp) line (List.mem_singleton_self line)
  exact {
    nonempty := hne
    noNul := fun h => by simpa using hall _ h
    noWhitespace := fun c hc => (hord c hc).2.2.2
    noQuote := fun c hc => ⟨(hord c hc).2.1, (hord c hc).2.2.1⟩
    noBackslash := fun h => (hord _ h).1 rfl
    noSpecifier := hspec
    noVariable := hno
    notVariable := hnot }

end CommandLine
