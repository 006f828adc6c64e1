import SystemdCron.Lib.ExecLine

/-!
# Lines of assignments

The rule by which a service manager reads a line of assignments: words between white space, quotes and
escapes anywhere in a word, specifiers, and the last of several assignments to a name.
`get_assignments_iff` is the law for a writer that puts a blank between its assignments and quotes around some
of them: the line gives the assignments back, whatever the specifiers stand for, if and only if each of them is
plain.
-/

namespace Assignments

open Bytes ExecLine

/-- What is read after a backslash: the octets that it stands for, and the rest of the text. -/
structure Escapes where
  read : Bytes → Option (Bytes × Bytes)
  /-- A quote stands for itself, and everything else is not shorter than what it stands for. -/
  read_spec : ∀ {s x r}, read s = some (x, r) →
    (∃ c, (c = DQUOTE ∨ c = SQUOTE) ∧ s = c :: r ∧ x = [c]) ∨
    ∃ w, s = w ++ r ∧ w ≠ [] ∧ x.length ≤ w.length ∧ ∀ c ∈ w, isAlnum c ∨ c = BACKSLASH

/-- A word with some more octets. -/
def add (w : Option Bytes) (x : Bytes) : Option Bytes := some (w.getD [] ++ x)

@[simp] theorem getD_add (w : Option Bytes) (x : Bytes) : (add w x).getD [] = w.getD [] ++ x := rfl

/-- The words of a text, from a state on: the quote that is open, and the word so far. A text ends at an
unknown escape, and a quotation that is left open is dropped. -/
def words (e : Escapes) : Nat → Option UInt8 → Option Bytes → Bytes → List Bytes
  | _, none, w, [] => w.toList
  | _, some _, _, [] => []
  | 0, _, _, _ :: _ => []
  | fuel + 1, q, w, c :: r =>
    if c = BACKSLASH then
      match e.read r with
      | none => []
      | some (x, r) => words e fuel q (add w x) r
    else if q = some c then words e fuel none (add w []) r
    else if q.isSome then words e fuel q (add w [c]) r
    else if c = DQUOTE ∨ c = SQUOTE then words e fuel (some c) (add w []) r
    else if isWhitespace c then w.toList ++ words e fuel none none r
    else words e fuel none (add w [c]) r

/-- Whether a line goes on in the next. -/
def continued : Bytes → Bool
  | [] => false
  | [c] => c == BACKSLASH
  | c :: d :: r => if c = BACKSLASH then continued r else continued (d :: r)

/-- The assignments of a line. -/
def assignments (e : Escapes) (s : Specifiers) (text : Bytes) : Option (List (Bytes × Bytes)) :=
  let line := text.takeWhile fun c => c != LF && c != NUL
  if continued line then none
  else some (((words e line.length none none line).map (expand s)).filterMap (splitFirst EQUALS))

/-- The value of a name: that of its last assignment. -/
def get (as : List (Bytes × Bytes)) (k : Bytes) : Option Bytes := as.reverse.lookup k

/-! ### Writing -/

/-- An assignment as a word. -/
def word (a : Bytes × Bytes) : Bytes := a.1 ++ EQUALS :: a.2

/-- A word with or without quotes around it. -/
def piece (quoted : Bool) (w : Bytes) : Bytes := if quoted then DQUOTE :: w ++ [DQUOTE] else w

/-- A word that is read as it was written. -/
structure Plain (letter : UInt8 → Bool) (quoted : Bool) (w : Bytes) : Prop where
  noQuote : DQUOTE ∉ w
  noBackslash : BACKSLASH ∉ w
  noNewline : LF ∉ w
  noNul : NUL ∉ w
  noSpecifier : hasSpecifier letter w = false
  unquoted : quoted = false → ∀ c ∈ w, isWhitespace c = false ∧ c ≠ SQUOTE

/-! ### Solid octets -/

/-- An octet that a writer does not put between its words. -/
def isSolid (c : UInt8) : Bool := c != SPACE && c != DQUOTE

def solid (s : Bytes) : Nat := s.countP isSolid

@[simp] theorem solid_nil : solid [] = 0 := rfl

@[simp] theorem solid_append (s t : Bytes) : solid (s ++ t) = solid s + solid t := List.countP_append

theorem solid_cons (c : UInt8) (s : Bytes) : solid (c :: s) = solid s + if isSolid c then 1 else 0 :=
  List.countP_cons

theorem solid_le_length (s : Bytes) : solid s ≤ s.length := List.countP_le_length

/-- The solid octets of several words. -/
def solids (ws : List Bytes) : Nat := (ws.map solid).sum

@[simp] theorem solids_nil : solids [] = 0 := rfl

@[simp] theorem solids_cons (w : Bytes) (ws : List Bytes) : solids (w :: ws) = solid w + solids ws := by
  simp [solids]

@[simp] theorem solids_append (us vs : List Bytes) : solids (us ++ vs) = solids us + solids vs := by
  simp [solids]

theorem solids_toList (w : Option Bytes) : solids w.toList = solid (w.getD []) := by cases w <;> simp

theorem isSolid_of_isAlnum {c : UInt8} (h : isAlnum c ∨ c = BACKSLASH) : isSolid c := by
  have : ∀ c : UInt8, isAlnum c ∨ c = BACKSLASH → isSolid c := by decide +kernel
  exact this c h

/-- An escape has a solid octet more than what it stands for. -/
theorem Escapes.solid_read (e : Escapes) {s x r : Bytes} (h : e.read s = some (x, r)) :
    solid x + solid r ≤ solid s ∧ r.length < s.length := by
  rcases e.read_spec h with ⟨c, -, rfl, rfl⟩ | ⟨w, rfl, hne, hlen, hw⟩
  · exact ⟨by rw [solid_cons, solid_cons, solid_nil]; omega, by simp⟩
  · have hsolid : solid w = w.length :=
      List.countP_eq_length.2 fun c hc => isSolid_of_isAlnum (hw c hc)
    have := solid_le_length x
    have := List.length_pos_of_ne_nil hne
    rw [solid_append, List.length_append]
    omega

theorem solids_words_le (e : Escapes) (fuel : Nat) (q : Option UInt8) (w : Option Bytes) (s : Bytes) :
    solids (words e fuel q w s) ≤ solid (w.getD []) + solid s := by
  induction fuel generalizing q w s with
  | zero =>
    cases s with
    | nil => cases q <;> simp [words, solids_toList]
    | cons c r => simp [words]
  | succ fuel ih =>
    cases s with
    | nil => cases q <;> simp [words, solids_toList]
    | cons c r =>
      have hone : solid [c] + solid r = solid (c :: r) := by rw [solid_cons, solid_cons, solid_nil]; omega
      rw [words]
      split
      · split
        · simp
        next x r' hread =>
          have hr := (e.solid_read hread).1
          have := ih q (add w x) r'
          rw [getD_add, solid_append] at this
          omega
      · split
        · have := ih none (add w []) r
          rw [getD_add, List.append_nil] at this
          omega
        · split
          · have := ih q (add w [c]) r
            rw [getD_add, solid_append] at this
            omega
          · split
            · have := ih (some c) (add w []) r
              rw [getD_add, List.append_nil] at this
              omega
            · split
              · have := ih none none r
                rw [solids_append, solids_toList]
                simp only [Option.getD_none, solid_nil] at this
                omega
              · have := ih none (add w [c]) r
                rw [getD_add, solid_append] at this
                omega

/-! ### One octet -/

section
variable (e : Escapes) (fuel : Nat) (w : Option Bytes) {c : UInt8} (r : Bytes)

theorem words_close :
    words e (fuel + 1) (some DQUOTE) w (DQUOTE :: r) = words e fuel none (add w []) r := by
  rw [words, if_neg (by decide), if_pos rfl]

theorem words_quoted (hb : c ≠ BACKSLASH) (hq : c ≠ DQUOTE) :
    words e (fuel + 1) (some DQUOTE) w (c :: r) = words e fuel (some DQUOTE) (add w [c]) r := by
  rw [words, if_neg hb, if_neg (by simpa using hq.symm), if_pos Option.isSome_some]

theorem words_open :
    words e (fuel + 1) none w (DQUOTE :: r) = words e fuel (some DQUOTE) (add w []) r := by
  rw [words, if_neg (by decide), if_neg nofun, if_neg nofun, if_pos (.inl rfl)]

theorem words_open_single :
    words e (fuel + 1) none w (SQUOTE :: r) = words e fuel (some SQUOTE) (add w []) r := by
  rw [words, if_neg (by decide), if_neg nofun, if_neg nofun, if_pos (.inr rfl)]

theorem words_white (hc : isWhitespace c) :
    words e (fuel + 1) none w (c :: r) = w.toList ++ words e fuel none none r := by
  have hne : ∀ d ∈ [BACKSLASH, DQUOTE, SQUOTE], c ≠ d := by
    rintro d hd rfl
    have : ∀ d ∈ [BACKSLASH, DQUOTE, SQUOTE], isWhitespace d = false := by decide +kernel
    rw [this c hd] at hc
    cases hc
  rw [words, if_neg (hne _ (by simp)), if_neg nofun, if_neg nofun,
    if_neg (by simp [hne DQUOTE, hne SQUOTE]), if_pos hc]

theorem words_octet (hb : c ≠ BACKSLASH) (hd : c ≠ DQUOTE) (hs : c ≠ SQUOTE) (hw : isWhitespace c = false) :
    words e (fuel + 1) none w (c :: r) = words e fuel none (add w [c]) r := by
  rw [words, if_neg hb, if_neg nofun, if_neg nofun, if_neg (by simp [hd, hs]), if_neg (by simp [hw])]

end

/-! ### Texts of which nothing solid is dropped -/

/-- A text of which no solid octet is dropped: there is no backslash, and outside of double quotes no
single quote and no white space but blanks. -/
def Clean : Bool → Bytes → Prop
  | _, [] => True
  | true, c :: r => c ≠ BACKSLASH ∧ Clean (c != DQUOTE) r
  | false, c :: r => c ≠ BACKSLASH ∧ c ≠ SQUOTE ∧ (isWhitespace c → c = SPACE) ∧ Clean (c == DQUOTE) r

/-- The state in which a text is read that has had no single quote. -/
def openQuote (quoted : Bool) : Option UInt8 := if quoted then some DQUOTE else none

theorem solid_cons_of {c : UInt8} (hs : c ≠ SPACE) (hq : c ≠ DQUOTE) (s : Bytes) :
    solid (c :: s) = solid s + 1 := by
  simp [solid_cons, isSolid, hs, hq]

theorem words_backslash_lt (e : Escapes) (fuel : Nat) (q : Option UInt8) (w : Option Bytes) (r : Bytes) :
    solids (words e (fuel + 1) q w (BACKSLASH :: r)) < solid (w.getD []) + solid (BACKSLASH :: r) := by
  rw [words, if_pos rfl, solid_cons_of (by decide) (by decide)]
  split
  · rw [solids_nil]; omega
  next x r' hread =>
    have h1 := (e.solid_read hread).1
    have h2 := solids_words_le e fuel q (add w x) r'
    rw [getD_add, solid_append] at h2
    omega

/-- If no solid octet is dropped then the text is clean, and no word has a double quote. -/
theorem clean_of_solids {e : Escapes} {fuel : Nat} {quoted : Bool} {w : Option Bytes} {s : Bytes}
    (hfuel : s.length ≤ fuel)
    (h : solid (w.getD []) + solid s ≤ solids (words e fuel (openQuote quoted) w s))
    (hw : DQUOTE ∉ w.getD []) :
    Clean quoted s ∧ ∀ u ∈ words e fuel (openQuote quoted) w s, DQUOTE ∉ u := by
  have hnil : ∀ {fuel : Nat} {quoted : Bool} {w : Option Bytes}, DQUOTE ∉ w.getD [] →
      Clean quoted [] ∧ ∀ u ∈ words e fuel (openQuote quoted) w [], DQUOTE ∉ u := by
    intro fuel quoted w hw
    refine ⟨by cases quoted <;> trivial, fun u hu => ?_⟩
    cases quoted with
    | true => cases fuel <;> cases hu
    | false =>
      have hu : u ∈ w.toList := by cases fuel <;> exact hu
      obtain rfl := Option.mem_toList.1 hu
      exact hw
  induction fuel generalizing quoted w s with
  | zero =>
    obtain rfl : s = [] := List.eq_nil_of_length_eq_zero (by omega)
    exact hnil hw
  | succ fuel ih =>
    cases s with
    | nil => exact hnil hw
    | cons c r =>
      have hlen : r.length ≤ fuel := by simpa using hfuel
      by_cases hb : c = BACKSLASH
      · subst hb
        exact absurd h (not_le.2 (words_backslash_lt e fuel _ w r))
      have hcons := solid_cons c r
      cases quoted with
      | true =>
        rw [show openQuote true = some DQUOTE from rfl] at h ⊢
        by_cases hq : c = DQUOTE
        · subst hq
          rw [words_close] at h ⊢
          obtain ⟨h1, h2⟩ := @ih false (add w []) r hlen
            (by rw [getD_add, List.append_nil]; exact le_trans (by omega) h) (by simpa using hw)
          exact ⟨⟨hb, h1⟩, h2⟩
        · rw [words_quoted e fuel w r hb hq] at h ⊢
          obtain ⟨h1, h2⟩ := @ih true (add w [c]) r hlen
            (by rw [getD_add, solid_append, solid_cons, solid_nil]; exact le_trans (by omega) h)
            (by simpa [hw] using Ne.symm hq)
          exact ⟨⟨hb, (bne_iff_ne.2 hq).symm ▸ h1⟩, h2⟩
      | false =>
        rw [show openQuote false = none from rfl] at h ⊢
        by_cases hd : c = DQUOTE
        · subst hd
          rw [words_open] at h ⊢
          obtain ⟨h1, h2⟩ := @ih true (add w []) r hlen
            (by rw [getD_add, List.append_nil]; exact le_trans (by omega) h) (by simpa using hw)
          exact ⟨⟨hb, by decide, nofun, h1⟩, h2⟩
        by_cases hs : c = SQUOTE
        · subst hs
          rw [words_open_single] at h
          have hle := solids_words_le e fuel (some SQUOTE) (add w []) r
          rw [getD_add, List.append_nil] at hle
          rw [solid_cons_of (by decide) (by decide)] at h
          omega
        by_cases hwhite : isWhitespace c
        · rw [words_white e fuel w r hwhite, solids_append, solids_toList] at h
          rw [words_white e fuel w r hwhite]
          have hle := solids_words_le e fuel none none r
          simp only [Option.getD_none, solid_nil, Nat.zero_add] at hle
          have hsp : c = SPACE := by
            by_contra hsp
            rw [solid_cons_of hsp hd] at h
            omega
          obtain ⟨h1, h2⟩ := @ih false none r hlen
            (by
              rw [Option.getD_none, solid_nil, Nat.zero_add]
              change solid r ≤ solids (words e fuel none none r)
              omega)
            (by simp)
          refine ⟨⟨hb, hs, fun _ => hsp, (beq_eq_false_iff_ne.2 hd).symm ▸ h1⟩, fun u hu => ?_⟩
          rcases List.mem_append.1 hu with hu | hu
          · obtain rfl := Option.mem_toList.1 hu
            exact hw
          · exact h2 u hu
        · have hwhite' : isWhitespace c = false := Bool.eq_false_iff.2 hwhite
          rw [words_octet e fuel w r hb hd hs hwhite'] at h ⊢
          obtain ⟨h1, h2⟩ := @ih false (add w [c]) r hlen
            (by rw [getD_add, solid_append, solid_cons, solid_nil]; exact le_trans (by omega) h)
            (by simpa [hw] using Ne.symm hd)
          exact ⟨⟨hb, hs, fun h => absurd h hwhite, (beq_eq_false_iff_ne.2 hd).symm ▸ h1⟩, h2⟩

/-! ### Pieces -/

theorem clean_of_unquoted {u r : Bytes} (hq : DQUOTE ∉ u) (h : Clean false (u ++ r)) :
    (∀ c ∈ u, c ≠ BACKSLASH ∧ c ≠ SQUOTE ∧ (isWhitespace c → c = SPACE)) ∧ Clean false r := by
  induction u with
  | nil => exact ⟨nofun, h⟩
  | cons c u ih =>
    obtain ⟨hb, hs, hw, h⟩ := h
    have hc : c ≠ DQUOTE := fun hc => hq (hc ▸ List.mem_cons_self)
    rw [beq_eq_false_iff_ne.2 hc] at h
    obtain ⟨h1, h2⟩ := ih (fun hu => hq (List.mem_cons_of_mem c hu)) h
    exact ⟨List.forall_mem_cons.2 ⟨⟨hb, hs, hw⟩, h1⟩, h2⟩

theorem clean_of_quoted {u r : Bytes} (hq : DQUOTE ∉ u) (h : Clean true (u ++ DQUOTE :: r)) :
    BACKSLASH ∉ u ∧ Clean false r := by
  induction u with
  | nil => exact ⟨List.not_mem_nil, h.2⟩
  | cons c u ih =>
    obtain ⟨hb, h⟩ := h
    have hc : c ≠ DQUOTE := fun hc => hq (hc ▸ List.mem_cons_self)
    rw [bne_iff_ne.2 hc] at h
    obtain ⟨h1, h2⟩ := ih (fun hu => hq (List.mem_cons_of_mem c hu)) h
    exact ⟨fun hu => (List.mem_cons.1 hu).elim (fun h => hb h.symm) h1, h2⟩

/-- The piece of a clean text: a word without quotes has no white space but blanks. -/
theorem clean_of_piece {quoted : Bool} {u r : Bytes} (hq : DQUOTE ∉ u) (h : Clean false (piece quoted u ++ r)) :
    (BACKSLASH ∉ u ∧ (quoted = false → ∀ c ∈ u, c ≠ SQUOTE ∧ (isWhitespace c → c = SPACE))) ∧
      Clean false r := by
  cases quoted with
  | false =>
    obtain ⟨h1, h2⟩ := clean_of_unquoted hq h
    exact ⟨⟨fun hb => (h1 _ hb).1 rfl, fun _ c hc => (h1 c hc).2⟩, h2⟩
  | true =>
    have h' : Clean true (u ++ DQUOTE :: r) := by
      have := h.2.2.2
      simpa [List.append_assoc] using this
    obtain ⟨h1, h2⟩ := clean_of_quoted hq h'
    exact ⟨⟨h1, nofun⟩, h2⟩

theorem clean_of_joinWords {α : Type} {quoted : α → Bool} {w : α → Bytes} {as : List α}
    (hq : ∀ a ∈ as, DQUOTE ∉ w a) (h : Clean false (joinWords (as.map fun a => piece (quoted a) (w a)))) :
    ∀ a ∈ as, BACKSLASH ∉ w a ∧
      (quoted a = false → ∀ c ∈ w a, c ≠ SQUOTE ∧ (isWhitespace c → c = SPACE)) := by
  induction as with
  | nil => nofun
  | cons a as ih =>
    rw [List.forall_mem_cons] at hq ⊢
    by_cases has : as = []
    · subst has
      rw [List.map_singleton, joinWords_singleton, ← List.append_nil (piece _ _)] at h
      exact ⟨(clean_of_piece hq.1 h).1, nofun⟩
    · rw [List.map_cons, joinWords_cons_of_ne (by simpa using has)] at h
      obtain ⟨h1, h2⟩ := clean_of_piece hq.1 h
      exact ⟨h1, ih hq.2 h2.2.2.2⟩

theorem words_of_unquoted (e : Escapes) {u : Bytes} (hne : u ≠ [])
    (hu : ∀ c ∈ u, c ≠ BACKSLASH ∧ c ≠ DQUOTE ∧ c ≠ SQUOTE ∧ isWhitespace c = false) (fuel : Nat)
    (w : Option Bytes) (r : Bytes) :
    words e (u.length + fuel) none w (u ++ r) = words e fuel none (add w u) r := by
  induction u generalizing w with
  | nil => exact absurd rfl hne
  | cons c u ih =>
    rw [List.forall_mem_cons] at hu
    obtain ⟨⟨hb, hd, hs, hw⟩, hu⟩ := hu
    rw [List.length_cons, Nat.succ_add, List.cons_append, words_octet e _ w _ hb hd hs hw]
    by_cases h0 : u = []
    · subst h0; simp
    · rw [ih h0 hu]
      simp [add]

theorem words_of_quoted (e : Escapes) {u : Bytes} (hb : BACKSLASH ∉ u) (hd : DQUOTE ∉ u) (fuel : Nat)
    (w : Bytes) (r : Bytes) :
    words e (u.length + fuel) (some DQUOTE) (some w) (u ++ r) =
      words e fuel (some DQUOTE) (some (w ++ u)) r := by
  induction u generalizing w with
  | nil => simp
  | cons c u ih =>
    rw [List.mem_cons, not_or] at hb hd
    rw [List.length_cons, Nat.succ_add, List.cons_append,
      words_quoted e _ _ _ (Ne.symm hb.1) (Ne.symm hd.1), add, ih hb.2 hd.2]
    simp

/-- A plain piece is one word, or the start of one. -/
theorem words_of_piece (e : Escapes) {letter : UInt8 → Bool} {quoted : Bool} {u : Bytes} (hne : u ≠ [])
    (h : Plain letter quoted u) (fuel : Nat) (r : Bytes) :
    words e ((piece quoted u).length + fuel) none none (piece quoted u ++ r) =
      words e fuel none (some u) r := by
  cases quoted with
  | false =>
    refine (words_of_unquoted e hne (fun c hc => ?_) fuel none r).trans (by simp [add])
    obtain ⟨h1, h2⟩ := h.unquoted rfl c hc
    exact ⟨fun hb => h.noBackslash (hb ▸ hc), fun hd => h.noQuote (hd ▸ hc), h2, h1⟩
  | true =>
    have hlen : (piece true u).length + fuel = u.length + (fuel + 1) + 1 := by
      simp only [piece, if_true, List.length_append, List.length_cons, List.length_nil]
      omega
    have htext : piece true u ++ r = DQUOTE :: (u ++ DQUOTE :: r) := by simp [piece]
    rw [hlen, htext, words_open, add, words_of_quoted e h.noBackslash h.noQuote, words_close]
    simp [add]

theorem words_of_joinWords (e : Escapes) {letter : UInt8 → Bool} {α : Type} {quoted : α → Bool} {w : α → Bytes}
    {as : List α} (hne : ∀ a ∈ as, w a ≠ []) (h : ∀ a ∈ as, Plain letter (quoted a) (w a)) :
    let text := joinWords (as.map fun a => piece (quoted a) (w a))
    words e text.length none none text = as.map w := by
  induction as with
  | nil => rfl
  | cons a as ih =>
    rw [List.forall_mem_cons] at hne h
    intro text
    by_cases has : as = []
    · subst has
      have htext : text = piece (quoted a) (w a) := joinWords_singleton _
      have := words_of_piece e hne.1 h.1 0 []
      rw [List.append_nil, Nat.add_zero] at this
      rw [htext, this]
      rfl
    · have htext : text = piece (quoted a) (w a) ++
          SPACE :: joinWords (as.map fun a => piece (quoted a) (w a)) :=
        joinWords_cons_of_ne (by simpa using has)
      rw [htext, List.length_append, List.length_cons, words_of_piece e hne.1 h.1,
        words_white e _ _ _ (by decide), ih hne.2 h.2]
      rfl

/-! ### Counting -/

theorem solid_piece (quoted : Bool) (u : Bytes) : solid (piece quoted u) = solid u := by
  have hq : isSolid DQUOTE = false := by decide
  cases quoted <;> simp [piece, solid_cons, hq]

theorem solid_joinWords (ws : List Bytes) : solid (joinWords ws) = solids ws := by
  have hs : isSolid SPACE = false := by decide
  induction ws with
  | nil => rfl
  | cons w ws ih =>
    by_cases h : ws = []
    · simp [h]
    · rw [joinWords_cons_of_ne h, solid_append, solid_cons, ih, hs, solids_cons]
      simp

/-- Where specifiers stand for nothing, expansion drops solid octets, or leaves every word. -/
theorem solids_expand_le (letter : UInt8 → Bool) (ws : List Bytes) :
    solids (ws.map (expand ⟨letter, fun _ => []⟩)) ≤ solids ws ∧
    (solids ws ≤ solids (ws.map (expand ⟨letter, fun _ => []⟩)) →
      ∀ w ∈ ws, hasSpecifier letter w = false) := by
  induction ws with
  | nil => exact ⟨le_rfl, nofun⟩
  | cons w ws ih =>
    obtain ⟨ih1, ih2⟩ := ih
    simp only [List.map_cons, solids_cons, List.forall_mem_cons]
    rcases countP_expand_le (p := isSolid) (by decide) letter w with h | h
    · change solid (expand _ w) < solid w at h
      exact ⟨by omega, fun _ => by omega⟩
    · rw [expand_of_hasSpecifier (s := ⟨letter, fun _ => []⟩) h]
      exact ⟨by omega, fun h' => ⟨h, ih2 (by omega)⟩⟩

theorem solids_le_of_subset {us vs : List Bytes} (hn : us.Nodup) (h : us ⊆ vs) : solids us ≤ solids vs := by
  obtain ⟨ws, hperm, hsub⟩ := hn.subperm h
  have hperm' : solids ws = solids us := (hperm.map solid).sum_eq
  rw [← hperm']
  exact (hsub.map solid).sum_le_sum (fun _ _ => Nat.zero_le _)

theorem takeWhile_eq_of_solid_le {s : Bytes}
    (h : solid s ≤ solid (s.takeWhile fun c => c != LF && c != NUL)) : LF ∉ s ∧ NUL ∉ s := by
  have hall : s.takeWhile (fun c => c != LF && c != NUL) = s := by
    have happ := List.takeWhile_append_dropWhile (p := fun c : UInt8 => c != LF && c != NUL) (l := s)
    rcases hd : s.dropWhile (fun c => c != LF && c != NUL) with - | ⟨c, r⟩
    · rw [hd, List.append_nil] at happ
      exact happ
    · have hc := List.head?_dropWhile_not (fun c : UInt8 => c != LF && c != NUL) s
      rw [hd] at hc
      have hsolid : solid (c :: r) = solid r + 1 := by
        refine solid_cons_of ?_ ?_ r
        · rintro rfl
          exact absurd (show (SPACE != LF && SPACE != NUL) = false from hc) (by decide)
        · rintro rfl
          exact absurd (show (DQUOTE != LF && DQUOTE != NUL) = false from hc) (by decide)
      have := congrArg solid happ
      rw [hd, solid_append, hsolid] at this
      omega
  rw [List.takeWhile_eq_self_iff] at hall
  exact ⟨fun hc => by simpa using hall _ hc, fun hc => by simpa using hall _ hc⟩

/-! ### The law -/

theorem continued_eq_false {s : Bytes} (h : BACKSLASH ∉ s) : continued s = false := by
  fun_induction continued s with
  | case1 => rfl
  | case2 c => exact beq_eq_false_iff_ne.2 fun hc => h (hc ▸ List.mem_singleton_self c)
  | case3 d r ih => exact absurd List.mem_cons_self h
  | case4 c d r _ ih => exact ih fun hc => h (List.mem_cons_of_mem c hc)

theorem mem_joinWords {ws : List Bytes} {w : Bytes} (hw : w ∈ ws) {c : UInt8} (hc : c ∈ w) :
    c ∈ joinWords ws := by
  induction ws with
  | nil => cases hw
  | cons u us ih =>
    by_cases hus : us = []
    · subst hus
      obtain rfl := List.mem_singleton.1 hw
      simpa using hc
    · rw [joinWords_cons_of_ne hus]
      rcases List.mem_cons.1 hw with rfl | hw
      · exact List.mem_append_left _ hc
      · exact List.mem_append_right _ (List.mem_cons_of_mem _ (ih hw))

theorem notMem_joinWords {ws : List Bytes} {c : UInt8} (hs : c ≠ SPACE) (h : ∀ w ∈ ws, c ∉ w) :
    c ∉ joinWords ws := by
  induction ws with
  | nil => nofun
  | cons u us ih =>
    rw [List.forall_mem_cons] at h
    by_cases hus : us = []
    · subst hus
      simpa using h.1
    · rw [joinWords_cons_of_ne hus]
      simp [h.1, hs, ih h.2]

theorem mem_of_get {as : List (Bytes × Bytes)} {k v : Bytes} (h : get as k = some v) : (k, v) ∈ as := by
  obtain ⟨l, l', hl, -⟩ := List.lookup_eq_some_iff.1 h
  rw [← List.mem_reverse, hl]
  simp

/-- The value of a name that is assigned once. -/
theorem get_eq_some_iff {as : List (Bytes × Bytes)} (hn : (as.map Prod.fst).Nodup) {k v : Bytes} :
    get as k = some v ↔ (k, v) ∈ as := by
  refine ⟨mem_of_get, fun h => ?_⟩
  rcases hget : get as k with - | v'
  · rw [get, List.lookup_eq_none_iff] at hget
    simpa using hget (k, v) (List.mem_reverse.2 h)
  · have := List.inj_on_of_nodup_map hn h (mem_of_get hget) rfl
    rw [Prod.mk.injEq] at this
    rw [this.2]

theorem splitFirst_word {a : Bytes × Bytes} (h : EQUALS ∉ a.1) : splitFirst EQUALS (word a) = some a :=
  splitFirst_eq_some.2 ⟨rfl, h⟩

theorem word_of_splitFirst {w : Bytes} {a : Bytes × Bytes} (h : splitFirst EQUALS w = some a) :
    w = word a := (splitFirst_eq_some (a := a.1) (b := a.2)).1 h |>.1

section
variable (e : Escapes) {letter : UInt8 → Bool} {quoted : Bytes × Bytes → Bool} {as : List (Bytes × Bytes)}

/-- The line of plain assignments. -/
theorem assignments_of_plain (hnames : ∀ a ∈ as, EQUALS ∉ a.1)
    (h : ∀ a ∈ as, Plain letter (quoted a) (word a)) (value : UInt8 → Bytes) :
    assignments e ⟨letter, value⟩ (joinWords (as.map fun a => piece (quoted a) (word a))) = some as := by
  have hpiece : ∀ {c : UInt8} {a : Bytes × Bytes}, c ≠ DQUOTE → c ∉ word a → c ∉ piece (quoted a) (word a) := by
    intro c a hc hw
    cases quoted a <;> simp [piece, hc, hw]
  have hnot : ∀ {c : UInt8}, c ≠ DQUOTE → c ≠ SPACE → (∀ a ∈ as, c ∉ word a) →
      c ∉ joinWords (as.map fun a => piece (quoted a) (word a)) := by
    intro c hd hs hw
    refine notMem_joinWords hs fun w hmem => ?_
    obtain ⟨a, ha, rfl⟩ := List.mem_map.1 hmem
    exact hpiece hd (hw a ha)
  have hline : (joinWords (as.map fun a => piece (quoted a) (word a))).takeWhile
      (fun c => c != LF && c != NUL) = joinWords (as.map fun a => piece (quoted a) (word a)) := by
    rw [List.takeWhile_eq_self_iff]
    intro c hc
    have hlf : c ≠ LF := fun h0 => hnot (by decide) (by decide) (fun a ha => (h a ha).noNewline) (h0 ▸ hc)
    have hnul : c ≠ NUL := fun h0 => hnot (by decide) (by decide) (fun a ha => (h a ha).noNul) (h0 ▸ hc)
    simp [hlf, hnul]
  have hwords := words_of_joinWords e (w := word) (fun a _ => by simp [word]) h
  have hexpand : (as.map word).map (expand ⟨letter, value⟩) = as.map word := by
    rw [List.map_map]
    exact List.map_congr_left fun a ha => expand_of_hasSpecifier (h a ha).noSpecifier
  have hsplit : (as.map word).filterMap (splitFirst EQUALS) = as := by
    rw [List.filterMap_map]
    exact (List.filterMap_congr fun a ha => splitFirst_word (hnames a ha)).trans List.filterMap_some
  have hcontinued := continued_eq_false (hnot (by decide) (by decide) fun a ha => (h a ha).noBackslash)
  simp only [assignments, hline, hcontinued, Bool.false_eq_true, if_false, hwords, hexpand, hsplit]

/-- A line that gives assignments back has plain assignments. -/
theorem plain_of_assignments (hn : (as.map Prod.fst).Nodup)
    (hquoted : ∀ a ∈ as, quoted a = false → SPACE ∉ word a) {read : List (Bytes × Bytes)}
    (hread : assignments e ⟨letter, fun _ => []⟩ (joinWords (as.map fun a => piece (quoted a) (word a))) =
      some read)
    (hget : ∀ a ∈ as, get read a.1 = some a.2)
    (hnames : ∀ a ∈ as, EQUALS ∉ a.1) : ∀ a ∈ as, Plain letter (quoted a) (word a) := by
  set text := joinWords (as.map fun a => piece (quoted a) (word a)) with htext
  set line := text.takeWhile fun c => c != LF && c != NUL with hline
  set us := words e line.length none none line with hus
  have hread : read = (us.map (expand ⟨letter, fun _ => []⟩)).filterMap (splitFirst EQUALS) := by
    unfold assignments at hread
    extract_lets at hread
    split at hread
    · cases hread
    · exact (Option.some.inj hread).symm
  -- Every assignment is one of the words, and no two are one word.
  have hsub : as.map word ⊆ us.map (expand ⟨letter, fun _ => []⟩) := by
    intro w hw
    obtain ⟨a, ha, rfl⟩ := List.mem_map.1 hw
    have hmem := mem_of_get (hget a ha)
    rw [hread] at hmem
    obtain ⟨u, hu, hsplit⟩ := List.mem_filterMap.1 hmem
    exact word_of_splitFirst hsplit ▸ hu
  have hnodup : (as.map word).Nodup := by
    refine (List.nodup_map_iff_inj_on (List.Nodup.of_map _ hn)).2 fun a ha b hb hab => ?_
    have := congrArg (splitFirst EQUALS) hab
    rw [splitFirst_word (hnames a ha), splitFirst_word (hnames b hb)] at this
    exact Option.some.inj this
  -- So no solid octet of the text is dropped anywhere.
  have htotal : solid text = solids (as.map word) := by
    rw [htext, solid_joinWords, solids, solids, List.map_map, List.map_map]
    exact congrArg List.sum (List.map_congr_left fun a _ => solid_piece _ _)
  have h1 := solids_le_of_subset hnodup hsub
  obtain ⟨h2, hspecifiers⟩ := solids_expand_le letter us
  have h3 : solids us ≤ solid line := by
    have := solids_words_le e line.length none none line
    rwa [Option.getD_none, solid_nil, Nat.zero_add] at this
  have h4 : solid line ≤ solid text := (List.takeWhile_sublist _).countP_le
  obtain ⟨hlf, hnul⟩ := takeWhile_eq_of_solid_le (s := text) (show solid text ≤ solid line by omega)
  have hlinetext : line = text := by
    rw [hline, List.takeWhile_eq_self_iff]
    intro c hc
    have hclf : c ≠ LF := fun h => hlf (h ▸ hc)
    have hcnul : c ≠ NUL := fun h => hnul (h ▸ hc)
    simp [hclf, hcnul]
  obtain ⟨hclean, hquotes⟩ := @clean_of_solids e _ false none line le_rfl
    (by rw [Option.getD_none, solid_nil, Nat.zero_add]; change solid line ≤ solids us; omega) (by simp)
  have hno := hspecifiers (by omega)
  have hus : us.map (expand ⟨letter, fun _ => []⟩) = us := by
    rw [List.map_congr_left fun u hu => expand_of_hasSpecifier (s := ⟨letter, fun _ => []⟩) (hno u hu),
      List.map_id']
  rw [hus] at hsub
  have hmem : ∀ a ∈ as, word a ∈ us := fun a ha => hsub (List.mem_map_of_mem ha)
  have hquote : ∀ a ∈ as, DQUOTE ∉ word a := fun a ha => hquotes _ (hmem a ha)
  rw [hlinetext] at hclean
  have hpieces := clean_of_joinWords (w := word) hquote hclean
  have hin : ∀ {a : Bytes × Bytes} {c : UInt8}, a ∈ as → c ∈ word a → c ∈ text := fun {a c} ha hc =>
    mem_joinWords (List.mem_map_of_mem ha) (by cases quoted a <;> simp [piece, hc])
  intro a ha
  obtain ⟨hb, hu⟩ := hpieces a ha
  refine ⟨hquote a ha, hb, fun h => hlf (hin ha h), fun h => hnul (hin ha h), hno _ (hmem a ha),
    fun hq c hc => ?_⟩
  obtain ⟨hs, hw⟩ := hu hq c hc
  exact ⟨Bool.eq_false_iff.2 fun h => hquoted a ha hq (hw h ▸ hc), hs⟩

/-- **Lines of assignments**: a line of assignments to different names gives them back, whatever the
specifiers stand for, if and only if each of them is plain. -/
theorem get_assignments_iff (hn : (as.map Prod.fst).Nodup) (hnames : ∀ a ∈ as, EQUALS ∉ a.1)
    (hquoted : ∀ a ∈ as, quoted a = false → SPACE ∉ word a) :
    (∀ value, ∃ read,
      assignments e ⟨letter, value⟩ (joinWords (as.map fun a => piece (quoted a) (word a))) = some read ∧
      ∀ k v, get read k = some v ↔ (k, v) ∈ as) ↔
    ∀ a ∈ as, Plain letter (quoted a) (word a) := by
  constructor
  · intro h
    obtain ⟨read, hread, hget⟩ := h fun _ => []
    exact plain_of_assignments e hn hquoted hread (fun a ha => (hget a.1 a.2).2 ha) hnames
  · intro h value
    exact ⟨as, assignments_of_plain e hnames h value, fun k v => get_eq_some_iff hn⟩

end

end Assignments
