import SystemdCron.Crontab
import SystemdCron.Lib.Marks
import SystemdCron.Lib.Stdio

/-!
# The coloured listing

`colour_crontab` of `crontab.cpp`: comments, names of variables and time specifications are printed between
escape sequences. Without these, every line is printed as it stands in the file but for one kind of line,
an `@` line with blanks in front (`coloured_listing_iff`).
-/

namespace SystemdCron

open Bytes Marks Stdio

def COLOUR_GREEN : Bytes := 27 :: lit "[1;32m"
def COLOUR_YELLOW : Bytes := 27 :: lit "[1;33m"
def COLOUR_BLUE : Bytes := 27 :: lit "[1;34m"
def COLOUR_RESET : Bytes := 27 :: lit "[0m"

def colours : List Bytes := [COLOUR_GREEN, COLOUR_YELLOW, COLOUR_BLUE, COLOUR_RESET]

/-- `coloured`: what is printed. -/
def coloured (data : Bytes) : Option Bytes → Bytes
  | some colour => colour ++ data ++ COLOUR_RESET
  | none => data

/-- The part of a line in front of its sixth field. -/
def timespecPart (line : Bytes) : Bytes :=
  line.take (line.length - ((dropFields 5 line).dropWhile isFieldDelim).length)

/-- The round of `colour_crontab` for one line. -/
def colourLine (line : Bytes) : Bytes :=
  if line.head? = some HASH then coloured line (some COLOUR_BLUE)
  else
    match matchEnvvar (line.takeWhile (· != LF)) with
    | some (key, _) => coloured key (some COLOUR_YELLOW) ++ coloured (line.drop key.length) none
    | none =>
      let tokens := softTokenise isFieldDelim line
      let cur := tokens.getD 0 []
      if cur.head? = some AT then
        -- The prefix is as long as the word, wherever the word begins.
        coloured cur (some COLOUR_GREEN) ++ coloured (line.drop cur.length) none
      else if 5 < tokens.length then
        let timespec := timespecPart line
        coloured timespec (some COLOUR_GREEN) ++ coloured (line.drop timespec.length) none
      else coloured line none

/-- `colour_crontab`: what is printed for a file. -/
def colourCrontab (content : Bytes) : Bytes := (getlines (content.length + 1) content).flatMap colourLine

/-- A line whose first word begins with `@` and has blanks in front. -/
def LateAt (line : Bytes) : Prop :=
  line.head? ≠ some AT ∧ (line.dropWhile isFieldDelim).head? = some AT

instance : DecidablePred LateAt := fun _ => inferInstanceAs (Decidable (_ ∧ _))

/-! ### One line -/

theorem colours_alphabet : Alphabet colours 27 where
  head := by
    have hhead : ∀ m ∈ colours, m.head? = some 27 ∧ 27 ∉ m.tail := by decide
    intro m hm
    obtain ⟨h, htail⟩ := hhead m hm
    obtain ⟨t, rfl⟩ := List.head?_eq_some_iff.1 h
    exact ⟨t, rfl, htail⟩
  apart := by decide

theorem tokens_head {p : UInt8 → Bool} {s w : Bytes} {ws : List Bytes} (h : tokens p s = w :: ws) :
    w <+: s.dropWhile p := by
  induction s using tokens_induction (p := p) with
  | nil => cases h
  | delimiter c b hc ih =>
    rw [tokens_cons_delim b hc] at h
    rw [List.dropWhile_cons_of_pos hc]
    exact ih h
  | last v hne hv =>
    rw [tokens_of_no_delim hv hne] at h
    cases h
    obtain ⟨x, r, rfl⟩ := List.exists_cons_of_ne_nil hne
    rw [List.dropWhile_cons_of_neg (by simp [hv x (by simp)])]
  | word v c b hne hv hc ih =>
    rw [tokens_append_word b hv hne hc] at h
    cases h
    obtain ⟨x, r, rfl⟩ := List.exists_cons_of_ne_nil hne
    rw [List.cons_append, List.dropWhile_cons_of_neg (by simp [hv x (by simp)])]
    exact ⟨c :: b, rfl⟩

/-- What is printed for a line, without the escape sequences. -/
def plainLine (line : Bytes) : Bytes :=
  if LateAt line then
    let cur := (softTokenise isFieldDelim line).getD 0 []
    cur ++ line.drop cur.length
  else line

/-- The first word begins with the first octet that is no blank. -/
theorem head?_first_word (line : Bytes) :
    ((tokens isFieldDelim line).getD 0 []).head? = (line.dropWhile isFieldDelim).head? := by
  rcases htok : tokens isFieldDelim line with - | ⟨w, ws⟩
  · rw [dropWhile_eq_nil_of_tokens htok]
    rfl
  · obtain ⟨t, ht⟩ := tokens_head htok
    obtain ⟨c, w', hw⟩ := List.exists_cons_of_ne_nil (ne_nil_of_mem_tokens (htok ▸ List.mem_cons_self))
    rw [← ht, hw]
    rfl

theorem plainLine_eq_iff {line : Bytes} : plainLine line = line ↔ ¬ LateAt line := by
  unfold plainLine
  split
  next hlate =>
    refine iff_of_false (fun h => hlate.1 ?_) (not_not.2 hlate)
    have hhead := head?_first_word line
    rw [softTokenise_eq] at h
    rw [← h, List.head?_append, hhead, hlate.2]
    rfl
  next hlate => exact iff_of_true rfl hlate

theorem length_plainLine (line : Bytes) : (plainLine line).length = line.length := by
  unfold plainLine
  split
  next hlate =>
    dsimp only
    rw [softTokenise_eq, List.length_append, List.length_drop]
    rcases htok : tokens isFieldDelim line with - | ⟨w, ws⟩
    · simp
    · have hle := (tokens_head htok).length_le.trans (List.dropWhile_sublist _).length_le
      change w.length + (line.length - w.length) = line.length
      omega
  next => rfl

/-- What is left of a line ends in a newline, or nothing comes after it. -/
theorem clear_drop {line r : Bytes} (h : r = [] ∨ line.getLast? = some LF) (n : Nat) :
    Clear colours (line.drop n) r := by
  rcases h with rfl | h
  · exact clear_nil
  · obtain ⟨l, rfl⟩ := List.getLast?_eq_some_iff.1 h
    by_cases hn : n ≤ l.length
    · rw [List.drop_append_of_le_length hn]
      exact clear_of_getLast (by decide)
    · rw [List.drop_eq_nil_of_le (by simp; omega)]
      rintro m - u hu hne -
      exact hne (List.suffix_nil.1 hu)

theorem strip_coloured {data colour : Bytes} (hd : Free colours data) (hc : colour ∈ colours) (r : Bytes) :
    strip colours 0 (coloured data (some colour) ++ r) = data ++ strip colours 0 r := by
  have hreset : COLOUR_RESET ∈ colours := by decide
  rw [coloured, List.append_assoc, List.append_assoc, strip_mark colours_alphabet hc,
    strip_append hd (clear_mark colours_alphabet hreset), strip_mark colours_alphabet hreset]

/-- The blanks that are passed are delimiters, and the first word is none. -/
theorem lateAt_of_head {line : Bytes} {c : UInt8} (h : line.head? = some c) (hd : isFieldDelim c = false)
    (hc : c ≠ AT) : ¬ LateAt line := by
  obtain ⟨r, rfl⟩ := List.head?_eq_some_iff.1 h
  rintro ⟨-, hat⟩
  rw [List.dropWhile_cons_of_neg (by simp [hd])] at hat
  exact hc (Option.some.inj hat)

theorem matchEnvvar_name {s key value : Bytes} (h : matchEnvvar s = some (key, value)) :
    key <+: s ∧ ∃ c w, key = c :: w ∧ isNameChar c := by
  unfold matchEnvvar at h
  extract_lets k at h
  split at h
  · dsimp only at h
    split at h
    next hk =>
      simp only [Option.some.injEq, Prod.mk.injEq] at h
      obtain ⟨c, w, hw⟩ := List.exists_cons_of_ne_nil hk.1
      have hc : c ∈ s.takeWhile isNameChar := by
        change c ∈ k
        rw [hw]
        exact List.mem_cons_self
      rw [← h.1]
      exact ⟨List.takeWhile_prefix _, c, w, hw, List.mem_takeWhile_imp hc⟩
    next => cases h
  · cases h

/-- What is printed for a line in two parts. -/
theorem strip_parts {line r w colour : Bytes} (hfree : Free colours line)
    (hend : r = [] ∨ line.getLast? = some LF) (hw : w <:+: line) (hc : colour ∈ colours) :
    strip colours 0 (coloured w (some colour) ++ coloured (line.drop w.length) none ++ r) =
      w ++ line.drop w.length ++ strip colours 0 r := by
  rw [List.append_assoc, strip_coloured (hfree.of_infix hw) hc, coloured,
    strip_append (hfree.of_infix (List.drop_suffix _ _).isInfix) (clear_drop hend _), List.append_assoc]

/-- **One line**: what is printed, without the escape sequences. -/
theorem strip_colourLine {line r : Bytes} (hfree : Free colours line)
    (hend : r = [] ∨ line.getLast? = some LF) :
    strip colours 0 (colourLine line ++ r) = plainLine line ++ strip colours 0 r := by
  have hwhole : ∀ {w : Bytes}, w <+: line → ¬ LateAt line → w ++ line.drop w.length = plainLine line := by
    rintro w ⟨t, rfl⟩ hlate
    rw [plainLine_eq_iff.2 hlate, List.drop_left]
  unfold colourLine
  split
  next hhash =>
    rw [plainLine_eq_iff.2 (lateAt_of_head hhash (by decide) (by decide))]
    exact strip_coloured hfree (by decide) r
  next hhash =>
  split
  next key value hkey =>
    obtain ⟨hpre, c, w, rfl, hc⟩ := matchEnvvar_name hkey
    have hpre : c :: w <+: line := hpre.trans (List.takeWhile_prefix _)
    have hname : ∀ c, isNameChar c → isFieldDelim c = false ∧ c ≠ AT := by decide +kernel
    have hlate : ¬ LateAt line := by
      obtain ⟨t, rfl⟩ := hpre
      exact lateAt_of_head rfl (hname c hc).1 (hname c hc).2
    rw [strip_parts hfree hend hpre.isInfix (by decide), hwhole hpre hlate]
  next =>
    dsimp only
    rw [softTokenise_eq, head?_first_word]
    split
    next hat =>
      have hword : (tokens isFieldDelim line).getD 0 [] <+: line.dropWhile isFieldDelim := by
        rcases htok : tokens isFieldDelim line with - | ⟨w, ws⟩
        · exact List.nil_prefix
        · exact tokens_head htok
      rw [strip_parts hfree hend (hword.isInfix.trans (List.dropWhile_suffix _).isInfix) (by decide)]
      by_cases hlate : LateAt line
      · rw [plainLine, if_pos hlate, softTokenise_eq]
      · have hhead : line.head? = some AT := by
          by_contra hne
          exact hlate ⟨hne, hat⟩
        obtain ⟨t, rfl⟩ := List.head?_eq_some_iff.1 hhead
        rw [List.dropWhile_cons_of_neg (by decide)] at hword
        rw [hwhole hword hlate]
    next hat =>
      have hlate : ¬ LateAt line := fun h => hat h.2
      split
      · have hpre : timespecPart line <+: line := List.take_prefix _ _
        rw [strip_parts hfree hend hpre.isInfix (by decide), hwhole hpre hlate]
      · rw [plainLine_eq_iff.2 hlate]
        exact strip_append hfree (clear_drop hend 0)

/-! ### A file -/

/-- The lines of a file without escape sequences, printed without them. -/
theorem strip_getlines {n : Nat} {s : Bytes} (h : s.length < n) (hs : Free colours s) :
    strip colours 0 ((getlines n s).flatMap colourLine) = (getlines n s).flatMap plainLine := by
  induction n generalizing s with
  | zero => omega
  | succ n ih =>
    rw [getlines]
    split
    next => rfl
    next hne =>
      have hsplit := firstLine_append s
      have hlen := length_drop_firstLine hne
      have hline : firstLine s <:+: s := ⟨[], _, hsplit⟩
      have hrest : s.drop (firstLine s).length <:+: s := (List.drop_suffix _ _).isInfix
      rw [List.flatMap_cons, List.flatMap_cons, strip_colourLine (hs.of_infix hline) ?_,
        ih (by omega) (hs.of_infix hrest)]
      rcases drop_firstLine s with h | ⟨t, ht⟩
      · refine .inl ?_
        rw [h]
        cases n <;> rfl
      · refine .inr ?_
        rw [ht, List.getLast?_append, List.getLast?_singleton]
        rfl

/-- **The coloured listing**: without its escape sequences it is the file, if the file has none, exactly if
no `@` line has blanks in front. -/
theorem coloured_listing_iff {content : Bytes} (h : Free colours content) :
    strip colours 0 (colourCrontab content) = content ↔
      ∀ line ∈ getlines (content.length + 1) content, ¬ LateAt line := by
  have hlines : ∀ ls : List Bytes, ls.flatMap plainLine = ls.flatten ↔ ∀ line ∈ ls, ¬ LateAt line := by
    intro ls
    induction ls with
    | nil => simp
    | cons l ls ih =>
      rw [List.flatMap_cons, List.flatten_cons, List.forall_mem_cons, ← ih, ← plainLine_eq_iff]
      constructor
      · exact fun h => List.append_inj h (length_plainLine l)
      · rintro ⟨h1, h2⟩
        rw [h1, h2]
  have hflat := flatten_getlines (Nat.lt_succ_self content.length)
  rw [colourCrontab, strip_getlines (Nat.lt_succ_self _) h, ← hlines, hflat]

/-- A file that is listed as another: `  @daily true` as `@dailyly true`. -/
theorem coloured_listing_loses :
    ¬ ∀ content, Free colours content → strip colours 0 (colourCrontab content) = content := by
  intro h
  have hlisted : strip colours 0 (colourCrontab (lit "  @daily true\n")) = lit "@dailyly true\n" := by
    decide +kernel
  have hsame := h (lit "  @daily true\n") (by decide +kernel)
  rw [hlisted] at hsame
  revert hsame
  decide

theorem coloured_listing_iff_reboot :
    Free colours (lit "PATH=/bin\n@reboot true\n 5 4 * * * sync\n") ∧
      strip colours 0 (colourCrontab (lit "PATH=/bin\n@reboot true\n 5 4 * * * sync\n")) =
        lit "PATH=/bin\n@reboot true\n 5 4 * * * sync\n" := by
  have hfree : Free colours (lit "PATH=/bin\n@reboot true\n 5 4 * * * sync\n") := by decide +kernel
  exact ⟨hfree, (coloured_listing_iff hfree).2 (by decide +kernel)⟩

end SystemdCron
