import Mathlib

/-!
# Byte strings

Texts are lists of octets. This file has the character classes of the C locale, the division of a
text into the runs between delimiters (`tokens`), the rejoining of such runs (`joinWords`) and the
reading of a text as a C string. `tokens` is characterised by how it meets concatenation
(`tokens_append_cons`, `tokens_append_delim`), so that no proof about it unfolds `List.splitOnP`.
-/

/-- A text, as the octets it is stored in. -/
abbrev Bytes := List UInt8

instance : LawfulBEq Bytes := inferInstance

namespace Bytes

/-- The octets of a string literal. -/
def lit (s : String) : Bytes := s.toByteArray.data.toList

@[match_pattern] abbrev NUL : UInt8 := 0
@[match_pattern] abbrev HT : UInt8 := 9
@[match_pattern] abbrev LF : UInt8 := 10
@[match_pattern] abbrev CR : UInt8 := 13
@[match_pattern] abbrev SPACE : UInt8 := 32
@[match_pattern] abbrev BANG : UInt8 := 33
@[match_pattern] abbrev DQUOTE : UInt8 := 34
@[match_pattern] abbrev HASH : UInt8 := 35
@[match_pattern] abbrev PERCENT : UInt8 := 37
@[match_pattern] abbrev SQUOTE : UInt8 := 39
@[match_pattern] abbrev STAR : UInt8 := 42
@[match_pattern] abbrev PLUS : UInt8 := 43
@[match_pattern] abbrev COMMA : UInt8 := 44
@[match_pattern] abbrev DASH : UInt8 := 45
@[match_pattern] abbrev SLASH : UInt8 := 47
@[match_pattern] abbrev COLON : UInt8 := 58
@[match_pattern] abbrev SEMICOLON : UInt8 := 59
@[match_pattern] abbrev EQUALS : UInt8 := 61
@[match_pattern] abbrev AT : UInt8 := 64
@[match_pattern] abbrev BACKSLASH : UInt8 := 92
@[match_pattern] abbrev UNDERSCORE : UInt8 := 95
@[match_pattern] abbrev TILDE : UInt8 := 126

/-! ### Character classes of the C locale -/

/-- `isspace`: blank, tab, newline, vertical tab, form feed, carriage return. -/
def isSpace (c : UInt8) : Bool := c == SPACE || (9 ≤ c && c ≤ 13)

def isDigit (c : UInt8) : Bool := 48 ≤ c && c ≤ 57

def isUpper (c : UInt8) : Bool := 65 ≤ c && c ≤ 90

def isLower (c : UInt8) : Bool := 97 ≤ c && c ≤ 122

def isAlnum (c : UInt8) : Bool := isDigit c || isUpper c || isLower c

def toLower (c : UInt8) : UInt8 := if isUpper c then c + 32 else c

/-- The part of a text that a function on C strings sees. -/
def cstr (s : Bytes) : Bytes := s.takeWhile (· != NUL)

theorem cstr_isPrefix (v : Bytes) : cstr v <+: v := List.takeWhile_prefix _

theorem cstr_eq_iff {v : Bytes} : cstr v = v ↔ NUL ∉ v := by
  rw [cstr, List.takeWhile_eq_self_iff]
  refine ⟨fun h hm => ?_, fun h x hx => ?_⟩
  · exact absurd (h NUL hm) (by decide)
  · exact bne_iff_ne.2 fun h0 => h (h0 ▸ hx)

/-- Split at the first occurrence of `c`, which belongs to neither half. -/
def splitFirst (c : UInt8) (s : Bytes) : Option (Bytes × Bytes) :=
  if c ∈ s then some (s.takeWhile (· != c), (s.dropWhile (· != c)).drop 1) else none

/-- Whether `pat` occurs in `s`. -/
def contains (s pat : Bytes) : Bool := s.tails.any fun t => pat.isPrefixOf t

theorem splitFirst_eq_none {c : UInt8} {s : Bytes} : splitFirst c s = none ↔ c ∉ s := by
  simp [splitFirst]

/-- What `splitFirst` returns, put together again, is the text. -/
theorem splitFirst_eq_some {c : UInt8} {s a b : Bytes} :
    splitFirst c s = some (a, b) ↔ s = a ++ c :: b ∧ c ∉ a := by
  constructor
  · intro h
    simp only [splitFirst] at h
    split at h
    case isFalse => cases h
    case isTrue hc =>
      simp only [Option.some.injEq, Prod.mk.injEq] at h
      obtain ⟨rfl, rfl⟩ := h
      have hne : s.dropWhile (· != c) ≠ [] := by
        intro h0
        have := List.dropWhile_eq_nil_iff.1 h0 c hc
        simp at this
      refine ⟨?_, fun h => by simpa using List.mem_takeWhile_imp h⟩
      obtain ⟨d, r, hd⟩ := List.exists_cons_of_ne_nil hne
      have hdc : d = c := by
        have := List.head_dropWhile_not (p := (· != c)) (l := s) hne
        simpa [hd] using this
      have := List.takeWhile_append_dropWhile (p := (· != c)) (l := s)
      rw [hd, hdc] at this
      rw [hd, List.drop_one, List.tail_cons, this]
  · rintro ⟨rfl, hc⟩
    have ha : ∀ x ∈ a, (x != c) = true := fun x hx => by
      simp only [bne_iff_ne]; rintro rfl; exact hc hx
    simp [splitFirst, List.takeWhile_append_of_pos ha, List.dropWhile_append_of_pos ha]

/-- A text comes apart at the last occurrence of `c` in one way. -/
theorem append_cons_inj_of_last {c : UInt8} {a b s t : Bytes} (hs : c ∉ s) (ht : c ∉ t) :
    a ++ c :: s = b ++ c :: t ↔ a = b ∧ s = t := by
  refine ⟨fun h => ?_, by rintro ⟨rfl, rfl⟩; rfl⟩
  have h' := congrArg (splitFirst c) (congrArg List.reverse h)
  simp only [List.reverse_append, List.reverse_cons, List.append_assoc, List.singleton_append] at h'
  rw [splitFirst_eq_some.2 ⟨rfl, by simpa using hs⟩, splitFirst_eq_some.2 ⟨rfl, by simpa using ht⟩]
    at h'
  simp only [Option.some.injEq, Prod.mk.injEq, List.reverse_inj] at h'
  exact ⟨h'.2, h'.1⟩

theorem splitOn_append_cons (c : UInt8) (a b : Bytes) :
    (a ++ c :: b).splitOn c = a.splitOn c ++ b.splitOn c := by
  simpa [List.splitOn_eq_splitOnP] using List.splitOnP_append_cons (p := (· == c)) a b (by simp)

theorem splitOn_injective (c : UInt8) : Function.Injective (List.splitOn c : Bytes → List Bytes) :=
  fun a b h => by
    have ha : [c].intercalate (a.splitOn c) = a := List.intercalate_splitOn c
    rw [← ha, h, List.intercalate_splitOn]

/-! ### Runs between delimiters -/

/-- The maximal nonempty runs of a text that hold no delimiter. -/
def tokens (p : UInt8 → Bool) (s : Bytes) : List Bytes :=
  (s.splitOnP p).filter (· ≠ [])

/-- The words of a list, with one blank between two of them. -/
def joinWords (ws : List Bytes) : Bytes := [SPACE].intercalate ws

section
variable {p : UInt8 → Bool}

@[simp] theorem tokens_nil : tokens p [] = [] := by simp [tokens]

theorem tokens_append_cons (a b : Bytes) {c : UInt8} (hc : p c) :
    tokens p (a ++ c :: b) = tokens p a ++ tokens p b := by
  simp [tokens, List.splitOnP_append_cons _ _ hc]

theorem tokens_cons_delim (b : Bytes) {c : UInt8} (hc : p c) :
    tokens p (c :: b) = tokens p b := by
  simpa using tokens_append_cons (p := p) [] b hc

/-- A run of delimiters separates as one delimiter does. -/
theorem tokens_append_delim (a : Bytes) {d : Bytes} (b : Bytes) (hd : ∀ c ∈ d, p c)
    (hne : d ≠ []) : tokens p (a ++ d ++ b) = tokens p a ++ tokens p b := by
  induction d generalizing a with
  | nil => exact absurd rfl hne
  | cons c d ih =>
    have hc : p c := hd c (by simp)
    by_cases h : d = []
    · subst h; simpa using tokens_append_cons a b hc
    · have := ih (a ++ [c]) (fun x hx => hd x (by simp [hx])) h
      simp only [List.append_assoc, List.cons_append, List.nil_append] at this ⊢
      rw [this, tokens_append_cons a [] hc]; simp

theorem tokens_eq_nil_of_delim {d : Bytes} (hd : ∀ c ∈ d, p c) : tokens p d = [] := by
  by_cases h : d = []
  · simp [h]
  · simpa using tokens_append_delim [] [] hd h

/-- A nonempty run without delimiters is its own only token. -/
theorem tokens_of_no_delim {w : Bytes} (hw : ∀ c ∈ w, p c = false) (hne : w ≠ []) :
    tokens p w = [w] := by
  simp [tokens, List.splitOnP_eq_singleton hw, hne]

theorem tokens_append_word {w : Bytes} (b : Bytes) {c : UInt8} (hw : ∀ x ∈ w, p x = false)
    (hne : w ≠ []) (hc : p c) : tokens p (w ++ c :: b) = w :: tokens p b := by
  rw [tokens_append_cons _ _ hc, tokens_of_no_delim hw hne]; rfl

theorem ne_nil_of_mem_tokens {s w : Bytes} (h : w ∈ tokens p s) : w ≠ [] := by
  simp only [tokens, List.mem_filter] at h; simpa using h.2

/-- The induction that follows the division into tokens: a text is a run of delimiters, or a token
at its end, or a token with a delimiter after it. -/
theorem tokens_induction {motive : Bytes → Prop} (nil : motive [])
    (delimiter : ∀ c b, p c → motive b → motive (c :: b))
    (last : ∀ w, w ≠ [] → (∀ c ∈ w, p c = false) → motive w)
    (word : ∀ w c b, w ≠ [] → (∀ c ∈ w, p c = false) → p c → motive b →
      motive (w ++ c :: b)) : ∀ s, motive s := by
  intro s
  induction h : s.length using Nat.strong_induction_on generalizing s with
  | _ n ih =>
    subst h
    rcases s with - | ⟨c, b⟩
    · exact nil
    by_cases hc : p c
    · exact delimiter c b hc (ih b.length (by simp) b rfl)
    set w := (c :: b).takeWhile (fun x => !p x) with hw
    have hsplit := List.takeWhile_append_dropWhile (p := fun x => !p x) (l := c :: b)
    have hwne : w ≠ [] := by simp [hw, hc]
    have hwd : ∀ x ∈ w, p x = false := fun x hx => by simpa using List.mem_takeWhile_imp hx
    rcases hr : (c :: b).dropWhile (fun x => !p x) with - | ⟨d, r⟩
    · rw [hr, List.append_nil] at hsplit
      rw [← hsplit]; exact last _ hwne hwd
    · have hd : p d := by
        have := List.head_dropWhile_not (p := fun x => !p x) (l := c :: b) (by simp [hr])
        simpa [hr] using this
      rw [hr] at hsplit
      rw [← hsplit]
      refine word _ d r hwne hwd hd (ih r.length ?_ r rfl)
      have := congrArg List.length hsplit
      simp only [List.length_append, List.length_cons] at this
      simp only [List.length_cons]; omega

/-- A token holds no delimiter. -/
theorem no_delim_of_mem_tokens {s w : Bytes} (h : w ∈ tokens p s) :
    ∀ c ∈ w, p c = false := by
  induction s using tokens_induction (p := p) with
  | nil => simp at h
  | delimiter c b hc ih => rw [tokens_cons_delim b hc] at h; exact ih h
  | last v hne hv =>
    rw [tokens_of_no_delim hv hne, List.mem_singleton] at h; exact h ▸ hv
  | word v c b hne hv hc ih =>
    rw [tokens_append_word b hv hne hc, List.mem_cons] at h
    rcases h with rfl | h
    · exact hv
    · exact ih h

theorem tokens_dropWhile (s : Bytes) : tokens p (s.dropWhile p) = tokens p s := by
  induction s with
  | nil => rfl
  | cons c s ih =>
    by_cases hc : p c
    · rw [List.dropWhile_cons_of_pos hc, ih, tokens_cons_delim s hc]
    · rw [List.dropWhile_cons_of_neg hc]

/-- A text without tokens has delimiters only. -/
theorem dropWhile_eq_nil_of_tokens {s : Bytes} (h : tokens p s = []) : s.dropWhile p = [] := by
  induction s using tokens_induction (p := p) with
  | nil => rfl
  | delimiter c b hc ih =>
    rw [List.dropWhile_cons_of_pos hc]
    exact ih (by rwa [tokens_cons_delim b hc] at h)
  | last w hne hw => rw [tokens_of_no_delim hw hne] at h; cases h
  | word w c b hne hw hc ih => rw [tokens_append_word b hw hne hc] at h; cases h

/-- The octets of a token are octets of the text. -/
theorem mem_of_mem_tokens {s w : Bytes} {c : UInt8} (h : w ∈ tokens p s) (hc : c ∈ w) :
    c ∈ s := by
  induction s using tokens_induction (p := p) with
  | nil => simp at h
  | delimiter d b hd ih => rw [tokens_cons_delim b hd] at h; simp [ih h]
  | last v hne hv =>
    rw [tokens_of_no_delim hv hne, List.mem_singleton] at h; exact h ▸ hc
  | word v d b hne hv hd ih =>
    rw [tokens_append_word b hv hne hd, List.mem_cons] at h
    rcases h with rfl | h
    · simp [hc]
    · simp [ih h]

end

/-! ### Rejoining -/

@[simp] theorem joinWords_nil : joinWords [] = [] := rfl

@[simp] theorem joinWords_singleton (w : Bytes) : joinWords [w] = w := by simp [joinWords]

theorem joinWords_cons_cons (w v : Bytes) (ws : List Bytes) :
    joinWords (w :: v :: ws) = w ++ SPACE :: joinWords (v :: ws) := by
  simp [joinWords, List.intercalate]

theorem joinWords_cons_of_ne {w : Bytes} {ws : List Bytes} (h : ws ≠ []) :
    joinWords (w :: ws) = w ++ SPACE :: joinWords ws := by
  obtain ⟨v, vs, rfl⟩ := List.exists_cons_of_ne_nil h
  exact joinWords_cons_cons w v vs

/-- Words without delimiters, joined by blanks, come apart into the same words. -/
theorem tokens_joinWords {p : UInt8 → Bool} (hsp : p SPACE) {ws : List Bytes}
    (hne : ∀ w ∈ ws, w ≠ []) (hd : ∀ w ∈ ws, ∀ c ∈ w, p c = false) :
    tokens p (joinWords ws) = ws := by
  induction ws with
  | nil => simp
  | cons w ws ih =>
    have ih := ih (fun v hv => hne v (by simp [hv])) (fun v hv => hd v (by simp [hv]))
    by_cases h : ws = []
    · subst h; simpa using tokens_of_no_delim (hd w (by simp)) (hne w (by simp))
    · rw [joinWords_cons_of_ne h, tokens_append_word _ (hd w (by simp)) (hne w (by simp)) hsp, ih]

end Bytes
