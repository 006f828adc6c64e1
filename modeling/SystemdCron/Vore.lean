import SystemdCron.Lib.Numeral

/-!
# The helper library of the programs

`vore::soft_tokenise` and `vore::parse_uint` of `libvoreutils.hpp`. The tokeniser is an iterator that
keeps the rest of the text and the current token; running it over a text gives the runs between
delimiters (`softTokenise_eq`), which is what the rest of the development uses.
-/

namespace SystemdCron

open Bytes

/-- `soft_tokenise_iter`. -/
structure SoftTokeniseIter where
  delim : UInt8 → Bool
  remaining : Bytes
  token : Bytes := []

/-- `operator++`: skip the delimiters in front of the rest (a rest of delimiters only stays) and cut
the next token off it. -/
def SoftTokeniseIter.next (it : SoftTokeniseIter) : SoftTokeniseIter :=
  let remaining :=
    if it.remaining.any (fun c => !it.delim c) then it.remaining.dropWhile it.delim else it.remaining
  if remaining.any it.delim then
    { it with
      token := remaining.takeWhile (fun c => !it.delim c)
      remaining := remaining.dropWhile (fun c => !it.delim c) }
  else { it with token := remaining, remaining := [] }

/-- The tokens from an iterator on: `operator==` compares tokens, and `end()` has the empty one. -/
def SoftTokeniseIter.collect : Nat → SoftTokeniseIter → List Bytes
  | 0, _ => []
  | fuel + 1, it => if it.token = [] then [] else it.token :: it.next.collect fuel

/-- A range-for over `soft_tokenise`: every step but the last takes an octet off the text. -/
def softTokenise (delim : UInt8 → Bool) (str : Bytes) : List Bytes :=
  ({ delim, remaining := str : SoftTokeniseIter }.next).collect (str.length + 1)

/-- Blank, tab and newline: the delimiters of the fields of a line. -/
def isFieldDelim (c : UInt8) : Bool := c == SPACE || c == HT || c == LF

/-- `parse_uint<10>` to a `size_t`: whether it succeeded, and what it stored. -/
structure ParseUint where
  ok : Bool
  out : Option Nat
  deriving DecidableEq, Repr

/-- `parse_uint<10>`: an empty text and one that starts with a minus sign store nothing; a number out
of range and a text with something after its number are stored before they are refused. -/
def parseUint (val : Bytes) : ParseUint :=
  if val = [] then { ok := false, out := none }
  else if val.head? = some DASH then { ok := false, out := none }
  else
    let r := strtoull val
    { ok := !r.range && r.rest = [], out := some r.value }

/-! ### The tokeniser returns the runs between delimiters -/

namespace SoftTokeniseIter

theorem next_token_of_all {d : UInt8 → Bool} {s t : Bytes} (h : ∀ c ∈ s, d c) :
    (SoftTokeniseIter.mk d s t).next.token = [] := by
  have h1 : s.any (fun c => !d c) = false := by simpa using h
  rcases s with - | ⟨c, r⟩
  · simp [next]
  · have hc : d c := h c (by simp)
    simp only [next, h1, Bool.false_eq_true, if_false, List.any_cons, hc, Bool.true_or, if_true,
      List.takeWhile_cons, Bool.not_true]

theorem next_cons_delim {d : UInt8 → Bool} {c : UInt8} {b t : Bytes} (hc : d c)
    (hb : ∃ x ∈ b, d x = false) :
    (SoftTokeniseIter.mk d (c :: b) t).next = (SoftTokeniseIter.mk d b t).next := by
  obtain ⟨x, hx, hxd⟩ := hb
  have h1 : (c :: b).any (fun c => !d c) = true := by
    simp only [List.any_eq_true, Bool.not_eq_true']; exact ⟨x, by simp [hx], hxd⟩
  have h2 : b.any (fun c => !d c) = true := by
    simp only [List.any_eq_true, Bool.not_eq_true']; exact ⟨x, hx, hxd⟩
  simp only [next, h1, h2, if_true, List.dropWhile_cons, hc]

theorem next_word {d : UInt8 → Bool} {w t : Bytes} {c : UInt8} {b : Bytes} (hne : w ≠ [])
    (hw : ∀ x ∈ w, d x = false) (hc : d c) :
    (SoftTokeniseIter.mk d (w ++ c :: b) t).next = ⟨d, c :: b, w⟩ := by
  have hw' : ∀ x ∈ w, (!d x) = true := fun x hx => by simp [hw x hx]
  have h0 : (w ++ c :: b).dropWhile d = w ++ c :: b := by
    obtain ⟨x, r, rfl⟩ := List.exists_cons_of_ne_nil hne
    simp [hw x (by simp)]
  have h1 : (w ++ c :: b).any d = true := by simp [hc]
  simp only [next, h0, ite_self, h1, if_true]
  rw [List.takeWhile_append_of_pos hw', List.dropWhile_append_of_pos hw']
  simp [hc]

theorem next_last {d : UInt8 → Bool} {w t : Bytes} (hne : w ≠ []) (hw : ∀ x ∈ w, d x = false) :
    (SoftTokeniseIter.mk d w t).next = ⟨d, [], w⟩ := by
  have h0 : w.dropWhile d = w := by
    obtain ⟨x, r, rfl⟩ := List.exists_cons_of_ne_nil hne
    simp [hw x (by simp)]
  have h1 : w.any d = false := by simpa using hw
  simp [next, h0, h1]

end SoftTokeniseIter

theorem SoftTokeniseIter.collect_next {d : UInt8 → Bool} (s : Bytes) :
    ∀ {n : Nat} {t : Bytes}, s.length < n →
      (SoftTokeniseIter.mk d s t).next.collect n = tokens d s := by
  induction s using tokens_induction (p := d) with
  | nil =>
    intro n t hn
    obtain ⟨m, rfl⟩ : ∃ m, n = m + 1 := ⟨n - 1, by omega⟩
    simp [collect, next]
  | delimiter c b hc ih =>
    intro n t hn
    rw [tokens_cons_delim b hc]
    by_cases hb : ∃ x ∈ b, d x = false
    · rw [next_cons_delim hc hb]
      exact ih (by simp at hn; omega)
    · have hb' : ∀ x ∈ b, d x = true := fun x hx => by
        by_contra h; exact hb ⟨x, hx, by simpa using h⟩
      obtain ⟨m, rfl⟩ : ∃ m, n = m + 1 := ⟨n - 1, by simp at hn; omega⟩
      rw [tokens_eq_nil_of_delim hb', collect, if_pos]
      refine next_token_of_all fun x hx => ?_
      rcases List.mem_cons.1 hx with rfl | hx
      · exact hc
      · exact hb' x hx
  | last w hne hw =>
    intro n t hn
    have hpos := List.length_pos_iff.2 hne
    obtain ⟨m, rfl⟩ : ∃ m, n = m + 2 := ⟨n - 2, by omega⟩
    rw [next_last hne hw, tokens_of_no_delim hw hne]
    simp [collect, hne, next]
  | word w c b hne hw hc ih =>
    intro n t hn
    have hpos := List.length_pos_iff.2 hne
    simp only [List.length_append, List.length_cons] at hn
    obtain ⟨m, rfl⟩ : ∃ m, n = m + 1 := ⟨n - 1, by omega⟩
    rw [next_word hne hw hc, tokens_append_word b hw hne hc, collect, if_neg hne]
    congr 1
    -- The rest starts with the delimiter, which the next step skips.
    by_cases hb : ∃ x ∈ b, d x = false
    · rw [next_cons_delim hc hb]
      exact ih (by omega)
    · have hb' : ∀ x ∈ b, d x = true := fun x hx => by
        by_contra h; exact hb ⟨x, hx, by simpa using h⟩
      obtain ⟨k, rfl⟩ : ∃ k, m = k + 1 := ⟨m - 1, by omega⟩
      rw [tokens_eq_nil_of_delim hb', collect, if_pos]
      refine next_token_of_all fun x hx => ?_
      rcases List.mem_cons.1 hx with rfl | hx
      · exact hc
      · exact hb' x hx

/-- The tokeniser of the source returns the runs between delimiters. -/
theorem softTokenise_eq (d : UInt8 → Bool) (s : Bytes) : softTokenise d s = tokens d s :=
  SoftTokeniseIter.collect_next s (Nat.lt_succ_self _)

/-- What `parse_uint` stores fits a `size_t`. -/
theorem parseUint_lt {val : Bytes} {n : Nat} (h : (parseUint val).out = some n) : n < 2 ^ 64 := by
  simp only [parseUint] at h
  split at h
  · cases h
  split at h
  · cases h
  · simp only [Option.some.injEq] at h
    exact h ▸ strtoull_lt val

end SystemdCron
