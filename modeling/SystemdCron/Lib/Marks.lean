import Mathlib

/-!
# Marks in a text

Texts with marks put into them, and their removal in one pass from left to right. Every mark begins with a
letter that no mark has again, so that removing the marks around a text that has none gives the text
(`strip_append`, `strip_mark`), whatever is written next to it.
-/

namespace Marks

variable {α : Type} [DecidableEq α]

/-- Marks that begin with one letter and have it nowhere else, and of which none is the start of another. -/
structure Alphabet (marks : List (List α)) (intro : α) : Prop where
  head : ∀ m ∈ marks, ∃ t, m = intro :: t ∧ intro ∉ t
  apart : ∀ m ∈ marks, ∀ m' ∈ marks, m <+: m' → m = m'

/-- The text without its marks: `skip` letters of a mark are still to pass. -/
def strip (marks : List (List α)) : Nat → List α → List α
  | _, [] => []
  | skip + 1, _ :: r => strip marks skip r
  | 0, c :: r =>
    match marks.find? fun m => m.isPrefixOf (c :: r) with
    | some m => strip marks (m.length - 1) r
    | none => c :: strip marks 0 r

/-- No mark is in a text. -/
def Free (marks : List (List α)) (s : List α) : Prop := ∀ m ∈ marks, ¬ m <:+: s

instance (marks : List (List α)) (s : List α) : Decidable (Free marks s) :=
  inferInstanceAs (Decidable (∀ m ∈ marks, ¬ m <:+: s))

omit [DecidableEq α] in
theorem Free.of_infix {marks : List (List α)} {s t : List α} (h : Free marks s) (ht : t <:+: s) : Free marks t :=
  fun m hm hmt => h m hm (hmt.trans ht)

/-- No mark begins in the first text and goes on into the second. -/
def Clear (marks : List (List α)) (s r : List α) : Prop :=
  ∀ m ∈ marks, ∀ u, u <:+ s → u ≠ [] → ¬ (u <+: m ∧ u ≠ m ∧ m <+: u ++ r)

variable {marks : List (List α)} {intro : α} {s r : List α}

theorem strip_skip (n : Nat) (s r : List α) (h : s.length = n) : strip marks n (s ++ r) = strip marks 0 r := by
  induction s generalizing n with
  | nil => subst h; rfl
  | cons c s ih =>
    subst h
    exact ih _ rfl

theorem strip_mark (ha : Alphabet marks intro) {m : List α} (hm : m ∈ marks) (r : List α) :
    strip marks 0 (m ++ r) = strip marks 0 r := by
  obtain ⟨t, rfl, ht⟩ := ha.head m hm
  rw [List.cons_append, strip]
  rcases hfind : marks.find? fun m => m.isPrefixOf (intro :: (t ++ r)) with - | m'
  · have := List.find?_eq_none.1 hfind _ hm
    simp at this
  · have hm' := List.mem_of_find?_eq_some hfind
    have hpre : m' <+: intro :: t ++ r := by simpa using List.find?_some hfind
    have heq : m' = intro :: t := by
      rcases List.prefix_or_prefix_of_prefix hpre (List.prefix_append (intro :: t) r) with h | h
      · exact ha.apart _ hm' _ hm h
      · exact (ha.apart _ hm _ hm' h).symm
    rw [hfind, heq]
    exact strip_skip _ t r rfl

/-- A text without marks stays. -/
theorem strip_append (hs : Free marks s) (hr : Clear marks s r) :
    strip marks 0 (s ++ r) = s ++ strip marks 0 r := by
  induction s with
  | nil => rfl
  | cons c s ih =>
    have hnone : (marks.find? fun m => m.isPrefixOf (c :: (s ++ r))) = none := by
      rw [List.find?_eq_none]
      intro m hm hpre
      have hpre : m <+: c :: s ++ r := by simpa using hpre
      rcases List.prefix_or_prefix_of_prefix hpre (List.prefix_append (c :: s) r) with h | h
      · exact hs m hm h.isInfix
      · by_cases heq : c :: s = m
        · exact hs m hm (heq ▸ List.infix_rfl)
        · exact hr m hm _ List.suffix_rfl (by simp) ⟨h, heq, hpre⟩
    rw [List.cons_append, strip, hnone]
    dsimp only
    rw [ih (hs.of_infix (List.suffix_cons c s).isInfix) fun m hm u hu =>
      hr m hm u (hu.trans (List.suffix_cons c s))]
    rfl

omit [DecidableEq α] in
theorem clear_nil : Clear marks s [] := by
  rintro m - u - - ⟨hum, hne, hmu⟩
  rw [List.append_nil] at hmu
  exact hne (hum.eq_of_length_le hmu.length_le)

omit [DecidableEq α] in
/-- A mark does not go on into another. -/
theorem clear_mark (ha : Alphabet marks intro) {m : List α} (hm : m ∈ marks) : Clear marks s (m ++ r) := by
  rintro m' hm' u - hu ⟨hum, hne, hmu⟩
  obtain ⟨t, rfl, -⟩ := ha.head m hm
  obtain ⟨t', rfl, ht'⟩ := ha.head m' hm'
  obtain ⟨c, u, rfl⟩ := List.exists_cons_of_ne_nil hu
  obtain ⟨v, hv⟩ := hum
  rw [List.cons_append, List.cons.injEq] at hv
  obtain ⟨rfl, rfl⟩ := hv
  -- What is left of the mark begins with the letter that begins them all.
  rw [List.cons_append, List.cons_prefix_cons] at hmu
  have hvr := (List.prefix_append_right_inj u).1 hmu.2
  rcases v with - | ⟨x, v⟩
  · exact hne (by rw [List.append_nil])
  · rw [List.cons_append, List.cons_prefix_cons] at hvr
    exact ht' (by rw [hvr.1]; simp)

omit [DecidableEq α] in
/-- A mark does not go on over a letter that is in none. -/
theorem clear_of_getLast {c : α} (hc : ∀ m ∈ marks, c ∉ m) : Clear marks (s ++ [c]) r := by
  rintro m hm u ⟨v, hv⟩ hu ⟨hum, -, -⟩
  obtain ⟨u', x, rfl⟩ := List.eq_nil_or_concat u |>.resolve_left hu
  have hx : x = c := by
    rw [List.concat_eq_append, ← List.append_assoc] at hv
    exact (List.append_inj' hv rfl).2 |> List.cons.inj |>.1
  exact hc m hm (hum.subset (by rw [List.concat_eq_append, hx]; simp))

end Marks
