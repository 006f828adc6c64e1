import Mathlib

/-!
# Counting loops in machine arithmetic

The indices that `for(i = lo; i < hi; i += step)` visits when the counter is a number modulo `M`. A step
that is close to `M` is a step backwards, so that the loop ends for every step but zero
(`exists_visits`), and what it visits has a closed form (`Visited`).
-/

namespace Stride

/-- The indices in the order they are visited, if the loop ends within `n` rounds. -/
def visits (M hi step : Nat) : Nat → Nat → Option (List Nat)
  | 0, _ => none
  | n + 1, i => if i < hi then (visits M hi step n ((i + step) % M)).map (i :: ·) else some []

/-- `i` is a number of steps after `lo`, or, where the step wraps around, a number of steps of
`M - step` before it. -/
def Visited (M lo hi step i : Nat) : Prop :=
  lo ≤ i ∧ i < hi ∧ step ∣ i - lo ∨ i ≤ lo ∧ M - step ∣ lo - i

instance (M lo hi step i : Nat) : Decidable (Visited M lo hi step i) :=
  inferInstanceAs (Decidable (_ ∨ _))

variable {M hi step : Nat}

theorem visited_self {lo : Nat} (h : lo < hi) : Visited M lo hi step lo :=
  .inl ⟨le_rfl, h, by simp⟩

theorem Visited.lt {lo i : Nat} (h : Visited M lo hi step i) (hlo : lo < hi) : i < hi := by
  rcases h with h | h <;> omega

/-- A step of zero never ends. -/
theorem visits_zero {M lo : Nat} (h : lo < hi) (hM : hi ≤ M) (n : Nat) : visits M hi 0 n lo = none := by
  induction n with
  | zero => rfl
  | succ n ih => rw [visits, if_pos h, Nat.add_zero, Nat.mod_eq_of_lt (by omega), ih]; rfl

theorem dvd_sub_add {lo i : Nat} (h : lo + step ≤ i) : step ∣ i - (lo + step) ↔ step ∣ i - lo := by
  rw [← Nat.dvd_add_self_right, show i - (lo + step) + step = i - lo by omega]

/-- A loop that does not wrap around goes forwards. -/
theorem visits_forward (hs : 1 ≤ step) (hM : hi + step ≤ M) {n lo : Nat} (hn : hi < n + lo) (h0 : 0 < n) :
    ∃ l, visits M hi step n lo = some l ∧ ∀ i, i ∈ l ↔ lo ≤ i ∧ i < hi ∧ step ∣ i - lo := by
  induction n generalizing lo with
  | zero => omega
  | succ n ih =>
    rw [visits]
    split
    case isFalse h => exact ⟨[], rfl, fun i => by simp; omega⟩
    case isTrue h =>
      rw [Nat.mod_eq_of_lt (by omega)]
      obtain ⟨l, hl, hmem⟩ := @ih (lo + step) (by omega) (by omega)
      refine ⟨lo :: l, by rw [hl]; rfl, fun i => ?_⟩
      rw [List.mem_cons, hmem]
      constructor
      · rintro (rfl | ⟨h1, h2, h3⟩)
        · exact ⟨le_rfl, h, by simp⟩
        · exact ⟨by omega, h2, (dvd_sub_add h1).1 h3⟩
      · rintro ⟨h1, h2, h3⟩
        rcases Nat.eq_or_lt_of_le h1 with rfl | h1
        · exact .inl rfl
        · have := Nat.le_of_dvd (by omega) h3
          exact .inr ⟨by omega, h2, (dvd_sub_add (by omega)).2 h3⟩

/-- A loop that wraps around goes backwards, down to the last index from which it still does. -/
theorem visits_backward (hs : step < M) (hM : M < hi + step) (hhi : 2 * hi ≤ M) {n lo : Nat}
    (hlo : lo < hi) (hn : lo + 1 < n) :
    ∃ l, visits M hi step n lo = some l ∧ ∀ i, i ∈ l ↔ i ≤ lo ∧ M - step ∣ lo - i := by
  induction n generalizing lo with
  | zero => omega
  | succ n ih =>
    rw [visits, if_pos hlo]
    rcases lt_or_ge lo (M - step) with hb | hb
    · obtain ⟨m, rfl⟩ : ∃ m, n = m + 1 := ⟨n - 1, by omega⟩
      rw [Nat.mod_eq_of_lt (by omega), visits, if_neg (by omega)]
      refine ⟨[lo], rfl, fun i => ?_⟩
      rw [List.mem_singleton]
      constructor
      · rintro rfl; simp
      · rintro ⟨h1, h2⟩
        have := Nat.eq_zero_of_dvd_of_lt h2 (by omega)
        omega
    · have hnext : (lo + step) % M = lo - (M - step) := by
        rw [Nat.mod_eq_sub_mod (by omega), Nat.mod_eq_of_lt (by omega)]
        omega
      rw [hnext]
      obtain ⟨l, hl, hmem⟩ := @ih (lo - (M - step)) (by omega) (by omega)
      refine ⟨lo :: l, by rw [hl]; rfl, fun i => ?_⟩
      rw [List.mem_cons, hmem]
      have hdvd : ∀ {i}, i ≤ lo - (M - step) →
          (M - step ∣ lo - (M - step) - i ↔ M - step ∣ lo - i) := by
        intro i hi
        rw [← Nat.dvd_add_self_right,
          show lo - (M - step) - i + (M - step) = lo - i by omega]
      constructor
      · rintro (rfl | ⟨h1, h2⟩)
        · simp
        · exact ⟨by omega, (hdvd h1).1 h2⟩
      · rintro ⟨h1, h2⟩
        rcases Nat.eq_or_lt_of_le h1 with rfl | h1
        · exact .inl rfl
        · have := Nat.le_of_dvd (by omega) h2
          exact .inr ⟨by omega, (hdvd (by omega)).2 h2⟩

/-- Every step but zero ends, and visits what `Visited` says. -/
theorem exists_visits (hs : 1 ≤ step) (hs' : step < M) (hM : 2 * hi ≤ M) {n lo : Nat} (hlo : lo < hi)
    (hn : hi < n) : ∃ l, visits M hi step n lo = some l ∧ ∀ i, i ∈ l ↔ Visited M lo hi step i := by
  rcases le_or_gt (hi + step) M with h | h
  · obtain ⟨l, hl, hmem⟩ := @visits_forward _ _ _ hs h n lo (by omega) (by omega)
    refine ⟨l, hl, fun i => (hmem i).trans ⟨.inl, ?_⟩⟩
    rintro (h' | ⟨h1, h2⟩)
    · exact h'
    · have := Nat.eq_zero_of_dvd_of_lt h2 (by omega)
      obtain rfl : i = lo := by omega
      exact ⟨le_rfl, hlo, by simp⟩
  · obtain ⟨l, hl, hmem⟩ := visits_backward hs' h hM (n := n) hlo (by omega)
    refine ⟨l, hl, fun i => (hmem i).trans ⟨.inr, ?_⟩⟩
    rintro (⟨h1, h2, h3⟩ | h')
    · have := Nat.eq_zero_of_dvd_of_lt h3 (by omega)
      obtain rfl : i = lo := by omega
      exact ⟨le_rfl, by simp⟩
    · exact h'

end Stride
