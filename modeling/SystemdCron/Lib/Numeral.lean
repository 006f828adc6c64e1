import SystemdCron.Lib.Bytes
import Mathlib

/-!
# Decimal numerals

The decimal numeral of a number (`decimal`, what `printf` writes for `%zu`), the value of a digit
string (`readDecimal`), and `strtoull` of the C library in base ten, with its leniency about
leading blanks and signs and its saturation at `2 ^ 64 - 1`. `readDecimal_decimal` is the round trip.
-/

namespace Bytes

/-- The decimal numeral of `n`. -/
def decimal (n : Nat) : Bytes :=
  if n = 0 then [48] else ((Nat.digits 10 n).map fun d => (48 + d).toUInt8).reverse

/-- The value of a string of decimal digits. -/
def readDecimal (s : Bytes) : Nat := Nat.ofDigits 10 (s.map fun c => c.toNat - 48).reverse

/-- A nonempty string of decimal digits, read as a number. -/
def parseDecimal (s : Bytes) : Option Nat :=
  if s ≠ [] ∧ s.all isDigit then some (readDecimal s) else none

theorem isDigit_iff {c : UInt8} : isDigit c ↔ 48 ≤ c.toNat ∧ c.toNat ≤ 57 := by
  simp [isDigit, UInt8.le_iff_toNat_le]

theorem digit_toNat {d : Nat} (h : d < 10) : (48 + d).toUInt8.toNat = 48 + d := by
  simp; omega

theorem isDigit_digit {d : Nat} (h : d < 10) : isDigit (48 + d).toUInt8 := by
  rw [isDigit_iff, digit_toNat h]; omega

theorem isDigit_of_mem_decimal {n : Nat} {c : UInt8} (h : c ∈ decimal n) : isDigit c := by
  simp only [decimal] at h
  split at h
  · simp at h; subst h; decide
  · simp only [List.mem_reverse, List.mem_map] at h
    obtain ⟨d, hd, rfl⟩ := h
    exact isDigit_digit (Nat.digits_lt_base (by omega) hd)

theorem decimal_ne_nil (n : Nat) : decimal n ≠ [] := by
  simp only [decimal]
  split
  · simp
  · simpa [Nat.digits_eq_nil_iff_eq_zero]

/-- **Round trip**: the numeral of `n` has the value `n`. -/
theorem readDecimal_decimal (n : Nat) : readDecimal (decimal n) = n := by
  simp only [decimal]
  split
  case isTrue h => simp [readDecimal, h]
  case isFalse h =>
    have hmap : (Nat.digits 10 n).map ((fun c : UInt8 => c.toNat - 48) ∘ fun d => (48 + d).toUInt8) =
        Nat.digits 10 n := by
      conv => rhs; rw [← List.map_id (Nat.digits 10 n)]
      refine List.map_congr_left fun d hd => ?_
      have := digit_toNat (Nat.digits_lt_base (b := 10) (by omega) hd)
      simp only [Function.comp_apply, this, id_eq]; omega
    simp only [readDecimal, List.map_reverse, List.map_map, List.reverse_reverse]
    rw [hmap, Nat.ofDigits_digits]

theorem decimal_injective : Function.Injective decimal := fun a b h => by
  rw [← readDecimal_decimal a, h, readDecimal_decimal]

theorem parseDecimal_decimal (n : Nat) : parseDecimal (decimal n) = some n := by
  rw [parseDecimal, if_pos ⟨decimal_ne_nil n, List.all_eq_true.2 fun _ => isDigit_of_mem_decimal⟩,
    readDecimal_decimal]

/-- A byte that is no digit does not occur in a numeral. -/
theorem not_mem_decimal {n : Nat} {c : UInt8} (h : isDigit c = false) : c ∉ decimal n := fun hc => by
  simp [isDigit_of_mem_decimal hc] at h

/-- A number of a `k`-digit range has a numeral of at most `k` digits. -/
theorem length_decimal_le {n k : Nat} (hk : 0 < k) (h : n < 10 ^ k) : (decimal n).length ≤ k := by
  simp only [decimal]
  split
  · simp; omega
  · simpa using (Nat.digits_length_le_iff (by omega) n).2 h

/-! ### `strtoull` -/

/-- What `strtoull` leaves behind: the value, the text at the end pointer, and whether it
reported `ERANGE`. -/
structure Strtoull where
  value : Nat
  rest : Bytes
  range : Bool
  deriving DecidableEq, Repr

/-- `strtoull` in base ten. A text without digits converts to zero and is not consumed; a minus
sign negates modulo `2 ^ 64`. -/
def strtoull (s : Bytes) : Strtoull :=
  let t := s.dropWhile isSpace
  let neg := t.head? == some DASH
  let u := if t.head? = some DASH ∨ t.head? = some PLUS then t.tail else t
  let digits := u.takeWhile isDigit
  if digits = [] then { value := 0, rest := s, range := false }
  else
    let v := readDecimal digits
    let rest := u.dropWhile isDigit
    if 2 ^ 64 ≤ v then { value := 2 ^ 64 - 1, rest, range := true }
    else { value := if neg then (2 ^ 64 - v) % 2 ^ 64 else v, rest, range := false }

theorem strtoull_lt (s : Bytes) : (strtoull s).value < 2 ^ 64 := by
  unfold strtoull
  extract_lets t neg u digits v rest
  split_ifs with h1 h2 h3
  · simp
  · simp
  · exact Nat.mod_lt _ (by norm_num)
  · exact Nat.lt_of_not_le h2

/-! ### The numerals of `strtoull` -/

/-- Blanks, a sign or none, and decimal digits: a minus sign negates modulo `2 ^ 64`. -/
def IsLoose (s : Bytes) (n : Nat) : Prop :=
  ∃ blanks sign digits, s = blanks ++ (sign ++ digits) ∧ (∀ c ∈ blanks, isSpace c) ∧
    digits ≠ [] ∧ (∀ c ∈ digits, isDigit c) ∧ readDecimal digits < 2 ^ 64 ∧
    ((sign = [] ∨ sign = [PLUS]) ∧ n = readDecimal digits ∨
      sign = [DASH] ∧ n = (2 ^ 64 - readDecimal digits) % 2 ^ 64)

theorem isSpace_of_isDigit {c : UInt8} (h : isDigit c) : isSpace c = false ∧ c ≠ DASH ∧ c ≠ PLUS := by
  refine ⟨Bool.eq_false_iff.2 fun hs => ?_, by rintro rfl; revert h; decide, by rintro rfl; revert h; decide⟩
  simp only [isSpace, Bool.or_eq_true, beq_iff_eq] at hs
  rw [isDigit_iff] at h
  rcases hs with rfl | hs
  · revert h; decide
  · simp only [Bool.and_eq_true, decide_eq_true_eq, UInt8.le_iff_toNat_le] at hs
    simp at hs
    omega

/-- The numbers that `strtoull` reads to the end of the text. -/
theorem strtoull_eq_iff {s : Bytes} {n : Nat} :
    (s ≠ [] ∧ strtoull s = { value := n, rest := [], range := false }) ↔ IsLoose s n := by
  constructor
  · rintro ⟨hne, h⟩
    have hs : s = s.takeWhile isSpace ++ s.dropWhile isSpace := List.takeWhile_append_dropWhile.symm
    have hblanks : ∀ c ∈ s.takeWhile isSpace, isSpace c := fun c => List.mem_takeWhile_imp
    unfold strtoull at h
    extract_lets t neg u digits v rest at h
    split at h
    · injection h with _ hrest
      exact absurd hrest hne
    next hd =>
    split at h
    · injection h with _ _ hrange
      cases hrange
    next hv =>
      injection h with hval hrest
      have hu : u = digits := by
        rw [← List.takeWhile_append_dropWhile (p := isDigit) (l := u)]
        change digits ++ rest = digits
        rw [hrest, List.append_nil]
      have hdigits : ∀ c ∈ digits, isDigit c := fun c => List.mem_takeWhile_imp
      obtain ⟨sign, hsign, ht⟩ : ∃ sign, (((sign = [] ∨ sign = [PLUS]) ∧ neg = false) ∨
          sign = [DASH] ∧ neg = true) ∧ t = sign ++ u := by
        simp only [u, neg]
        rcases t with - | ⟨x, r⟩
        · exact ⟨[], .inl ⟨.inl rfl, rfl⟩, rfl⟩
        · simp only [List.head?_cons, Option.some.injEq, List.tail_cons]
          by_cases hx : x = DASH
          · exact ⟨[DASH], .inr ⟨rfl, by simp [hx]⟩, by simp [hx]⟩
          by_cases hx' : x = PLUS
          · exact ⟨[PLUS], .inl ⟨.inr rfl, by simp [hx]⟩, by simp [hx']⟩
          · exact ⟨[], .inl ⟨.inl rfl, by simp [hx]⟩, by simp [hx, hx']⟩
      refine ⟨_, sign, digits, by rw [← hu, ← ht]; exact hs, hblanks, hd, hdigits, not_le.1 hv, ?_⟩
      rcases hsign with ⟨hsign, hneg⟩ | ⟨hsign, hneg⟩
      · exact .inl ⟨hsign, by rw [hneg] at hval; exact hval.symm⟩
      · exact .inr ⟨hsign, by rw [hneg] at hval; exact hval.symm⟩
  · rintro ⟨blanks, sign, digits, rfl, hblanks, hne, hdigits, hlt, hn⟩
    obtain ⟨x, r, rfl⟩ := List.exists_cons_of_ne_nil hne
    obtain ⟨hx, hdash, hplus⟩ := isSpace_of_isDigit (hdigits x (by simp))
    have htake : (x :: r).takeWhile isDigit = x :: r := List.takeWhile_eq_self_iff.2 hdigits
    have hdrop : (x :: r).dropWhile isDigit = [] := List.dropWhile_eq_nil_iff.2 hdigits
    refine ⟨by simp, ?_⟩
    unfold strtoull
    rw [List.dropWhile_append_of_pos hblanks]
    rcases hn with ⟨rfl | rfl, rfl⟩ | ⟨rfl, rfl⟩
    · simpa [hx, hdash, hplus, htake, hdrop] using hlt
    · simpa [show isSpace PLUS = false by decide, show PLUS ≠ DASH by decide, htake, hdrop] using hlt
    · simpa [show isSpace DASH = false by decide, htake, hdrop] using hlt

end Bytes
