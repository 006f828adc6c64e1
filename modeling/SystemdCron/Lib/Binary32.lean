import Mathlib

/-!
# Single precision

The rounding to nearest, ties to even, of IEEE 754 binary32, for the conversion of a natural number
and for the quotient of such a number by a small one. Exponents stay far inside the range of the
format for numbers below `2 ^ 64`, so that only the 24 significant bits matter.
-/

namespace Binary32

/-- `a / b` rounded to the nearest integer, ties to even. -/
def roundHalfEven (a b : Nat) : Nat :=
  let q := a / b
  let r := a % b
  if 2 * r < b then q else if b < 2 * r then q + 1 else if q % 2 = 0 then q else q + 1

/-- The value of `(float)n`, which is a natural number. -/
def ofNat (n : Nat) : Nat :=
  let e := n.log2 - 23
  roundHalfEven n (2 ^ e) * 2 ^ e

/-- `round(f / d)` for a float `f ≥ d`: the quotient with 24 significant bits, then the nearest integer,
ties away from zero. -/
def roundDiv (f d : Nat) : Nat :=
  let k := (f / d).log2
  if k ≤ 23 then
    let m := roundHalfEven (f * 2 ^ (23 - k)) d
    (2 * m + 2 ^ (23 - k)) / (2 * 2 ^ (23 - k))
  else roundHalfEven f (d * 2 ^ (k - 23)) * 2 ^ (k - 23)

theorem div_le_roundHalfEven (a b : Nat) : a / b ≤ roundHalfEven a b := by
  unfold roundHalfEven
  extract_lets q r
  split_ifs <;> omega

theorem le_ofNat {n : Nat} (h : 1 ≤ n) : 2 ^ n.log2 ≤ ofNat n := by
  unfold ofNat
  extract_lets e
  have hn : 2 ^ n.log2 ≤ n := Nat.log2_self_le (by omega)
  have h1 : n / 2 ^ e ≤ roundHalfEven n (2 ^ e) := div_le_roundHalfEven ..
  have h2 : 2 ^ (n.log2 - e) ≤ n / 2 ^ e := by
    rw [Nat.le_div_iff_mul_le (by positivity), ← pow_add]
    exact (Nat.pow_le_pow_right (by norm_num) (by omega)).trans hn
  calc 2 ^ n.log2 = 2 ^ (n.log2 - e) * 2 ^ e := by rw [← pow_add]; congr 1; omega
    _ ≤ roundHalfEven n (2 ^ e) * 2 ^ e := Nat.mul_le_mul_right _ (h2.trans h1)

/-- A quotient of at least one rounds to at least one. -/
theorem one_le_roundDiv {f d : Nat} (hd : 0 < d) (h : d ≤ f) : 1 ≤ roundDiv f d := by
  unfold roundDiv
  extract_lets k m
  have hq : 1 ≤ f / d := (Nat.one_le_div_iff hd).2 h
  have hk : 2 ^ k * d ≤ f := by
    have : 2 ^ k ≤ f / d := Nat.log2_self_le (by omega)
    exact (Nat.le_div_iff_mul_le hd).1 this
  split
  case isTrue hk23 =>
    have hm : 2 ^ 23 ≤ m := by
      refine le_trans ?_ (div_le_roundHalfEven ..)
      rw [Nat.le_div_iff_mul_le hd]
      calc 2 ^ 23 * d = 2 ^ k * d * 2 ^ (23 - k) := by
            rw [mul_right_comm, ← pow_add]; congr 2; omega
        _ ≤ f * 2 ^ (23 - k) := Nat.mul_le_mul_right _ hk
    have hp : 2 ^ (23 - k) ≤ 2 ^ 23 := Nat.pow_le_pow_right (by norm_num) (by omega)
    rw [Nat.le_div_iff_mul_le (by positivity)]
    omega
  case isFalse hk23 =>
    have h1 : 1 ≤ roundHalfEven f (d * 2 ^ (k - 23)) := by
      refine le_trans ?_ (div_le_roundHalfEven ..)
      rw [Nat.le_div_iff_mul_le (by positivity), one_mul]
      calc d * 2 ^ (k - 23) ≤ d * 2 ^ k := Nat.mul_le_mul_left _
            (Nat.pow_le_pow_right (by norm_num) (by omega))
        _ = 2 ^ k * d := mul_comm ..
        _ ≤ f := hk
    exact Nat.mul_pos h1 (by positivity)

end Binary32
