import SystemdCron.Lib.Numeral

/-!
# Conversion to a floating number

What a converter of texts to floating numbers returns, as `strtod` of the C library does: a number, the text
at the end pointer, and whether the number was out of range. The numbers are the extended rationals and NaN;
which text has which number is left open.
-/

namespace Strtod

open Bytes

/-- A floating number. -/
inductive Double where
  | nan
  | inf (negative : Bool)
  | finite (value : ℚ)
  deriving DecidableEq

namespace Double

/-- `x > 0`, which NaN is not. -/
def Pos : Double → Prop
  | nan => False
  | inf negative => negative = false
  | finite value => 0 < value

/-- `x <= 0`, which NaN is not either. -/
def Nonpos : Double → Prop
  | nan => False
  | inf negative => negative = true
  | finite value => value ≤ 0

instance : DecidablePred Pos
  | nan => inferInstanceAs (Decidable False)
  | inf negative => inferInstanceAs (Decidable (negative = false))
  | finite value => inferInstanceAs (Decidable (0 < value))

instance : DecidablePred Nonpos
  | nan => inferInstanceAs (Decidable False)
  | inf negative => inferInstanceAs (Decidable (negative = true))
  | finite value => inferInstanceAs (Decidable (value ≤ 0))

/-- A number that is not NaN is on one side of zero. -/
theorem pos_iff {x : Double} : x.Pos ↔ x ≠ nan ∧ ¬ x.Nonpos := by
  cases x with
  | nan => simp [Pos]
  | inf negative => simp [Pos, Nonpos]
  | finite value => simp [Pos, Nonpos]

end Double

/-- What a conversion leaves behind. -/
structure Conversion where
  value : Double
  rest : Bytes
  range : Bool
  deriving DecidableEq

/-- A converter: where nothing is converted, the number is zero. -/
structure Converter where
  read : Bytes → Conversion
  value_of_rest : ∀ s, (read s).rest = s → (read s).value = .finite 0

/-- The whole of a text is converted, and to a number in range. -/
def Complete (strtod : Converter) (s : Bytes) : Prop :=
  s ≠ [] ∧ (strtod.read s).rest = [] ∧ (strtod.read s).range = false

/-! ### Decimal digits -/

/-- `strtoull` goes past what it converts. -/
theorem value_strtoull {s : Bytes} (h : (strtoull s).rest = s) : (strtoull s).value = 0 := by
  have hdrop : ∀ {t : Bytes}, t.takeWhile isDigit ≠ [] → (t.dropWhile isDigit).length < t.length := by
    intro t ht
    have hlen := congrArg List.length (t.takeWhile_append_dropWhile (p := isDigit))
    have hpos := List.length_pos_iff.2 ht
    rw [List.length_append] at hlen
    omega
  unfold strtoull at h ⊢
  extract_lets t neg u digits v rest at h
  extract_lets
  have ht : t.length ≤ s.length := (List.dropWhile_sublist _).length_le
  have hu : u.length ≤ t.length := by
    simp only [u]
    split
    · simp
    · exact le_rfl
  by_cases hd : digits = []
  · rw [if_pos hd]
  · rw [if_neg hd] at h
    have hlt : rest.length < s.length := (hdrop hd).trans_le (hu.trans ht)
    have hrest : rest = s := by
      split at h
      · exact h
      · exact h
    rw [hrest] at hlt
    exact absurd hlt (lt_irrefl _)

/-- The converter of the texts of decimal digits. -/
def integers : Converter where
  read s :=
    let r := strtoull s
    { value := .finite r.value, rest := r.rest, range := r.range }
  value_of_rest s h := by
    change Double.finite ((strtoull s).value : ℚ) = .finite 0
    rw [value_strtoull h, Nat.cast_zero]

end Strtod
