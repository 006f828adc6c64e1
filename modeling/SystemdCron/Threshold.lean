import SystemdCron.Lib.Strtod

/-!
# The load threshold

`parse_floating` of `libvoreutils.hpp`, and how `main` of `loadavg_dam.cpp` and of `throttle_group.cpp` read
their arguments. Both take a threshold; only the latter refuses what is no number above zero
(`thresholds_agree_iff`).
-/

namespace SystemdCron

open Bytes Strtod

/-- `vore::parse_floating`: what is wrong with a text, if anything, and the number. -/
def parseFloating (strtod : Converter) (val : Bytes) : Option Bytes × Double :=
  let r := strtod.read val
  let err :=
    if r.value = .finite 0 ∧ r.rest = val then some (lit "invalid")
    else if r.rest ≠ [] then some (lit "partial conversion")
    else if r.range then some (lit "Numerical result out of range")
    else if r.value = .nan then some (lit "is NaN")
    else none
  (err, r.value)

/-- The arguments after a `--` in front of them. -/
def skipDashes : List Bytes → List Bytes
  | [] => []
  | arg :: args => if arg = lit "--" then args else arg :: args

/-- `"%s: %s: %s\n"`. -/
def thresholdMessage (self arg err : Bytes) : Bytes :=
  self ++ lit ": " ++ arg ++ lit ": " ++ err ++ [LF]

/-- The arguments of `loadavg_dam`: the threshold, or what is printed before it exits. -/
def LoadavgDam.readArguments (strtod : Converter) (self : Bytes) (args : List Bytes) : Except Bytes Double :=
  match skipDashes args with
  | [arg] =>
    let r := parseFloating strtod arg
    -- The sign is looked at once there is an error, which it replaces.
    if r.1.isSome ∧ r.2.Nonpos then .error (thresholdMessage self arg (lit "<= 0")) else .ok r.2
  | _ => .error (lit "usage: " ++ self ++ lit " below-loadavg\n")

/-- The arguments of `throttle_group`: the group and the threshold, if there is one. -/
def ThrottleGroup.readArguments (strtod : Converter) (self : Bytes) (args : List Bytes) :
    Except Bytes (Bytes × Option Double) :=
  match skipDashes args with
  | [group] => .ok (group, none)
  | [group, arg] =>
    let r := parseFloating strtod arg
    match r.1 with
    | some err => .error (thresholdMessage self arg err)
    | none =>
      if r.2.Nonpos then .error (thresholdMessage self arg (lit "<= 0")) else .ok (group, some r.2)
  | _ => .error (lit "usage: " ++ self ++ lit " group [below-loadavg]\n")

/-- A text that is completely converted, to a number above zero. -/
def IsThreshold (strtod : Converter) (arg : Bytes) : Prop :=
  Complete strtod arg ∧ (strtod.read arg).value.Pos

section
variable {strtod : Converter} {arg : Bytes}

/-- There is nothing wrong with a text that is completely converted to a number. -/
theorem parseFloating_eq_none_iff :
    (parseFloating strtod arg).1 = none ↔ Complete strtod arg ∧ (strtod.read arg).value ≠ .nan := by
  have hzero := strtod.value_of_rest arg
  unfold parseFloating Complete
  dsimp only
  by_cases hrest : (strtod.read arg).rest = []
  · by_cases hne : arg = []
    · rw [if_pos ⟨hzero (hrest.trans hne.symm), hrest.trans hne.symm⟩]
      exact iff_of_false nofun fun h => h.1.1 hne
    · have hconverted : ¬ ((strtod.read arg).value = .finite 0 ∧ (strtod.read arg).rest = arg) :=
        fun h => hne (h.2.symm.trans hrest)
      rw [if_neg hconverted, if_neg (not_not.2 hrest)]
      cases (strtod.read arg).range with
      | true => simp
      | false => by_cases hnan : (strtod.read arg).value = .nan <;> simp [hnan, hne, hrest]
  · refine iff_of_false ?_ fun h => hrest h.1.2.1
    split
    · exact nofun
    · exact nofun

theorem LoadavgDam.readArguments_iff (self : Bytes) {args : List Bytes} (h : skipDashes args = [arg]) :
    (∃ target, LoadavgDam.readArguments strtod self args = .ok target) ↔
      (Complete strtod arg ∧ (strtod.read arg).value ≠ .nan) ∨ ¬ (strtod.read arg).value.Nonpos := by
  rw [← parseFloating_eq_none_iff, LoadavgDam.readArguments, h]
  dsimp only
  split
  next hbad =>
    refine iff_of_false nofun ?_
    rintro (hok | hpos)
    · rw [hok] at hbad
      cases hbad.1
    · exact hpos hbad.2
  next hbad =>
    refine iff_of_true ⟨_, rfl⟩ ?_
    by_contra hc
    push Not at hc
    exact hbad ⟨Option.isSome_iff_ne_none.2 hc.1, hc.2⟩

theorem ThrottleGroup.readArguments_iff (self : Bytes) {args : List Bytes} {group : Bytes}
    (h : skipDashes args = [group, arg]) :
    (∃ r, ThrottleGroup.readArguments strtod self args = .ok r) ↔ IsThreshold strtod arg := by
  rw [IsThreshold, Double.pos_iff, ← and_assoc, ← parseFloating_eq_none_iff, ThrottleGroup.readArguments, h]
  dsimp only
  split
  next err herr => exact iff_of_false nofun fun hok => by rw [herr] at hok; cases hok.1
  next herr =>
    split
    next hneg => exact iff_of_false nofun fun hok => hok.2 hneg
    next hpos => exact iff_of_true ⟨_, rfl⟩ ⟨herr, hpos⟩

end

/-- **The thresholds**: the programs accept the same texts, and these are the numbers above zero, exactly
where `loadavg_dam` looks at the right one of its two checks: at a threshold, and at a text that is not
converted, or not as a whole, and has no number above zero in front. -/
theorem thresholds_agree_iff (strtod : Converter) (self self' : Bytes) {arg group : Bytes}
    {args args' : List Bytes} (h : skipDashes args = [arg]) (h' : skipDashes args' = [group, arg]) :
    (((∃ target, LoadavgDam.readArguments strtod self args = .ok target) ↔
        ∃ r, ThrottleGroup.readArguments strtod self' args' = .ok r) ∧
      ((∃ target, LoadavgDam.readArguments strtod self args = .ok target) ↔ IsThreshold strtod arg) ∧
      ((∃ r, ThrottleGroup.readArguments strtod self' args' = .ok r) ↔ IsThreshold strtod arg)) ↔
    IsThreshold strtod arg ∨ ¬ Complete strtod arg ∧ (strtod.read arg).value.Nonpos := by
  rw [LoadavgDam.readArguments_iff self h, ThrottleGroup.readArguments_iff self' h']
  have hpos := @Double.pos_iff (strtod.read arg).value
  unfold IsThreshold
  by_cases hcomplete : Complete strtod arg
  · by_cases hneg : (strtod.read arg).value.Nonpos
    · -- NaN is not at most zero, so that the number is one that only `loadavg_dam` takes.
      have hnan : (strtod.read arg).value ≠ .nan := fun hnan => by rw [hnan] at hneg; exact hneg
      simp [hcomplete, hneg, hpos, hnan]
    · by_cases hnan : (strtod.read arg).value = .nan
      · simp [hcomplete, hnan, Double.Pos, Double.Nonpos]
      · simp [hcomplete, hneg, hpos, hnan]
  · by_cases hneg : (strtod.read arg).value.Nonpos
    · simp [hcomplete, hneg]
    · simp [hcomplete, hneg]

/-- A text of digits that is converted as a whole. -/
theorem read_integers {s : Bytes} {n : Nat} (h : strtoull s = { value := n, rest := [], range := false }) :
    integers.read s = { value := .finite n, rest := [], range := false } := by
  change Conversion.mk _ (strtoull s).rest (strtoull s).range = _
  rw [h]

/-- Zero is a threshold to `loadavg_dam`, below which no load ever is, and none to `throttle_group`. -/
theorem thresholds_differ :
    ¬ ((∃ target, LoadavgDam.readArguments integers (lit "loadavg_dam") [lit "0"] = .ok target) ↔
      ∃ r, ThrottleGroup.readArguments integers (lit "throttle_group") [lit "batch", lit "0"] = .ok r) := by
  have hread : integers.read (lit "0") = { value := .finite 0, rest := [], range := false } := by
    exact_mod_cast read_integers (show strtoull (lit "0") = _ by decide)
  have hdam : skipDashes [lit "0"] = [lit "0"] := by decide
  have hgroup : skipDashes [lit "batch", lit "0"] = [lit "batch", lit "0"] := by decide
  rw [LoadavgDam.readArguments_iff _ hdam, ThrottleGroup.readArguments_iff _ hgroup, IsThreshold, Complete,
    hread]
  have hne : lit "0" ≠ [] := by decide
  simp [Double.Pos, Double.Nonpos, hne]

/-- Five is a threshold to both. -/
theorem thresholds_agree_iff_five :
    IsThreshold integers (lit "5") ∧
      ((∃ target, LoadavgDam.readArguments integers (lit "loadavg_dam") [lit "--", lit "5"] = .ok target) ↔
        ∃ r, ThrottleGroup.readArguments integers (lit "throttle_group") [lit "batch", lit "5"] = .ok r) := by
  have hread : integers.read (lit "5") = { value := .finite 5, rest := [], range := false } := by
    exact_mod_cast read_integers (show strtoull (lit "5") = _ by decide)
  have hthreshold : IsThreshold integers (lit "5") := by
    rw [IsThreshold, Complete, hread]
    exact ⟨⟨by decide, rfl, rfl⟩, show (0 : ℚ) < 5 by norm_num⟩
  have hdam : skipDashes [lit "--", lit "5"] = [lit "5"] := by decide
  have hgroup : skipDashes [lit "batch", lit "5"] = [lit "batch", lit "5"] := by decide
  exact ⟨hthreshold, ((thresholds_agree_iff integers _ _ hdam hgroup).2 (.inl hthreshold)).1⟩

end SystemdCron
