import SystemdCron.FieldItems

/-!
# The indices that are read from the value tables

The counters of the two loops of `parse_period` are followed apart from the values, so that a read outside
the table is one of the reads that are spoken of. A signed counter and an unsigned step: the loop over `*`
reads in front of its table exactly if the step is `2 ^ 63` or more (`Item.accesses_in_range`).
-/

namespace SystemdCron

open Bytes

/-! ### The counters -/

/-- The values of `i` in `for(ssize_t i = 0; i < size; i += step)`: the sum is an unsigned one, and is
converted back. -/
inductive StarCounter (len step : Nat) : Int → Prop where
  | zero : StarCounter len step 0
  | next {i : Int} : StarCounter len step i → i < len → StarCounter len step (Int.bmod (i + step) SIZE)

/-- The values of `i` in `for(size_t i = i_start; i < i_end; i += step)`. -/
inductive RangeCounter (lo hi step : Nat) : Nat → Prop where
  | start : RangeCounter lo hi step lo
  | next {i : Nat} : RangeCounter lo hi step i → i < hi → RangeCounter lo hi step ((i + step) % SIZE)

/-- The indices that an item reads from a table of `len` entries. -/
def Item.Accesses (len : Nat) (rng : Rng) : Item → Int → Prop
  | every step, i => StarCounter len step i ∧ i < len
  | draw lo hi, i => i = (rng.uniform lo hi).1
  | span lo hi step, i => ∃ k : Nat, i = k ∧ RangeCounter lo hi step k ∧ k < hi

/-- The step is negative for the signed counter. -/
def Item.Overruns : Item → Prop
  | every step => 2 ^ 63 ≤ step
  | draw _ _ => False
  | span _ _ _ => False

/-- A step that is positive for the counter takes it from zero past itself, and then goes on below
`2 ^ 63`. -/
theorem StarCounter.nonneg {len step : Nat} (hlen : 2 * len < 2 ^ 63) (hs : step < 2 ^ 63) {i : Int}
    (h : StarCounter len step i) : 0 ≤ i ∧ (i = 0 ∨ step ≤ i) := by
  induction h with
  | zero => exact ⟨le_rfl, .inl rfl⟩
  | @next i _ hi ih =>
    obtain ⟨n, rfl⟩ := Int.eq_ofNat_of_zero_le ih.1
    have hn : n + step < 2 ^ 63 := by omega
    rw [bmod_add hn]
    exact ⟨by omega, .inr (by omega)⟩

/-- The second value of the counter for a step from `2 ^ 63` on. -/
theorem StarCounter.negative {len step : Nat} (hlen : 0 < len) (h1 : 2 ^ 63 ≤ step) (h2 : step < SIZE) :
    StarCounter len step ((step : Int) - SIZE) := by
  have hnext : Int.bmod (0 + step) SIZE = (step : Int) - SIZE := by
    have := SIZE_eq
    rw [Int.zero_add, Int.bmod_def, Int.emod_eq_of_lt (by omega) (by omega), if_neg (by omega)]
  rw [← hnext]
  exact .next .zero (by omega)

/-- **The reads of an item** are inside the table, unless the step is negative for the counter. -/
theorem Item.accesses_in_range {len : Nat} (hpos : 0 < len) (hlen : 2 * len < 2 ^ 63) {it : Item}
    (hit : it.Fits len) :
    (∀ rng i, it.Accesses len rng i → 0 ≤ i ∧ i < len) ↔ ¬ it.Overruns := by
  cases it with
  | every step =>
    refine ⟨fun h hs => ?_, fun hs rng i hi => ?_⟩
    · have hneg := (StarCounter.negative hpos hs hit)
      have hlt : step < SIZE := hit
      have := (h (fun _ => 0) _ ⟨hneg, by omega⟩).1
      omega
    · exact ⟨(hi.1.nonneg hlen (not_le.1 hs)).1, hi.2⟩
  | draw lo hi =>
    refine iff_of_true (fun rng i hi' => ?_) id
    have hlt : (rng.uniform lo hi).1 < len := @Item.Fits.lt _ (.draw lo hi) hit rng _ rfl
    obtain rfl := hi'
    exact ⟨by omega, by omega⟩
  | span lo hi step =>
    refine iff_of_true (fun rng i hi' => ?_) id
    obtain ⟨k, rfl, -, hk⟩ := hi'
    have := hit.2.1
    exact ⟨by omega, by omega⟩

/-! ### The reads of a field -/

section
variable {T : Type} [Ord T]

/-- The indices that are read when a field is parsed: its items are parsed one after the other as long as
none is refused. -/
def TimeField.Accesses (F : TimeField T) (value : Bytes) (rng : Rng) (i : Int) : Prop :=
  value ≠ [STAR] ∧ ∃ pre item post u it, softTokenise (· == COMMA) value = pre ++ item :: post ∧
    parseItems F pre {} false rng = .ok u ∧ u.error = none ∧
    F.item item = .ok it ∧ it.Accesses F.values.length u.rng i

/-- The parser gets to an item `*/s` with an `s` from `2 ^ 63` on. -/
def TimeField.Overruns (F : TimeField T) (value : Bytes) : Prop :=
  value ≠ [STAR] ∧ ∃ pre item post step, softTokenise (· == COMMA) value = pre ++ item :: post ∧
    pre.all F.acceptsItem ∧ splitStep item = .ok ([STAR], step) ∧ 2 ^ 63 ≤ step

end

section
variable {T : Type} {F : TimeField T}

theorem spanItem_ne_every {start stop : Bytes} {step n : Nat} :
    F.spanItem start stop step ≠ .ok (.every n) := by
  unfold TimeField.spanItem
  intro h
  extract_lets s e at h
  split at h
  · cases h
  · split at h <;> cases h

theorem drawItem_ne_every {start stop : Bytes} {n : Nat} : F.drawItem start stop ≠ .ok (.every n) := by
  unfold TimeField.drawItem
  intro h
  extract_lets max s e at h
  split at h <;> cases h

theorem item_eq_every {value : Bytes} {step : Nat} :
    F.item value = .ok (.every step) ↔ splitStep value = .ok ([STAR], step) := by
  unfold TimeField.item
  rcases splitStep value with e | ⟨range, n⟩
  · exact iff_of_false (by rintro ⟨⟩) (by rintro ⟨⟩)
  dsimp only
  split
  next h => subst h; constructor <;> rintro ⟨⟩ <;> rfl
  next h =>
    refine iff_of_false (fun hev => ?_) (by rintro ⟨⟩; exact h rfl)
    split at hev
    · split at hev
      · cases hev
      · exact drawItem_ne_every hev
    · split at hev
      · cases hev
      · exact spanItem_ne_every hev

theorem overruns_item {value : Bytes} : (∃ it, F.item value = .ok it ∧ it.Overruns) ↔
    ∃ step, splitStep value = .ok ([STAR], step) ∧ 2 ^ 63 ≤ step := by
  constructor
  · rintro ⟨it, hit, ho⟩
    cases it with
    | every step => exact ⟨step, item_eq_every.1 hit, ho⟩
    | draw lo hi | span lo hi step => exact ho.elim
  · rintro ⟨step, hs, h63⟩
    exact ⟨_, item_eq_every.2 hs, h63⟩

end

section
variable {T : Type} [Ord T] [Std.TransOrd T] [Std.LawfulEqOrd T] {F : TimeField T}

/-- **The reads of a field** are inside its table, unless the parser gets to a step that is negative for
the counter. -/
theorem TimeField.accesses_in_range (hF : F.Table) (value : Bytes) :
    (∀ rng i, F.Accesses value rng i → 0 ≤ i ∧ i < F.values.length) ↔ ¬ F.Overruns value := by
  constructor
  · rintro h ⟨hv, pre, item, post, step, hitems, hpre, hs, h63⟩
    obtain ⟨it, hit, ho⟩ := overruns_item.2 ⟨step, hs, h63⟩
    refine (Item.accesses_in_range hF.pos hF.lt (F.item_fits hF hit)).1 (fun rng i hi => ?_) ho
    -- The signed counter does not depend on the draws.
    obtain ⟨u, hu, he⟩ := (parseItems_accepts hF pre rng).2 hpre
    refine h rng i ⟨hv, pre, item, post, u, it, hitems, hu, he, hit, ?_⟩
    cases it with
    | every step => exact hi
    | draw lo hi | span lo hi step => exact ho.elim
  · rintro hn rng i ⟨hv, pre, item, post, u, it, hitems, hu, he, hit, hi⟩
    refine (Item.accesses_in_range hF.pos hF.lt (F.item_fits hF hit)).2 (fun ho => hn ?_) u.rng i hi
    obtain ⟨step, hs, h63⟩ := overruns_item.1 ⟨it, hit, ho⟩
    exact ⟨hv, pre, item, post, step, hitems, (parseItems_accepts hF pre rng).1 ⟨u, hu, he⟩, hs, h63⟩

/-- An item is followed to a read outside the table. -/
theorem Item.run_outOfBounds (hF : F.Table) {it : Item} (hit : it.Fits F.values.length)
    (into : Std.TreeSet T) (raw : Bool) (rng : Rng) :
    it.run F into raw rng = .error .outOfBounds ↔ it.Overruns := by
  cases it with
  | every step =>
    by_cases h63 : 2 ^ 63 ≤ step
    · refine iff_of_true ?_ h63
      obtain ⟨n, hn⟩ : ∃ n, F.values.length + 1 = n + 2 := ⟨F.values.length - 1, by have := hF.pos; omega⟩
      rw [run, hn, starLoop_negative hF.pos h63 hit]
    · refine iff_of_false (fun h => ?_) h63
      by_cases h0 : step = 0
      · rw [run, h0, starLoop_zero hF.pos] at h
        cases h
      · rcases every_outcome hF hit into raw rng with ⟨hn, -⟩ | ⟨-, out, hout, -⟩
        · exact hn ⟨by omega, by omega⟩
        · rw [hout] at h
          cases h
  | draw lo hi =>
    refine iff_of_false (fun h => ?_) id
    rcases draw_outcome F hit.1 hit.2 into raw rng with ⟨hn, -⟩ | ⟨-, out, hout, -⟩
    · exact hn trivial
    · rw [hout] at h
      cases h
  | span lo hi step =>
    refine iff_of_false (fun h => ?_) id
    by_cases h0 : step = 0
    · have := hit.2.1
      have := hF.lt
      rw [run, h0, rangeLoop_of_visits_none hit.2.1 (Stride.visits_zero hit.1 (by rw [SIZE_eq]; omega) _)] at h
      cases h
    · rcases span_outcome hF hit.1 hit.2.1 hit.2.2 into raw rng with ⟨hn, -⟩ | ⟨-, out, hout, -⟩
      · exact hn (Nat.one_le_iff_ne_zero.2 h0)
      · rw [hout] at h
        cases h

/-- The result of a parse tells of a read outside the table. -/
theorem parseTimeUnit_outOfBounds (hF : F.Table) (value : Bytes) (rng : Rng) :
    parseTimeUnit F value rng = .error .outOfBounds ↔ F.Overruns value := by
  unfold parseTimeUnit TimeField.Overruns
  by_cases hv : value = [STAR]
  · simp [hv]
  rw [if_neg hv]
  constructor
  · intro h
    rcases parseItems_cases hF (softTokenise (· == COMMA) value) {} false rng with
      ⟨-, u, hu, -⟩ | ⟨pre, item, post, hitems, hpre, ⟨e, -, u, hu, -⟩ | ⟨it, hit, hn, -⟩⟩
    · rw [hu] at h; cases h
    · rw [hu] at h; cases h
    obtain ⟨into, raw, rng', happ⟩ := parseItems_append hF hpre (item :: post) {} false rng
    rcases parsePeriod_of_ok hF hit into raw rng' with ⟨-, f, hf⟩ | ⟨hruns, -⟩
    · rw [hitems, happ, parseItems, hf] at h
      cases h
      rw [parsePeriod_eq_run hit, Item.run_outOfBounds hF (F.item_fits hF hit)] at hf
      obtain ⟨step, hs, h63⟩ := overruns_item.1 ⟨it, hit, hf⟩
      exact ⟨hv, pre, item, post, step, hitems, hpre, hs, h63⟩
    · exact absurd hruns hn
  · rintro ⟨-, pre, item, post, step, hitems, hpre, hs, h63⟩
    obtain ⟨it, hit, ho⟩ := overruns_item.2 ⟨step, hs, h63⟩
    obtain ⟨into, raw, rng', happ⟩ := parseItems_append hF hpre (item :: post) {} false rng
    rw [hitems, happ, parseItems, parsePeriod_eq_run hit,
      (Item.run_outOfBounds hF (F.item_fits hF hit) into raw rng').2 ho]

end

/-- **The reads of a field** are inside its table exactly if the parser gets to no item `*/s` with an `s`
from `2 ^ 63` on. -/
theorem fields_in_range (value : Bytes) : ForFields fun F =>
    ((∀ rng i, F.Accesses value rng i → 0 ≤ i ∧ i < F.values.length) ↔ ¬ F.Overruns value) ∧
    ∀ rng, parseTimeUnit F value rng = .error .outOfBounds ↔ F.Overruns value :=
  ⟨⟨TimeField.accesses_in_range minuteField_table value, parseTimeUnit_outOfBounds minuteField_table value⟩,
    ⟨TimeField.accesses_in_range hourField_table value, parseTimeUnit_outOfBounds hourField_table value⟩,
    ⟨TimeField.accesses_in_range dayField_table value, parseTimeUnit_outOfBounds dayField_table value⟩,
    ⟨TimeField.accesses_in_range dowField_table value, parseTimeUnit_outOfBounds dowField_table value⟩,
    ⟨TimeField.accesses_in_range monthField_table value, parseTimeUnit_outOfBounds monthField_table value⟩⟩

/-- The minutes `*/9223372036854775808` read `2 ^ 63` entries in front of the table. -/
theorem fields_in_range_star :
    ¬ (∀ value : Bytes, ForFields fun F =>
      ∀ rng i, F.Accesses value rng i → 0 ≤ i ∧ i < F.values.length) ∧
    minuteField.Accesses (lit "*/9223372036854775808") (fun _ => 0) (-2 ^ 63) := by
  have h : minuteField.Accesses (lit "*/9223372036854775808") (fun _ => 0) (-2 ^ 63) :=
    ⟨by decide, [], lit "*/9223372036854775808", [], _, .every (2 ^ 63), by decide, rfl, rfl, rfl,
      StarCounter.negative (by decide) le_rfl (by decide), by decide⟩
  exact ⟨fun hall => absurd ((hall _).1 _ _ h).1 (by decide), h⟩

end SystemdCron
