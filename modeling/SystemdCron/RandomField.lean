import SystemdCron.MonthField
import SystemdCron.DowField

/-!
# Random values

The items `lo~hi`, `lo~`, `~hi` and `~`. The branch of `parse_period` that draws a value takes the upper
index from the bound that the loop over a range excludes, starts at the index `base` if there is no lower
bound, and does not look at the error flag; `RandomRead` holds where this does no harm.
-/

namespace SystemdCron

open Bytes

def minuteWords : Vocabulary := { lo := 0, hi := 59, names := [], first := 0 }
def hourWords : Vocabulary := { lo := 0, hi := 23, names := [], first := 0 }
def dayWords : Vocabulary := { lo := 1, hi := 31, names := [], first := 1 }

/-- The two texts of a `~` item. -/
structure RandomTexts where
  start : Bytes
  stop : Bytes
  start_plain : TILDE ∉ start ∧ SLASH ∉ start
  stop_plain : TILDE ∉ stop ∧ SLASH ∉ stop

def RandomTexts.text (t : RandomTexts) : Bytes := t.start ++ TILDE :: t.stop

variable {W : Vocabulary}

/-- The values between which a `~` item chooses: bounds that are given are numbers or names of the
field, and a bound that is not is the limit of the field. -/
structure RandomBounds (upper : Bound W → Nat) (t : RandomTexts) (lo hi : Nat) : Prop where
  lower : (t.start = [] ∧ lo = W.lo) ∨ ∃ b : Bound W, b.text = t.start ∧ b.value = lo
  upper : (t.stop = [] ∧ hi = W.hi) ∨ ∃ b : Bound W, b.text = t.stop ∧ upper b = hi
  le : lo ≤ hi

section
variable {T : Type} [Ord T]

/-- A draw accepts the item and adds one value to the set. -/
def Draws (F : TimeField T) (W : Vocabulary) (t : RandomTexts) (into : Std.TreeSet T) (raw : Bool)
    (rng : Rng) (v : Nat) : Prop :=
  ∃ p, parsePeriod t.text F into raw rng = .ok p ∧ p.error = none ∧
    ∀ x, x ∈ p.into ↔ x ∈ into ∨ F.values[v - W.lo]? = some x

/-- A `~` item is refused, or its bounds are in order, every draw chooses a value between them, and
every such value is chosen by some draw. -/
def RandomRead (F : TimeField T) (upper : Bound W → Nat) (t : RandomTexts) : Prop :=
  ∀ into raw,
    (∀ rng, ∃ p, parsePeriod t.text F into raw rng = .ok p ∧ p.error ≠ none) ∨
    ∃ lo hi, RandomBounds upper t lo hi ∧
      (∀ rng, ∃ v, lo ≤ v ∧ v ≤ hi ∧ Draws F W t into raw rng v) ∧
      ∀ v, lo ≤ v → v ≤ hi → ∃ rng, Draws F W t into raw rng v

end

theorem item_random {T : Type} (F : TimeField T) (t : RandomTexts) :
    F.item t.text = F.drawItem t.start t.stop := by
  have hslash : SLASH ∉ t.text := by
    simp only [RandomTexts.text, List.mem_append, List.mem_cons, not_or]
    exact ⟨t.start_plain.2, by decide, t.stop_plain.2⟩
  have hstar : t.text ≠ [STAR] := by
    intro h
    have : TILDE ∈ [STAR] := by rw [← h]; simp [RandomTexts.text]
    revert this; decide
  unfold TimeField.item splitStep
  rw [splitFirst_eq_none.2 hslash]
  dsimp only
  rw [if_neg hstar, RandomTexts.text, splitFirst_eq_some.2 ⟨rfl, t.start_plain.1⟩]
  dsimp only
  rw [if_neg t.stop_plain.1]

theorem drawItem_cases {T : Type} (F : TimeField T) (start stop : Bytes) :
    F.drawItem start stop = .error .range ∨ ∃ lo hi, F.drawItem start stop = .ok (.draw lo hi) := by
  unfold TimeField.drawItem
  extract_lets max s e
  split
  · exact .inl rfl
  · exact .inr ⟨_, _, rfl⟩

/-- The indices that are drawn between. -/
theorem drawItem_ok {T : Type} {F : TimeField T} {start stop : Bytes} {s e : Nat}
    (h : F.drawItem start stop = .ok (.draw s e)) :
    (start = [] → s = F.base) ∧ (start ≠ [] → s = (F.startIndex start false).1) ∧
      (stop = [] → e = F.values.length - 1) ∧
      (stop ≠ [] → e = (F.stopIndex stop (if start = [] then false else (F.startIndex start false).2)
        (F.values.length - 1)).1) ∧
      s ≤ e ∧ e ≤ F.values.length - 1 := by
  unfold TimeField.drawItem at h
  extract_lets max s' e' at h
  split at h
  · cases h
  next hr =>
    cases h
    have hs2 : s'.2 = if start = [] then false else (F.startIndex start false).2 := by
      simp only [s']
      split <;> rfl
    refine ⟨fun h0 => by simp [s', h0], fun h0 => by simp [s', h0], fun h0 => by simp [e', h0, max],
      fun h0 => by simp only [e', if_neg h0, hs2, max], by omega, ?_⟩
    simp only [e']
    split
    · exact le_rfl
    · exact min_le_right ..

theorem uniform_eq {lo hi i : Nat} (h1 : lo ≤ i) (h2 : i ≤ hi) :
    (Rng.uniform (fun _ => i - lo) lo hi).1 = i := by
  have : (i - lo) % (hi + 1 - lo) = i - lo := Nat.mod_eq_of_lt (by omega)
  simp only [Rng.uniform, this]
  omega

section
variable {T : Type} [Ord T] [Std.TransOrd T] [Std.LawfulEqOrd T] {F : TimeField T}

/-- A `~` item is read right if it is refused, or if the entries at the indices it draws from are those
of the values between its bounds. -/
theorem randomRead_iff (hF : F.Table) (upper : Bound W → Nat) (t : RandomTexts) :
    RandomRead F upper t ↔ F.drawItem t.start t.stop = .error .range ∨
      ∃ s e lo hi, F.drawItem t.start t.stop = .ok (.draw s e) ∧ RandomBounds upper t lo hi ∧
        (∀ i, s ≤ i → i ≤ e → ∃ v, lo ≤ v ∧ v ≤ hi ∧ F.values[i]? = F.values[v - W.lo]?) ∧
        ∀ v, lo ≤ v → v ≤ hi → ∃ i, s ≤ i ∧ i ≤ e ∧ F.values[i]? = F.values[v - W.lo]? := by
  rcases drawItem_cases F t.start t.stop with hd | ⟨s, e, hd⟩
  · have hitem : F.item t.text = .error .range := (item_random F t).trans hd
    refine iff_of_true (fun into raw => .inl fun rng => ?_) (.inl hd)
    obtain ⟨raw', hp⟩ := parsePeriod_of_error hitem into raw rng
    exact ⟨_, hp, by simp⟩
  have hitem : F.item t.text = .ok (.draw s e) := (item_random F t).trans hd
  have hfits : s ≤ e ∧ e < F.values.length := F.item_fits hF hitem
  have hparse : ∀ into raw rng, ∃ p, parsePeriod t.text F into raw rng = .ok p ∧ p.error = none ∧
      ∀ x, x ∈ p.into ↔ x ∈ into ∨ F.values[(rng.uniform s e).1]? = some x := by
    intro into raw rng
    rcases parsePeriod_of_ok hF hitem into raw rng with ⟨hn, -⟩ | ⟨-, out, hp, hx⟩
    · exact absurd trivial hn
    · exact ⟨_, hp, rfl, fun x => by simpa [Item.Visits] using hx x⟩
  have huniform : ∀ rng : Rng, s ≤ (rng.uniform s e).1 ∧ (rng.uniform s e).1 ≤ e := by
    intro rng
    have := Nat.mod_lt (rng 0) (show 0 < e + 1 - s by omega)
    simp only [Rng.uniform]
    omega
  constructor
  · intro h
    refine .inr ?_
    rcases h {} false with hr | ⟨lo, hi, hb, hin, hall⟩
    · obtain ⟨p, hp, he⟩ := hr fun _ => 0
      obtain ⟨p', hp', he', -⟩ := hparse {} false fun _ => 0
      rw [hp] at hp'
      cases hp'
      exact absurd he' he
    · have hsame : ∀ {rng v}, Draws F W t {} false rng v →
          F.values[(rng.uniform s e).1]? = F.values[v - W.lo]? := by
        rintro rng v ⟨p, hp, -, hmem⟩
        obtain ⟨p', hp', -, hmem'⟩ := hparse {} false rng
        rw [hp] at hp'
        cases hp'
        have hget := List.getElem?_eq_getElem ((huniform rng).2.trans_lt hfits.2)
        rw [hget]
        refine Eq.symm ?_
        simpa using (hmem _).1 ((hmem' _).2 (.inr hget))
      refine ⟨s, e, lo, hi, hd, hb, fun i h1 h2 => ?_, fun v h1 h2 => ?_⟩
      · obtain ⟨v, hv1, hv2, hv⟩ := hin fun _ => i - s
        exact ⟨v, hv1, hv2, by rw [← hsame hv, uniform_eq h1 h2]⟩
      · obtain ⟨rng, hv⟩ := hall v h1 h2
        exact ⟨_, (huniform rng).1, (huniform rng).2, hsame hv⟩
  · rintro (h | ⟨s', e', lo, hi, hd', hb, hin, hall⟩) into raw
    · rw [hd] at h; cases h
    rw [hd] at hd'
    cases hd'
    have hdraw : ∀ {rng v}, F.values[(rng.uniform s e).1]? = F.values[v - W.lo]? →
        Draws F W t into raw rng v := by
      intro rng v h
      obtain ⟨p, hp, he, hmem⟩ := hparse into raw rng
      exact ⟨p, hp, he, fun x => by rw [hmem, h]⟩
    refine .inr ⟨lo, hi, hb, fun rng => ?_, fun v h1 h2 => ?_⟩
    · obtain ⟨v, hv1, hv2, hv⟩ := hin _ (huniform rng).1 (huniform rng).2
      exact ⟨v, hv1, hv2, hdraw hv⟩
    · obtain ⟨i, hi1, hi2, hi⟩ := hall v h1 h2
      exact ⟨fun _ => i - s, hdraw (by rw [uniform_eq hi1 hi2, hi])⟩

end

/-! ### Fields of numbers -/

/-- A field of numbers that has no names. -/
structure NumberField (F : TimeField Nat) (W : Vocabulary) : Prop where
  table : F.Table
  mapping : F.mapping = intMap
  base : F.base = W.lo
  lo_le : W.lo ≤ 1
  hi_lt : W.lo < W.hi ∧ W.hi < 2 ^ 32
  names : W.names = []
  values : F.values = (List.range (W.hi + 1 - W.lo)).map (· + W.lo)

theorem minute_number : NumberField minuteField minuteWords :=
  ⟨minuteField_table, rfl, rfl, by decide, by decide, rfl, by decide⟩
theorem hour_number : NumberField hourField hourWords :=
  ⟨hourField_table, rfl, rfl, by decide, by decide, rfl, by decide⟩
theorem day_number : NumberField dayField dayWords :=
  ⟨dayField_table, rfl, rfl, by decide, by decide, rfl, by decide⟩

/-- The bounds that are read right: the lower bound is given if the field starts with one, and the upper
bound, if it is given, is the last value. -/
def NumberRandomOk (W : Vocabulary) (t : RandomTexts) : Prop :=
  ((t.start = [] ∧ W.lo = 0) ∨ ∃ b : Bound W, b.text = t.start) ∧
    (t.stop = [] ∨ ∃ b : Bound W, b.text = t.stop ∧ b.value = W.hi)

namespace NumberField

variable {F : TimeField Nat}

theorem getElem?_values (hF : NumberField F W) {i : Nat} (h : i < W.hi + 1 - W.lo) :
    F.values[i]? = some (i + W.lo) := by
  rw [hF.values, List.getElem?_map, List.getElem?_range h]
  rfl

theorem intMap_bound (hF : NumberField F W) (b : Bound W) (stop : Bool) :
    intMap b.text false stop = (b.value, false) ∧ W.lo ≤ b.value ∧ b.value ≤ W.hi := by
  cases b with
  | number t n read range =>
    have hS := SIZE_eq
    have := hF.hi_lt
    have hn : n ≤ W.hi := range.2
    refine ⟨?_, range⟩
    rw [Bound.text, intMap_number read, if_pos (by omega)]
    rfl
  | name t i isName =>
    have := isName.lt
    simp [hF.names] at this

/-- The indices that the code draws between. -/
theorem drawItem_eq (hF : NumberField F W) {t : RandomTexts} {s e : Nat}
    (h : F.drawItem t.start t.stop = .ok (.draw s e)) :
    s ≤ e ∧ e ≤ W.hi - W.lo ∧ (t.start = [] → s = W.lo) ∧
      (∀ b : Bound W, b.text = t.start → s = b.value - W.lo) ∧
      (t.stop = [] → e = W.hi - W.lo) ∧
      ∀ b : Bound W, b.text = t.stop → e = min (b.value + (1 - W.lo)) (W.hi - W.lo) := by
  have hlo := hF.lo_le
  have hhi := hF.hi_lt
  have hS := SIZE_eq
  have hmax : F.values.length - 1 = W.hi - W.lo := by
    rw [hF.values]
    simp
    omega
  have hone : (if W.lo = 0 then 1 else 0) = 1 - W.lo := by split <;> omega
  have hne : ∀ b : Bound W, b.text ≠ [] := fun b => b.text_ne_nil
  obtain ⟨hs0, hs, he0, he, hse, hle⟩ := drawItem_ok h
  rw [hmax] at he0 he hle
  refine ⟨hse, hle, fun h0 => (hs0 h0).trans hF.base, fun b hb => ?_, he0, fun b hb => ?_⟩
  · obtain ⟨hmap, h1, h2⟩ := hF.intMap_bound b false
    have hsub : b.value + (SIZE - 1) + (1 - W.lo) = b.value - W.lo + SIZE := by omega
    rw [hs (hb ▸ hne b), ← hb]
    simp only [TimeField.startIndex, hF.mapping, hF.base, hone, hmap, hsub, Nat.add_mod_right]
    exact Nat.mod_eq_of_lt (by omega)
  · obtain ⟨hmap, h1, h2⟩ := hF.intMap_bound b true
    have hfst : ∀ err, (intMap b.text err true).1 = b.value := fun _ => congrArg Prod.fst hmap
    rw [he (hb ▸ hne b), ← hb]
    simp only [TimeField.stopIndex, hF.mapping, hF.base, hone, hfst]
    rw [Nat.mod_eq_of_lt (by omega)]

/-- A `~` item of a field of numbers is read right exactly if it is refused or its bounds are the ones
that the code reads right. -/
theorem randomRead_iff (hF : NumberField F W) (t : RandomTexts) :
    RandomRead F (Bound.value (W := W)) t ↔
      F.drawItem t.start t.stop = .error .range ∨ NumberRandomOk W t := by
  have hlo := hF.lo_le
  have hhi := hF.hi_lt
  rw [SystemdCron.randomRead_iff hF.table]
  refine or_congr_right' fun hne => ?_
  obtain ⟨s, e, hd⟩ := (drawItem_cases F t.start t.stop).resolve_left hne
  obtain ⟨hse, he, hs0, hsb, he0, heb⟩ := hF.drawItem_eq hd
  have hval : ∀ {i j}, i ≤ W.hi - W.lo → (F.values[i]? = F.values[j]? ↔ i = j) := by
    intro i j hi
    refine ⟨fun h => ?_, fun h => h ▸ rfl⟩
    rw [hF.getElem?_values (by omega), hF.values, List.getElem?_map] at h
    obtain ⟨k, hk, hki⟩ := Option.map_eq_some_iff.1 h.symm
    obtain ⟨hj, rfl⟩ := List.getElem?_eq_some_iff.1 hk
    simp at hki
    omega
  constructor
  · rintro ⟨s', e', lo, hi, hd', hb, hin, hall⟩
    rw [hd] at hd'
    cases hd'
    have hlo' : W.lo ≤ lo := by
      rcases hb.lower with ⟨-, h⟩ | ⟨b, -, h⟩
      · omega
      · have := (hF.intMap_bound b false).2
        omega
    have hhi' : hi ≤ W.hi := by
      rcases hb.upper with ⟨-, h⟩ | ⟨b, -, h⟩
      · omega
      · have := (hF.intMap_bound b false).2
        omega
    have hle := hb.le
    -- The interval of indices is the interval of values.
    obtain ⟨v1, h1, -, hv1⟩ := hin s le_rfl hse
    obtain ⟨v2, -, h2, hv2⟩ := hin e hse le_rfl
    obtain ⟨i1, h3, h3', hi1⟩ := hall lo le_rfl hle
    obtain ⟨i2, h4', h4, hi2⟩ := hall hi hle le_rfl
    rw [hval (by omega)] at hv1 hv2 hi1 hi2
    have hs : s = lo - W.lo := by omega
    have he' : e = hi - W.lo := by omega
    constructor
    · rcases hb.lower with ⟨h, rfl⟩ | ⟨b, hbt, -⟩
      · have := hs0 h
        exact .inl ⟨h, by omega⟩
      · exact .inr ⟨b, hbt⟩
    · rcases hb.upper with ⟨h, -⟩ | ⟨b, hbt, hbv⟩
      · exact .inl h
      · have := heb b hbt
        exact .inr ⟨b, hbt, by omega⟩
  · rintro ⟨hlow, hup⟩
    have hmax : e = W.hi - W.lo := by
      rcases hup with h | ⟨b, hb, hbv⟩
      · exact he0 h
      · have := heb b hb
        omega
    obtain ⟨lo, hl, hlo', hs⟩ : ∃ lo, ((t.start = [] ∧ lo = W.lo) ∨ ∃ b : Bound W, b.text = t.start ∧
        b.value = lo) ∧ (W.lo ≤ lo ∧ lo ≤ W.hi) ∧ s = lo - W.lo := by
      rcases hlow with ⟨h, h0⟩ | ⟨b, hb⟩
      · exact ⟨W.lo, .inl ⟨h, rfl⟩, by omega, by have := hs0 h; omega⟩
      · exact ⟨b.value, .inr ⟨b, hb, rfl⟩, (hF.intMap_bound b false).2, hsb b hb⟩
    refine ⟨s, e, lo, W.hi, hd, ⟨hl, ?_, hlo'.2⟩, fun i h1 h2 => ?_, fun v h1 h2 => ?_⟩
    · rcases hup with h | ⟨b, hb, hbv⟩
      · exact .inl ⟨h, rfl⟩
      · exact .inr ⟨b, hb, hbv⟩
    · exact ⟨i + W.lo, by omega, by omega, by rw [Nat.add_sub_cancel]⟩
    · exact ⟨v - W.lo, by omega, by omega, rfl⟩

end NumberField

/-! ### Days of the week -/

/-- The bounds of days of the week that are read right: the upper bound, if it is given, is the last
Sunday, or the Saturday after the first Sunday. -/
def DayRandomOk (t : RandomTexts) : Prop :=
  (t.start = [] ∨ ∃ a : Bound dowWords, a.text = t.start) ∧
    (t.stop = [] ∨ ∃ b : Bound dowWords, b.text = t.stop ∧
      (FieldItem.stopAt b = 7 ∨ FieldItem.stopAt b = 6 ∧
        (t.start = [] ∨ ∃ a : Bound dowWords, a.text = t.start ∧ a.value = 0)))

theorem drawItem_day {t : RandomTexts} {s e : Nat}
    (h : dowField.drawItem t.start t.stop = .ok (.draw s e)) :
    s ≤ e ∧ e ≤ 7 ∧ (t.start = [] → s = 0) ∧ (∀ a : Bound dowWords, a.text = t.start → s = a.value) ∧
      (t.stop = [] → e = 7) ∧
      ∀ b : Bound dowWords, b.text = t.stop → e = min (FieldItem.stopAt b + 1) 7 := by
  have hlen : dowField.values.length - 1 = 7 := by decide
  obtain ⟨hs0, hs, he0, he, hse, hle⟩ := drawItem_ok h
  rw [hlen] at he0 he hle
  refine ⟨hse, hle, hs0, fun a ha => ?_, he0, fun b hb => ?_⟩
  · rw [hs (ha ▸ a.text_ne_nil), ← ha, FieldItem.startIndex_day]
  · rw [he (hb ▸ b.text_ne_nil), ← hb, FieldItem.stopIndex_day]

/-- A `~` item of days of the week is read right exactly if it is refused or its bounds are the ones that
the code reads right. -/
theorem dowField_random (t : RandomTexts) : RandomRead dowField FieldItem.stopAt t ↔
    dowField.drawItem t.start t.stop = .error .range ∨ DayRandomOk t := by
  rw [randomRead_iff dowField_table]
  refine or_congr_right' fun hne => ?_
  obtain ⟨s, e, hd⟩ := (drawItem_cases dowField t.start t.stop).resolve_left hne
  obtain ⟨hse, he, hs0, hsa, he0, heb⟩ := drawItem_day hd
  have hval : ∀ i < 8, ∀ j < 8, dowField.values[i]? = dowField.values[j]? ↔ i % 7 = j % 7 := by decide
  have hsub : ∀ v, v - dowWords.lo = v := fun v => Nat.sub_zero v
  simp only [hsub]
  constructor
  · rintro ⟨s', e', lo, hi, hd', hb, hin, hall⟩
    rw [hd] at hd'
    cases hd'
    have hlow : s = lo := by
      rcases hb.lower with ⟨h, rfl⟩ | ⟨a, ha, rfl⟩
      · exact hs0 h
      · exact hsa a ha
    refine ⟨hb.lower.imp And.left fun ⟨a, ha, _⟩ => ⟨a, ha⟩, ?_⟩
    rcases hb.upper with ⟨h, -⟩ | ⟨b, hbt, hbv⟩
    · exact .inl h
    refine .inr ⟨b, hbt, ?_⟩
    have hstop := FieldItem.stopAt_le b
    have heb' := heb b hbt
    have hle := hb.le
    -- The last index that is drawn is a day of the interval.
    obtain ⟨v, hv1, hv2, hv⟩ := hin e hse le_rfl
    rw [hval e (by omega) v (by omega)] at hv
    by_cases h7 : FieldItem.stopAt b = 7
    · exact .inl h7
    · have h6 : FieldItem.stopAt b = 6 ∧ lo = 0 := by omega
      refine .inr ⟨h6.1, hb.lower.imp And.left fun ⟨a, ha, hav⟩ => ⟨a, ha, ?_⟩⟩
      rw [hav, h6.2]
  · rintro ⟨hlow, hup⟩
    have hlower : (t.start = [] ∧ s = dowWords.lo) ∨ ∃ a : Bound dowWords, a.text = t.start ∧ a.value = s := by
      rcases hlow with h | ⟨a, ha⟩
      · exact .inl ⟨h, hs0 h⟩
      · exact .inr ⟨a, ha, (hsa a ha).symm⟩
    have hlast : ∀ hi, hi = 7 → e = 7 → ((t.stop = [] ∧ hi = dowWords.hi) ∨
        ∃ b : Bound dowWords, b.text = t.stop ∧ FieldItem.stopAt b = hi) → ∃ s' e' lo hi,
        dowField.drawItem t.start t.stop = .ok (.draw s' e') ∧
        RandomBounds FieldItem.stopAt t lo hi ∧
        (∀ i, s' ≤ i → i ≤ e' → ∃ v, lo ≤ v ∧ v ≤ hi ∧ dowField.values[i]? = dowField.values[v]?) ∧
        ∀ v, lo ≤ v → v ≤ hi → ∃ i, s' ≤ i ∧ i ≤ e' ∧ dowField.values[i]? = dowField.values[v]? := by
      rintro hi rfl rfl hup
      exact ⟨s, 7, s, 7, hd, ⟨hlower, hup, hse⟩, fun i h1 h2 => ⟨i, h1, h2, rfl⟩,
        fun v h1 h2 => ⟨v, h1, h2, rfl⟩⟩
    rcases hup with h | ⟨b, hbt, h7 | ⟨h6, hzero⟩⟩
    · exact hlast 7 rfl (he0 h) (.inl ⟨h, rfl⟩)
    · exact hlast 7 rfl (by rw [heb b hbt, h7]; rfl) (.inr ⟨b, hbt, h7⟩)
    · have hs : s = 0 := by
        rcases hzero with h | ⟨a, ha, ha0⟩
        · exact hs0 h
        · rw [hsa a ha, ha0]
      have he7 : e = 7 := by rw [heb b hbt, h6]; rfl
      subst hs he7
      refine ⟨0, 7, 0, 6, hd, ⟨hlower, .inr ⟨b, hbt, h6⟩, by omega⟩, fun i _ h2 => ?_, fun v _ h2 => ?_⟩
      · exact ⟨i % 7, by omega, by omega, (hval i (by omega) _ (by omega)).2 (by omega)⟩
      · exact ⟨v, by omega, by omega, rfl⟩

/-! ### Months -/

/-- The bounds of months that are read right: a lower bound is given, and the upper bound, if it is
given, is December; but a number after a name is read as January. -/
def MonthRandomOk (t : RandomTexts) : Prop :=
  ∃ a : Bound monthWords, a.text = t.start ∧
    (t.stop = [] ∨ ∃ b : Bound monthWords, b.text = t.stop ∧
      if a.isNumber = false ∧ b.isNumber then a.value = 1 ∧ b.value = 1 else b.value = 12)

theorem value_month_le (b : Bound monthWords) : 1 ≤ b.value ∧ b.value ≤ 12 := by
  cases b with
  | number t n read range => exact range
  | name t i isName =>
    have : i < 12 := isName.lt
    simp only [Bound.value, monthWords]
    omega

theorem drawItem_month {t : RandomTexts} {s e : Nat}
    (h : monthField.drawItem t.start t.stop = .ok (.draw s e)) :
    s ≤ e ∧ e ≤ 11 ∧ (t.start = [] → s = 1) ∧ (t.stop = [] → e = 11) ∧
      ∀ a : Bound monthWords, a.text = t.start → s = a.value - 1 ∧
        ∀ b : Bound monthWords, b.text = t.stop →
          e = if a.isNumber = false ∧ b.isNumber then 0 else min b.value 11 := by
  have hlen : monthField.values.length - 1 = 11 := by decide
  have hmap : monthField.mapping = monthMap := rfl
  have hbase : monthField.base = 1 := rfl
  have hS := SIZE_eq
  have h10 : (if 1 = 0 then 1 else 0) = 0 := rfl
  obtain ⟨hs0, hs, he0, he, hse, hle⟩ := drawItem_ok h
  rw [hlen] at he0 he hle
  refine ⟨hse, hle, hs0, he0, fun a ha => ?_⟩
  have hav := value_month_le a
  have hstart : monthMap a.text false false = (a.value, !a.isNumber) := by
    cases a with
    | number t n read range => exact monthMap_number read range.2 _
    | name t i isName =>
      rw [Bound.text, monthMap_name isName]
      simp [Bound.value, Bound.isNumber, monthWords, Nat.add_comm]
  have hidx : monthField.startIndex a.text false = (a.value - 1, !a.isNumber) := by
    have hlo : (a.value + (SIZE - 1) + 0) % SIZE = a.value - 1 := by
      rw [show a.value + (SIZE - 1) + 0 = a.value - 1 + SIZE by omega, Nat.add_mod_right,
        Nat.mod_eq_of_lt (by omega)]
    simp only [TimeField.startIndex, hmap, hbase, hstart, h10, hlo]
  refine ⟨by rw [hs (ha ▸ a.text_ne_nil), ← ha, hidx], fun b hb => ?_⟩
  have hbv := value_month_le b
  rw [he (hb ▸ b.text_ne_nil), ← hb, ← ha, if_neg a.text_ne_nil, hidx]
  have hmod : (b.value + 0) % SIZE = b.value := Nat.mod_eq_of_lt (by omega)
  simp only [TimeField.stopIndex, hmap, hbase, h10]
  cases b with
  | name t i isName =>
    have hname : i + 1 = (Bound.name t i isName : Bound monthWords).value := Nat.add_comm ..
    simp only [Bound.text, monthMap_name isName, Bound.isNumber, Bool.false_eq_true, and_false, if_false,
      hname, hmod]
  | number t n read range =>
    cases ha' : a.isNumber with
    | true =>
      simp only [Bound.text, Bool.not_true, monthMap_number read range.2, Bool.true_eq_false, false_and,
        if_false]
      exact congrArg (min · 11) hmod
    | false =>
      simp only [Bound.text, Bool.not_false, monthMap_number_err read, Bound.isNumber, and_self, if_true]
      rfl

/-- A `~` item of months is read right exactly if it is refused or its bounds are the ones that the code
reads right. -/
theorem monthField_random (t : RandomTexts) : RandomRead monthField (Bound.value (W := monthWords)) t ↔
    monthField.drawItem t.start t.stop = .error .range ∨ MonthRandomOk t := by
  rw [randomRead_iff monthField_table]
  refine or_congr_right' fun hne => ?_
  obtain ⟨s, e, hd⟩ := (drawItem_cases monthField t.start t.stop).resolve_left hne
  obtain ⟨hse, he, hs0, he0, hab⟩ := drawItem_month hd
  have hval : ∀ i < 12, ∀ j < 12, monthField.values[i]? = monthField.values[j]? ↔ i = j := by decide
  have hsub : ∀ v, v - monthWords.lo = v - 1 := fun v => rfl
  simp only [hsub]
  constructor
  · rintro ⟨s', e', lo, hi, hd', hb, hin, hall⟩
    rw [hd] at hd'
    cases hd'
    have hlo : 1 ≤ lo ∧ lo ≤ 12 := by
      rcases hb.lower with ⟨-, rfl⟩ | ⟨a, -, rfl⟩
      · decide
      · exact value_month_le a
    have hhi : hi ≤ 12 := by
      rcases hb.upper with ⟨-, rfl⟩ | ⟨b, -, rfl⟩
      · decide
      · exact (value_month_le b).2
    have hle := hb.le
    -- The interval of indices is the interval of months.
    obtain ⟨v1, h1, h1', hv1⟩ := hin s le_rfl hse
    obtain ⟨v2, h2', h2, hv2⟩ := hin e hse le_rfl
    obtain ⟨i1, h3, h3', hi1⟩ := hall lo le_rfl hle
    obtain ⟨i2, h4', h4, hi2⟩ := hall hi hle le_rfl
    rw [hval _ (by omega) _ (by omega)] at hv1 hv2 hi1 hi2
    rcases hb.lower with ⟨h, rfl⟩ | ⟨a, ha, rfl⟩
    · have := hs0 h
      have hone : monthWords.lo = 1 := rfl
      omega
    refine ⟨a, ha, ?_⟩
    rcases hb.upper with ⟨h, -⟩ | ⟨b, hbt, rfl⟩
    · exact .inl h
    have heb := (hab a ha).2 b hbt
    refine .inr ⟨b, hbt, ?_⟩
    split at heb
    next hn => rw [if_pos hn]; omega
    next hn => rw [if_neg hn]; omega
  · rintro ⟨a, ha, hup⟩
    obtain ⟨hs, heb⟩ := hab a ha
    have hav := value_month_le a
    obtain ⟨hi, hupper, hlast, hle⟩ : ∃ hi, ((t.stop = [] ∧ hi = monthWords.hi) ∨
        ∃ b : Bound monthWords, b.text = t.stop ∧ b.value = hi) ∧ e + 1 = hi ∧ a.value ≤ hi := by
      rcases hup with h | ⟨b, hbt, hb⟩
      · exact ⟨12, .inl ⟨h, rfl⟩, by rw [he0 h], hav.2⟩
      · refine ⟨b.value, .inr ⟨b, hbt, rfl⟩, ?_⟩
        have := heb b hbt
        split at hb
        next hn => rw [if_pos hn] at this; omega
        next hn => rw [if_neg hn] at this; omega
    refine ⟨s, e, a.value, hi, hd, ⟨.inr ⟨a, ha, rfl⟩, hupper, hle⟩, fun i h1 h2 => ?_, fun v h1 h2 => ?_⟩
    · exact ⟨i + 1, by omega, by omega, rfl⟩
    · exact ⟨v - 1, by omega, by omega, rfl⟩

/-! ### All fields -/

/-- When the `~` items of each field are read right. -/
theorem random_fields (t : RandomTexts) :
    (RandomRead minuteField (Bound.value (W := minuteWords)) t ↔
      minuteField.drawItem t.start t.stop = .error .range ∨ NumberRandomOk minuteWords t) ∧
    (RandomRead hourField (Bound.value (W := hourWords)) t ↔
      hourField.drawItem t.start t.stop = .error .range ∨ NumberRandomOk hourWords t) ∧
    (RandomRead dayField (Bound.value (W := dayWords)) t ↔
      dayField.drawItem t.start t.stop = .error .range ∨ NumberRandomOk dayWords t) ∧
    (RandomRead dowField FieldItem.stopAt t ↔
      dowField.drawItem t.start t.stop = .error .range ∨ DayRandomOk t) ∧
    (RandomRead monthField (Bound.value (W := monthWords)) t ↔
      monthField.drawItem t.start t.stop = .error .range ∨ MonthRandomOk t) :=
  ⟨minute_number.randomRead_iff t, hour_number.randomRead_iff t, day_number.randomRead_iff t,
    dowField_random t, monthField_random t⟩

/-- The item `0~30`. -/
def halfHour : RandomTexts where
  start := lit "0"
  stop := lit "30"
  start_plain := by decide
  stop_plain := by decide

/-- The minutes `0~30` have a draw that chooses 31. -/
theorem random_fields_halfHour :
    ¬ (∀ t, RandomRead minuteField (Bound.value (W := minuteWords)) t) ∧
    (parsePeriod halfHour.text minuteField {} false fun _ => 31).map
      (fun p => (p.error, p.into.toList)) = .ok (none, [31]) := by
  refine ⟨fun h => ?_, by decide +kernel⟩
  rcases (minute_number.randomRead_iff halfHour).1 (h halfHour) with hd | ⟨-, hs | ⟨b, hb, hv⟩⟩
  · revert hd; decide
  · revert hs; decide
  · have hread : parseDecimal halfHour.stop = some 30 := by decide
    cases b with
    | number t n read range =>
      have ht : t = halfHour.stop := hb
      rw [ht, hread] at read
      cases read
      have h59 : 30 = 59 := hv
      omega
    | name t i isName => exact absurd isName.lt (Nat.not_lt_zero _)

end SystemdCron
