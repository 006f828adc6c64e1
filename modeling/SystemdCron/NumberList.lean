import SystemdCron.RandomField

/-!
# Fields of numbers

The fields of minutes, hours and days of the month against the grammar of crontab(5). Which texts the code
takes for an item is stated without its parser (`Tolerated`): its numbers are the numerals of `strtoull`,
and the end of a range is cut off at the end of the table. A field is then read exactly as the grammar says
where the two languages do not differ (`NumberField.exactlyRead_iff`).
-/

namespace SystemdCron

open Bytes

/-! ### Numbers -/

/-- A text that is read as a number: as a C string, it is blanks, a sign and digits, and the sign is no
minus sign if nothing is in front of it. -/
def LooseNumber (t : Bytes) (n : Nat) : Prop := IsLoose (cstr t) n ∧ t.head? ≠ some DASH

theorem parseUint_eq_iff {s : Bytes} {n : Nat} :
    parseUint s = { ok := true, out := some n } ↔ IsLoose s n ∧ s.head? ≠ some DASH := by
  rw [← strtoull_eq_iff]
  unfold parseUint
  by_cases h0 : s = []
  · simp [h0]
  by_cases hd : s.head? = some DASH
  · simp [h0, hd]
  rw [if_neg h0, if_neg hd]
  rcases strtoull s with ⟨value, rest, range⟩
  simp [h0, hd, and_comm]

theorem head?_cstr {t : Bytes} : (cstr t).head? = some DASH ↔ t.head? = some DASH := by
  cases t with
  | nil => rfl
  | cons x r =>
    by_cases hx : x = NUL
    · simp [cstr, hx, show NUL ≠ DASH by decide]
    · simp [cstr, hx]

theorem intMap_eq_iff {t : Bytes} {n : Nat} {stop : Bool} :
    intMap t false stop = (n, false) ↔ LooseNumber t n := by
  have h := parseUint_eq_iff (s := cstr t) (n := n)
  have hd : (cstr t).head? ≠ some DASH ↔ t.head? ≠ some DASH := head?_cstr.not
  rw [hd] at h
  unfold LooseNumber intMap
  rw [← h]
  have hstored : (parseUint (cstr t)).ok → (parseUint (cstr t)).out ≠ none := by
    unfold parseUint
    split_ifs <;> simp
  generalize parseUint (cstr t) = r at hstored
  obtain ⟨ok, - | m⟩ := r <;> cases ok <;> simp at hstored ⊢

theorem intMap_err {t : Bytes} {stop : Bool} : (intMap t true stop).2 = true := by simp [intMap]

/-! ### The items that the parser takes -/

/-- An item as the code takes it apart: a range and, after a slash, a step. -/
def ItemText (t range : Bytes) (step : Nat) : Prop :=
  (t = range ∧ SLASH ∉ range ∧ step = 1) ∨
    ∃ st, t = range ++ SLASH :: st ∧ SLASH ∉ range ∧ SLASH ∉ st ∧ LooseNumber st step

/-- A range as the code takes it apart: a text without a dash is both its ends. -/
def RangeText (range a b : Bytes) : Prop :=
  (DASH ∉ range ∧ a = range ∧ b = range) ∨ range = a ++ DASH :: b ∧ DASH ∉ a ∧ DASH ∉ b

/-- An item that the code takes: the last value of a range may be beyond those of the field. -/
def Tolerated (W : Vocabulary) (t : Bytes) : Prop :=
  ∃ range step, ItemText t range step ∧ 1 ≤ step ∧
    (range = [STAR] ∧ step < 2 ^ 63 ∨ range ≠ [STAR] ∧ ∃ a b m n, RangeText range a b ∧
      LooseNumber a m ∧ LooseNumber b n ∧ W.lo ≤ m ∧ m ≤ W.hi ∧ m ≤ n ∧ n + (1 - W.lo) < SIZE)

theorem ItemText.isPrefix {t range : Bytes} {step : Nat} (h : ItemText t range step) : range <+: t := by
  rcases h with ⟨rfl, -⟩ | ⟨st, rfl, -⟩
  · exact List.prefix_rfl
  · exact List.prefix_append _ _

theorem splitStep_eq_iff {t range : Bytes} {step : Nat} :
    splitStep t = .ok (range, step) ↔ ItemText t range step := by
  unfold splitStep ItemText
  constructor
  · intro h
    split at h
    next hs =>
      cases h
      exact .inl ⟨rfl, splitFirst_eq_none.1 hs, rfl⟩
    next a rest hs =>
      obtain ⟨rfl, ha⟩ := splitFirst_eq_some.1 hs
      split at h
      · cases h
      next hrest =>
      extract_lets r at h
      split at h
      · cases h
      next hr =>
        cases h
        exact .inr ⟨rest, rfl, ha, hrest, intMap_eq_iff.1 (Prod.ext rfl (Bool.eq_false_iff.2 hr))⟩
  · rintro (⟨rfl, hs, rfl⟩ | ⟨st, rfl, hrange, hst, hn⟩)
    · rw [splitFirst_eq_none.2 hs]
    · rw [splitFirst_eq_some.2 ⟨rfl, hrange⟩]
      simp [hst, intMap_eq_iff.2 hn]

theorem splitRange_eq_iff {range a b : Bytes} : splitRange range = .ok (a, b) ↔ RangeText range a b := by
  unfold splitRange RangeText
  constructor
  · intro h
    split at h
    next hs =>
      cases h
      exact .inl ⟨splitFirst_eq_none.1 hs, rfl, rfl⟩
    next x y hs =>
      obtain ⟨rfl, hx⟩ := splitFirst_eq_some.1 hs
      split at h
      · cases h
      next hy =>
        cases h
        exact .inr ⟨rfl, hx, hy⟩
  · rintro (⟨hs, rfl, rfl⟩ | ⟨rfl, ha, hb⟩)
    · rw [splitFirst_eq_none.2 hs]
    · rw [splitFirst_eq_some.2 ⟨rfl, ha⟩]
      simp [hb]

namespace NumberField

variable {W : Vocabulary} {F : TimeField Nat}

/-- The ranges that the code takes, and the indices that it counts through. -/
theorem spanItem_eq_iff (hF : NumberField F W) {a b : Bytes} {step : Nat} {it : Item} :
    F.spanItem a b step = .ok it ↔ ∃ m n, LooseNumber a m ∧ LooseNumber b n ∧ W.lo ≤ m ∧ m ≤ W.hi ∧
      m ≤ n ∧ n + (1 - W.lo) < SIZE ∧ it = .span (m - W.lo) (min n W.hi + 1 - W.lo) step := by
  have hlo := hF.lo_le
  have hhi := hF.hi_lt
  have hS := SIZE_eq
  have hlen : F.values.length = W.hi + 1 - W.lo := by rw [hF.values]; simp
  have hone : (if W.lo = 0 then 1 else 0) = 1 - W.lo := by split <;> omega
  -- The indices of numbers that are read.
  have hstart : ∀ m, m < SIZE →
      (m + (SIZE - 1) + (1 - W.lo)) % SIZE = if W.lo ≤ m then m - W.lo else SIZE - 1 := by
    intro m hm
    split
    next h =>
      rw [show m + (SIZE - 1) + (1 - W.lo) = m - W.lo + SIZE by omega, Nat.add_mod_right,
        Nat.mod_eq_of_lt (by omega)]
    next h => rw [Nat.mod_eq_of_lt (by omega)]; omega
  have hstop : ∀ n, n < SIZE →
      (n + (1 - W.lo)) % SIZE = if n + (1 - W.lo) < SIZE then n + (1 - W.lo) else 0 := by
    intro n hn
    split
    next h => exact Nat.mod_eq_of_lt h
    next h => rw [show n + (1 - W.lo) = SIZE by omega, Nat.mod_self]
  have hread : ∀ t stop, (intMap t false stop).2 = false → LooseNumber t (intMap t false stop).1 :=
    fun t stop h => intMap_eq_iff.1 (Prod.ext rfl h)
  unfold TimeField.spanItem TimeField.startIndex TimeField.stopIndex
  simp only [hF.mapping, hF.base, hone, hlen]
  constructor
  · intro h
    cases ha : (intMap a false false).2 with
    | true => simp [ha, intMap_err] at h
    | false =>
      cases hb : (intMap b false true).2 with
      | true => simp [ha, hb] at h
      | false =>
        have hma := intMap_lt a false false
        have hnb := intMap_lt b false true
        simp only [ha, hb, Bool.false_eq_true, if_false, hstart _ hma, hstop _ hnb] at h
        generalize hi : (if W.lo ≤ _ then _ else SIZE - 1) = i at h
        generalize hj : (if _ < SIZE then _ else 0) = j at h
        by_cases hlt : i < min j (W.hi + 1 - W.lo)
        · rw [if_pos hlt] at h
          cases h
          refine ⟨_, _, hread a _ ha, hread b _ hb, ?_⟩
          split at hi <;> split at hj
          · refine ⟨by omega, by omega, by omega, by omega, ?_⟩
            congr 1 <;> omega
          all_goals omega
        · rw [if_neg hlt] at h
          cases h
  · rintro ⟨m, n, ha, hb, h1, h2, h3, h4, rfl⟩
    have hn : n < SIZE := by omega
    rw [intMap_eq_iff.2 ha, intMap_eq_iff.2 hb]
    simp only [Bool.false_eq_true, if_false, hstart m (by omega), hstop n hn, if_pos h1, if_pos h4]
    rw [if_pos (by omega)]
    congr 2
    omega

/-- The code takes exactly these items. -/
theorem acceptsItem_iff (hF : NumberField F W) {t : Bytes} (ht : TILDE ∉ t) :
    F.acceptsItem t ↔ Tolerated W t := by
  rw [SystemdCron.acceptsItem_iff]
  unfold Tolerated TimeField.item
  constructor
  · rintro ⟨it, hit, hruns⟩
    split at hit
    · cases hit
    next range step hstep =>
    have htext := splitStep_eq_iff.1 hstep
    have htilde : TILDE ∉ range := fun h => ht (htext.isPrefix.subset h)
    split at hit
    next hstar =>
      cases hit
      exact ⟨range, step, htext, hruns.1, .inl ⟨hstar, hruns.2⟩⟩
    next hstar =>
      rw [splitFirst_eq_none.2 htilde] at hit
      dsimp only at hit
      split at hit
      · cases hit
      next a b hrange =>
        obtain ⟨m, n, ha, hb, h1, h2, h3, h4, rfl⟩ := hF.spanItem_eq_iff.1 hit
        exact ⟨range, step, htext, hruns,
          .inr ⟨hstar, a, b, m, n, splitRange_eq_iff.1 hrange, ha, hb, h1, h2, h3, h4⟩⟩
  · rintro ⟨range, step, htext, hpos, ⟨rfl, hlt⟩ | ⟨hstar, a, b, m, n, hrange, ha, hb, h1, h2, h3, h4⟩⟩
    · rw [splitStep_eq_iff.2 htext]
      exact ⟨_, if_pos rfl, hpos, hlt⟩
    · have htilde : TILDE ∉ range := fun h => ht (htext.isPrefix.subset h)
      rw [splitStep_eq_iff.2 htext]
      dsimp only
      rw [if_neg hstar, splitFirst_eq_none.2 htilde]
      dsimp only
      rw [splitRange_eq_iff.2 hrange]
      exact ⟨_, hF.spanItem_eq_iff.2 ⟨m, n, ha, hb, h1, h2, h3, h4, rfl⟩, hpos⟩

end NumberField

/-! ### Lists of numbers -/

namespace FieldItem

variable {W : Vocabulary}

/-- The values that an item stands for. -/
def Denotes (it : FieldItem W) (v : Nat) : Prop := Spans it.first it.last it.stepBy v

/-- The step is a number of its type, which is signed for `*`. -/
def StepFits (it : FieldItem W) : Prop := it.stepBy < SIZE ∧ (it.range = .star → it.stepBy < 2 ^ 63)

/-- The values that the code adds: those before the first that a step wraps around to. -/
def Strays (it : FieldItem W) (v : Nat) : Prop :=
  it.range ≠ .star ∧ W.lo ≤ v ∧ StepsBack it.first it.stepBy v

end FieldItem

/-- A list of items with commas in between, none of which ends before it starts. -/
structure NumberList (W : Vocabulary) (value : Bytes) (items : List (FieldItem W)) : Prop where
  tokens : tokens (· == COMMA) value = items.map FieldItem.text
  ne_nil : items ≠ []
  ordered : ∀ it ∈ items, it.first ≤ it.last

/-- The field is accepted exactly if it is a list of the grammar, and then has the values that the items
denote. -/
def ExactlyRead (F : TimeField Nat) (W : Vocabulary) (value : Bytes) (rng : Rng) : Prop :=
  ((∃ u, parseTimeUnit F value rng = .ok u ∧ u.error = none) ↔ ∃ items, NumberList W value items) ∧
  ∀ items u, NumberList W value items → parseTimeUnit F value rng = .ok u → u.error = none →
    ∀ v, u.Has F v ↔ ∃ it ∈ items, it.Denotes v

/-- The steps of a list fit their types, and what a step adds that wraps around is denoted by some item;
a text that is no list has an item that the code does not take. -/
def ExactWhen (W : Vocabulary) (value : Bytes) : Prop :=
  (∀ items, NumberList W value items → (∀ it ∈ items, it.StepFits) ∧
    ∀ it ∈ items, ∀ v, it.Strays v → ∃ it' ∈ items, it'.Denotes v) ∧
  ((∀ items, ¬ NumberList W value items) → ∃ t ∈ tokens (· == COMMA) value, ¬ Tolerated W t)

namespace NumberField

variable {W : Vocabulary} {F : TimeField Nat}

theorem plain (hF : NumberField F W) : W.Plain := ⟨by simp [hF.names]⟩

theorem bound (hF : NumberField F W) (b : Bound W) :
    LooseNumber b.text b.value ∧ W.lo ≤ b.value ∧ b.value ≤ W.hi :=
  ⟨intMap_eq_iff.1 (hF.intMap_bound b false).1, (hF.intMap_bound b false).2⟩

theorem first_mem (hF : NumberField F W) (it : FieldItem W) :
    W.lo ≤ it.first ∧ it.first ≤ W.hi ∧ it.last ≤ W.hi := by
  have := hF.hi_lt
  unfold FieldItem.first FieldItem.last
  cases it.range with
  | star => exact ⟨le_rfl, by dsimp only; omega, le_rfl⟩
  | single b => exact ⟨(hF.bound b).2.1, (hF.bound b).2.2, (hF.bound b).2.2⟩
  | fromTo a b => exact ⟨(hF.bound a).2.1, (hF.bound a).2.2, (hF.bound b).2.2⟩

/-- What the code takes from the text of an item. -/
theorem item_text (hF : NumberField F W) {it : FieldItem W} (hle : it.first ≤ it.last) :
    F.item it.text = if it.stepBy < SIZE then
      .ok (if it.range matches .star then .every it.stepBy
        else .span (it.first - W.lo) (it.last + 1 - W.lo) it.stepBy)
      else .error (.message (lit "/-skip not an integer")) := by
  have hlo := hF.lo_le
  have hhi := hF.hi_lt
  have hS := SIZE_eq
  have hspan : ∀ {a b : Bound W}, a.value ≤ b.value → F.spanItem a.text b.text it.stepBy =
      .ok (.span (a.value - W.lo) (b.value + 1 - W.lo) it.stepBy) := by
    intro a b hab
    obtain ⟨ha, ha'⟩ := hF.bound a
    obtain ⟨hb, hb'⟩ := hF.bound b
    refine hF.spanItem_eq_iff.2 ⟨_, _, ha, hb, ha'.1, ha'.2, hab, by omega, ?_⟩
    rw [min_eq_left hb'.2]
  rw [it.item_text hF.plain]
  congr 1
  unfold FieldItem.first FieldItem.last at hle ⊢
  cases hr : it.range with
  | star => rfl
  | single b => exact hspan le_rfl
  | fromTo a b => rw [hr] at hle; exact hspan hle

/-- An item is accepted if its step fits. -/
theorem acceptsItem_text (hF : NumberField F W) {it : FieldItem W} (hle : it.first ≤ it.last) :
    F.acceptsItem it.text ↔ it.StepFits := by
  have hpos := it.stepBy_pos
  rw [SystemdCron.acceptsItem_iff, hF.item_text hle]
  unfold FieldItem.StepFits
  by_cases hs : it.stepBy < SIZE
  · rw [if_pos hs]
    cases hr : it.range with
    | star => simp [Item.Runs, hs, hpos]
    | single b | fromTo a b => simp [Item.Runs, hs, hpos]
  · simp [hs]

/-- The indices that an accepted item reads. -/
theorem reads_text (hF : NumberField F W) {it : FieldItem W} (hle : it.first ≤ it.last) (hs : it.StepFits)
    (i : Nat) : F.Reads it.text i ↔ it.Denotes (i + W.lo) ∨ it.Strays (i + W.lo) := by
  have hlo := hF.lo_le
  have hhi := hF.hi_lt
  have hlen : F.values.length = W.hi + 1 - W.lo := by rw [hF.values]; simp
  have hfirst := hF.first_mem it
  have hitem := hF.item_text hle
  rw [if_pos hs.1] at hitem
  have hreads : F.Reads it.text i ↔ Item.Visits (W.hi + 1 - W.lo) (fun _ => 0)
      (if it.range matches .star then .every it.stepBy
        else .span (it.first - W.lo) (it.last + 1 - W.lo) it.stepBy) i := by
    unfold TimeField.Reads
    rw [hlen]
    exact ⟨by rintro ⟨c, hc, hv⟩; rw [hitem] at hc; cases hc; exact hv, fun hv => ⟨_, hitem, hv⟩⟩
  have hspan : Stride.Visited SIZE (it.first - W.lo) (it.last + 1 - W.lo) it.stepBy i ↔
      it.Denotes (i + W.lo) ∨ W.lo ≤ i + W.lo ∧ StepsBack it.first it.stepBy (i + W.lo) := by
    unfold FieldItem.Denotes Spans StepsBack
    rw [show it.last + 1 - W.lo = it.last - W.lo + 1 by omega, visited_iff]
    unfold Spans StepsBack
    rw [show i + W.lo - it.first = i - (it.first - W.lo) by omega,
      show it.first - (i + W.lo) = it.first - W.lo - i by omega]
    constructor
    · rintro (⟨-, h1, h2, h3⟩ | rfl | ⟨h1, h2⟩)
      · exact .inl ⟨by omega, by omega, h3⟩
      · exact .inl ⟨by omega, by omega, by simp⟩
      · exact .inr ⟨by omega, by omega, h2⟩
    · rintro (⟨h1, h2, h3⟩ | ⟨-, h1, h2⟩)
      · exact .inl ⟨by omega, by omega, by omega, h3⟩
      · exact .inr (.inr ⟨by omega, h2⟩)
  rw [hreads]
  unfold FieldItem.Strays
  cases hr : it.range with
  | star =>
    have hf : it.first = W.lo ∧ it.last = W.hi := by simp [FieldItem.first, FieldItem.last, hr]
    unfold FieldItem.Denotes Spans
    rw [hf.1, hf.2, Nat.add_sub_cancel]
    change i < W.hi + 1 - W.lo ∧ it.stepBy ∣ i ↔ _
    constructor
    · rintro ⟨h1, h2⟩
      exact .inl ⟨by omega, by omega, h2⟩
    · rintro (⟨-, h1, h2⟩ | ⟨h, -⟩)
      · exact ⟨by omega, h2⟩
      · exact absurd rfl h
  | single b => simpa [Item.Visits] using hspan
  | fromTo a b => simpa [Item.Visits] using hspan

/-- The values of a list of accepted items. -/
theorem has_list (hF : NumberField F W) {value : Bytes} {items : List (FieldItem W)}
    (hl : NumberList W value items) (hs : ∀ it ∈ items, it.StepFits) (rng : Rng) :
    ∃ u, parseTimeUnit F value rng = .ok u ∧ u.error = none ∧
      ∀ v, u.Has F v ↔ ∃ it ∈ items, it.Denotes v ∨ it.Strays v := by
  have hlo := hF.lo_le
  have hhi := hF.hi_lt
  have hlen : F.values.length = W.hi + 1 - W.lo := by rw [hF.values]; simp
  have htokens : softTokenise (· == COMMA) value = items.map FieldItem.text := by
    rw [softTokenise_eq, hl.tokens]
  have hplain : ∀ t ∈ softTokenise (· == COMMA) value, F.Plain t := by
    rw [htokens]
    intro t ht
    obtain ⟨it, hit, rfl⟩ := List.mem_map.1 ht
    have hle := hl.ordered it hit
    obtain ⟨c, hc, hruns⟩ := SystemdCron.acceptsItem_iff.1 ((hF.acceptsItem_text hle).2 (hs it hit))
    refine ⟨c, hc, hruns, ?_⟩
    rw [hF.item_text hle, if_pos (hs it hit).1] at hc
    cases hc
    split <;> rfl
  obtain ⟨u, hu, he, -, -, hhas⟩ := parseTimeUnit_plain hF.table hplain rng
  refine ⟨u, hu, he, fun v => ?_⟩
  rw [hhas, htokens]
  constructor
  · rintro ⟨t, ht, i, hr, hval⟩
    obtain ⟨it, hit, rfl⟩ := List.mem_map.1 ht
    have hi : i < F.values.length := (List.getElem?_eq_some_iff.1 hval).1
    rw [hF.getElem?_values (by omega)] at hval
    cases hval
    exact ⟨it, hit, (hF.reads_text (hl.ordered it hit) (hs it hit) i).1 hr⟩
  · rintro ⟨it, hit, h⟩
    have hfirst := hF.first_mem it
    obtain ⟨i, rfl, hi⟩ : ∃ i, v = i + W.lo ∧ i < W.hi + 1 - W.lo := by
      rcases h with ⟨h1, h2, -⟩ | ⟨-, h1, h2, -⟩ <;> exact ⟨v - W.lo, by omega, by omega⟩
    exact ⟨it.text, List.mem_map_of_mem hit, i,
      (hF.reads_text (hl.ordered it hit) (hs it hit) i).2 h, hF.getElem?_values hi⟩

/-- **Fields of numbers** are read exactly as the grammar says under the condition that `ExactWhen` is. -/
theorem exactlyRead_iff (hF : NumberField F W) {value : Bytes} (ht : TILDE ∉ value) (rng : Rng) :
    ExactlyRead F W value rng ↔ ExactWhen W value := by
  have htilde : ∀ t ∈ tokens (· == COMMA) value, TILDE ∉ t :=
    fun t h hc => ht (mem_of_mem_tokens h hc)
  -- The field is accepted if all its items are taken.
  have haccepts : (∃ u, parseTimeUnit F value rng = .ok u ∧ u.error = none) ↔
      ∀ t ∈ tokens (· == COMMA) value, Tolerated W t := by
    rw [← accepts_iff hF.table]
    constructor
    · intro h t hmem
      rw [← softTokenise_eq] at hmem
      exact (hF.acceptsItem_iff (htilde t (by rwa [← softTokenise_eq]))).1 (acceptsItem_of_accepts h t hmem)
    · intro h
      simp only [TimeField.accepts, Bool.or_eq_true, softTokenise_eq]
      exact .inr (List.all_eq_true.2 fun t hmem => (hF.acceptsItem_iff (htilde t hmem)).2 (h t hmem))
  unfold ExactlyRead ExactWhen
  constructor
  · rintro ⟨hiff, hset⟩
    refine ⟨fun items hl => ?_, fun hn => ?_⟩
    · have hacc := haccepts.1 (hiff.2 ⟨items, hl⟩)
      have hs : ∀ it ∈ items, it.StepFits := by
        intro it hit
        have hmem : it.text ∈ tokens (· == COMMA) value := by
          rw [hl.tokens]
          exact List.mem_map_of_mem hit
        rw [← hF.acceptsItem_text (hl.ordered it hit), hF.acceptsItem_iff (htilde _ hmem)]
        exact hacc _ hmem
      refine ⟨hs, fun it hit v hv => ?_⟩
      obtain ⟨u, hu, he, hhas⟩ := hF.has_list hl hs rng
      exact (hset items u hl hu he v).1 ((hhas v).2 ⟨it, hit, .inr hv⟩)
    · by_contra hall
      push Not at hall
      obtain ⟨items, hl⟩ := hiff.1 (haccepts.2 hall)
      exact hn items hl
  · rintro ⟨hlist, hother⟩
    refine ⟨⟨fun h => ?_, ?_⟩, fun items u hl hu _ v => ?_⟩
    · by_contra hn
      push Not at hn
      obtain ⟨t, hmem, htol⟩ := hother hn
      exact htol (haccepts.1 h t hmem)
    · rintro ⟨items, hl⟩
      obtain ⟨u, hu, he, -⟩ := hF.has_list hl (hlist items hl).1 rng
      exact ⟨u, hu, he⟩
    · obtain ⟨hs, hstray⟩ := hlist items hl
      obtain ⟨u', hu', -, hhas⟩ := hF.has_list hl hs rng
      rw [hu] at hu'
      cases hu'
      rw [hhas]
      constructor
      · rintro ⟨it, hit, h | h⟩
        · exact ⟨it, hit, h⟩
        · exact hstray it hit v h
      · rintro ⟨it, hit, h⟩
        exact ⟨it, hit, .inl h⟩

end NumberField

/-- **The minutes, the hours and the days of the month** without a `~` are read exactly as the grammar says
if and only if the steps fit their types, add nothing by wrapping around, and a text that is not in the
grammar has an item that the code does not take either. -/
theorem number_fields_exact {value : Bytes} (ht : TILDE ∉ value) (rng : Rng) :
    (ExactlyRead minuteField minuteWords value rng ↔ ExactWhen minuteWords value) ∧
    (ExactlyRead hourField hourWords value rng ↔ ExactWhen hourWords value) ∧
    (ExactlyRead dayField dayWords value rng ↔ ExactWhen dayWords value) :=
  ⟨minute_number.exactlyRead_iff ht rng, hour_number.exactlyRead_iff ht rng,
    day_number.exactlyRead_iff ht rng⟩

theorem number_fields_exact_half :
    (ExactlyRead minuteField minuteWords (lit "*/30") (fun _ => 0) ↔ ExactWhen minuteWords (lit "*/30")) ∧
    (ExactlyRead hourField hourWords (lit "*/30") (fun _ => 0) ↔ ExactWhen hourWords (lit "*/30")) ∧
    (ExactlyRead dayField dayWords (lit "*/30") (fun _ => 0) ↔ ExactWhen dayWords (lit "*/30")) :=
  number_fields_exact (by decide) fun _ => 0

/-- The text `50-99` is no item of a list of minutes. -/
theorem text_ne_beyond (it : FieldItem minuteWords) : it.text ≠ lit "50-99" := by
  intro h
  have hslash : SLASH ∉ it.text := by rw [h]; decide
  have hdash : DASH ∈ it.text := by rw [h]; decide
  obtain ⟨range, step⟩ := it
  cases step with
  | some s => exact hslash (by simp [FieldItem.text])
  | none =>
    have hrange : range.text = lit "50-99" := h
    cases range with
    | star => revert hrange; decide
    | single b => exact b.notMem_text minute_number.plain (by decide) hdash
    | fromTo a b =>
      -- The text after the dash is that of the upper bound.
      have hsplit : splitFirst DASH (lit "50-99") = some (a.text, b.text) :=
        splitFirst_eq_some.2 ⟨hrange.symm, a.notMem_text minute_number.plain (by decide)⟩
      have hb : b.text = lit "99" := (congrArg Prod.snd (Option.some.inj hsplit)).symm
      obtain ⟨hval, -, hle⟩ := minute_number.intMap_bound b false
      rw [hb] at hval
      have h99 : b.value = 99 := (congrArg Prod.fst hval).symm
      have hhi : minuteWords.hi = 59 := rfl
      omega

/-- The minutes `50-99` are accepted, though there is no minute 99. -/
theorem number_fields_exact_beyond : ¬ ∀ (value : Bytes) (rng : Rng), TILDE ∉ value →
    ExactlyRead minuteField minuteWords value rng := by
  intro h
  obtain ⟨hiff, -⟩ := h (lit "50-99") (fun _ => 0) (by decide)
  obtain ⟨items, hl⟩ := hiff.1 ((accepts_iff minuteField_table _ _).1 (by decide +kernel))
  have htokens : items.map FieldItem.text = [lit "50-99"] := hl.tokens.symm.trans (by decide)
  obtain ⟨it, -, hit⟩ := List.mem_map.1 (htokens ▸ List.mem_singleton_self _)
  exact text_ne_beyond it hit

end SystemdCron
