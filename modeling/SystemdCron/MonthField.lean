import SystemdCron.FieldWords

/-!
# Lists of months

What `parse_time_unit` makes of the lists of months that crontab(5) describes. A name of a month is never
accepted: `int_map` sets the error flag that `month_map` shares with its caller.
-/

namespace SystemdCron

open Bytes

/-- Once the error flag is set it stays set. -/
theorem monthMap_err (t : Bytes) (stop : Bool) : (monthMap t true stop).2 = true := by
  simp only [monthMap, intMap, Bool.true_or]
  split
  · simp at *
  · split <;> rfl

theorem monthMap_number {t : Bytes} {n : Nat} (h : parseDecimal t = some n) (hn : n ≤ 12) (stop : Bool) :
    monthMap t false stop = (n, false) := by
  have hlt : n < SIZE := hn.trans_lt (by decide)
  unfold monthMap
  simp only [intMap_number h, if_pos hlt]
  rfl

/-- A number after an error is looked up as a name. -/
theorem monthMap_number_err {t : Bytes} {n : Nat} (h : parseDecimal t = some n) (stop : Bool) :
    monthMap t true stop = (0, true) := by
  have hnone := @findIdx?_number _ _ h MONTHS (by decide +kernel)
  simp only [monthMap, intMap, Bool.true_or, Bool.not_true, Bool.false_eq_true, if_false, hnone]

theorem monthMap_name {t : Bytes} {i : Nat} (h : monthWords.IsName t i) (err stop : Bool) :
    monthMap t err stop = (i + 1, true) := by
  have hint : ∀ err, (intMap t err stop).2 = true := fun err => intMap_name monthWords_plain h err stop
  obtain ⟨name, hname, htake⟩ := h.take
  have hfind : ∀ i < 12, ∀ name ∈ monthWords.names[i]?, MONTHS.findIdx? (· == name.take 3) = some i := by
    decide
  unfold monthMap
  simp only [hint, Bool.not_true, Bool.false_eq_true, if_false, htake, hfind i h.lt name hname]

/-- A range with a name in it is refused. -/
theorem monthField_span {a b : Bound monthWords} (step : Nat) :
    monthField.spanItem a.text b.text step =
      if a.isNumber ∧ b.isNumber ∧ a.value ≤ b.value then .ok (.span (a.value - 1) b.value step)
      else .error .range := by
  have hmap : monthField.mapping = monthMap := rfl
  have hbase : monthField.base = 1 := rfl
  have hlen : monthField.values.length = 12 := by decide
  have hS := SIZE_eq
  unfold TimeField.spanItem TimeField.startIndex TimeField.stopIndex
  rw [hmap, hbase, hlen]
  cases a with
  | name t i isName =>
    simp [Bound.text, Bound.isNumber, monthMap_name isName, monthMap_err]
  | number t n read range =>
    have hn : 1 ≤ n ∧ n ≤ 12 := range
    cases b with
    | name t' i isName =>
      simp [Bound.text, Bound.isNumber, monthMap_name isName]
    | number t' n' read' range' =>
      have hn' : 1 ≤ n' ∧ n' ≤ 12 := range'
      have hlo : (n + (SIZE - 1) + 0) % SIZE = n - 1 := by
        rw [show n + (SIZE - 1) + 0 = n - 1 + SIZE by omega, Nat.add_mod_right,
          Nat.mod_eq_of_lt (by omega)]
      have hhi : min ((n' + 0) % SIZE) 12 = n' := by
        rw [Nat.add_zero, Nat.mod_eq_of_lt (by omega)]
        omega
      have h10 : (if 1 = 0 then 1 else 0) = 0 := rfl
      simp only [Bound.text, Bound.isNumber, Bound.value, monthMap_number read hn.2,
        monthMap_number read' hn'.2, h10, hlo, hhi, true_and, Bool.false_eq_true, if_false]
      by_cases hle : n ≤ n'
      · rw [if_pos hle, if_pos (by omega)]
      · rw [if_neg hle, if_neg (by omega)]

namespace FieldItem

/-- The months that an item denotes. -/
def DenotesMonth (it : FieldItem monthWords) (v : Nat) : Prop := Spans it.first it.last it.stepBy v

/-- An item that is accepted as a list of months: it has no name, does not end before it starts, and
its step is a number of the type, which is signed for `*`. -/
def MonthAccepted (it : FieldItem monthWords) : Prop :=
  it.stepBy < SIZE ∧
    match it.range with
    | .star => it.stepBy < 2 ^ 63
    | .single b => b.isNumber
    | .fromTo a b => a.isNumber ∧ b.isNumber ∧ a.value ≤ b.value

/-- The months that the code adds: those before the first that a step wraps around to. -/
def StraysMonth (it : FieldItem monthWords) (v : Nat) : Prop :=
  it.range ≠ .star ∧ 1 ≤ v ∧ StepsBack it.first it.stepBy v

theorem value_month {b : Bound monthWords} (h : b.isNumber) : 1 ≤ b.value ∧ b.value ≤ 12 := by
  cases b with
  | number t n read range => exact range
  | name t i isName => cases h

theorem first_month {it : FieldItem monthWords} (h : it.MonthAccepted) : 1 ≤ it.first := by
  obtain ⟨-, h⟩ := h
  unfold first
  cases hr : it.range with
  | star => exact le_rfl
  | single b => rw [hr] at h; exact (value_month h).1
  | fromTo a b => rw [hr] at h; exact (value_month h.1).1

/-- The item that the code takes from an accepted one. -/
theorem item_month {it : FieldItem monthWords} (h : it.MonthAccepted) : monthField.item it.text = .ok
    (if it.range matches .star then .every it.stepBy else .span (it.first - 1) it.last it.stepBy) := by
  obtain ⟨hs, h⟩ := h
  rw [it.item_text monthWords_plain, if_pos hs]
  cases hr : it.range with
  | star => rfl
  | single b =>
    rw [hr] at h
    have hb : b.isNumber := h
    simp only [monthField_span, first, last, hr]
    rw [if_pos ⟨hb, hb, le_rfl⟩]
    rfl
  | fromTo a b =>
    rw [hr] at h
    have hab : a.isNumber ∧ b.isNumber ∧ a.value ≤ b.value := h
    simp only [monthField_span, first, last, hr]
    rw [if_pos hab]
    rfl

/-- The code accepts exactly these items. -/
theorem acceptsItem_month {it : FieldItem monthWords} : monthField.acceptsItem it.text ↔ it.MonthAccepted := by
  refine ⟨fun hacc => ?_, fun h => acceptsItem_iff.2 ⟨_, item_month h, ?_⟩⟩
  · obtain ⟨c, hc, hruns⟩ := acceptsItem_iff.1 hacc
    rw [it.item_text monthWords_plain] at hc
    split at hc
    next hs =>
      refine ⟨hs, ?_⟩
      cases hr : it.range with
      | star => rw [hr] at hc; cases hc; exact hruns.2
      | single b =>
        simp only [hr, monthField_span] at hc
        split at hc
        next hb => exact hb.1
        next => cases hc
      | fromTo a b =>
        simp only [hr, monthField_span] at hc
        split at hc
        next hb => exact hb
        next => cases hc
    next => cases hc
  · have hpos := it.stepBy_pos
    obtain ⟨hs, h⟩ := h
    cases hr : it.range with
    | star => rw [hr] at h; exact ⟨hpos, h⟩
    | single b => exact hpos
    | fromTo a b => exact hpos

/-- An accepted item reads the months that it denotes, and those it strays to. -/
theorem reads_month {it : FieldItem monthWords} (h : it.MonthAccepted) (i : Nat) :
    monthField.Reads it.text i ↔ it.DenotesMonth (i + 1) ∨ it.StraysMonth (i + 1) := by
  have hlen : monthField.values.length = 12 := by decide
  have hitem := item_month h
  have hreads : monthField.Reads it.text i ↔
      Item.Visits 12 (fun _ => 0)
        (if it.range matches .star then .every it.stepBy else .span (it.first - 1) it.last it.stepBy) i := by
    unfold TimeField.Reads
    rw [hlen]
    exact ⟨by rintro ⟨c, hc, hv⟩; rw [hitem] at hc; cases hc; exact hv, fun hv => ⟨_, hitem, hv⟩⟩
  rw [hreads]
  have hspan : ∀ {a b : Nat}, 1 ≤ a → a ≤ b →
      (Stride.Visited SIZE (a - 1) b it.stepBy i ↔
        Spans a b it.stepBy (i + 1) ∨ 1 ≤ i + 1 ∧ StepsBack a it.stepBy (i + 1)) := by
    intro a b ha hab
    obtain ⟨a, rfl⟩ : ∃ a', a = a' + 1 := ⟨a - 1, by omega⟩
    obtain ⟨b, rfl⟩ : ∃ b', b = b' + 1 := ⟨b - 1, by omega⟩
    rw [Nat.add_sub_cancel, visited_iff]
    unfold Spans StepsBack
    simp only [Nat.add_le_add_iff_right, Nat.add_lt_add_iff_right, Nat.add_sub_add_right]
    constructor
    · rintro (h | rfl | h)
      · exact .inl h.2
      · exact .inl ⟨le_rfl, by omega, by simp⟩
      · exact .inr ⟨by omega, h⟩
    · rintro (h | h)
      · exact .inl ⟨by omega, h⟩
      · exact .inr (.inr h.2)
  obtain ⟨-, h⟩ := h
  unfold DenotesMonth StraysMonth first last
  cases hr : it.range with
  | star =>
    change i < 12 ∧ it.stepBy ∣ i ↔ (1 ≤ i + 1 ∧ i + 1 ≤ 12 ∧ it.stepBy ∣ i + 1 - 1) ∨ _
    simp
  | single b =>
    rw [hr] at h
    have hb := value_month h
    simpa [Item.Visits] using hspan hb.1 le_rfl
  | fromTo a b =>
    rw [hr] at h
    have ha := value_month h.1
    simpa [Item.Visits] using hspan ha.1 h.2.2

end FieldItem

/-- Every item is accepted, and the months that are added are denoted by some item. -/
def MonthListOk (items : List (FieldItem monthWords)) : Prop :=
  (∀ it ∈ items, it.MonthAccepted) ∧
    ∀ it ∈ items, ∀ v, it.StraysMonth v → ∃ it' ∈ items, it'.DenotesMonth v

/-- The field is accepted, and its values are the months that its items denote. -/
def MonthListRead (value : Bytes) (items : List (FieldItem monthWords)) (rng : Rng) : Prop :=
  ∃ u, parseTimeUnit monthField value rng = .ok u ∧ u.error = none ∧
    ∀ v, u.Has monthField v ↔ ∃ it ∈ items, it.DenotesMonth v

/-- The values of a list of accepted items. -/
theorem has_month {value : Bytes} {items : List (FieldItem monthWords)}
    (hv : softTokenise (· == COMMA) value = items.map FieldItem.text)
    (hacc : ∀ it ∈ items, it.MonthAccepted) (rng : Rng) :
    ∃ u, parseTimeUnit monthField value rng = .ok u ∧ u.error = none ∧
      ∀ v, u.Has monthField v ↔ ∃ it ∈ items, it.DenotesMonth v ∨ it.StraysMonth v := by
  have hplain : ∀ t ∈ softTokenise (· == COMMA) value, monthField.Plain t := by
    rw [hv]
    intro t ht
    obtain ⟨it, hit, rfl⟩ := List.mem_map.1 ht
    have hruns := acceptsItem_iff.1 (FieldItem.acceptsItem_month.2 (hacc it hit))
    obtain ⟨c, hc, hr⟩ := hruns
    refine ⟨c, hc, hr, ?_⟩
    rw [FieldItem.item_month (hacc it hit)] at hc
    cases hc
    split <;> rfl
  obtain ⟨u, hu, he, -, -, hhas⟩ := parseTimeUnit_plain monthField_table hplain rng
  refine ⟨u, hu, he, fun v => ?_⟩
  have hlt : ∀ {t i}, monthField.Reads t i → i < 12 := by
    rintro t i ⟨c, hc, hvis⟩
    exact (TimeField.item_fits monthField_table hc).lt hvis
  have hvalue : ∀ i < 12, monthField.values[i]? = some (i + 1) := by decide +kernel
  rw [hhas, hv]
  constructor
  · rintro ⟨t, ht, i, hr, hval⟩
    obtain ⟨it, hit, rfl⟩ := List.mem_map.1 ht
    rw [hvalue i (hlt hr)] at hval
    cases hval
    exact ⟨it, hit, (FieldItem.reads_month (hacc it hit) i).1 hr⟩
  · rintro ⟨it, hit, h⟩
    obtain ⟨i, rfl⟩ : ∃ i, v = i + 1 := by
      have hpos : 1 ≤ v := by
        rcases h with h | h
        · exact (FieldItem.first_month (hacc it hit)).trans h.1
        · exact h.2.1
      exact ⟨v - 1, by omega⟩
    have hr := (FieldItem.reads_month (hacc it hit) i).2 h
    exact ⟨it.text, List.mem_map_of_mem hit, i, hr, hvalue i (hlt hr)⟩

/-- A list of month items is read as what it denotes exactly if no item has a name or ends before it
starts, no step is too large, and what a step that wraps around adds is denoted by some item. -/
theorem monthField_list {value : Bytes} {items : List (FieldItem monthWords)}
    (hv : softTokenise (· == COMMA) value = items.map FieldItem.text) :
    (∀ rng, MonthListRead value items rng) ↔ MonthListOk items := by
  constructor
  · intro h
    obtain ⟨u, hu, he, hhas⟩ := h fun _ => 0
    have hacc : ∀ it ∈ items, it.MonthAccepted := by
      have := acceptsItem_of_accepts ((accepts_iff monthField_table value _).2 ⟨u, hu, he⟩)
      rw [hv] at this
      exact fun it hit => FieldItem.acceptsItem_month.1 (this _ (List.mem_map_of_mem hit))
    refine ⟨hacc, fun it hit v hs => ?_⟩
    obtain ⟨u', hu', -, hhas'⟩ := has_month hv hacc fun _ => 0
    rw [hu] at hu'
    cases hu'
    exact (hhas v).1 ((hhas' v).2 ⟨it, hit, .inr hs⟩)
  · rintro ⟨hacc, hstray⟩ rng
    obtain ⟨u, hu, he, hhas⟩ := has_month hv hacc rng
    refine ⟨u, hu, he, fun v => (hhas v).trans ⟨?_, ?_⟩⟩
    · rintro ⟨it, hit, h | h⟩
      · exact ⟨it, hit, h⟩
      · exact hstray it hit v h
    · rintro ⟨it, hit, h⟩
      exact ⟨it, hit, .inl h⟩

/-- The month `jan`. -/
def january : FieldItem monthWords where
  range := .single (.name (lit "jan") 0 ⟨by decide, _, rfl, by decide⟩)
  step := none

/-- The month `jan` is refused. -/
theorem monthField_january : ¬ ∀ (value : Bytes) (items : List (FieldItem monthWords)) (rng : Rng),
    softTokenise (· == COMMA) value = items.map FieldItem.text → MonthListRead value items rng := by
  intro h
  obtain ⟨u, hu, he, -⟩ := h (lit "jan") [january] (fun _ => 0) (by decide)
  have hacc := (accepts_iff monthField_table _ _).2 ⟨u, hu, he⟩
  revert hacc
  decide +kernel

theorem parseDecimal_one : parseDecimal (lit "1") = some 1 := by decide
theorem parseDecimal_two : parseDecimal (lit "2") = some 2 := by decide
theorem parseDecimal_five : parseDecimal (lit "5") = some 5 := by decide
theorem two_pos : 1 ≤ 2 := by decide

/-- The months `3,1-5/2`. -/
def oddMonths : List (FieldItem monthWords) :=
  [⟨.single (.number (lit "3") 3 (by decide) (by decide)), none⟩,
   ⟨.fromTo (.number (lit "1") 1 parseDecimal_one (by decide)) (.number (lit "5") 5 parseDecimal_five (by decide)),
    some ⟨lit "2", 2, parseDecimal_two, two_pos⟩⟩]

theorem monthField_list_odd :
    (∀ rng, MonthListRead (lit "3,1-5/2") oddMonths rng) ↔ MonthListOk oddMonths :=
  monthField_list (by decide)

end SystemdCron
