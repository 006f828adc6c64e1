import SystemdCron.FieldWords
import SystemdCron.Lib.OnCalendar

/-!
# Lists of days of the week

What `parse_time_unit` makes of the lists of weekdays that crontab(5) describes. Sunday has two places in
the table: `sun` as an item of its own is the range from the one to the other, and the numbers 7 at the
start of a range and 0 at its end stand for the other place than they should.
-/

namespace SystemdCron

open Bytes OnCalendar

/-- The day at a position of the table. -/
def dayAt (p : Nat) : Weekday := (Weekday.all[p % 7]?).getD .sun

theorem dowMap_number {t : Bytes} {n : Nat} (h : parseDecimal t = some n) (hn : n ≤ 7) (err stop : Bool) :
    dowMap t err stop = (n, err) := by
  have hlt : n < SIZE := hn.trans_lt (by decide)
  have hnone : ∀ skip, (DOWS.drop skip).findIdx? (· == (t.take 3).map toLower) = none := by
    have hlower : ∀ d ∈ DOWS, ∀ c ∈ d, isLower c := by decide +kernel
    exact fun skip => findIdx?_number h fun d hd => hlower d (List.mem_of_mem_drop hd)
  unfold dowMap
  simp only [hnone]
  rw [intMap_number h, if_pos hlt]

/-- At the end of a range Sunday is the last entry of the table. -/
theorem dowMap_name {t : Bytes} {i : Nat} (h : dowWords.IsName t i) (err stop : Bool) :
    dowMap t err stop = (if stop ∧ i = 0 then 7 else i, err) := by
  obtain ⟨name, hname, htake⟩ := h.take
  have hstart : ∀ i < 7, ∀ name ∈ dowWords.names[i]?,
      DOWS.findIdx? (· == name.take 3) = some i := by decide
  have hstop : ∀ i < 7, ∀ name ∈ dowWords.names[i]?,
      (DOWS.drop 1).findIdx? (· == name.take 3) = some (if i = 0 then 6 else i - 1) := by decide
  unfold dowMap
  cases stop with
  | false =>
    simp [htake, hstart i h.lt name hname]
  | true =>
    simp only [htake, if_true, hstop i h.lt name hname, true_and]
    split <;> simp; omega

namespace FieldItem

/-- The position of the table that a bound of a range is mapped to at its end. -/
def stopAt (b : Bound dowWords) : Nat := if b.isNumber = false ∧ b.value = 0 then 7 else b.value

/-- The position of the first day of an item: a range that starts with Sunday starts with 0. -/
def firstDay (it : FieldItem dowWords) : Nat :=
  match it.range with
  | .star => 0
  | .single b => b.value % 7
  | .fromTo a _ => a.value % 7

/-- The position of the last day of an item: a range that ends with Sunday ends with 7. -/
def lastDay (it : FieldItem dowWords) : Nat :=
  match it.range with
  | .star => 7
  | .single b => b.value % 7
  | .fromTo _ b => if b.value % 7 = 0 then 7 else b.value

/-- The days that an item denotes. -/
def DenotesDay (it : FieldItem dowWords) (d : Weekday) : Prop :=
  ∃ p, Spans it.firstDay it.lastDay it.stepBy p ∧ dayAt p = d

/-- An item that is accepted as a list of weekdays. -/
def DayAccepted (it : FieldItem dowWords) : Prop :=
  it.stepBy < SIZE ∧
    match it.range with
    | .star => it.stepBy < 2 ^ 63
    | .single _ => True
    | .fromTo a b => a.value ≤ stopAt b

/-- The days that the code adds: those that `sun` as an item of its own goes on to, as if it were a
range to the other Sunday, and those that a step that wraps around comes back to. -/
def StraysDay (it : FieldItem dowWords) (d : Weekday) : Prop :=
  match it.range with
  | .star => False
  | .single b => (b.isNumber = false ∧ b.value = 0 ∧ ∃ p, Spans 0 7 it.stepBy p ∧ dayAt p = d) ∨
      ∃ p, StepsBack b.value it.stepBy p ∧ dayAt p = d
  | .fromTo a _ => ∃ p, StepsBack a.value it.stepBy p ∧ dayAt p = d

/-- The days that the code leaves out: the number 7 at the start of a range is the last Sunday, and
the number 0 at its end the first. -/
def LosesDay (it : FieldItem dowWords) (d : Weekday) : Prop :=
  match it.range with
  | .star | .single _ => False
  | .fromTo a b => (a.value = 7 ∨ b.isNumber ∧ b.value = 0) ∧ it.DenotesDay d ∧ d ≠ .sun

theorem value_day (b : Bound dowWords) : b.value ≤ 7 := by
  cases b with
  | number t n read range => exact range.2
  | name t i isName =>
    have : i < 7 := isName.lt
    simp only [Bound.value, dowWords]
    omega

theorem stopAt_le (b : Bound dowWords) : stopAt b ≤ 7 := by
  unfold stopAt
  split
  · exact le_rfl
  · exact value_day b

theorem dowMap_start (a : Bound dowWords) (err : Bool) : dowMap a.text err false = (a.value, err) := by
  cases a with
  | number t n read range => exact dowMap_number read range.2 _ _
  | name t i isName => rw [Bound.text, dowMap_name isName]; simp [Bound.value, dowWords]

theorem dowMap_stop (b : Bound dowWords) (err : Bool) : dowMap b.text err true = (stopAt b, err) := by
  cases b with
  | number t n read range => exact dowMap_number read range.2 _ _
  | name t i isName =>
    rw [Bound.text, dowMap_name isName]
    simp [stopAt, Bound.isNumber, Bound.value, dowWords]

theorem startIndex_day (a : Bound dowWords) (err : Bool) :
    dowField.startIndex a.text err = (a.value, err) := by
  have hS := SIZE_eq
  have ha := value_day a
  have hmap : dowField.mapping = dowMap := rfl
  have hbase : dowField.base = 0 := rfl
  have hlo : (a.value + (SIZE - 1) + 1) % SIZE = a.value := by
    rw [show a.value + (SIZE - 1) + 1 = a.value + SIZE by omega, Nat.add_mod_right,
      Nat.mod_eq_of_lt (by omega)]
  simp only [TimeField.startIndex, hmap, hbase, dowMap_start, if_true, hlo]

theorem stopIndex_day (b : Bound dowWords) (err : Bool) (bound : Nat) :
    dowField.stopIndex b.text err bound = (min (stopAt b + 1) bound, err) := by
  have hS := SIZE_eq
  have hb := stopAt_le b
  have hmap : dowField.mapping = dowMap := rfl
  have hbase : dowField.base = 0 := rfl
  simp only [TimeField.stopIndex, hmap, hbase, dowMap_stop, if_true]
  rw [Nat.mod_eq_of_lt (by omega)]

/-- The range of the code for the days of an item. -/
theorem dowField_span (a b : Bound dowWords) (step : Nat) : dowField.spanItem a.text b.text step =
    if a.value ≤ stopAt b then .ok (.span a.value (stopAt b + 1) step) else .error .range := by
  have hlen : dowField.values.length = 8 := by decide
  have hhi : min (stopAt b + 1) 8 = stopAt b + 1 := by
    have := stopAt_le b
    omega
  simp only [TimeField.spanItem, startIndex_day, stopIndex_day, hlen, hhi, Bool.false_eq_true, if_false,
    Nat.lt_succ_iff]

theorem le_stopAt (b : Bound dowWords) : b.value ≤ stopAt b := by
  unfold stopAt
  split <;> omega

/-- The item that the code takes from an accepted one. -/
theorem item_day {it : FieldItem dowWords} (h : it.DayAccepted) : dowField.item it.text = .ok
    (match it.range with
      | .star => .every it.stepBy
      | .single b => .span b.value (stopAt b + 1) it.stepBy
      | .fromTo a b => .span a.value (stopAt b + 1) it.stepBy) := by
  obtain ⟨hs, h⟩ := h
  rw [it.item_text dowWords_plain, if_pos hs]
  cases hr : it.range with
  | star => rfl
  | single b => simp only [dowField_span, if_pos (le_stopAt b)]
  | fromTo a b =>
    rw [hr] at h
    simp only [dowField_span, if_pos h]

/-- The code accepts exactly these items. -/
theorem acceptsItem_day {it : FieldItem dowWords} : dowField.acceptsItem it.text ↔ it.DayAccepted := by
  refine ⟨fun hacc => ?_, fun h => acceptsItem_iff.2 ⟨_, item_day h, ?_⟩⟩
  · obtain ⟨c, hc, hruns⟩ := acceptsItem_iff.1 hacc
    rw [it.item_text dowWords_plain] at hc
    split at hc
    next hs =>
      refine ⟨hs, ?_⟩
      cases hr : it.range with
      | star => rw [hr] at hc; cases hc; exact hruns.2
      | single b => trivial
      | fromTo a b =>
        simp only [hr, dowField_span] at hc
        split at hc
        next hb => exact hb
        next => cases hc
    next => cases hc
  · have hpos := it.stepBy_pos
    obtain ⟨-, h⟩ := h
    cases hr : it.range with
    | star => rw [hr] at h; exact ⟨hpos, h⟩
    | single b => exact hpos
    | fromTo a b => exact hpos

theorem dayAt_mod (p : Nat) : dayAt (p % 7) = dayAt p := by
  unfold dayAt
  rw [Nat.mod_mod]

/-- What an item of its own visits, apart from the days it strays to. -/
theorem single_day (b : Bound dowWords) (step p : Nat) :
    Stride.Visited SIZE b.value (stopAt b + 1) step p ↔
      p = b.value ∨ (b.isNumber = false ∧ b.value = 0 ∧ Spans 0 7 step p) ∨
        StepsBack b.value step p := by
  rw [visited_iff]
  by_cases hb : b.isNumber = false ∧ b.value = 0
  · have hstop : stopAt b = 7 := if_pos hb
    rw [hstop, hb.2]
    simp only [hb, Nat.zero_le, true_and]
    tauto
  · have hstop : stopAt b = b.value := if_neg hb
    have hspan : Spans b.value b.value step p ↔ p = b.value := by
      unfold Spans
      refine ⟨fun h => by omega, ?_⟩
      rintro rfl
      exact ⟨le_rfl, le_rfl, by simp⟩
    rw [hstop, hspan]
    simp only [le_refl, true_and]
    tauto

/-- The days of an accepted range are those it denotes, or Sunday alone. -/
theorem fromTo_day {it : FieldItem dowWords} {a b : Bound dowWords} (hr : it.range = .fromTo a b)
    (h : a.value ≤ stopAt b) (d : Weekday) :
    (∃ p, Spans a.value (stopAt b) it.stepBy p ∧ dayAt p = d) ↔ it.DenotesDay d ∧ ¬ it.LosesDay d := by
  have hdenotes : ∀ d, it.DenotesDay d ↔ ∃ p, Spans (a.value % 7)
      (if b.value % 7 = 0 then 7 else b.value) it.stepBy p ∧ dayAt p = d := by
    simp only [DenotesDay, firstDay, lastDay, hr, implies_true]
  have hloses : it.LosesDay d ↔
      (a.value = 7 ∨ b.isNumber ∧ b.value = 0) ∧ it.DenotesDay d ∧ d ≠ .sun := by
    simp only [LosesDay, hr]
  have ha := value_day a
  have hb := value_day b
  have hstop := stopAt_le b
  by_cases hodd : a.value = 7 ∨ b.isNumber ∧ b.value = 0
  · -- Either bound makes the range one Sunday.
    have hsame : a.value = stopAt b ∧ a.value % 7 = 0 := by
      rcases hodd with h7 | ⟨hn, h0⟩
      · omega
      · have : stopAt b = b.value := if_neg (by simp [hn])
        omega
    have hsun : it.DenotesDay .sun := (hdenotes _).2 ⟨0, ⟨by omega, Nat.zero_le _, by simp⟩, rfl⟩
    have hone : (∃ p, Spans a.value (stopAt b) it.stepBy p ∧ dayAt p = d) ↔ d = .sun := by
      have hday : dayAt a.value = .sun := by rw [← dayAt_mod, hsame.2]; rfl
      rw [← hsame.1]
      constructor
      · rintro ⟨p, ⟨h1, h2, -⟩, rfl⟩
        rw [Nat.le_antisymm h2 h1, hday]
      · rintro rfl
        exact ⟨a.value, ⟨le_rfl, le_rfl, by simp⟩, hday⟩
    rw [hone, hloses]
    constructor
    · rintro rfl
      exact ⟨hsun, fun h => h.2.2 rfl⟩
    · rintro ⟨hd, hn⟩
      by_contra hne
      exact hn ⟨hodd, hd, hne⟩
  · push Not at hodd
    have hfirst : a.value % 7 = a.value := Nat.mod_eq_of_lt (by omega)
    have hlast : (if b.value % 7 = 0 then 7 else b.value) = stopAt b := by
      unfold stopAt
      cases hn : b.isNumber with
      | true =>
        have := hodd.2 hn
        simp only [Bool.true_eq_false, false_and, if_false]
        split <;> omega
      | false =>
        simp only [true_and]
        split <;> split <;> omega
    rw [hdenotes, hfirst, hlast, hloses]
    refine ⟨fun h => ⟨h, fun hl => ?_⟩, fun h => h.1⟩
    rcases hl.1 with h7 | ⟨hn, h0⟩
    · exact hodd.1 h7
    · exact hodd.2 hn h0

/-- An accepted item reads the days that it denotes, but for those it loses, and those it strays to. -/
theorem reads_day {it : FieldItem dowWords} (h : it.DayAccepted) (d : Weekday) :
    (∃ i, dowField.Reads it.text i ∧ dayAt i = d) ↔
      (it.DenotesDay d ∧ ¬ it.LosesDay d) ∨ it.StraysDay d := by
  have hlen : dowField.values.length = 8 := by decide
  have hitem := item_day h
  obtain ⟨-, h⟩ := h
  have hreads : ∀ c, dowField.item it.text = .ok c →
      ∀ i, dowField.Reads it.text i ↔ c.Visits 8 (fun _ => 0) i := by
    intro c hc i
    unfold TimeField.Reads
    rw [hlen]
    exact ⟨by rintro ⟨c', hc', hv⟩; rw [hc] at hc'; cases hc'; exact hv, fun hv => ⟨_, hc, hv⟩⟩
  simp only [hreads _ hitem]
  cases hr : it.range with
  | star =>
    have hspan : ∀ p, (p < 8 ∧ it.stepBy ∣ p) ↔ Spans 0 7 it.stepBy p := fun p =>
      ⟨fun h => ⟨Nat.zero_le _, Nat.lt_succ_iff.1 h.1, h.2⟩, fun h => ⟨Nat.lt_succ_iff.2 h.2.1, h.2.2⟩⟩
    simp only [Item.Visits, hspan, DenotesDay, firstDay, lastDay, LosesDay, StraysDay, hr, not_false_iff,
      and_true, or_false]
  | single b =>
    have hone : it.DenotesDay d ↔ dayAt b.value = d := by
      simp only [DenotesDay, firstDay, lastDay, hr, Spans]
      constructor
      · rintro ⟨p, ⟨h1, h2, -⟩, rfl⟩
        rw [← dayAt_mod b.value, Nat.le_antisymm h2 h1]
      · rintro rfl
        exact ⟨b.value % 7, ⟨le_rfl, le_rfl, by simp⟩, dayAt_mod _⟩
    have hnot : ¬ it.LosesDay d := by simp only [LosesDay, hr, not_false_iff]
    simp only [Item.Visits, single_day, hone, hnot, not_false_iff, and_true, StraysDay, hr, or_and_right,
      exists_or, exists_eq_left, and_assoc, exists_and_left]
  | fromTo a b =>
    rw [hr] at h
    have hvis : ∀ p, Stride.Visited SIZE a.value (stopAt b + 1) it.stepBy p ↔
        Spans a.value (stopAt b) it.stepBy p ∨ StepsBack a.value it.stepBy p := by
      intro p
      rw [visited_iff]
      constructor
      · rintro (h' | rfl | h')
        · exact .inl h'.2
        · exact .inl ⟨le_rfl, h, by simp⟩
        · exact .inr h'
      · rintro (h' | h')
        · exact .inl ⟨h, h'⟩
        · exact .inr (.inr h')
    simp only [Item.Visits, hvis, or_and_right, exists_or, fromTo_day hr h, StraysDay, hr]

/-- A range that ends before it starts denotes no day, and is refused. -/
theorem refused_of_backwards {it : FieldItem dowWords} (h : it.lastDay < it.firstDay) :
    ∃ e, dowField.item it.text = .error e := by
  rw [it.item_text dowWords_plain]
  split
  next hs =>
    unfold lastDay firstDay at h
    cases hr : it.range with
    | star => simp [hr] at h
    | single b => simp [hr] at h
    | fromTo a b =>
      simp only [hr] at h ⊢
      have ha := value_day a
      have hb := value_day b
      have hlt : ¬ a.value ≤ stopAt b := by
        unfold stopAt
        split at h
        · omega
        · split <;> omega
      rw [dowField_span, if_neg hlt]
      exact ⟨_, rfl⟩
  next => exact ⟨_, rfl⟩

theorem denotesDay_iff_of_backwards {it : FieldItem dowWords} :
    (∀ d, ¬ it.DenotesDay d) ↔ it.lastDay < it.firstDay := by
  constructor
  · intro h
    by_contra hn
    exact h _ ⟨it.firstDay, ⟨le_rfl, not_lt.1 hn, by simp⟩, rfl⟩
  · rintro h d ⟨p, ⟨h1, h2, -⟩, -⟩
    omega

end FieldItem

/-- There is an item, and either every item is a range that ends before it starts, which is refused and
denotes nothing, or every item is accepted, the days that are added are denoted by some item, and those
that are lost are read from some item. -/
def DayListOk (items : List (FieldItem dowWords)) : Prop :=
  items ≠ [] ∧
    ((∀ it ∈ items, it.lastDay < it.firstDay) ∨
      (∀ it ∈ items, it.DayAccepted) ∧
      (∀ it ∈ items, ∀ d, it.StraysDay d → ∃ it' ∈ items, it'.DenotesDay d) ∧
      ∀ it ∈ items, ∀ d, it.LosesDay d →
        ∃ it' ∈ items, (it'.DenotesDay d ∧ ¬ it'.LosesDay d) ∨ it'.StraysDay d)

/-- The values of the field are the days that its items denote, and a field without items is refused. -/
def DayListRead (value : Bytes) (items : List (FieldItem dowWords)) (rng : Rng) : Prop :=
  ∃ u, parseTimeUnit dowField value rng = .ok u ∧
    (∀ d : Weekday, u.Has dowField d.name ↔ ∃ it ∈ items, it.DenotesDay d) ∧
    (items = [] → u.error ≠ none)

/-- The values of a list of accepted items. -/
theorem has_day {value : Bytes} {items : List (FieldItem dowWords)}
    (hv : softTokenise (· == COMMA) value = items.map FieldItem.text)
    (hacc : ∀ it ∈ items, it.DayAccepted) (rng : Rng) :
    ∃ u, parseTimeUnit dowField value rng = .ok u ∧ u.error = none ∧
      ∀ d : Weekday, u.Has dowField d.name ↔
        ∃ it ∈ items, (it.DenotesDay d ∧ ¬ it.LosesDay d) ∨ it.StraysDay d := by
  have hplain : ∀ t ∈ softTokenise (· == COMMA) value, dowField.Plain t := by
    rw [hv]
    intro t ht
    obtain ⟨it, hit, rfl⟩ := List.mem_map.1 ht
    obtain ⟨c, hc, hr⟩ := acceptsItem_iff.1 (FieldItem.acceptsItem_day.2 (hacc it hit))
    refine ⟨c, hc, hr, ?_⟩
    rw [FieldItem.item_day (hacc it hit)] at hc
    cases hc
    split <;> rfl
  obtain ⟨u, hu, he, -, -, hhas⟩ := parseTimeUnit_plain dowField_table hplain rng
  refine ⟨u, hu, he, fun d => ?_⟩
  have hlt : ∀ {t i}, dowField.Reads t i → i < 8 := by
    rintro t i ⟨c, hc, hvis⟩
    exact (TimeField.item_fits dowField_table hc).lt hvis
  have hvalue : ∀ i < 8, dowField.values[i]? = some (dayAt i).name := by decide +kernel
  rw [hhas, hv]
  constructor
  · rintro ⟨t, ht, i, hr, hval⟩
    obtain ⟨it, hit, rfl⟩ := List.mem_map.1 ht
    rw [hvalue i (hlt hr)] at hval
    exact ⟨it, hit,
      (FieldItem.reads_day (hacc it hit) d).1 ⟨i, hr, Weekday.name_injective (Option.some.inj hval)⟩⟩
  · rintro ⟨it, hit, h⟩
    obtain ⟨i, hr, rfl⟩ := (FieldItem.reads_day (hacc it hit) d).2 h
    exact ⟨it.text, List.mem_map_of_mem hit, i, hr, hvalue i (hlt hr)⟩

/-- A list of items is read as the days that it denotes exactly under this condition. -/
theorem dowField_list {value : Bytes} {items : List (FieldItem dowWords)}
    (hv : softTokenise (· == COMMA) value = items.map FieldItem.text) :
    (∀ rng, DayListRead value items rng) ↔ DayListOk items := by
  constructor
  · intro h
    obtain ⟨u, hu, hhas, hempty⟩ := h fun _ => 0
    cases hacc : dowField.accepts value with
    | false =>
      -- A refused field has no values, so that nothing may be denoted.
      obtain ⟨-, hset⟩ := parseTimeUnit_refused dowField_table hu hacc
      have hno : ∀ d : Weekday, ¬ u.Has dowField d.name := by
        rintro d ⟨-, h | h⟩ <;> simp [hset] at h
      have hne : items ≠ [] := by
        rintro rfl
        have hv' : softTokenise (· == COMMA) value = [] := hv
        simp [TimeField.accepts, hv'] at hacc
      refine ⟨hne, .inl fun it hit => FieldItem.denotesDay_iff_of_backwards.1 fun d hd => ?_⟩
      exact hno d ((hhas d).2 ⟨it, hit, hd⟩)
    | true =>
      have hacc' : ∀ it ∈ items, it.DayAccepted := by
        have := acceptsItem_of_accepts hacc
        rw [hv] at this
        exact fun it hit => FieldItem.acceptsItem_day.1 (this _ (List.mem_map_of_mem hit))
      obtain ⟨u', hu', he, hhas'⟩ := has_day hv hacc' fun _ => 0
      rw [hu] at hu'
      cases hu'
      refine ⟨fun h0 => hempty h0 he, .inr ⟨hacc', fun it hit d hs => ?_, fun it hit d hl => ?_⟩⟩
      · exact (hhas d).1 ((hhas' d).2 ⟨it, hit, .inr hs⟩)
      · have hden : it.DenotesDay d := by
          unfold FieldItem.LosesDay at hl
          split at hl
          · exact hl.elim
          · exact hl.elim
          · exact hl.2.1
        exact (hhas' d).1 ((hhas d).2 ⟨it, hit, hden⟩)
  · rintro ⟨hne, hback | ⟨hacc, hstray, hlose⟩⟩ rng
    · have hrefused : ∀ t ∈ softTokenise (· == COMMA) value, ∃ e, dowField.item t = .error e := by
        rw [hv]
        intro t ht
        obtain ⟨it, hit, rfl⟩ := List.mem_map.1 ht
        exact FieldItem.refused_of_backwards (hback it hit)
      obtain ⟨u, hu⟩ := (parseTimeUnit_ends dowField_table value rng).2 (by
        rintro ⟨-, pre, t, post, hitems, -, c, hc, -⟩
        obtain ⟨e, he⟩ := hrefused t (by simp [hitems])
        rw [he] at hc
        cases hc)
      have hacc : dowField.accepts value = false := by
        refine Bool.eq_false_iff.2 fun hacc => ?_
        obtain ⟨it, hit⟩ := List.exists_mem_of_ne_nil _ hne
        have hmem : it.text ∈ softTokenise (· == COMMA) value := hv ▸ List.mem_map_of_mem hit
        obtain ⟨c, hc, -⟩ := acceptsItem_iff.1 (acceptsItem_of_accepts hacc _ hmem)
        obtain ⟨e, he⟩ := hrefused _ hmem
        rw [he] at hc
        cases hc
      obtain ⟨he, hset⟩ := parseTimeUnit_refused dowField_table hu hacc
      refine ⟨u, hu, fun d => iff_of_false ?_ ?_, fun h0 => absurd h0 hne⟩
      · rintro ⟨-, h | h⟩ <;> simp [hset] at h
      · rintro ⟨it, hit, hd⟩
        exact FieldItem.denotesDay_iff_of_backwards.2 (hback it hit) d hd
    · obtain ⟨u, hu, -, hhas⟩ := has_day hv hacc rng
      refine ⟨u, hu, fun d => (hhas d).trans ⟨?_, ?_⟩, fun h0 => absurd h0 hne⟩
      · rintro ⟨it, hit, ⟨h, -⟩ | h⟩
        · exact ⟨it, hit, h⟩
        · exact hstray it hit d h
      · rintro ⟨it, hit, h⟩
        by_cases hl : it.LosesDay d
        · exact hlose it hit d hl
        · exact ⟨it, hit, .inl ⟨h, hl⟩⟩

/-- Sunday as `sun`, an item of its own. -/
def sunday : FieldItem dowWords where
  range := .single (.name (lit "sun") 0 ⟨by decide, _, rfl, by decide⟩)
  step := none

/-- The item `sun` is read as every day, and a field without items is accepted. -/
theorem dowField_sunday :
    ¬ (∀ (value : Bytes) (items : List (FieldItem dowWords)) (rng : Rng),
      softTokenise (· == COMMA) value = items.map FieldItem.text → DayListRead value items rng) ∧
    ¬ DayListRead (lit "sun") [sunday] (fun _ => 0) ∧ ¬ DayListRead (lit ",") [] fun _ => 0 := by
  have hsun : ¬ DayListRead (lit "sun") [sunday] fun _ => 0 := by
    rintro ⟨u, hu, hhas, -⟩
    have hmon : (parseTimeUnit dowField (lit "sun") fun _ => 0).map (·.set.contains (lit "Mon")) =
        .ok true := by decide +kernel
    rw [hu] at hmon
    have hmem : lit "Mon" ∈ u.set := Except.ok.inj hmon
    obtain ⟨it, hit, p, ⟨-, hp, -⟩, hday⟩ := (hhas .mon).1 ⟨by decide, .inr hmem⟩
    obtain rfl := List.mem_singleton.1 hit
    have hp0 : p = 0 := Nat.le_zero.1 hp
    rw [hp0] at hday
    cases hday
  refine ⟨fun h => hsun (h _ _ _ (by decide)), hsun, ?_⟩
  rintro ⟨u, hu, -, he⟩
  cases hu
  exact he rfl rfl

/-- The days `1-5,7/2`. -/
def workdays : List (FieldItem dowWords) :=
  [⟨.fromTo (.number (lit "1") 1 (by decide) (by decide)) (.number (lit "5") 5 (by decide) (by decide)),
    none⟩,
   ⟨.single (.number (lit "7") 7 (by decide) (by decide)), some ⟨lit "2", 2, by decide, by decide⟩⟩]

theorem dowField_list_workdays :
    (∀ rng, DayListRead (lit "1-5,7/2") workdays rng) ↔ DayListOk workdays :=
  dowField_list (by decide)

end SystemdCron
