import SystemdCron.FieldValues
import SystemdCron.Lib.Stride

/-!
# What an item of a field asks for

`TimeField.item` takes an item apart into the indices of the table that are asked for, without running
the two loops of `parse_period`. The result of `parse_period` then has a closed form
(`parsePeriod_of_ok`): an item is refused, or its loop does not end, or it adds the entries at the
indices that it visits. Which of these it is depends on the text alone, and only a draw depends on the
random engine.
-/

namespace SystemdCron

open Bytes

/-- What an item asks for: every so many indices, one index of an interval drawn at random, or the
indices from `lo` on, below `hi`. -/
inductive Item where
  | every (step : Nat)
  | draw (lo hi : Nat)
  | span (lo hi step : Nat)
  deriving DecidableEq, Repr

section
variable {T : Type}

/-- The interval of a `~` item. -/
def TimeField.drawItem (F : TimeField T) (start stop : Bytes) : Except PeriodError Item :=
  let max := F.values.length - 1
  let s := if start = [] then (F.base, false) else F.startIndex start false
  let e := if stop = [] then (max, s.2) else F.stopIndex stop s.2 max
  if max < s.1 ∨ e.1 < s.1 then .error .range else .ok (.draw s.1 e.1)

/-- The indices of a range. -/
def TimeField.spanItem (F : TimeField T) (start stop : Bytes) (step : Nat) : Except PeriodError Item :=
  let s := F.startIndex start false
  let e := F.stopIndex stop s.2 F.values.length
  if e.2 then .error .range else if s.1 < e.1 then .ok (.span s.1 e.1 step) else .error .range

/-- What an item asks for, or why it is refused. -/
def TimeField.item (F : TimeField T) (value : Bytes) : Except PeriodError Item :=
  match splitStep value with
  | .error e => .error e
  | .ok (range, step) =>
    if range = [STAR] then .ok (.every step)
    else
      match splitFirst TILDE range with
      | some (start, stop) =>
        if TILDE ∈ stop then .error (.message (lit "doubled ~")) else F.drawItem start stop
      | none =>
        match splitRange range with
        | .error e => .error e
        | .ok (start, stop) => F.spanItem start stop step

namespace Item

/-- The loop of the item ends inside the table: neither loop ends for a step of zero, and the signed
counter of the first becomes negative for a step from `2 ^ 63` on. -/
def Runs : Item → Prop
  | every step => 1 ≤ step ∧ step < 2 ^ 63
  | draw _ _ => True
  | span _ _ step => 1 ≤ step

instance : (it : Item) → Decidable it.Runs
  | every step => inferInstanceAs (Decidable (1 ≤ step ∧ step < 2 ^ 63))
  | draw _ _ => inferInstanceAs (Decidable True)
  | span _ _ step => inferInstanceAs (Decidable (1 ≤ step))

def isDraw : Item → Bool
  | draw _ _ => true
  | _ => false

/-- The draws that are left after the item. -/
def rest (rng : Rng) : Item → Rng
  | draw lo hi => (rng.uniform lo hi).2
  | _ => rng

/-- The indices of a table of `len` entries that the item visits. -/
def Visits (len : Nat) (rng : Rng) : Item → Nat → Prop
  | every step, i => i < len ∧ step ∣ i
  | draw lo hi, i => i = (rng.uniform lo hi).1
  | span lo hi step, i => Stride.Visited SIZE lo hi step i

/-- The item stays inside a table of `len` entries, and its step is a `size_t`. -/
def Fits (len : Nat) : Item → Prop
  | every step => step < SIZE
  | draw lo hi => lo ≤ hi ∧ hi < len
  | span lo hi step => lo < hi ∧ hi ≤ len ∧ step < SIZE

end Item

/-- A table that a loop can count through, and that does not have the mark for `*`. -/
structure TimeField.Table (F : TimeField T) : Prop where
  pos : 0 < F.values.length
  lt : 2 * F.values.length < 2 ^ 63
  mark : F.asterisk ∉ F.values

end

theorem SIZE_eq : SIZE = 2 ^ 64 := rfl

theorem intMap_lt (t : Bytes) (err stop : Bool) : (intMap t err stop).1 < SIZE := by
  change (parseUint (cstr t)).out.getD (SIZE - 1) < SIZE
  cases h : (parseUint (cstr t)).out with
  | none => exact Nat.sub_one_lt (by decide)
  | some n => exact parseUint_lt h

theorem splitStep_lt {value range : Bytes} {step : Nat} (h : splitStep value = .ok (range, step)) :
    step < SIZE := by
  unfold splitStep at h
  split at h
  · cases h; decide
  · split at h
    · cases h
    · extract_lets r at h
      split at h
      · cases h
      · cases h; exact intMap_lt _ _ _

section
variable {T : Type} {F : TimeField T}

/-- An item that is not refused stays inside the table. -/
theorem TimeField.item_fits (hF : F.Table) {value : Bytes} {it : Item} (h : F.item value = .ok it) :
    it.Fits F.values.length := by
  have hpos := hF.pos
  unfold item at h
  split at h
  · cases h
  next range step hstep =>
  have hs := splitStep_lt hstep
  split at h
  · cases h; exact hs
  split at h
  · split at h
    · cases h
    · unfold drawItem at h
      extract_lets max s e at h
      split at h
      · cases h
      next hb =>
        cases h
        have he : e.1 ≤ max := by
          simp only [e]
          split
          · exact le_rfl
          · exact min_le_right ..
        exact ⟨by omega, by omega⟩
  · split at h
    · cases h
    · unfold spanItem at h
      extract_lets s e at h
      split at h
      · cases h
      · split at h
        next hlt => cases h; exact ⟨hlt, min_le_right .., hs⟩
        next => cases h

/-- An item visits an index of the table. -/
theorem Item.Fits.exists_visits {len : Nat} {it : Item} (h : it.Fits len) (hlen : 0 < len) (rng : Rng) :
    ∃ i, it.Visits len rng i := by
  cases it with
  | every step => exact ⟨0, hlen, by simp⟩
  | draw lo hi => exact ⟨_, rfl⟩
  | span lo hi step => exact ⟨lo, Stride.visited_self h.1⟩

theorem Item.Fits.lt {len : Nat} {it : Item} (h : it.Fits len) {rng : Rng} {i : Nat}
    (hi : it.Visits len rng i) : i < len := by
  cases it with
  | every step => exact hi.1
  | draw lo hi' =>
    obtain ⟨h1, h2⟩ := h
    have := Nat.mod_lt (rng 0) (show 0 < hi' + 1 - lo by omega)
    obtain rfl := hi
    simp only [Rng.uniform]
    omega
  | span lo hi' step => exact (Stride.Visited.lt hi h.1).trans_le h.2.1

end

/-! ### The two loops -/

section
variable {T : Type} [Ord T] [Std.TransOrd T] [Std.LawfulEqOrd T]

/-- The loop over a range inserts the entries at the indices that are visited. -/
theorem rangeLoop_of_visits {values : List T} {step iEnd n i : Nat} (hEnd : iEnd ≤ values.length)
    {l : List Nat} (h : Stride.visits SIZE iEnd step n i = some l) (into : Std.TreeSet T) (any : Bool) :
    ∃ out, rangeLoop values step iEnd n i into any = .ok (out, any || !l.isEmpty) ∧
      ∀ x, x ∈ out ↔ x ∈ into ∨ ∃ i ∈ l, values[i]? = some x := by
  induction n generalizing i into any l with
  | zero => cases h
  | succ n ih =>
    rw [Stride.visits] at h
    rw [rangeLoop]
    split at h
    next hi =>
      obtain ⟨l', hl', rfl⟩ := Option.map_eq_some_iff.1 h
      have hget : values[i]? = some values[i] := List.getElem?_eq_getElem (by omega)
      rw [if_pos hi, hget]
      obtain ⟨out, hout, hmem⟩ := ih hl' (into.insert values[i]) true
      refine ⟨out, by simpa using hout, fun x => ?_⟩
      rw [hmem, mem_insert_iff]
      constructor
      · rintro ((rfl | hx) | ⟨k, hk, hx⟩)
        · exact .inr ⟨i, by simp, hget⟩
        · exact .inl hx
        · exact .inr ⟨k, by simp [hk], hx⟩
      · rintro (hx | ⟨k, hk, hx⟩)
        · exact .inl (.inr hx)
        · rcases List.mem_cons.1 hk with rfl | hk
          · exact .inl (.inl (by rw [hget] at hx; exact (Option.some.inj hx).symm))
          · exact .inr ⟨k, hk, hx⟩
    next hi =>
      cases h
      rw [if_neg hi]
      exact ⟨into, by simp, by simp⟩

/-- A signed counter that has not gone over `2 ^ 63` is the unsigned one. -/
theorem bmod_add {i step : Nat} (h : i + step < 2 ^ 63) :
    Int.bmod ((i : Int) + step) SIZE = ((i + step : Nat) : Int) := by
  have := SIZE_eq
  rw [Int.bmod_eq_of_le] <;> omega

/-- The loop over all values does, for a step below `2 ^ 63`, what the unsigned loop does: after the
first round the step is below the counter. -/
theorem starLoop_of_visits {values : List T} {step n i : Nat} (hlen : 2 * values.length < 2 ^ 63)
    (hs : step < 2 ^ 63) (hi : i = 0 ∨ step ≤ i) {l : List Nat}
    (h : Stride.visits SIZE values.length step n i = some l) (into : Std.TreeSet T) :
    ∃ out, starLoop values step n i into = .ok out ∧
      ∀ x, x ∈ out ↔ x ∈ into ∨ ∃ i ∈ l, values[i]? = some x := by
  induction n generalizing i into l with
  | zero => cases h
  | succ n ih =>
    rw [Stride.visits] at h
    rw [starLoop]
    split at h
    next hlt =>
      have := SIZE_eq
      have hnext : i + step < 2 ^ 63 := by omega
      rw [Nat.mod_eq_of_lt (by omega)] at h
      obtain ⟨l', hl', rfl⟩ := Option.map_eq_some_iff.1 h
      have hget : values[i]? = some values[i] := List.getElem?_eq_getElem hlt
      rw [if_pos (by omega), if_pos (by omega), Int.toNat_natCast, hget, bmod_add hnext]
      obtain ⟨out, hout, hmem⟩ := ih (.inr (by omega)) hl' (into.insert values[i])
      refine ⟨out, hout, fun x => ?_⟩
      rw [hmem, mem_insert_iff]
      constructor
      · rintro ((rfl | hx) | ⟨k, hk, hx⟩)
        · exact .inr ⟨i, by simp, hget⟩
        · exact .inl hx
        · exact .inr ⟨k, by simp [hk], hx⟩
      · rintro (hx | ⟨k, hk, hx⟩)
        · exact .inl (.inr hx)
        · rcases List.mem_cons.1 hk with rfl | hk
          · exact .inl (.inl (by rw [hget] at hx; exact (Option.some.inj hx).symm))
          · exact .inr ⟨k, hk, hx⟩
    next hlt =>
      cases h
      rw [if_neg (by omega)]
      exact ⟨into, rfl, by simp⟩

end

section
variable {T : Type} [Ord T]

theorem rangeLoop_of_visits_none {values : List T} {step iEnd n i : Nat}
    (hEnd : iEnd ≤ values.length) (h : Stride.visits SIZE iEnd step n i = none)
    (into : Std.TreeSet T) (any : Bool) : rangeLoop values step iEnd n i into any = .error .diverges := by
  induction n generalizing i into any with
  | zero => rfl
  | succ n ih =>
    rw [Stride.visits] at h
    rw [rangeLoop]
    split at h
    next hi =>
      rw [if_pos hi, List.getElem?_eq_getElem (by omega)]
      exact ih (by simpa using h) _ _
    next => cases h

theorem rangeLoop_empty {values : List T} {step iEnd n i : Nat} (h : ¬ i < iEnd)
    (into : Std.TreeSet T) : rangeLoop values step iEnd (n + 1) i into false = .ok (into, false) := by
  rw [rangeLoop, if_neg h]

/-- A step of zero stays at the first value. -/
theorem starLoop_zero {values : List T} (hlen : 0 < values.length) (n : Nat) (into : Std.TreeSet T) :
    starLoop values 0 n 0 into = .error .diverges := by
  induction n generalizing into with
  | zero => rfl
  | succ n ih =>
    rw [starLoop, if_pos (by omega), if_pos le_rfl, Int.toNat_zero, List.getElem?_eq_getElem hlen]
    exact ih _

/-- A step from `2 ^ 63` on is negative for the signed counter. -/
theorem starLoop_negative {values : List T} (hlen : 0 < values.length) {step n : Nat}
    (h1 : 2 ^ 63 ≤ step) (h2 : step < SIZE) (into : Std.TreeSet T) :
    starLoop values step (n + 2) 0 into = .error .outOfBounds := by
  have := SIZE_eq
  have hnext : Int.bmod (0 + step) SIZE = (step : Int) - SIZE := by
    rw [Int.zero_add, Int.bmod_def, Int.emod_eq_of_lt (by omega) (by omega), if_neg (by omega)]
  rw [starLoop, if_pos (by omega), if_pos le_rfl, Int.toNat_zero, List.getElem?_eq_getElem hlen]
  simp only [hnext]
  rw [starLoop, if_pos (by omega), if_neg (by omega)]

/-- A refused item changes nothing but the mark for `~`. -/
theorem parsePeriod_of_error {F : TimeField T} {value : Bytes} {e : PeriodError}
    (h : F.item value = .error e) (into : Std.TreeSet T) (raw : Bool) (rng : Rng) :
    ∃ raw', parsePeriod value F into raw rng = .ok { error := some e, into, raw := raw', rng } := by
  unfold TimeField.item at h
  unfold parsePeriod
  generalize splitStep value = r at h ⊢
  rcases r with e' | ⟨range, step⟩
  · cases h
    exact ⟨_, rfl⟩
  dsimp only at h ⊢
  split at h
  · cases h
  next hstar =>
  rw [if_neg hstar]
  generalize splitFirst TILDE range = t at h ⊢
  rcases t with - | ⟨start, stop⟩
  · dsimp only at h ⊢
    generalize splitRange range = r at h ⊢
    rcases r with e' | ⟨start, stop⟩
    · cases h
      exact ⟨_, rfl⟩
    dsimp only at h ⊢
    unfold TimeField.spanItem at h
    unfold parseRange
    extract_lets s e' at h
    extract_lets
    clear_value s e'
    split at h
    next he => cases h; rw [if_pos he]; exact ⟨_, rfl⟩
    next he =>
      rw [if_neg he]
      split at h
      · cases h
      next hlt =>
        cases h
        have hr := @rangeLoop_empty _ _ F.values step _ F.values.length _ hlt into
        rw [hr]
        exact ⟨raw, rfl⟩
  · dsimp only at h ⊢
    split at h
    next hd => cases h; rw [if_pos hd]; exact ⟨_, rfl⟩
    next hd =>
      rw [if_neg hd]
      unfold TimeField.drawItem at h
      unfold parseRandom
      extract_lets d s e' at h
      extract_lets
      clear_value s e'
      split at h
      next hb => cases h; rw [if_pos hb]; exact ⟨_, rfl⟩
      next => cases h

/-- The part of `parse_period` for what an item asks for. -/
def Item.run (F : TimeField T) (into : Std.TreeSet T) (raw : Bool) (rng : Rng) :
    Item → Except Fault (Period T)
  | every step =>
    match starLoop F.values step (F.values.length + 1) 0 into with
    | .error f => .error f
    | .ok into => .ok { error := none, into, raw, rng }
  | draw lo hi =>
    match F.values[(rng.uniform lo hi).1]? with
    | some v => .ok { error := none, into := into.insert v, raw := true, rng := (rng.uniform lo hi).2 }
    | none => .error .outOfBounds
  | span lo hi step =>
    match rangeLoop F.values step hi (F.values.length + 1) lo into false with
    | .error f => .error f
    | .ok (into, any) => .ok { error := if any then none else some .range, into, raw, rng }

/-- `parse_period` runs what the item asks for. -/
theorem parsePeriod_eq_run {F : TimeField T} {value : Bytes} {it : Item} (h : F.item value = .ok it)
    (into : Std.TreeSet T) (raw : Bool) (rng : Rng) :
    parsePeriod value F into raw rng = it.run F into raw rng := by
  unfold TimeField.item at h
  unfold parsePeriod
  generalize splitStep value = r at h ⊢
  rcases r with e | ⟨range, step⟩
  · cases h
  dsimp only at h ⊢
  split at h
  next hstar =>
    cases h
    rcases hloop : starLoop F.values step (F.values.length + 1) 0 into with f | out
    · rw [if_pos hstar, Item.run, hloop]
    · rw [if_pos hstar, Item.run, hloop]
  next hstar =>
  rw [if_neg hstar]
  generalize splitFirst TILDE range = t at h ⊢
  rcases t with - | ⟨start, stop⟩
  · dsimp only at h ⊢
    generalize splitRange range = r at h ⊢
    rcases r with e | ⟨start, stop⟩
    · cases h
    dsimp only at h ⊢
    unfold TimeField.spanItem at h
    unfold parseRange
    extract_lets s e' at h
    extract_lets
    clear_value s e'
    split at h
    · cases h
    next he =>
      rw [if_neg he]
      split at h
      next =>
        cases h
        rcases hloop : rangeLoop F.values step e'.1 (F.values.length + 1) s.1 into false with f | ⟨out, any⟩
        · rw [Item.run, hloop]
        · rw [Item.run, hloop]
      next => cases h
  · dsimp only at h ⊢
    split at h
    · cases h
    next hd =>
      rw [if_neg hd]
      unfold TimeField.drawItem at h
      unfold parseRandom
      extract_lets d s e' at h
      extract_lets
      clear_value s e'
      split at h
      · cases h
      next hb =>
        cases h
        rcases hdraw : F.values[(rng.uniform s.1 e'.1).1]? with - | v
        · rw [if_neg hb, Item.run, hdraw]
        · rw [if_neg hb, Item.run, hdraw]

end

/-! ### The result of an item -/

section
variable {T : Type} [Ord T] [Std.TransOrd T] [Std.LawfulEqOrd T] {F : TimeField T}

/-- What `parse_period` does with an item that asks for something. -/
def Item.Outcome (F : TimeField T) (it : Item) (into : Std.TreeSet T) (raw : Bool) (rng : Rng)
    (r : Except Fault (Period T)) : Prop :=
  (¬ it.Runs ∧ ∃ f, r = .error f) ∨
  it.Runs ∧ ∃ out, r = .ok { error := none, into := out, raw := raw || it.isDraw, rng := it.rest rng } ∧
    ∀ x, x ∈ out ↔ x ∈ into ∨ ∃ i, it.Visits F.values.length rng i ∧ F.values[i]? = some x

theorem every_outcome (hF : F.Table) {step : Nat} (hs : step < SIZE) (into : Std.TreeSet T) (raw : Bool)
    (rng : Rng) : (Item.every step).Outcome F into raw rng ((Item.every step).run F into raw rng) := by
  rw [Item.run]
  obtain ⟨hpos, hlt, -⟩ := hF
  have := SIZE_eq
  by_cases h0 : step = 0
  · subst h0
    rw [starLoop_zero hpos]
    exact .inl ⟨fun h => absurd h.1 (by decide), _, rfl⟩
  by_cases h63 : 2 ^ 63 ≤ step
  · obtain ⟨n, hn⟩ : ∃ n, F.values.length + 1 = n + 2 := ⟨F.values.length - 1, by omega⟩
    rw [hn, starLoop_negative hpos h63 hs]
    exact .inl ⟨fun h => absurd h.2 (by omega), _, rfl⟩
  · obtain ⟨l, hl, hmem⟩ := @Stride.visits_forward SIZE F.values.length step
      (by omega) (by omega) (F.values.length + 1) 0 (by omega) (by omega)
    obtain ⟨out, hout, hx⟩ := starLoop_of_visits hlt (by omega) (.inl rfl) hl into
    rw [show starLoop F.values step (F.values.length + 1) 0 into = .ok out from hout]
    refine .inr ⟨⟨by omega, by omega⟩, out, by simp [Item.isDraw, Item.rest], fun x => ?_⟩
    rw [hx]
    simp [hmem, Item.Visits]

theorem span_outcome (hF : F.Table) {lo hi step : Nat} (hlo : lo < hi) (hhi : hi ≤ F.values.length)
    (hs : step < SIZE) (into : Std.TreeSet T) (raw : Bool) (rng : Rng) :
    (Item.span lo hi step).Outcome F into raw rng ((Item.span lo hi step).run F into raw rng) := by
  rw [Item.run]
  obtain ⟨hpos, hlt, -⟩ := hF
  have := SIZE_eq
  by_cases h0 : step = 0
  · subst h0
    rw [rangeLoop_of_visits_none hhi (Stride.visits_zero hlo (by omega) _)]
    exact .inl ⟨fun h => absurd h (by simp [Item.Runs]), _, rfl⟩
  · obtain ⟨l, hl, hmem⟩ := @Stride.exists_visits SIZE hi step (by omega) hs (by omega)
      (F.values.length + 1) lo hlo (by omega)
    obtain ⟨out, hout, hx⟩ := rangeLoop_of_visits hhi hl into false
    have hne : l ≠ [] := List.ne_nil_of_mem ((hmem lo).2 (Stride.visited_self hlo))
    rw [hout]
    refine .inr ⟨Nat.one_le_iff_ne_zero.2 h0, out, by simp [hne, Item.isDraw, Item.rest], fun x => ?_⟩
    rw [hx]
    simp [hmem, Item.Visits]

theorem draw_outcome (F : TimeField T) {lo hi : Nat} (hlo : lo ≤ hi) (hhi : hi < F.values.length)
    (into : Std.TreeSet T) (raw : Bool) (rng : Rng) :
    (Item.draw lo hi).Outcome F into raw rng ((Item.draw lo hi).run F into raw rng) := by
  rw [Item.run]
  have hfits : (Item.draw lo hi).Fits F.values.length := ⟨hlo, hhi⟩
  have hlt : (rng.uniform lo hi).1 < F.values.length := @Item.Fits.lt _ _ hfits rng _ rfl
  rw [List.getElem?_eq_getElem hlt]
  refine .inr ⟨trivial, into.insert F.values[(rng.uniform lo hi).1],
    by simp only [Item.isDraw, Item.rest, Bool.or_true], fun x => ?_⟩
  rw [mem_insert_iff]
  constructor
  · rintro (rfl | hx)
    · exact .inr ⟨_, rfl, List.getElem?_eq_getElem hlt⟩
    · exact .inl hx
  · rintro (hx | ⟨i, rfl, hx⟩)
    · exact .inr hx
    · rw [List.getElem?_eq_getElem hlt] at hx
      exact .inl (Option.some.inj hx).symm

theorem parsePeriod_of_ok (hF : F.Table) {value : Bytes} {it : Item} (h : F.item value = .ok it)
    (into : Std.TreeSet T) (raw : Bool) (rng : Rng) :
    it.Outcome F into raw rng (parsePeriod value F into raw rng) := by
  have hfits := F.item_fits hF h
  rw [parsePeriod_eq_run h]
  cases it with
  | every step => exact every_outcome hF hfits into raw rng
  | draw lo hi => exact draw_outcome F hfits.1 hfits.2 into raw rng
  | span lo hi step => exact span_outcome hF hfits.1 hfits.2.1 hfits.2.2 into raw rng

end

/-! ### The items of a field -/

section
variable {T : Type}

/-- Whether an item is accepted. -/
def TimeField.acceptsItem (F : TimeField T) (value : Bytes) : Bool :=
  match F.item value with
  | .error _ => false
  | .ok it => decide it.Runs

/-- Whether a field is accepted. -/
def TimeField.accepts (F : TimeField T) (value : Bytes) : Bool :=
  value == [STAR] || (softTokenise (· == COMMA) value).all F.acceptsItem

theorem acceptsItem_iff {F : TimeField T} {value : Bytes} :
    F.acceptsItem value ↔ ∃ it, F.item value = .ok it ∧ it.Runs := by
  unfold TimeField.acceptsItem
  cases F.item value with
  | error e => simp
  | ok it => simp

/-- The field is parsed as far as to a loop that does not end. -/
def TimeField.Hangs (F : TimeField T) (value : Bytes) : Prop :=
  value ≠ [STAR] ∧ ∃ pre item post, softTokenise (· == COMMA) value = pre ++ item :: post ∧
    pre.all F.acceptsItem ∧ ∃ it, F.item item = .ok it ∧ ¬ it.Runs

end

section
variable {T : Type} [Ord T] [Std.TransOrd T] [Std.LawfulEqOrd T] {F : TimeField T}

/-- Items without an error are parsed one after the other. -/
theorem parseItems_append (hF : F.Table) {pre : List Bytes} (hpre : pre.all F.acceptsItem)
    (post : List Bytes) (into : Std.TreeSet T) (raw : Bool) (rng : Rng) :
    ∃ into' raw' rng', parseItems F (pre ++ post) into raw rng = parseItems F post into' raw' rng' := by
  induction pre generalizing into raw rng with
  | nil => exact ⟨into, raw, rng, rfl⟩
  | cons item pre ih =>
    rw [List.all_cons, Bool.and_eq_true] at hpre
    obtain ⟨it, hit, hruns⟩ := acceptsItem_iff.1 hpre.1
    rcases parsePeriod_of_ok hF hit into raw rng with ⟨hn, -⟩ | ⟨-, out, hout, -⟩
    · exact absurd hruns hn
    · rw [List.cons_append, parseItems, hout]
      exact ih hpre.2 out _ _

/-- Items are parsed to the end, or to the first that is refused or whose loop does not end. -/
theorem parseItems_cases (hF : F.Table) (items : List Bytes) (into : Std.TreeSet T) (raw : Bool)
    (rng : Rng) :
    (items.all F.acceptsItem ∧ ∃ u, parseItems F items into raw rng = .ok u ∧ u.error = none) ∨
    ∃ pre item post, items = pre ++ item :: post ∧ pre.all F.acceptsItem ∧
      ((∃ e, F.item item = .error e ∧
        ∃ u, parseItems F items into raw rng = .ok u ∧ u.error = some (item, e)) ∨
      ∃ it, F.item item = .ok it ∧ ¬ it.Runs ∧ ∃ f, parseItems F items into raw rng = .error f) := by
  induction items generalizing into raw rng with
  | nil => exact .inl ⟨rfl, _, rfl, rfl⟩
  | cons item items ih =>
    rw [parseItems]
    cases hit : F.item item with
    | error e =>
      obtain ⟨raw', hp⟩ := parsePeriod_of_error hit into raw rng
      rw [hp]
      exact .inr ⟨[], item, items, rfl, rfl, .inl ⟨e, hit, _, rfl, rfl⟩⟩
    | ok it =>
      rcases parsePeriod_of_ok hF hit into raw rng with ⟨hn, f, hp⟩ | ⟨hruns, out, hp, -⟩
      · rw [hp]
        exact .inr ⟨[], item, items, rfl, rfl, .inr ⟨it, hit, hn, f, rfl⟩⟩
      · rw [hp]
        have hacc := acceptsItem_iff.2 ⟨it, hit, hruns⟩
        rcases ih out (raw || it.isDraw) (it.rest rng) with ⟨hall, h⟩ | ⟨pre, x, post, rfl, hpre, h⟩
        · exact .inl ⟨by rw [List.all_cons, hacc, hall]; rfl, h⟩
        · exact .inr ⟨item :: pre, x, post, rfl, by rw [List.all_cons, hacc, hpre]; rfl, h⟩

/-- Items are parsed to the end if all are accepted. -/
theorem parseItems_accepts (hF : F.Table) (items : List Bytes) (rng : Rng) :
    (∃ u, parseItems F items {} false rng = .ok u ∧ u.error = none) ↔ items.all F.acceptsItem := by
  rcases parseItems_cases hF items {} false rng with
    ⟨hall, h⟩ | ⟨pre, item, post, rfl, -, ⟨e, hit, u, hu, he⟩ | ⟨it, hit, hn, f, hf⟩⟩
  · exact iff_of_true h hall
  · refine iff_of_false (by rw [hu]; rintro ⟨_, h, h0⟩; cases h; rw [he] at h0; cases h0) fun hall => ?_
    rw [List.all_append, List.all_cons] at hall
    simp [TimeField.acceptsItem, hit] at hall
  · refine iff_of_false (by rw [hf]; rintro ⟨_, h, -⟩; cases h) fun hall => ?_
    rw [List.all_append, List.all_cons] at hall
    simp [TimeField.acceptsItem, hit, hn] at hall

/-- A field is parsed to the end if all its items are accepted. -/
theorem accepts_iff (hF : F.Table) (value : Bytes) (rng : Rng) :
    F.accepts value ↔ ∃ u, parseTimeUnit F value rng = .ok u ∧ u.error = none := by
  simp only [TimeField.accepts, parseTimeUnit, Bool.or_eq_true, beq_iff_eq]
  by_cases hv : value = [STAR]
  · simp [hv]
  · rw [if_neg hv, parseItems_accepts hF]
    simp [hv]

/-- **The loops end** unless one of them is entered with a step that never leaves the table. -/
theorem parseTimeUnit_ends (hF : F.Table) (value : Bytes) (rng : Rng) :
    (∃ u, parseTimeUnit F value rng = .ok u) ↔ ¬ F.Hangs value := by
  unfold TimeField.Hangs parseTimeUnit
  by_cases hv : value = [STAR]
  · simp [hv]
  rw [if_neg hv]
  constructor
  · rintro ⟨u, hu⟩ ⟨-, pre, item, post, hitems, hpre, it, hit, hn⟩
    obtain ⟨into, raw, rng', h⟩ := parseItems_append hF hpre (item :: post) {} false rng
    rw [hitems, h, parseItems] at hu
    rcases parsePeriod_of_ok hF hit into raw rng' with ⟨-, f, hp⟩ | ⟨hruns, -⟩
    · rw [hp] at hu; cases hu
    · exact hn hruns
  · intro h
    rcases parseItems_cases hF (softTokenise (· == COMMA) value) {} false rng with
      ⟨-, u, hu, -⟩ | ⟨pre, item, post, hitems, hpre, ⟨e, -, u, hu, -⟩ | ⟨it, hit, hn, -⟩⟩
    · exact ⟨u, hu⟩
    · exact ⟨u, hu⟩
    · exact absurd ⟨hv, pre, item, post, hitems, hpre, it, hit, hn⟩ h

end

theorem softTokenise_star : softTokenise (· == COMMA) [STAR] = [[STAR]] := by decide

/-! ### Fields without draws -/

section
variable {T : Type}

/-- An item is accepted and draws nothing. -/
def TimeField.Plain (F : TimeField T) (value : Bytes) : Prop :=
  ∃ it, F.item value = .ok it ∧ it.Runs ∧ it.isDraw = false

/-- The indices that an item without a draw visits. -/
def TimeField.Reads (F : TimeField T) (value : Bytes) (i : Nat) : Prop :=
  ∃ it, F.item value = .ok it ∧ it.Visits F.values.length (fun _ => 0) i

theorem Item.visits_of_not_isDraw {it : Item} (h : it.isDraw = false) {len : Nat} (rng rng' : Rng)
    (i : Nat) : it.Visits len rng i ↔ it.Visits len rng' i := by
  cases it with
  | draw lo hi => cases h
  | every step | span lo hi step => exact Iff.rfl

theorem Item.rest_of_not_isDraw {it : Item} (h : it.isDraw = false) (rng : Rng) :
    it.rest rng = rng := by
  cases it with
  | draw lo hi => cases h
  | every step | span lo hi step => rfl

end

section
variable {T : Type} [Ord T] [Std.TransOrd T] [Std.LawfulEqOrd T] {F : TimeField T}

/-- The values of items without draws are the entries that they read, whatever the draws. -/
theorem parseItems_plain (hF : F.Table) {items : List Bytes} (h : ∀ t ∈ items, F.Plain t)
    (into : Std.TreeSet T) (raw : Bool) (rng : Rng) :
    ∃ out, parseItems F items into raw rng = .ok { set := out, raw, error := none, rng } ∧
      ∀ x, x ∈ out ↔ x ∈ into ∨ ∃ t ∈ items, ∃ i, F.Reads t i ∧ F.values[i]? = some x := by
  induction items generalizing into with
  | nil => exact ⟨into, rfl, by simp⟩
  | cons t items ih =>
    obtain ⟨it, hit, hruns, hdraw⟩ := h t (by simp)
    rcases parsePeriod_of_ok hF hit into raw rng with ⟨hn, -⟩ | ⟨-, mid, hp, hmid⟩
    · exact absurd hruns hn
    obtain ⟨out, hout, hmem⟩ := ih (fun t ht => h t (by simp [ht])) mid
    rw [hdraw, Bool.or_false, it.rest_of_not_isDraw hdraw] at hp
    refine ⟨out, by rw [parseItems, hp]; exact hout, fun x => ?_⟩
    have hreads : ∀ i, F.Reads t i ↔ it.Visits F.values.length rng i := fun i => by
      rw [it.visits_of_not_isDraw hdraw rng fun _ => 0]
      exact ⟨by rintro ⟨it', hit', hv⟩; rw [hit] at hit'; cases hit'; exact hv, fun hv => ⟨it, hit, hv⟩⟩
    rw [hmem, hmid]
    simp only [List.mem_cons, exists_eq_or_imp, hreads, or_assoc]

/-- The values of a parsed field: the mark for `*` stands for all. -/
def TimeUnit.Has (F : TimeField T) (u : TimeUnit T) (x : T) : Prop :=
  x ∈ F.values ∧ (F.asterisk ∈ u.set ∨ x ∈ u.set)

/-- The values of a field without draws are the entries that its items read, whatever the draws. -/
theorem parseTimeUnit_plain (hF : F.Table) {value : Bytes}
    (h : ∀ t ∈ softTokenise (· == COMMA) value, F.Plain t) (rng : Rng) :
    ∃ u, parseTimeUnit F value rng = .ok u ∧ u.error = none ∧ u.raw = false ∧ u.rng = rng ∧
      ∀ x, u.Has F x ↔
        ∃ t ∈ softTokenise (· == COMMA) value, ∃ i, F.Reads t i ∧ F.values[i]? = some x := by
  unfold parseTimeUnit
  split
  next hv =>
    refine ⟨_, rfl, rfl, rfl, rfl, fun x => ?_⟩
    have hstar : F.item [STAR] = .ok (.every 1) := rfl
    rw [hv, softTokenise_star]
    simp only [TimeUnit.Has, Std.TreeSet.ofList_singleton, mem_insert_iff, true_or, and_true,
      List.mem_singleton, exists_eq_left]
    constructor
    · intro hx
      obtain ⟨i, hi⟩ := List.mem_iff_getElem?.1 hx
      exact ⟨i, ⟨_, hstar, (List.getElem?_eq_some_iff.1 hi).1, one_dvd _⟩, hi⟩
    · rintro ⟨i, -, hi⟩
      exact List.mem_of_getElem? hi
  next hv =>
    obtain ⟨out, hout, hmem⟩ := parseItems_plain hF h {} false rng
    refine ⟨_, hout, rfl, rfl, rfl, fun x => ?_⟩
    have hval : ∀ {x}, x ∈ out → x ∈ F.values := fun hx => by
      rcases (hmem _).1 hx with h0 | ⟨_, _, i, _, hi⟩
      · simp at h0
      · exact List.mem_of_getElem? hi
    have hx : TimeUnit.Has F ⟨out, false, none, rng⟩ x ↔ x ∈ out := by
      refine ⟨fun h => h.2.resolve_left fun hm => hF.mark (hval hm), fun h => ⟨hval h, .inr h⟩⟩
    rw [hx, hmem]
    simp

/-- A field with an item that is refused has no values. -/
theorem parseTimeUnit_refused (hF : F.Table) {value : Bytes} {rng : Rng} {u : TimeUnit T}
    (h : parseTimeUnit F value rng = .ok u) (hn : F.accepts value = false) :
    u.error ≠ none ∧ u.set = {} := by
  have he : u.error ≠ none := fun he =>
    Bool.false_ne_true (hn ▸ (accepts_iff hF value rng).2 ⟨u, h, he⟩)
  obtain ⟨e, he'⟩ := Option.ne_none_iff_exists'.1 he
  exact ⟨he, parseTimeUnit_set_of_error h he'⟩

end

/-- The items of an accepted field are accepted. -/
theorem acceptsItem_of_accepts {T : Type} {F : TimeField T} {value : Bytes} (h : F.accepts value) :
    ∀ t ∈ softTokenise (· == COMMA) value, F.acceptsItem t := by
  simp only [TimeField.accepts, Bool.or_eq_true, beq_iff_eq] at h
  rcases h with rfl | h
  · rw [softTokenise_star]
    rintro t ht
    rw [List.mem_singleton.1 ht]
    exact acceptsItem_iff.2 ⟨.every 1, rfl, by decide⟩
  · exact List.all_eq_true.1 h

/-! ### Fields with draws -/

/-- Whether an item draws a value. -/
def TimeField.draws {T : Type} (F : TimeField T) (value : Bytes) : Bool :=
  match F.item value with
  | .error _ => false
  | .ok it => it.isDraw

/-- Whether a field has an item that draws a value. -/
def TimeField.hasDraws {T : Type} (F : TimeField T) (value : Bytes) : Bool :=
  value != [STAR] && (softTokenise (· == COMMA) value).any F.draws

section
variable {T : Type} [Ord T] [Std.TransOrd T] [Std.LawfulEqOrd T] {F : TimeField T}

/-- Accepted items: whether there was a draw, and whether there is a value. -/
theorem parseItems_accepted (hF : F.Table) {items : List Bytes} (h : items.all F.acceptsItem)
    (into : Std.TreeSet T) (raw : Bool) (rng : Rng) :
    ∃ out rng', parseItems F items into raw rng =
        .ok { set := out, raw := raw || items.any F.draws, error := none, rng := rng' } ∧
      (out.isEmpty ↔ into.isEmpty ∧ items = []) := by
  induction items generalizing into raw rng with
  | nil => exact ⟨into, rng, by simp [parseItems], by simp⟩
  | cons t items ih =>
    rw [List.all_cons, Bool.and_eq_true] at h
    obtain ⟨it, hit, hruns⟩ := acceptsItem_iff.1 h.1
    rcases parsePeriod_of_ok hF hit into raw rng with ⟨hn, -⟩ | ⟨-, mid, hp, hmid⟩
    · exact absurd hruns hn
    obtain ⟨out, rng', hout, hempty⟩ := ih h.2 mid (raw || it.isDraw) (it.rest rng)
    have hdraws : F.draws t = it.isDraw := by simp only [TimeField.draws, hit]
    refine ⟨out, rng', ?_, ?_⟩
    · rw [parseItems, hp, List.any_cons, hdraws, ← Bool.or_assoc]
      exact hout
    · have hne : mid.isEmpty = false := by
        have hfits := F.item_fits hF hit
        obtain ⟨i, hi⟩ := hfits.exists_visits hF.pos rng
        rw [Std.TreeSet.isEmpty_eq_false_iff_exists_mem]
        exact ⟨_, (hmid _).2 (.inr ⟨i, hi, List.getElem?_eq_getElem (hfits.lt hi)⟩)⟩
      simp [hempty, hne]

/-- An accepted field: whether there was a draw, and whether there is a value. -/
theorem parseTimeUnit_accepted (hF : F.Table) {value : Bytes} (h : F.accepts value) (rng : Rng) :
    ∃ u, parseTimeUnit F value rng = .ok u ∧ u.error = none ∧ u.raw = F.hasDraws value ∧
      (u.set.isEmpty ↔ ∀ c ∈ value, c = COMMA) := by
  unfold parseTimeUnit TimeField.hasDraws
  by_cases hv : value = [STAR]
  · rw [if_pos hv]
    have hstar : ¬ ∀ c ∈ value, c = COMMA := by rw [hv]; decide
    exact ⟨_, rfl, rfl, by simp [hv], iff_of_false (by simp [Std.TreeSet.ofList_singleton]) hstar⟩
  · rw [if_neg hv]
    have hall : (softTokenise (· == COMMA) value).all F.acceptsItem := by
      simpa [TimeField.accepts, hv] using h
    obtain ⟨out, rng', hout, hempty⟩ := parseItems_accepted hF hall {} false rng
    refine ⟨_, hout, rfl, by simp [hv], ?_⟩
    have htokens : softTokenise (· == COMMA) value = [] ↔ ∀ c ∈ value, c = COMMA := by
      rw [softTokenise_eq]
      constructor
      · intro h0 c hc
        have := List.dropWhile_eq_nil_iff.1 (dropWhile_eq_nil_of_tokens h0) c hc
        simpa using this
      · exact fun h0 => tokens_eq_nil_of_delim fun c hc => by simp [h0 c hc]
    simp [hempty, htokens]

end

/-! ### The five fields -/

theorem minuteField_table : minuteField.Table := ⟨by decide, by decide, by decide⟩
theorem hourField_table : hourField.Table := ⟨by decide, by decide, by decide⟩
theorem dayField_table : dayField.Table := ⟨by decide, by decide, by decide⟩
theorem dowField_table : dowField.Table := ⟨by decide, by decide, by decide⟩
theorem monthField_table : monthField.Table := ⟨by decide, by decide, by decide⟩

/-- A property of each of the five fields. -/
def ForFields (P : ∀ {T : Type} [Ord T], TimeField T → Prop) : Prop :=
  P minuteField ∧ P hourField ∧ P dayField ∧ P dowField ∧ P monthField

/-- A field is parsed to a result exactly if the parser gets to no loop that does not end. -/
theorem fields_end (value : Bytes) (rng : Rng) : ForFields fun F =>
    (∃ u, parseTimeUnit F value rng = .ok u) ↔ ¬ F.Hangs value :=
  ⟨parseTimeUnit_ends minuteField_table value rng, parseTimeUnit_ends hourField_table value rng,
    parseTimeUnit_ends dayField_table value rng, parseTimeUnit_ends dowField_table value rng,
    parseTimeUnit_ends monthField_table value rng⟩

/-- The minutes `*/0` are not parsed to an end, in however many rounds. -/
theorem fields_end_zero :
    ¬ (∀ (value : Bytes) (rng : Rng), ∃ u, parseTimeUnit minuteField value rng = .ok u) ∧
    (∀ rng, parseTimeUnit minuteField (lit "*/0") rng = .error .diverges) ∧
    ∀ n, starLoop minuteField.values 0 n 0 {} = .error .diverges := by
  have h : ∀ rng, parseTimeUnit minuteField (lit "*/0") rng = .error .diverges := fun _ => rfl
  refine ⟨fun hall => ?_, h, fun n => starLoop_zero (by decide) n {}⟩
  obtain ⟨u, hu⟩ := hall (lit "*/0") fun _ => 0
  rw [h] at hu
  cases hu

end SystemdCron
