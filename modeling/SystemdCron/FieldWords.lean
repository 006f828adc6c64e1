import SystemdCron.FieldItems

/-!
# The language of the time fields

The lists that crontab(5) describes: items that are `*`, a number or a name, or a range of these, each
with an optional step. `FieldItem.item_text` says what the parser of the code takes from the text of an
item. The meaning of an item is stated in the numbers of the manual, and compared with the indices of
the code field by field.
-/

namespace SystemdCron

open Bytes

/-! ### Bounds -/

/-- The numbers and the names of a field, and the number of the first name. -/
structure Vocabulary where
  lo : Nat
  hi : Nat
  names : List Bytes
  first : Nat

def dowWords : Vocabulary where
  lo := 0
  hi := 7
  names := [lit "sunday", lit "monday", lit "tuesday", lit "wednesday", lit "thursday", lit "friday",
    lit "saturday"]
  first := 0

def monthWords : Vocabulary where
  lo := 1
  hi := 12
  names := [lit "january", lit "february", lit "march", lit "april", lit "may", lit "june", lit "july",
    lit "august", lit "september", lit "october", lit "november", lit "december"]
  first := 1

/-- At least three letters of the name at a position, in any case. -/
def Vocabulary.IsName (W : Vocabulary) (text : Bytes) (i : Nat) : Prop :=
  3 ≤ text.length ∧ ∃ name ∈ W.names[i]?, text.map toLower <+: name

/-- A number of the field or a name. -/
inductive Bound (W : Vocabulary) where
  | number (text : Bytes) (n : Nat) (read : parseDecimal text = some n) (range : W.lo ≤ n ∧ n ≤ W.hi)
  | name (text : Bytes) (i : Nat) (isName : W.IsName text i)

namespace Bound

variable {W : Vocabulary}

def text : Bound W → Bytes
  | number text _ _ _ => text
  | name text _ _ => text

/-- The number that a bound stands for. -/
def value : Bound W → Nat
  | number _ n _ _ => n
  | name _ i _ => W.first + i

def isNumber : Bound W → Bool
  | number _ _ _ _ => true
  | name _ _ _ => false

end Bound

/-! ### Items -/

/-- A step: a positive number. -/
structure Step where
  text : Bytes
  n : Nat
  read : parseDecimal text = some n
  pos : 1 ≤ n

inductive FieldRange (W : Vocabulary) where
  | star
  | single (b : Bound W)
  | fromTo (a b : Bound W)

/-- An item of a list. -/
structure FieldItem (W : Vocabulary) where
  range : FieldRange W
  step : Option Step

def FieldRange.text {W : Vocabulary} : FieldRange W → Bytes
  | star => [STAR]
  | single b => b.text
  | fromTo a b => a.text ++ DASH :: b.text

namespace FieldItem

variable {W : Vocabulary}

def text (it : FieldItem W) : Bytes :=
  match it.step with
  | none => it.range.text
  | some s => it.range.text ++ SLASH :: s.text

/-- How many values the item goes on by. -/
def stepBy (it : FieldItem W) : Nat := it.step.elim 1 Step.n

theorem stepBy_pos (it : FieldItem W) : 1 ≤ it.stepBy := by
  unfold stepBy
  cases it.step with
  | none => exact le_rfl
  | some s => exact s.pos

end FieldItem

/-! ### Texts of numbers and names -/

theorem parseDecimal_eq_some {t : Bytes} {n : Nat} (h : parseDecimal t = some n) :
    t ≠ [] ∧ (∀ c ∈ t, isDigit c) ∧ readDecimal t = n := by
  unfold parseDecimal at h
  split at h
  next hd => exact ⟨hd.1, List.all_eq_true.1 hd.2, Option.some.inj h⟩
  next => cases h

theorem isDigit_of_isAlnum {c : UInt8} (h : isDigit c) : isAlnum c := by simp [isAlnum, h]

theorem isAlnum_of_toLower {c : UInt8} (h : isLower (toLower c)) : isAlnum c ∧ isDigit c = false := by
  have hc : isUpper c ∨ isLower c := by
    unfold toLower at h
    split at h
    next hu => exact .inl hu
    next => exact .inr h
  refine ⟨by rcases hc with hc | hc <;> simp [isAlnum, hc], Bool.eq_false_iff.2 fun hd => ?_⟩
  simp only [isUpper, isLower, isDigit, Bool.and_eq_true, decide_eq_true_eq, UInt8.le_iff_toNat_le]
    at hc hd
  simp at hc hd
  omega

theorem isSpace_of_isAlnum {c : UInt8} (h : isAlnum c) : isSpace c = false := by
  refine Bool.eq_false_iff.2 fun hs => ?_
  simp only [isSpace, Bool.or_eq_true, beq_iff_eq] at hs
  rcases hs with rfl | hs
  · revert h; decide
  · simp only [isAlnum, isDigit, isUpper, isLower, Bool.or_eq_true, Bool.and_eq_true,
      decide_eq_true_eq, UInt8.le_iff_toNat_le] at h hs
    simp at h hs
    omega

/-- The letters of the names of a vocabulary. -/
structure Vocabulary.Plain (W : Vocabulary) : Prop where
  letters : ∀ name ∈ W.names, ∀ c ∈ name, isLower c

theorem dowWords_plain : dowWords.Plain := ⟨by decide +kernel⟩
theorem monthWords_plain : monthWords.Plain := ⟨by decide +kernel⟩

theorem Vocabulary.IsName.mem {W : Vocabulary} (hW : W.Plain) {t : Bytes} {i : Nat} (h : W.IsName t i)
    {c : UInt8} (hc : c ∈ t) : isAlnum c ∧ isDigit c = false := by
  obtain ⟨-, name, hname, hp⟩ := h
  have hmem : toLower c ∈ name := hp.subset (List.mem_map_of_mem hc)
  exact isAlnum_of_toLower (hW.letters name (List.mem_of_getElem? hname) _ hmem)

/-- The first three letters of a name, in lower case, are those of the name in full. -/
theorem Vocabulary.IsName.take {W : Vocabulary} {t : Bytes} {i : Nat} (h : W.IsName t i) :
    ∃ name ∈ W.names[i]?, (t.take 3).map toLower = name.take 3 := by
  obtain ⟨h3, name, hname, r, hr⟩ := h
  refine ⟨name, hname, ?_⟩
  rw [← hr, List.take_append_of_le_length (by simpa using h3), List.map_take]

theorem Vocabulary.IsName.lt {W : Vocabulary} {t : Bytes} {i : Nat} (h : W.IsName t i) :
    i < W.names.length := by
  obtain ⟨-, name, hname, -⟩ := h
  exact (List.getElem?_eq_some_iff.1 hname).1

theorem Bound.mem_text {W : Vocabulary} (hW : W.Plain) {b : Bound W} {c : UInt8} (hc : c ∈ b.text) :
    isAlnum c := by
  cases b with
  | number t n read _ => exact isDigit_of_isAlnum ((parseDecimal_eq_some read).2.1 c hc)
  | name t i isName => exact (isName.mem hW hc).1

theorem Bound.text_ne_nil {W : Vocabulary} (b : Bound W) : b.text ≠ [] := by
  cases b with
  | number t n read _ => exact (parseDecimal_eq_some read).1
  | name t i isName => exact List.length_pos_iff.1 (by have := isName.1; simp only [text]; omega)

/-- What `int_map` makes of a name. -/
theorem intMap_name {W : Vocabulary} (hW : W.Plain) {t : Bytes} {i : Nat} (h : W.IsName t i)
    (err stop : Bool) : (intMap t err stop).2 = true := by
  have hcstr : cstr t = t :=
    cstr_eq_iff.2 fun h0 => by have := (h.mem hW h0).1; revert this; decide
  have hne : t ≠ [] := List.length_pos_iff.1 (by have := h.1; omega)
  obtain ⟨x, r, rfl⟩ := List.exists_cons_of_ne_nil hne
  obtain ⟨hx, hxd⟩ := h.mem hW (c := x) (by simp)
  have hspace : isSpace x = false := isSpace_of_isAlnum hx
  have hdash : x ≠ DASH := by rintro rfl; revert hx; decide
  have hplus : x ≠ PLUS := by rintro rfl; revert hx; decide
  have hstr : strtoull (x :: r) = { value := 0, rest := x :: r, range := false } := by
    unfold strtoull
    simp [hspace, hdash, hplus, hxd]
  unfold intMap
  rw [hcstr]
  simp [parseUint, hdash, hstr]

/-- What `int_map` makes of a number. -/
theorem intMap_number {t : Bytes} {n : Nat} (h : parseDecimal t = some n) (err stop : Bool) :
    intMap t err stop = if n < SIZE then (n, err) else (SIZE - 1, true) := by
  obtain ⟨hne, hd, hn⟩ := parseDecimal_eq_some h
  have hcstr : cstr t = t := cstr_eq_iff.2 fun h0 => by have := hd _ h0; revert this; decide
  obtain ⟨x, r, rfl⟩ := List.exists_cons_of_ne_nil hne
  have hx : isDigit x := hd x (by simp)
  have hspace : isSpace x = false := isSpace_of_isAlnum (isDigit_of_isAlnum hx)
  have hdash : x ≠ DASH := by rintro rfl; revert hx; decide
  have hplus : x ≠ PLUS := by rintro rfl; revert hx; decide
  have htake : (x :: r).takeWhile isDigit = x :: r := List.takeWhile_eq_self_iff.2 hd
  have hdrop : (x :: r).dropWhile isDigit = [] := List.dropWhile_eq_nil_iff.2 hd
  have hstr : strtoull (x :: r) =
      if 2 ^ 64 ≤ n then { value := 2 ^ 64 - 1, rest := [], range := true }
      else { value := n, rest := [], range := false } := by
    unfold strtoull
    simp only [List.dropWhile_cons, hspace, List.head?_cons, Option.some.injEq, hdash, hplus, or_self,
      if_false, htake, hdrop, hn, Bool.false_eq_true]
    simp [hdash]
  have huint : parseUint (x :: r) =
      if n < SIZE then { ok := true, out := some n } else { ok := false, out := some (SIZE - 1) } := by
    simp only [parseUint, List.head?_cons, Option.some.injEq, hdash, if_false, reduceCtorEq, hstr]
    by_cases hlt : n < SIZE
    · rw [if_neg (not_le.2 hlt), if_pos hlt]
      simp
    · rw [if_pos (not_lt.1 hlt), if_neg hlt]
      rfl
  unfold intMap
  rw [hcstr, huint]
  split <;> simp

/-- A number is no name. -/
theorem findIdx?_number {t : Bytes} {n : Nat} (h : parseDecimal t = some n) {names : List Bytes}
    (hl : ∀ d ∈ names, ∀ c ∈ d, isLower c) :
    names.findIdx? (· == (t.take 3).map toLower) = none := by
  obtain ⟨hne, hd, -⟩ := parseDecimal_eq_some h
  obtain ⟨x, r, rfl⟩ := List.exists_cons_of_ne_nil hne
  have hx : isDigit x := hd x (by simp)
  rw [List.findIdx?_eq_none_iff]
  intro d hd
  refine beq_eq_false_iff_ne.2 ?_
  rintro rfl
  have hmem : toLower x ∈ ((x :: r).take 3).map toLower := by simp
  rw [(isAlnum_of_toLower (hl _ hd _ hmem)).2] at hx
  cases hx

/-! ### Texts of items -/

/-- A separator is in no bound. -/
theorem Bound.notMem_text {W : Vocabulary} (hW : W.Plain) (b : Bound W) {c : UInt8}
    (hc : isAlnum c = false) : c ∉ b.text := fun h => by
  rw [Bound.mem_text hW h] at hc
  cases hc

theorem Step.notMem_text (s : Step) {c : UInt8} (hc : isDigit c = false) : c ∉ s.text := fun h => by
  rw [(parseDecimal_eq_some s.read).2.1 c h] at hc
  cases hc

theorem FieldRange.notMem_text {W : Vocabulary} (hW : W.Plain) (r : FieldRange W) {c : UInt8}
    (hc : isAlnum c = false) (hstar : c ≠ STAR) (hdash : c ≠ DASH) : c ∉ r.text := by
  cases r with
  | star => simpa [text] using hstar
  | single b => exact b.notMem_text hW hc
  | fromTo a b =>
    simp only [text, List.mem_append, List.mem_cons, not_or]
    exact ⟨a.notMem_text hW hc, hdash, b.notMem_text hW hc⟩

theorem FieldRange.text_ne_star {W : Vocabulary} (hW : W.Plain) {r : FieldRange W}
    (h : r ≠ .star) : r.text ≠ [STAR] := by
  intro heq
  have hstar : STAR ∈ r.text := by simp [heq]
  cases r with
  | star => exact h rfl
  | single b => exact b.notMem_text hW (by decide) hstar
  | fromTo a b =>
    have hdash : DASH ∈ [STAR] := by rw [← heq]; simp [text]
    revert hdash; decide

/-- The step that the code takes from an item. -/
theorem FieldItem.splitStep_text {W : Vocabulary} (hW : W.Plain) (it : FieldItem W) :
    splitStep it.text = if it.stepBy < SIZE then .ok (it.range.text, it.stepBy)
      else .error (.message (lit "/-skip not an integer")) := by
  have hslash : SLASH ∉ it.range.text := it.range.notMem_text hW (by decide) (by decide) (by decide)
  obtain ⟨range, step⟩ := it
  cases step with
  | none =>
    have h1 : stepBy ⟨range, none⟩ < SIZE := show 1 < SIZE by decide
    rw [if_pos h1]
    simp only [text, stepBy, Option.elim_none, splitStep, splitFirst_eq_none.2 hslash]
  | some s =>
    have hs : SLASH ∉ s.text := s.notMem_text (by decide)
    simp only [text, stepBy, Option.elim_some, splitStep, splitFirst_eq_some.2 ⟨rfl, hslash⟩, if_neg hs,
      intMap_number s.read]
    by_cases hn : s.n < SIZE
    · simp only [hn, if_true, Bool.false_eq_true, if_false]
    · simp only [hn, if_false, if_true]

/-- What the code takes from the text of an item. -/
theorem FieldItem.item_text {W : Vocabulary} (hW : W.Plain) {T : Type} (F : TimeField T)
    (it : FieldItem W) : F.item it.text =
      if it.stepBy < SIZE then
        match it.range with
        | .star => .ok (.every it.stepBy)
        | .single b => F.spanItem b.text b.text it.stepBy
        | .fromTo a b => F.spanItem a.text b.text it.stepBy
      else .error (.message (lit "/-skip not an integer")) := by
  unfold TimeField.item
  rw [it.splitStep_text hW]
  by_cases hs : it.stepBy < SIZE
  · simp only [hs, if_true]
    cases hr : it.range with
    | star => rw [FieldRange.text, if_pos rfl]
    | single b =>
      have hne := FieldRange.text_ne_star hW (r := .single b) (by simp)
      have htilde := FieldRange.notMem_text hW (.single b) (c := TILDE) (by decide) (by decide)
        (by decide)
      have hdash := b.notMem_text hW (c := DASH) (by decide)
      rw [if_neg hne, splitFirst_eq_none.2 htilde]
      simp only [FieldRange.text, splitRange, splitFirst_eq_none.2 hdash]
    | fromTo a b =>
      have hne := FieldRange.text_ne_star hW (r := .fromTo a b) (by simp)
      have htilde := FieldRange.notMem_text hW (.fromTo a b) (c := TILDE) (by decide) (by decide)
        (by decide)
      have hdash := a.notMem_text hW (c := DASH) (by decide)
      have hdash' := b.notMem_text hW (c := DASH) (by decide)
      rw [if_neg hne, splitFirst_eq_none.2 htilde]
      simp only [FieldRange.text, splitRange, splitFirst_eq_some.2 ⟨rfl, hdash⟩, if_neg hdash']
  · simp only [hs, if_false]

/-! ### Values of items -/

namespace FieldItem

/-- The first value of an item. -/
def first {W : Vocabulary} (it : FieldItem W) : Nat :=
  match it.range with
  | .star => W.lo
  | .single b => b.value
  | .fromTo a _ => a.value

/-- The last value of an item. -/
def last {W : Vocabulary} (it : FieldItem W) : Nat :=
  match it.range with
  | .star => W.hi
  | .single b => b.value
  | .fromTo _ b => b.value

end FieldItem

/-- The values from the first to the last of a range that are a number of steps from the first. -/
def Spans (first last step v : Nat) : Prop := first ≤ v ∧ v ≤ last ∧ step ∣ v - first

/-- The values that a step modulo `2 ^ 64` comes to by going back from the first. -/
def StepsBack (first step v : Nat) : Prop := v < first ∧ SIZE - step ∣ first - v

theorem visited_iff {lo hi step i : Nat} :
    Stride.Visited SIZE lo (hi + 1) step i ↔ (lo ≤ hi ∧ Spans lo hi step i) ∨ i = lo ∨ StepsBack lo step i := by
  unfold Stride.Visited Spans StepsBack
  constructor
  · rintro (⟨h1, h2, h3⟩ | ⟨h1, h2⟩)
    · exact .inl ⟨by omega, h1, by omega, h3⟩
    · rcases Nat.eq_or_lt_of_le h1 with rfl | h1
      · exact .inr (.inl rfl)
      · exact .inr (.inr ⟨h1, h2⟩)
  · rintro (⟨-, h1, h2, h3⟩ | rfl | ⟨h1, h2⟩)
    · exact .inl ⟨h1, by omega, h3⟩
    · exact .inr ⟨le_rfl, by simp⟩
    · exact .inr ⟨h1.le, h2⟩

end SystemdCron
