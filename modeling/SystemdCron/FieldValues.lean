import SystemdCron.TimeField

/-!
# The values of a field

Whatever a field text asks for, its values come from the table of the field: `parseTimeUnit_values`. The
two loops of `parse_period` are followed by one invariant each, that everything put into the set is an
entry of the table.
-/

namespace SystemdCron

open Bytes

section
variable {T : Type} [Ord T] [Std.TransOrd T] [Std.LawfulEqOrd T]

theorem mem_insert_iff {s : Std.TreeSet T} {v x : T} : x ∈ s.insert v ↔ x = v ∨ x ∈ s := by
  rw [Std.TreeSet.mem_insert, Std.LawfulEqCmp.compare_eq_iff_eq, eq_comm]

theorem starLoop_values {values : List T} {step n : Nat} {i : Int} {into out : Std.TreeSet T}
    (h : starLoop values step n i into = .ok out) (hs : ∀ x ∈ into, x ∈ values) :
    ∀ x ∈ out, x ∈ values := by
  induction n generalizing i into with
  | zero => cases h
  | succ n ih =>
    simp only [starLoop] at h
    split at h
    · split at h
      next v hv =>
        refine ih h fun x hx => ?_
        rcases mem_insert_iff.1 hx with rfl | hx
        · split at hv
          · exact List.mem_of_getElem? hv
          · cases hv
        · exact hs x hx
      next => cases h
    · cases h; exact hs

theorem rangeLoop_values {values : List T} {step stop n i : Nat} {into out : Std.TreeSet T}
    {any any' : Bool} (h : rangeLoop values step stop n i into any = .ok (out, any'))
    (hs : ∀ x ∈ into, x ∈ values) : ∀ x ∈ out, x ∈ values := by
  induction n generalizing i into any with
  | zero => cases h
  | succ n ih =>
    simp only [rangeLoop] at h
    split at h
    · split at h
      next v hv =>
        refine ih h fun x hx => ?_
        rcases mem_insert_iff.1 hx with rfl | hx
        · exact List.mem_of_getElem? hv
        · exact hs x hx
      next => cases h
    · cases h; exact hs

theorem parsePeriod_values {value : Bytes} {F : TimeField T} {into : Std.TreeSet T} {raw : Bool}
    {rng : Rng} {p : Period T} (h : parsePeriod value F into raw rng = .ok p)
    (hs : ∀ x ∈ into, x ∈ F.values) : ∀ x ∈ p.into, x ∈ F.values := by
  simp only [parsePeriod] at h
  split at h
  · cases h; exact hs
  split at h
  · split at h
    · cases h
    next hstar => cases h; exact starLoop_values hstar hs
  split at h
  · split at h
    · cases h; exact hs
    · unfold parseRandom at h
      extract_lets max s e d at h
      split at h
      · cases h; exact hs
      · split at h
        next v hv =>
          cases h
          intro x hx
          rcases mem_insert_iff.1 hx with rfl | hx
          · exact List.mem_of_getElem? hv
          · exact hs x hx
        next => cases h
  · split at h
    · cases h; exact hs
    · simp only [parseRange] at h
      split at h
      · cases h; exact hs
      · split at h
        · cases h
        next hrange => cases h; exact rangeLoop_values hrange hs

theorem parseItems_values {F : TimeField T} {items : List Bytes} {into : Std.TreeSet T} {raw : Bool}
    {rng : Rng} {u : TimeUnit T} (h : parseItems F items into raw rng = .ok u)
    (hs : ∀ x ∈ into, x ∈ F.values) : ∀ x ∈ u.set, x ∈ F.values := by
  induction items generalizing into raw rng with
  | nil => cases h; exact hs
  | cons subval rest ih =>
    simp only [parseItems] at h
    split at h
    · cases h
    next p hp =>
      split at h
      · cases h; intro x hx; simp at hx
      · exact ih h (parsePeriod_values hp hs)

/-- The values of a field are the mark for `*`, or come from the table. -/
theorem parseTimeUnit_values {F : TimeField T} {value : Bytes} {rng : Rng} {u : TimeUnit T}
    (h : parseTimeUnit F value rng = .ok u) :
    (value = [STAR] ∧ u.set = .ofList [F.asterisk]) ∨ ∀ x ∈ u.set, x ∈ F.values := by
  simp only [parseTimeUnit] at h
  split at h
  next hv => cases h; exact .inl ⟨hv, rfl⟩
  next => exact .inr (parseItems_values h (by simp))

end

/-- The text that stands for the last days of the month has one value. -/
theorem parseTimeUnit_lastDay {text : Bytes} {n : Nat} {rng : Rng} {u : TimeUnit Nat}
    (hn : text = lit "1" ∧ n = 1 ∨ text = lit "7/1" ∧ n = 7)
    (h : parseTimeUnit dayField text rng = .ok u) : u.set.toList = [n] := by
  have h1 : (parseTimeUnit dayField (lit "1") rng).map (·.set.toList) = .ok [1] := rfl
  have h7 : (parseTimeUnit dayField (lit "7/1") rng).map (·.set.toList) = .ok [7] := rfl
  rcases hn with ⟨rfl, rfl⟩ | ⟨rfl, rfl⟩
  · rw [h] at h1; exact Except.ok.inj h1
  · rw [h] at h7; exact Except.ok.inj h7

end SystemdCron
